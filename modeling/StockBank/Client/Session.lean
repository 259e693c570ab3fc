import StockBank.Client.Menu

/-!
# Sessions of the client

What a whole session of the client can do, show and end with, whatever is typed, whatever
messages others have delivered between any two of its calls, and wherever the connection is
lost, before a call is dispatched or after it.

Every dialogue is taken apart into its steps.  `Holds` is what a step finds and leaves:
`Sound`, which holds throughout, the lines that have been read, and what is known about the bank
at this point.
-/

namespace StockBank.Client.Menu

open Lib Code Bytes Demo Ice Server

/-! ## What a session may do and show -/

section

variable [Runtime] [Unicode] (typed : List String) (turns : List Turn)

/-- The creation that the first dialogue asks for when this line is typed. -/
structure Typed (line : String) (a : Creation) : Prop where
  firstName : (split line)[0]? = some a.firstName
  lastName : (split line)[1]? = some a.lastName
  pesel : (split line)[2]? = some a.pesel
  currency : (split line)[3]?.bind getCurrency = some a.declaredIncome.currency
  value : (split line)[4]?.bind int? = some a.declaredIncome.value
  /-- It is dispatched in one of the turns. -/
  drawn : ∃ turn ∈ turns, a.balanceDraw = turn.moment.balanceDraw ∧
    a.keyDraw = turn.moment.keyDraw

/-- A creation that the user has typed, or that a message of others has asked for. -/
def Wanted (a : Creation) : Prop :=
  (∃ line ∈ typed, Typed turns line a) ∨
    ∃ turn ∈ turns, ∃ delivery ∈ turn.others, delivery.Asks factoryIdentity a

/-- The bank goes on by such creations, refused or not. -/
def Grows (s s' : Bank) : Prop :=
  ∃ l : List Creation, (∀ a ∈ l, Wanted typed turns a) ∧ s' = dispatch.exec (l.map .createAccount) s

/-- The bank holds an account under an identity. -/
def Held (i : Identity) (b : AccountServant) (s : Bank) : Prop :=
  s.adapter.find i = some (.account b)

/-- The bank holds the account `b`, of the PESEL that is this word of the line. -/
def AccountOf (line : String) (word : ℕ) (b : AccountServant) (s : Bank) : Prop :=
  ∃ i, (split line)[word]? = some i.name ∧ Held i b s

/-- The loan that is asked for when this line is typed costs as much, on the rates of one of the
turns. -/
def Costs (line : String) (self : PremiumAccount) (cost : Java.Double) : Prop :=
  ∃ turn ∈ turns, ∃ currency value periodLength cost',
    (split line)[1]?.bind getCurrency = some currency ∧
    (split line)[2]?.bind int? = some value ∧
    (split line)[3]?.bind int? = some periodLength ∧
    self.getLoan turn.moment.availableCurrencies currency value periodLength = .ok cost' ∧
    cost = cost'.nearest

/-- What is shown to the user is of an account whose PESEL the user has typed. -/
def Line.Shown (s : Bank) : Line → Prop
  | .text _ => True
  | .key issued => ∃ line ∈ typed, ∃ b, AccountOf line 2 b s ∧ b.toAccount.key = issued
  | .balance account_balance =>
    ∃ line ∈ typed, ∃ b, AccountOf line 0 b s ∧ b.getAccountStatus = account_balance
  | .premium isPremium => ∃ line ∈ typed, ∃ b, AccountOf line 0 b s ∧ b.isPremium = isPremium
  | .cost price => ∃ line ∈ typed, ∃ self, AccountOf line 0 (.premiumAccount self) s ∧
      Costs turns line self price

/-! ### What is read -/

/-- The dialogues of the menu. -/
inductive Dialogue
  | registerToBank
  | accountStatus
  | getLoan
  deriving DecidableEq

namespace Dialogue

/-- The choice of the menu that leads to it. -/
def choice : Dialogue → ℤ
  | registerToBank => 1
  | accountStatus => 2
  | getLoan => 3

/-- How many words it looks at. -/
def words : Dialogue → ℕ
  | registerToBank => 5
  | accountStatus => 1
  | getLoan => 4

/-- The words that it takes for currencies. -/
def currencies : Dialogue → List ℕ
  | registerToBank => [3]
  | accountStatus => []
  | getLoan => [1]

/-- The words that it takes for numbers. -/
def numbers : Dialogue → List ℕ
  | registerToBank => [4]
  | accountStatus => []
  | getLoan => [2, 3]

omit [Runtime] [Unicode] in
theorem choice_injective {d d' : Dialogue} (h : d.choice = d'.choice) : d = d' := by
  cases d <;> cases d' <;> first | rfl | cases h

end Dialogue

/-- The lines that whole turns of the menu have read: a choice, and what its dialogue is given. -/
inductive Turned : List String → Prop
  | nil : Turned []
  | other {read : List String} {line : String} {choice : ℤ} : Turned read →
      int? line = some choice → choice ≠ 0 → (∀ d : Dialogue, choice ≠ d.choice) →
      Turned (read ++ [line])
  | dialogue {read : List String} {number line : String} (d : Dialogue) : Turned read →
      int? number = some d.choice → Turned (read ++ [number] ++ [line])

/-- The menu has read this line last. -/
def Chosen (line : String) (read : List String) : Prop :=
  ∃ before, Turned before ∧ read = before ++ [line]

/-- The dialogue has read this line last. -/
def Asked (d : Dialogue) (line : String) (read : List String) : Prop :=
  ∃ before number, Turned before ∧ int? number = some d.choice ∧ read = before ++ [number] ++ [line]

/-- The lines that have been read are those before the ones that are left. -/
def World.HasRead (w : World) (read : List String) : Prop := typed = read ++ w.lines

/-- What a session is like when it ends with an exception. -/
def PyException.Expected (w : World) : PyException → Prop
  | .eofError => w.lines = []
  | .indexError => ∃ read d line, w.HasRead typed read ∧ Asked d line read ∧
      (split line).length < d.words
  | .valueError => ∃ read line, w.HasRead typed read ∧
      (Chosen line read ∧ int? line = none ∨ ∃ d, Asked d line read ∧
        ((∃ i ∈ d.currencies, ∃ word, (split line)[i]? = some word ∧ getCurrency word = none) ∨
          ∃ i ∈ d.numbers, ∃ word, (split line)[i]? = some word ∧
            ∀ n, int? word = some n → ¬ (-2 ^ 31 ≤ n ∧ n < 2 ^ 31)))
  | .attributeError => ∃ read d line pesel, w.HasRead typed read ∧ Asked d line read ∧
      d ≠ .registerToBank ∧ (split line)[0]? = some pesel ∧
      w.bank.createdAccounts.get pesel = none
  | .ice (.unknownLocal _) => ∃ read line a, w.HasRead typed read ∧
      Asked .registerToBank line read ∧ Typed turns line a ∧ Refused a w.bank
  | .ice (.unknown _) => ∃ read line, w.HasRead typed read ∧ Asked .getLoan line read ∧
      ∃ turn ∈ turns, ∃ currency, (split line)[1]?.bind getCurrency = some currency ∧
        turn.moment.availableCurrencies.get currency = none
  | .ice _ => False
  | .connectionLost => w.turns = []
  | .unfinished => False

/-- What holds throughout a session. -/
structure Sound (w : World) : Prop where
  toCome : ∀ turn ∈ w.turns ++ w.lost.toList, turn ∈ turns
  bank : Grows typed turns start w.bank
  shown : ∀ line ∈ w.printed, line.Shown typed turns w.bank

/-- Between two steps: these lines have been read, fewer than `n` are left, and the bank
has `φ`. -/
structure Holds (read : List String) (n : ℕ) (φ : Bank → Prop) (w : World) : Prop where
  sound : Sound typed turns w
  read : w.HasRead typed read
  lines : w.lines.length < n
  bank : φ w.bank

/-- At the end, with an exception. -/
def Ended (e : PyException) (w : World) : Prop := Sound typed turns w ∧ e.Expected typed turns w

/-- The code goes on, from what holds before it to what holds after it, or ends the session. -/
abbrev Goes {α : Type} (read : List String) (n : ℕ) (φ : Bank → Prop) (x : ClientM α)
    (Q : α → Bank → Prop) : Prop :=
  Triple (Holds typed turns read n φ) x (fun a ↦ Holds typed turns read n (Q a))
    (Ended typed turns)

/-- A fact about the bank that stays true. -/
def Stays (φ : Bank → Prop) : Prop := ∀ s s', Grows typed turns s s' → φ s → φ s'

end

/-! ## The bank of a session -/

section

variable [Runtime] [Unicode] {typed : List String} {turns : List Turn}

theorem Grows.refl (s : Bank) : Grows typed turns s s :=
  ⟨[], fun _ h ↦ absurd h List.not_mem_nil, rfl⟩

theorem Grows.trans {s s' s'' : Bank} (h : Grows typed turns s s')
    (h' : Grows typed turns s' s'') : Grows typed turns s s'' := by
  obtain ⟨l, hl, rfl⟩ := h
  obtain ⟨l', hl', rfl⟩ := h'
  refine ⟨l ++ l', ?_, ?_⟩
  · intro a ha
    rcases List.mem_append.mp ha with ha | ha
    · exact hl a ha
    · exact hl' a ha
  · rw [List.map_append, Object.exec_append]

theorem Grows.create {a : Creation} (ha : Wanted typed turns a) (s : Bank) :
    Grows typed turns s (dispatch (.createAccount a) s).2 := by
  refine ⟨[a], ?_, rfl⟩
  intro a' ha'
  obtain rfl := List.mem_singleton.mp ha'
  exact ha

/-- What the messages of others do in a turn. -/
theorem Grows.others [StackTraces] (reference : Reference) {s : Bank}
    (hs : Grows typed turns start s) {turn : Turn} (hturn : turn ∈ turns) :
    Grows typed turns s ((serve reference).exec turn.others s) := by
  obtain ⟨l, -, rfl⟩ := hs
  obtain ⟨cs, hsub, hasks, hexec⟩ := serve_exec_from reference (l.map .createAccount) turn.others
  refine ⟨cs.map Prod.snd, ?_, ?_⟩
  · intro a ha
    obtain ⟨p, hp, rfl⟩ := List.mem_map.mp ha
    exact .inr ⟨turn, hturn, p.1, hsub.mem (List.mem_map.mpr ⟨p, hp, rfl⟩), hasks p hp⟩
  · rw [hexec, List.map_map]
    rfl

theorem Held.stays (i : Identity) (b : AccountServant) : Stays typed turns (Held i b) := by
  rintro s _ ⟨l, -, rfl⟩ h
  exact find_exec h _

theorem AccountOf.stays (line : String) (word : ℕ) (b : AccountServant) :
    Stays typed turns (AccountOf line word b) := by
  rintro s s' hs ⟨i, hi, hheld⟩
  exact ⟨i, hi, Held.stays i b s s' hs hheld⟩

/-- What has been shown stays true. -/
theorem Line.Shown.stays (line : Line) : Stays typed turns (fun s ↦ line.Shown typed turns s) := by
  intro s s' hs h
  cases line with
  | text => trivial
  | key | balance | premium =>
      obtain ⟨line, hline, b, hb, h⟩ := h
      exact ⟨line, hline, b, AccountOf.stays line _ b s s' hs hb, h⟩
  | cost =>
      obtain ⟨line, hline, self, hself, h⟩ := h
      exact ⟨line, hline, self, AccountOf.stays line _ _ s s' hs hself, h⟩

theorem Stays.true : Stays typed turns fun _ ↦ True := fun _ _ _ _ ↦ trivial

theorem find_factory {s : Bank} (hs : Grows typed turns start s) :
    s.adapter.find factoryIdentity = some .accountsCreator := by
  obtain ⟨l, -, rfl⟩ := hs
  exact find_exec (ObjectAdapter.find_insert_self _ _ _) _

omit [Runtime] [Unicode] in
/-- The proxy that arrives is of the object that the proxy which was sent is of. -/
theorem ident_received (e : CreatedAccount) :
    (CreatedAccount.received (some e)).account.map AccountPrx.ident =
      e.account.map AccountPrx.ident := by
  rw [CreatedAccount.received, Option.getD_some, Option.map_map]
  congr 1
  funext account
  exact account.ident_proxy

/-- What `getAccount` finds for the first word of a line. -/
def Found (line : String) (proxy : Option Identity) (s : Bank) : Prop :=
  match proxy with
  | none => ∃ pesel, (split line)[0]? = some pesel ∧ s.createdAccounts.get pesel = none
  | some i => (split line)[0]? = some i.name ∧ ∃ b, Held i b s

theorem found_of_get {s : Bank} (hs : Grows typed turns start s) {line pesel : String}
    (hpesel : (split line)[0]? = some pesel) :
    Found line ((CreatedAccount.received (s.createdAccounts.get pesel)).account.map
      AccountPrx.ident) s := by
  obtain ⟨l, -, rfl⟩ := hs
  cases he : (dispatch.exec (l.map .createAccount) start).createdAccounts.get pesel with
  | none => exact ⟨pesel, hpesel, he⟩
  | some e =>
      obtain ⟨_, a, _, -, -, -, -, hagrees⟩ := agrees_of_entry he
      rw [ident_received, hagrees.proxy]
      exact ⟨hpesel, a.servant, hagrees.registered⟩

/-- A bank that goes on is still that of a sound session. -/
theorem Sound.grow {w : World} (hw : Sound typed turns w) {s : Bank}
    (hs : Grows typed turns w.bank s) {later : List Turn} (lost : Option Turn)
    (hlater : ∀ turn ∈ later ++ lost.toList, turn ∈ turns) :
    Sound typed turns { w with bank := s, turns := later, lost } where
  toCome := hlater
  bank := hw.bank.trans hs
  shown line hline := Line.Shown.stays line _ _ hs (hw.shown line hline)

theorem sound_start (lines : List String) (turns : List Turn) (lost : Option Turn) :
    Sound lines (turns ++ lost.toList) ⟨start, turns, lost, lines, []⟩ where
  toCome _ h := h
  bank := Grows.refl start
  shown _ h := absurd h List.not_mem_nil

end

/-! ## The steps of a dialogue -/

section

variable [Runtime] [Unicode] {typed : List String} {turns : List Turn} {read : List String} {n : ℕ}
  {φ : Bank → Prop}

theorem goes_input : Triple (Holds typed turns read (n + 1) φ) input
    (fun line w ↦ line ∈ typed ∧ Holds typed turns (read ++ [line]) n φ w) (Ended typed turns) := by
  intro w hw
  rw [input, exec_get_bind]
  cases hlines : w.lines with
  | nil => exact ⟨hw.sound, hlines⟩
  | cons line lines =>
      have hread : typed = read ++ w.lines := hw.read
      have hlength := hw.lines
      rw [hlines] at hread
      rw [hlines, List.length_cons] at hlength
      refine ⟨?_, ⟨hw.sound.toCome, hw.sound.bank, hw.sound.shown⟩, ?_,
        Nat.lt_of_succ_lt_succ hlength, hw.bank⟩
      · rw [hread]
        exact List.mem_append_right read List.mem_cons_self
      · exact hread.trans (List.append_cons read line lines)

theorem Holds.weaken {w : World} (h : Holds typed turns read n φ w) :
    Holds typed turns read (n + 1) φ w :=
  { h with lines := Nat.lt_succ_of_lt h.lines }

/-- A line of a dialogue. -/
theorem goes_line : Triple (Holds typed turns read n φ) input
    (fun line w ↦ line ∈ typed ∧ Holds typed turns (read ++ [line]) n φ w) (Ended typed turns) :=
  goes_input.conseq (fun _ ↦ Holds.weaken) fun _ _ ↦ id

theorem goes_print {line : Line} (hline : ∀ s, φ s → line.Shown typed turns s) :
    Goes typed turns read n φ (print line) fun _ ↦ φ := by
  intro w hw
  refine ⟨{ hw.sound with shown := ?_ }, hw.read, hw.lines, hw.bank⟩
  intro l hl
  rcases List.mem_append.mp hl with hl | hl
  · exact hw.sound.shown l hl
  · obtain rfl := List.mem_singleton.mp hl
    exact hline _ hw.bank

theorem goes_text (line : String) : Goes typed turns read n φ (print (.text line)) fun _ ↦ φ :=
  goes_print fun _ _ ↦ trivial

/-- The last line of a dialogue: what is known about the bank is not needed any more. -/
theorem goes_lastText (line : String) :
    Goes typed turns read n φ (print (.text line)) fun _ _ ↦ True :=
  (goes_text line).conseq (fun _ ↦ id) fun _ _ hw ↦ { hw with bank := trivial }

/-- A step that only looks at what it is given. -/
theorem goes_of_cases {α : Type} {x : ClientM α} {ψ : α → Prop}
    (h : (∃ a, x = pure a ∧ ψ a) ∨
      ∃ e, x = throw e ∧ ∀ w, w.HasRead typed read → φ w.bank → e.Expected typed turns w) :
    Triple (Holds typed turns read n φ) x (fun a w ↦ ψ a ∧ Holds typed turns read n φ w)
      (Ended typed turns) := by
  rcases h with ⟨a, rfl, ha⟩ | ⟨e, rfl, he⟩
  · exact Triple.pure fun w hw ↦ ⟨ha, hw⟩
  · exact Triple.throw fun w hw ↦ ⟨hw.sound, he w hw.read hw.bank⟩

/-- The choice of the menu. -/
theorem goes_choice {line : String} (hchosen : Chosen line read) :
    Triple (Holds typed turns read n φ) (int line)
      (fun choice w ↦ int? line = some choice ∧ Holds typed turns read n φ w)
      (Ended typed turns) := by
  apply goes_of_cases
  rw [int]
  cases hint : int? line with
  | some choice => exact .inl ⟨choice, rfl, rfl⟩
  | none => exact .inr ⟨.valueError, rfl, fun w hw _ ↦ ⟨read, line, hw, .inl ⟨hchosen, hint⟩⟩⟩

section

variable {d : Dialogue} {line : String} (hasked : Asked d line read)

include hasked

theorem goes_index {i : ℕ} (hi : i < d.words) :
    Triple (Holds typed turns read n φ) (index (split line) i)
      (fun word w ↦ (split line)[i]? = some word ∧ Holds typed turns read n φ w)
      (Ended typed turns) := by
  apply goes_of_cases
  rw [index]
  cases hword : (split line)[i]? with
  | some word => exact .inl ⟨word, rfl, rfl⟩
  | none =>
      refine .inr ⟨.indexError, rfl, fun w hw _ ↦ ⟨read, d, line, hw, hasked, ?_⟩⟩
      exact (List.getElem?_eq_none_iff.mp hword).trans_lt hi

omit [Runtime] in
/-- A word that is taken for a number, and is none. -/
theorem expected_number {i : ℕ} (hi : i ∈ d.numbers) {word : String}
    (hword : (split line)[i]? = some word)
    (hnone : ∀ n, int? word = some n → ¬ (-2 ^ 31 ≤ n ∧ n < 2 ^ 31)) (w : World)
    (hw : w.HasRead typed read) : PyException.valueError.Expected typed turns w :=
  ⟨read, line, hw, .inr ⟨d, hasked, .inr ⟨i, hi, word, hword, hnone⟩⟩⟩

theorem goes_int {i : ℕ} (hi : i ∈ d.numbers) {word : String}
    (hword : (split line)[i]? = some word) :
    Triple (Holds typed turns read n φ) (int word)
      (fun value w ↦ int? word = some value ∧ Holds typed turns read n φ w) (Ended typed turns) := by
  apply goes_of_cases
  rw [int]
  cases hint : int? word with
  | some value => exact .inl ⟨value, rfl, rfl⟩
  | none =>
      refine .inr ⟨.valueError, rfl, fun w hw _ ↦ expected_number hasked hi hword ?_ w hw⟩
      intro n hn
      cases hint.symm.trans hn

theorem goes_int32 {i : ℕ} (hi : i ∈ d.numbers) {word : String}
    (hword : (split line)[i]? = some word) {value : ℤ} (hvalue : int? word = some value) :
    Triple (Holds typed turns read n φ) (int32 value)
      (fun v w ↦ (v = value ∧ -2 ^ 31 ≤ v ∧ v < 2 ^ 31) ∧ Holds typed turns read n φ w)
      (Ended typed turns) := by
  apply goes_of_cases
  unfold int32
  split
  · rename_i hint
    exact .inl ⟨value, rfl, rfl, hint⟩
  · rename_i hint
    refine .inr ⟨.valueError, rfl, fun w hw _ ↦ expected_number hasked hi hword ?_ w hw⟩
    intro n hn
    obtain rfl := Option.some.inj (hvalue.symm.trans hn)
    exact hint

theorem goes_enumerator {i : ℕ} (hi : i ∈ d.currencies) {word : String}
    (hword : (split line)[i]? = some word) :
    Triple (Holds typed turns read n φ) (enumerator (getCurrency word))
      (fun c w ↦ getCurrency word = some c ∧ Holds typed turns read n φ w) (Ended typed turns) := by
  apply goes_of_cases
  cases hcurrency : getCurrency word with
  | some c => exact .inl ⟨c, rfl, rfl⟩
  | none =>
      exact .inr ⟨.valueError, rfl, fun w hw _ ↦
        ⟨read, line, hw, .inr ⟨d, hasked, .inl ⟨i, hi, word, hword, hcurrency⟩⟩⟩⟩

end

/-- A proxy that is there. -/
theorem goes_getattr_some (i : Identity) :
    Triple (Holds typed turns read n φ) (getattr (some i))
      (fun id w ↦ i = id ∧ Holds typed turns read n φ w) (Ended typed turns) :=
  goes_of_cases (.inl ⟨i, rfl, rfl⟩)

/-- What `getAccount` has found has operations, or the session ends. -/
theorem goes_getattr_found {d : Dialogue} {line : String} (hasked : Asked d line read)
    (hd : d ≠ .registerToBank) (proxy : Option Identity) :
    Triple (Holds typed turns read n (Found line proxy)) (getattr proxy)
      (fun i w ↦ (split line)[0]? = some i.name ∧
        Holds typed turns read n (fun s ↦ ∃ b, Held i b s) w) (Ended typed turns) := by
  cases proxy with
  | some i => exact Triple.pure fun w hw ↦ ⟨hw.bank.1, { hw with bank := hw.bank.2 }⟩
  | none =>
      refine Triple.throw fun w hw ↦ ⟨hw.sound, ?_⟩
      obtain ⟨pesel, hpesel, hnone⟩ := hw.bank
      exact ⟨read, d, line, pesel, hw.read, hasked, hd, hpesel, hnone⟩

theorem goes_of_imp {α : Type} {x : ClientM α} {ψ : Bank → Prop} {R : α → World → Prop}
    (hψ : ∀ s, ψ s → φ s) (h : Triple (Holds typed turns read n φ) x R (Ended typed turns)) :
    Triple (Holds typed turns read n ψ) x R (Ended typed turns) :=
  h.conseq (fun _ hw ↦ { hw with bank := hψ _ hw.bank }) fun _ _ ↦ id

theorem goes_of_exists {α β : Type} {x : ClientM α} {ψ : β → Bank → Prop} {R : α → World → Prop}
    (h : ∀ b, Triple (Holds typed turns read n (ψ b)) x R (Ended typed turns)) :
    Triple (Holds typed turns read n fun s ↦ ∃ b, ψ b s) x R (Ended typed turns) := by
  rintro w ⟨hsound, hread, hlines, b, hb⟩
  exact h b w ⟨hsound, hread, hlines, hb⟩

end

/-! ## The calls of a dialogue -/

section

variable [Runtime] [StackTraces] [Unicode] {typed : List String} {turns : List Turn}
  {read : List String} {n : ℕ} {φ : Bank → Prop} (reference : Reference)

omit [Unicode] in
/-- What a call does: it takes its turn, and the operation is performed on the bank as the others
have left it. -/
theorem exec_remote {w : World} {turn : Turn} {later : List Turn} (h : w.turns = turn :: later)
    (id : Identity) (inv : Invocation) :
    (remote reference id inv).exec w =
      (((request id inv).outcome (turn.perform reference (request id inv) w.bank).1).mapError .ice,
        { w with
          bank := (turn.perform reference (request id inv) w.bank).2
          turns := later }) := by
  rw [remote, exec_get_bind, h]
  rcases hperform : turn.perform reference (request id inv) w.bank with ⟨result, s⟩
  simp only [hperform, exec_set_bind]
  rcases (request id inv).outcome result <;> rfl

omit [Unicode] in
/-- A call that is not answered. -/
theorem exec_remote_of_nil {w : World} (h : w.turns = []) (id : Identity) (inv : Invocation) :
    (remote reference id inv).exec w = (.error .connectionLost, w) ∨
      ∃ turn, w.lost = some turn ∧ (remote reference id inv).exec w = (.error .connectionLost,
        { w with bank := (turn.perform reference (request id inv) w.bank).2, lost := none }) := by
  rw [remote, exec_get_bind, h]
  rcases hlost : w.lost with _ | turn
  · exact .inl rfl
  · exact .inr ⟨turn, rfl, rfl⟩

omit [Unicode] in
/-- A call of an operation that returns. -/
theorem exec_remote_of_ok {w : World} {turn : Turn} {later : List Turn} (h : w.turns = turn :: later)
    {id : Identity} {inv : Invocation} {ret : inv.Returned} {s : Bank}
    (hperform : ((request id inv).perform turn.moment).exec
      ((serve reference).exec turn.others w.bank) = (.ok ret, s)) :
    (remote reference id inv).exec w =
      (.ok (inv.received ret), { w with bank := s, turns := later }) := by
  rw [exec_remote reference h, Turn.perform, hperform]
  rfl

omit [Unicode] in
/-- **A call of a dialogue is a call over the wire**: where the request and its reply fit a buffer,
it is what the stub reads in the reply to the bytes of its request. -/
theorem exec_remote_of_wire {w : World} {turn : Turn} {later : List Turn}
    (h : w.turns = turn :: later) {id : Identity} {inv : Invocation}
    (hr : (request id inv).Sendable) {s : Bank}
    (hs : (serve reference).exec turn.others w.bank = s) (hsendable : Server.Sendable s)
    {bytes : List UInt8}
    (hreply : (serve reference (deliver (turn.moment, request id inv)) s).1 = .ok (some bytes))
    (hfits : Fits bytes) :
    ∃ result, Reads (readReply inv.unmarshal) bytes (1, result) ∧
      (remote reference id inv).exec w = (result.mapError .ice,
        { w with
          bank := (serve reference (deliver (turn.moment, request id inv)) s).2
          turns := later }) := by
  obtain ⟨hstate, os, hos, -, htells⟩ :=
    serve_deliver reference hsendable (p := (turn.moment, request id inv)) hr
  obtain ⟨bytes', rfl, hreads⟩ := htells (by change (1 : Int32) ≠ 0; decide)
  obtain rfl := Option.some.inj (Except.ok.inj (hos.symm.trans hreply))
  refine ⟨_, hreads hfits, ?_⟩
  rw [exec_remote reference h, Turn.perform, hs, hstate]
  rfl

/-- **A call in a session**, by what the operation does to the bank that it finds. -/
theorem goes_remote {id : Identity} {inv : Invocation} {Q : inv.Received → Bank → Prop}
    (hφ : Stays typed turns φ)
    (h : ∀ turn ∈ turns, ∀ s, Grows typed turns start s → φ s →
      match ((request id inv).perform turn.moment).exec s with
      | (.ok ret, s') => Grows typed turns s s' ∧ Q (inv.received ret) s'
      | (.error e, s') => Grows typed turns s s' ∧ ∀ w : World, w.HasRead typed read → w.bank = s' →
          (PyException.ice (e.received ((request id inv).current true))).Expected typed turns w) :
    Goes typed turns read n φ (remote reference id inv) Q := by
  intro w hw
  have htoCome := hw.sound.toCome
  -- what the bank does in a turn
  have hstep : ∀ turn ∈ turns, Grows typed turns w.bank
      (turn.perform reference (request id inv) w.bank).2 ∧
      match turn.perform reference (request id inv) w.bank with
      | (.ok ret, s') => Q (inv.received ret) s'
      | (.error e, s') => ∀ w : World, w.HasRead typed read → w.bank = s' →
          (PyException.ice (e.received ((request id inv).current true))).Expected typed turns w := by
    intro turn hturn
    have hothers := Grows.others reference hw.sound.bank hturn
    have hturn' := h turn hturn _ (hw.sound.bank.trans hothers) (hφ _ _ hothers hw.bank)
    rw [Turn.perform]
    rcases hperform : ((request id inv).perform turn.moment).exec
      ((serve reference).exec turn.others w.bank) with ⟨e | ret, s⟩ <;> rw [hperform] at hturn'
    · exact ⟨hothers.trans hturn'.1, hturn'.2⟩
    · exact ⟨hothers.trans hturn'.1, hturn'.2⟩
  cases hturns : w.turns with
  | nil =>
      rcases exec_remote_of_nil reference hturns id inv with hexec | ⟨turn, hlost, hexec⟩
      · rw [hexec]
        exact ⟨hw.sound, hturns⟩
      · rw [hturns, hlost] at htoCome
        rw [hexec]
        refine ⟨hw.sound.grow (hstep turn (htoCome turn List.mem_cons_self)).1 none ?_, hturns⟩
        rw [hturns]
        exact fun _ hmem ↦ absurd hmem List.not_mem_nil
  | cons turn later =>
      rw [hturns] at htoCome
      obtain ⟨hgrows, hresult⟩ := hstep turn (htoCome turn List.mem_cons_self)
      have hsound := hw.sound.grow hgrows w.lost
        fun t ht ↦ htoCome t (List.mem_cons_of_mem turn ht)
      rw [exec_remote reference hturns]
      rcases hperform : turn.perform reference (request id inv) w.bank with ⟨e | ret, s⟩ <;>
        rw [hperform] at hresult hsound
      · exact ⟨hsound, hresult _ hw.read rfl⟩
      · exact ⟨hsound, hw.read, hw.lines, hresult⟩

/-- A call of an operation that only looks at its servant, and returns. -/
theorem goes_remote_of_reads {id : Identity} (inv : Invocation)
    (ret : Moment → Bank → inv.Returned) {Q : inv.Received → Bank → Prop}
    (hφ : Stays typed turns φ)
    (h : ∀ moment s, Grows typed turns start s → φ s →
      ((request id inv).perform moment).exec s = (.ok (ret moment s), s) ∧
        Q (inv.received (ret moment s)) s) :
    Goes typed turns read n φ (remote reference id inv) Q := by
  apply goes_remote reference hφ
  intro turn _ s hs hbank
  obtain ⟨hperform, hQ⟩ := h turn.moment s hs hbank
  rw [hperform]
  exact ⟨Grows.refl s, hQ⟩

omit [Runtime] [StackTraces] [Unicode] in
/-- A request of this client is for the empty facet. -/
theorem exec_perform_request {id : Identity} {s : Bank} {servant : Servant}
    (h : s.adapter.find id = some servant) (inv : Invocation) (moment : Moment) :
    ((request id inv).perform moment).exec s =
      ((servant.toObject moment).perform inv).exec s :=
  Request.exec_perform_of_some (r := request id inv) h

/-! ### The factory -/

omit [Runtime] [StackTraces] [Unicode] in
theorem perform_ice_isA {σ : Type} (servant : Demo.Servant σ) (type : String) :
    servant.perform (.ice_isA type) =
      (return decide (type ∈ servant.iceIds) : Demo.Method σ Bool) := by
  cases servant <;> rfl

/-- A cast of a proxy to an interface that its object implements. -/
theorem goes_checkedCast {id : Identity} {type : String} (hφ : Stays typed turns φ)
    (h : ∀ moment s, Grows typed turns start s → φ s →
      ∃ servant, s.adapter.find id = some servant ∧ type ∈ (servant.toObject moment).iceIds) :
    Triple (Holds typed turns read n φ) (checkedCast reference id type)
      (fun proxy w ↦ proxy = some id ∧ Holds typed turns read n φ w) (Ended typed turns) := by
  have hisA : Goes typed turns read n φ (remote reference id (.ice_isA type))
      fun isA s ↦ isA = true ∧ φ s := by
    apply goes_remote_of_reads reference (.ice_isA type) (fun _ _ ↦ (true : Bool)) hφ
    intro moment s hs hbank
    obtain ⟨servant, hservant, htype⟩ := h moment s hs hbank
    refine ⟨?_, rfl, hbank⟩
    rw [exec_perform_request hservant, perform_ice_isA, decide_eq_true htype]
    rfl
  refine (Triple.tryCatch hisA ?_).bind ?_
  · intro e w hw
    cases e with
    | ice e =>
        cases e with
        | facetNotExist => exact hw.2.elim
        | objectNotExist | operationNotExist | unknownLocal | unknownUser | unknown
        | unknownReplyStatus | userException | protocolException => exact hw
    | eofError | indexError | valueError | attributeError | connectionLost | unfinished => exact hw
  · intro isA
    exact Triple.pure fun w hw ↦ ⟨if_pos hw.bank.1, { hw with bank := hw.bank.2 }⟩

theorem goes_getAccount {d : Dialogue} {line : String} (hasked : Asked d line read) :
    Goes typed turns read n (fun _ ↦ True)
      (getAccount reference (some factoryIdentity) (split line)) (Found line) := by
  refine (goes_getattr_some factoryIdentity).bind_of fun accountsCreator hfactory ↦ ?_
  subst hfactory
  refine (goes_index hasked (by cases d <;> decide)).bind_of fun pesel hpesel ↦ ?_
  refine Triple.bind (Q := fun result ↦ Holds typed turns read n
    (Found line (result.account.map AccountPrx.ident))) ?_ fun result ↦ Triple.pure fun w hw ↦ hw
  apply goes_remote_of_reads reference (.getAccount pesel) (fun _ s ↦ s.createdAccounts.get pesel)
    Stays.true
  intro moment s hs _
  rw [exec_perform_request (find_factory hs)]
  exact ⟨rfl, found_of_get hs hpesel⟩

/-- `createAccount`, on the words of a line. -/
theorem goes_createAccount {line firstName lastName pesel word₃ word₄ : String}
    {currency : Currency} {value : ℤ} (hline : line ∈ typed)
    (hasked : Asked .registerToBank line read)
    (hfirstName : (split line)[0]? = some firstName)
    (hlastName : (split line)[1]? = some lastName) (hpesel : (split line)[2]? = some pesel)
    (hword₃ : (split line)[3]? = some word₃) (hcurrency : getCurrency word₃ = some currency)
    (hword₄ : (split line)[4]? = some word₄) (hvalue : int? word₄ = some value) :
    Goes typed turns read n (fun _ ↦ True)
      (remote reference factoryIdentity (.createAccount firstName lastName pesel ⟨currency, value⟩))
      fun (createdAccount : CreatedAccount) s ↦
        ∃ b, AccountOf line 2 b s ∧ b.toAccount.key = createdAccount.key := by
  apply goes_remote reference Stays.true
  intro turn hturn s hs _
  have hperform := exec_perform_request (find_factory hs)
    (.createAccount firstName lastName pesel ⟨currency, value⟩) turn.moment
  have htyped : Typed turns line
      (turn.moment.creation firstName lastName pesel ⟨currency, value⟩) := by
    refine ⟨hfirstName, hlastName, hpesel, ?_, ?_, turn, hturn, rfl, rfl⟩
    · rw [hword₃]
      exact hcurrency
    · rw [hword₄]
      exact hvalue
  by_cases hr : Refused (turn.moment.creation firstName lastName pesel ⟨currency, value⟩) s
  · obtain ⟨e, he⟩ := exec_factory_createAccount_of_refused _ _ _ _ _ hr
    rw [hperform.trans he]
    refine ⟨Grows.refl s, ?_⟩
    rintro w hw rfl
    exact ⟨read, line, _, hw, hasked, htyped, hr⟩
  · have hgrows := Grows.create (.inl ⟨line, hline, htyped⟩) s
    rw [dispatch_of_not_refused hr] at hgrows
    rw [hperform.trans (exec_factory_createAccount_of_not_refused _ _ _ _ _ hr)]
    exact ⟨hgrows, _, ⟨_, hpesel, ObjectAdapter.find_insert_self _ _ _⟩, rfl⟩

/-! ### Accounts -/

theorem goes_getAccountStatus (i : Identity) (b : AccountServant) :
    Goes typed turns read n (Held i b) (remote reference i .getAccountStatus)
      fun (account_balance : Money) s ↦ b.getAccountStatus = account_balance ∧ Held i b s := by
  apply goes_remote_of_reads reference .getAccountStatus (fun _ _ ↦ b.getAccountStatus)
    (Held.stays i b)
  intro moment s _ hheld
  rw [exec_perform_request hheld]
  refine ⟨?_, rfl, hheld⟩
  cases b <;> rfl

theorem goes_isPremium (i : Identity) (b : AccountServant) :
    Goes typed turns read n (Held i b) (remote reference i .isPremium)
      fun (isPremium : Bool) s ↦ b.isPremium = isPremium ∧ Held i b s := by
  apply goes_remote_of_reads reference .isPremium (fun _ _ ↦ b.isPremium) (Held.stays i b)
  intro moment s _ hheld
  rw [exec_perform_request hheld]
  refine ⟨?_, rfl, hheld⟩
  cases b <;> rfl

/-- `getLoan`, on the words of a line: with a rate it returns what the loan costs, and without
one it raises. -/
theorem goes_getLoan {line word₁ word₂ word₃ : String} {currency : Currency}
    {value periodLength : ℤ} (hasked : Asked .getLoan line read) (hword₁ : (split line)[1]? = some word₁)
    (hcurrency : getCurrency word₁ = some currency) (hword₂ : (split line)[2]? = some word₂)
    (hvalue : int? word₂ = some value) (hword₃ : (split line)[3]? = some word₃)
    (hperiodLength : int? word₃ = some periodLength) (hint : -2 ^ 31 ≤ value ∧ value < 2 ^ 31)
    (hint' : -2 ^ 31 ≤ periodLength ∧ periodLength < 2 ^ 31) (i : Identity)
    (self : PremiumAccount) :
    Goes typed turns read n (Held i (.premiumAccount self))
      (remote reference i (.getLoan currency (Int32.ofInt value) (Int32.ofInt periodLength)))
      fun (cost : Java.Double) s ↦
        Costs turns line self cost ∧ Held i (.premiumAccount self) s := by
  have hcurrency' : (split line)[1]?.bind getCurrency = some currency := by
    rw [hword₁]
    exact hcurrency
  have hvalue' : (split line)[2]?.bind int? = some value := by
    rw [hword₂]
    exact hvalue
  have hperiodLength' : (split line)[3]?.bind int? = some periodLength := by
    rw [hword₃]
    exact hperiodLength
  apply goes_remote reference (Held.stays i _)
  intro turn hturn s _ hheld
  have hperform := exec_perform_request hheld
    (.getLoan currency (Int32.ofInt value) (Int32.ofInt periodLength)) turn.moment
  have hexec := exec_perform_getLoan turn.moment self currency (Int32.ofInt value)
    (Int32.ofInt periodLength) s
  rw [Int32.toInt_ofInt_of_le hint.1 hint.2, Int32.toInt_ofInt_of_le hint'.1 hint'.2] at hexec
  rw [hperform.trans hexec]
  rcases hloan : self.getLoan turn.moment.availableCurrencies currency value periodLength with e | cost
  · refine ⟨Grows.refl s, fun w hw _ ↦
      ⟨read, line, hw, hasked, turn, hturn, currency, hcurrency', ?_⟩⟩
    rw [Server.PremiumAccount.getLoan] at hloan
    split at hloan
    · assumption
    · cases hloan
  · exact ⟨Grows.refl s, ⟨turn, hturn, currency, value, periodLength, cost, hcurrency', hvalue',
      hperiodLength', hloan, rfl⟩, hheld⟩

/-! ## The dialogues -/

/-- A dialogue has been held: it has read one line. -/
def DialogueHeld (typed : List String) (turns : List Turn) (read : List String) (n : ℕ) (w : World) :
    Prop :=
  ∃ line, Holds typed turns (read ++ [line]) n (fun _ ↦ True) w

omit [StackTraces] in
/-- The last line that a dialogue prints. -/
theorem goes_last (userData line : String) : Triple (Holds typed turns (read ++ [userData]) n φ)
    (print (.text line)) (fun _ ↦ DialogueHeld typed turns read n) (Ended typed turns) :=
  (goes_lastText line).conseq (fun _ ↦ id) fun _ _ hw ↦ ⟨userData, hw⟩

theorem goes_registerToBank (hread : ∀ line, Asked .registerToBank line (read ++ [line])) :
    Triple (Holds typed turns read n fun _ ↦ True)
      (registerToBank reference (some factoryIdentity)) (fun _ ↦ DialogueHeld typed turns read n)
      (Ended typed turns) := by
  refine (goes_text _).bind fun _ ↦ (goes_text _).bind fun _ ↦ (goes_text _).bind fun _ ↦ ?_
  refine goes_line.bind_of fun userData hline ↦ ?_
  have hasked := hread userData
  refine (goes_index hasked (by decide)).bind_of fun word₃ hword₃ ↦ ?_
  refine (goes_index hasked (by decide)).bind_of fun word₄ hword₄ ↦ ?_
  refine (goes_int hasked (by decide) hword₄).bind_of fun value hvalue ↦ ?_
  refine (goes_getattr_some factoryIdentity).bind_of fun accountsCreator hfactory ↦ ?_
  subst hfactory
  refine (goes_index hasked (by decide)).bind_of fun firstName hfirstName ↦ ?_
  refine (goes_index hasked (by decide)).bind_of fun lastName hlastName ↦ ?_
  refine (goes_index hasked (by decide)).bind_of fun pesel hpesel ↦ ?_
  refine (goes_enumerator hasked (by decide) hword₃).bind_of fun currency hcurrency ↦ ?_
  refine (goes_int32 hasked (by decide) hword₄ hvalue).bind_of fun value' hint ↦ ?_
  obtain ⟨rfl, -⟩ := hint
  refine (goes_createAccount reference hline hasked hfirstName hlastName hpesel hword₃ hcurrency
    hword₄ hvalue).bind fun createdAccount ↦ ?_
  refine (goes_text _).bind fun _ ↦ (goes_text _).bind fun _ ↦ (goes_print ?_).bind fun _ ↦ ?_
  · rintro s ⟨b, hb, hkey⟩
    exact ⟨userData, hline, b, hb, hkey⟩
  · exact goes_last userData _

theorem goes_accountStatus (hread : ∀ line, Asked .accountStatus line (read ++ [line])) :
    Triple (Holds typed turns read n fun _ ↦ True)
      (accountStatus reference (some factoryIdentity)) (fun _ ↦ DialogueHeld typed turns read n)
      (Ended typed turns) := by
  refine (goes_text _).bind fun _ ↦ (goes_text _).bind fun _ ↦ (goes_text _).bind fun _ ↦ ?_
  refine goes_line.bind_of fun userData hline ↦ ?_
  have hasked := hread userData
  refine (goes_getAccount reference hasked).bind fun accountProxy ↦ ?_
  refine (goes_text _).bind fun _ ↦ (goes_text _).bind fun _ ↦ ?_
  refine (goes_getattr_found hasked (by decide) accountProxy).bind_of fun i hname ↦ ?_
  apply goes_of_exists
  intro b
  refine (goes_getAccountStatus reference i b).bind fun account_balance ↦ ?_
  refine (goes_print ?_).bind fun _ ↦ goes_last userData _
  rintro s ⟨hbalance, hheld⟩
  exact ⟨userData, hline, b, ⟨i, hname, hheld⟩, hbalance⟩

theorem goes_getLoan_dialogue (hread : ∀ line, Asked .getLoan line (read ++ [line])) :
    Triple (Holds typed turns read n fun _ ↦ True)
      (getLoan reference (some factoryIdentity)) (fun _ ↦ DialogueHeld typed turns read n)
      (Ended typed turns) := by
  refine (goes_text _).bind fun _ ↦ (goes_text _).bind fun _ ↦ ?_
  refine goes_line.bind_of fun userData hline ↦ ?_
  have hasked := hread userData
  refine (goes_getAccount reference hasked).bind fun accountProxy ↦ ?_
  refine (goes_getattr_found hasked (by decide) accountProxy).bind_of fun i hname ↦ ?_
  apply goes_of_exists
  intro b
  refine (goes_isPremium reference i b).bind fun isPremium ↦ (goes_print ?_).bind fun _ ↦ ?_
  · rintro s ⟨hpremium, hheld⟩
    exact ⟨userData, hline, b, ⟨i, hname, hheld⟩, hpremium⟩
  refine (goes_of_imp (fun _ h ↦ h.2) (goes_isPremium reference i b)).bind fun isPremium ↦ ?_
  split
  · rename_i htrue
    refine Triple.of_fact (fun _ hw ↦ hw.bank.1) fun hpremium ↦ ?_
    obtain ⟨self, rfl⟩ := exists_premiumAccount (hpremium.trans htrue)
    apply goes_of_imp fun _ h ↦ h.2
    refine (goes_checkedCast reference (Held.stays i _) ?_).bind_of fun premiumProxy hproxy ↦ ?_
    · exact fun moment s _ hheld ↦ ⟨_, hheld, mem_iceIds_premiumAccount moment self⟩
    subst hproxy
    refine (goes_getattr_some i).bind_of fun premiumAccountProxy hsome ↦ ?_
    subst hsome
    refine (goes_index hasked (by decide)).bind_of fun word₁ hword₁ ↦ ?_
    refine (goes_index hasked (by decide)).bind_of fun word₂ hword₂ ↦ ?_
    refine (goes_int hasked (by decide) hword₂).bind_of fun value hvalue ↦ ?_
    refine (goes_index hasked (by decide)).bind_of fun word₃ hword₃ ↦ ?_
    refine (goes_int hasked (by decide) hword₃).bind_of fun periodLength hperiodLength ↦ ?_
    refine (goes_enumerator hasked (by decide) hword₁).bind_of fun currency hcurrency ↦ ?_
    refine (goes_int32 hasked (by decide) hword₂ hvalue).bind_of fun value' hint ↦ ?_
    refine (goes_int32 hasked (by decide) hword₃ hperiodLength).bind_of fun periodLength' hint' ↦ ?_
    obtain ⟨rfl, hint⟩ := hint
    obtain ⟨rfl, hint'⟩ := hint'
    refine (goes_getLoan reference hasked hword₁ hcurrency hword₂ hvalue hword₃ hperiodLength hint
      hint' i self).bind fun cost ↦ ?_
    refine (goes_print ?_).bind fun _ ↦ goes_last userData _
    rintro s ⟨hcost, hheld⟩
    exact ⟨userData, hline, self, ⟨i, hname, hheld⟩, hcost⟩
  · exact (goes_text _).bind fun _ ↦ goes_last userData _

/-! ## The session -/

/-- The user has left the menu: the line that was read last is its choice. -/
def Left (typed : List String) (w : World) : Prop :=
  ∃ read line, w.HasRead typed read ∧ Chosen line read ∧ int? line = some 0

/-- In a turn of the menu that has read this choice: the dialogue of the choice has been held, if it
is one of these, or no dialogue has. -/
def InTurn (typed : List String) (turns : List Turn) (read : List String) (n : ℕ) (choice : ℤ)
    (ds : List Dialogue) (w : World) : Prop :=
  (∃ d ∈ ds, choice = d.choice ∧ DialogueHeld typed turns read n w) ∨
    (∀ d ∈ ds, choice ≠ d.choice) ∧ Holds typed turns read n (fun _ ↦ True) w

omit [StackTraces] in
/-- The next dialogue of the menu is held, or it is not. -/
theorem goes_dialogue (d : Dialogue) {ds : List Dialogue} (hds : d ∉ ds) {choice : ℤ}
    {x : ClientM PUnit} {k : PUnit → ClientM PUnit} {R : PUnit → World → Prop}
    (h : choice = d.choice → Triple (Holds typed turns read n fun _ ↦ True) x
      (fun _ ↦ DialogueHeld typed turns read n) (Ended typed turns))
    (hk : ∀ a, Triple (InTurn typed turns read n choice (ds ++ [d])) (k a) R (Ended typed turns)) :
    Triple (InTurn typed turns read n choice ds) (if choice = d.choice then x >>= k else k ⟨⟩) R
      (Ended typed turns) := by
  refine Triple.optional (fun hchoice ↦ ?_) (fun hchoice w hw ↦ ?_) hk
  · refine (h hchoice).conseq ?_ fun _ w hw ↦ .inl ⟨d, List.mem_append_right ds List.mem_cons_self,
      hchoice, hw⟩
    rintro w (⟨d', hd', hchoice', -⟩ | ⟨-, hw⟩)
    · exact absurd (Dialogue.choice_injective (hchoice'.symm.trans hchoice) ▸ hd') hds
    · exact hw
  · rcases hw with ⟨d', hd', hchoice', hw⟩ | ⟨hnone, hw⟩
    · exact .inl ⟨d', List.mem_append_left [d] hd', hchoice', hw⟩
    · refine .inr ⟨fun d' hd' ↦ ?_, hw⟩
      rcases List.mem_append.mp hd' with hd' | hd'
      · exact hnone d' hd'
      · obtain rfl := List.mem_singleton.mp hd'
        exact hchoice

/-- **The loop of the menu.**  Each of its turns reads a line, so it ends when the user leaves,
with an exception, or when no lines are left. -/
theorem goes_loop (n : ℕ) (hread : Turned read) : Triple (Holds typed turns read n fun _ ↦ True)
    (loop reference (some factoryIdentity) n) (fun _ w ↦ Sound typed turns w ∧ Left typed w)
    (Ended typed turns) := by
  induction n generalizing read with
  | zero => exact fun w hw ↦ absurd hw.lines (Nat.not_lt_zero _)
  | succ n ih =>
      iterate 7 refine (goes_text _).bind fun _ ↦ ?_
      refine goes_input.bind_of fun line _ ↦ ?_
      refine (goes_choice ⟨read, hread, rfl⟩).bind_of fun choice hchoice ↦ ?_
      have hasked : ∀ d : Dialogue, choice = d.choice →
          ∀ line', Asked d line' (read ++ [line] ++ [line']) :=
        fun d hd line' ↦ ⟨read, line, hread, hd ▸ hchoice, rfl⟩
      suffices h : Triple (InTurn typed turns (read ++ [line]) n choice []) _ _ _ from
        h.conseq (fun _ hw ↦ .inr ⟨fun _ hd ↦ absurd hd List.not_mem_nil, hw⟩) fun _ _ ↦ id
      refine goes_dialogue .registerToBank (by decide)
        (fun h ↦ goes_registerToBank reference (hasked _ h)) fun _ ↦ ?_
      refine goes_dialogue .accountStatus (by decide)
        (fun h ↦ goes_accountStatus reference (hasked _ h)) fun _ ↦ ?_
      refine goes_dialogue .getLoan (by decide)
        (fun h ↦ goes_getLoan_dialogue reference (hasked _ h)) fun _ ↦ ?_
      have hall : ∀ d : Dialogue, d ∈ ([] ++ [.registerToBank] ++ [.accountStatus] ++ [.getLoan] :
          List Dialogue) := by
        intro d
        cases d <;> decide
      split
      · rename_i hne
        rintro w (⟨d, -, hd, line', hw⟩ | ⟨hnone, hw⟩)
        · exact ih (hread.dialogue d (hd ▸ hchoice)) w hw
        · exact ih (hread.other hchoice hne fun d ↦ hnone d (hall d)) w hw
      · rename_i hzero
        obtain rfl := not_not.mp hzero
        refine Triple.pure fun w hw ↦ ?_
        rcases hw with ⟨d, -, hd, -⟩ | ⟨-, hw⟩
        · cases d <;> cases hd
        · exact ⟨hw.sound, read ++ [line], line, hw.read, ⟨read, hread, rfl⟩, hchoice⟩

/-- **The whole program**: what holds throughout holds at its end, however it ends. -/
theorem goes_main : Triple (fun w ↦ w.HasRead typed [] ∧ Sound typed turns w) (main reference)
    (fun _ w ↦ Sound typed turns w ∧ Left typed w) (Ended typed turns) := by
  rintro w ⟨hread, hw⟩
  refine Triple.bind_of (goes_checkedCast (n := w.lines.length + 1) reference Stays.true
    fun _ _ hs _ ↦ ⟨_, find_factory hs, List.mem_cons_self⟩) (fun accountsCreator hfactory ↦ ?_) w
    ⟨hw, hread, Nat.lt_succ_self _, trivial⟩
  subst hfactory
  refine Triple.get_bind fun w' hw' ↦ (goes_loop reference _ .nil).conseq ?_ fun _ _ ↦ id
  rintro _ rfl
  exact { hw' with lines := Nat.lt_succ_self _ }

omit [StackTraces] in
theorem start_session (lines : List String) (turns : List Turn) (lost : Option Turn) :
    (⟨start, turns, lost, lines, []⟩ : World).HasRead lines [] ∧
      Sound lines (turns ++ lost.toList) ⟨start, turns, lost, lines, []⟩ :=
  ⟨rfl, sound_start lines turns lost⟩

/-- **What a session does and shows.**  Whatever is typed, whatever messages others have delivered
between the calls, and wherever the connection is lost, before a call is dispatched or after it: the
bank has gone on by creations that the user has typed or others have asked for, and what has been
printed of an account was printed of one whose PESEL the user has typed. -/
theorem session_sound (lines : List String) (turns : List Turn) (lost : Option Turn) :
    Grows lines (turns ++ lost.toList) start
        ((main reference).exec ⟨start, turns, lost, lines, []⟩).2.bank ∧
      ∀ line ∈ ((main reference).exec ⟨start, turns, lost, lines, []⟩).2.printed,
        line.Shown lines (turns ++ lost.toList)
          ((main reference).exec ⟨start, turns, lost, lines, []⟩).2.bank := by
  have hsound := (goes_main reference).elim (fun _ _ ↦ And.left) (fun _ _ ↦ And.left)
    (start_session lines turns lost)
  exact ⟨hsound.bank, hsound.shown⟩

/-- **How a session ends.**  It does end: the user has left it, or the line that was read last, or
the connection, is why it has met one of the exceptions that the dialogues allow for.  The bank never
answers that an object, a facet or an operation does not exist. -/
theorem session_ends (lines : List String) (turns : List Turn) (lost : Option Turn) :
    match (main reference).exec ⟨start, turns, lost, lines, []⟩ with
    | (.ok (), w) => Left lines w
    | (.error e, w) => e.Expected lines (turns ++ lost.toList) w := by
  have hmain := goes_main reference _ (start_session lines turns lost)
  rcases hexec : (main reference).exec ⟨start, turns, lost, lines, []⟩ with ⟨e | _, w⟩ <;>
    rw [hexec] at hmain
  · exact hmain.2
  · exact hmain.2

end

end StockBank.Client.Menu
