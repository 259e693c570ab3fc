import StockBank.Lib.Linearize
import StockBank.Lib.Threads
import StockBank.Server.Registry

/-!
# The factory under concurrent dispatch

With more than one thread in the server's pool, Ice dispatches calls of the
factory side by side.  A creation is then two atomic steps, `adapter.add` (which
Ice synchronizes) and `createdAccounts.put`, and other calls can run in between;
a lookup is one step, `createdAccounts.get`.

Between its two steps a creation is *in flight*: its identity is taken, but its
entry is not there.  A creation that is refused in this window has been told of an
account that lookups do not find yet, and no serial order explains that.  As long
as no creation meets its identity in flight, the calls linearize, a successful
creation at its `put` and every other call at its one access.
-/

namespace StockBank.Server

open Lib Demo Java Ice

universe u

variable {ι : Type u} [DecidableEq ι]

/-- Where a call is. -/
inductive PC
  | idle
  | /-- Dispatched, before its first access to a store. -/
    dispatched
  | /-- A creation between `adapter.add` and `createdAccounts.put`. -/
    added (newAccount : CreatedAccount)
  | /-- Finished, the reply not sent yet. -/
    done (reply : Reply)
  | returned (reply : Reply)

/-- The adapter and the map, and where each call is. -/
abbrev Pool (ι : Type u) := Threads Bank ι PC

def Pool.init : Pool ι := ⟨start, fun _ ↦ .idle⟩

variable (calls : ι → Call)

/-- One atomic step of one call. -/
inductive Step : Pool ι → Event ι Reply → Pool ι → Prop
  | invoke {s : Pool ι} {i : ι} : s.pc i = .idle →
      Step s (.inv i) (s.move s.store i .dispatched)
  | /-- `adapter.add` registers the servant and returns its proxy. -/
    add {s : Pool ι} {i : ι} {a : Creation} {proxy : ObjectPrx} {adapter : ObjectAdapter Servant} :
      s.pc i = .dispatched → calls i = .createAccount a →
      s.store.adapter.add (.account a.servant) a.identity = .ok (proxy, adapter) →
      Step s (.tau i) (s.move { s.store with adapter := adapter } i (.added (a.newAccount proxy)))
  | /-- `adapter.add` raises. -/
    raise {s : Pool ι} {i : ι} {a : Creation} {e : LocalException} :
      s.pc i = .dispatched → calls i = .createAccount a →
      s.store.adapter.add (.account a.servant) a.identity = .error e →
      Step s (.tau i) (s.move s.store i (.done (.createAccount (.error e))))
  | /-- `createdAccounts.put`. -/
    put {s : Pool ι} {i : ι} {a : Creation} {newAccount : CreatedAccount} :
      s.pc i = .added newAccount → calls i = .createAccount a →
      Step s (.tau i) (s.move
        { s.store with createdAccounts := s.store.createdAccounts.put a.pesel newAccount } i
        (.done (.createAccount (.ok newAccount))))
  | /-- `createdAccounts.get`. -/
    get {s : Pool ι} {i : ι} {p : String} :
      s.pc i = .dispatched → calls i = .getAccount p →
      Step s (.tau i) (s.move s.store i (.done (.getAccount (s.store.createdAccounts.get p))))
  | reply {s : Pool ι} {i : ι} {r : Reply} : s.pc i = .done r →
      Step s (.ret i r) (s.move s.store i (.returned r))

/-- The identity belongs to a creation that has not written its entry. -/
def InFlight (s : Pool ι) (ident : Identity) : Prop :=
  ∃ j a newAccount, s.pc j = .added newAccount ∧ calls j = .createAccount a ∧ a.identity = ident

/-- The step does not ask the adapter for an identity in flight. -/
def AwaitsEntry (s : Pool ι) (e : Event ι Reply) : Prop :=
  ∀ i a, e = .tau i → s.pc i = .dispatched → calls i = .createAccount a →
    ¬ InFlight calls s a.identity

/-- Every call has returned, or was never received. -/
def Pool.Complete (s : Pool ι) : Prop := ∀ i, s.pc i = .idle ∨ ∃ r, s.pc i = .returned r

/-! ## Creations in flight -/

omit [DecidableEq ι] in
/-- A call is a creation in one way. -/
theorem creation_unique {calls : ι → Call} {i : ι} {a b : Creation}
    (ha : calls i = .createAccount a) (hb : calls i = .createAccount b) : a = b :=
  Call.createAccount.inj (ha.symm.trans hb)

/-- A creation in flight holds its identity, alone, with the servant and the entry
it is going to publish. -/
structure FlightsKept (s : Pool ι) : Prop where
  held : ∀ {j newAccount}, s.pc j = .added newAccount → ∃ a, calls j = .createAccount a ∧
    newAccount = a.entry ∧ a.pesel ≠ "" ∧
    s.store.adapter.find a.identity = some (.account a.servant)
  alone : ∀ {j j' x x' a a'}, s.pc j = .added x → s.pc j' = .added x' →
    calls j = .createAccount a → calls j' = .createAccount a' → a.identity = a'.identity → j = j'

variable {calls}

/-- A call that moves to a place out of flight keeps the creations in flight. -/
theorem FlightsKept.move_landed {s : Pool ι} (hs : FlightsKept calls s) {bank : Bank} {i : ι}
    {pc : PC} (hpc : ∀ x, pc ≠ .added x) (hbank : bank.adapter = s.store.adapter) :
    FlightsKept calls (s.move bank i pc) where
  held {j newAccount} h := by
    by_cases hj : j = i
    · subst hj
      exact absurd (by simpa using h) (hpc newAccount)
    · rw [Threads.move_pc_of_ne _ _ _ hj] at h
      simpa [hbank] using hs.held h
  alone {j j' x x' a a'} h h' := by
    by_cases hj : j = i
    · subst hj
      exact absurd (by simpa using h) (hpc x)
    · by_cases hj' : j' = i
      · subst hj'
        exact absurd (by simpa using h') (hpc x')
      · rw [Threads.move_pc_of_ne _ _ _ hj] at h
        rw [Threads.move_pc_of_ne _ _ _ hj'] at h'
        exact hs.alone h h'

theorem FlightsKept.step {s s' : Pool ι} {e : Event ι Reply} (hs : FlightsKept calls s)
    (h : Step calls s e s') : FlightsKept calls s' := by
  cases h with
  | invoke hpc => exact hs.move_landed (by simp) rfl
  | raise hpc hc hadd => exact hs.move_landed (by simp) rfl
  | put hpc hc => exact hs.move_landed (by simp) rfl
  | get hpc hc => exact hs.move_landed (by simp) rfl
  | reply hpc => exact hs.move_landed (by simp) rfl
  | @add i a proxy adapter hpc hc hadd =>
      obtain ⟨hp, hfree, rfl, rfl⟩ := ObjectAdapter.add_ok_inv hadd
      -- the new creation's identity was free, so no creation in flight had it
      have hnew : ∀ {j x a'}, j ≠ i → s.pc j = .added x → calls j = .createAccount a' →
          a'.identity ≠ a.identity := by
        intro j x a' _ hx hc' hi
        obtain ⟨a'', hc'', -, -, hheld⟩ := hs.held hx
        obtain rfl : a' = a'' := creation_unique hc' hc''
        rw [hi, hfree] at hheld
        cases hheld
      constructor
      · intro j x hx
        by_cases hj : j = i
        · subst hj
          rw [Threads.move_pc_self, PC.added.injEq] at hx
          exact ⟨a, hc, hx.symm, hp, by simp⟩
        · rw [Threads.move_pc_of_ne _ _ _ hj] at hx
          obtain ⟨a', hc', hx', hp', hheld⟩ := hs.held hx
          refine ⟨a', hc', hx', hp', ?_⟩
          rw [Threads.move_store, ObjectAdapter.find_insert_of_ne _ _ (hnew hj hx hc'), hheld]
      · intro j j' x x' b b' hx hx' hb hb' hbb
        by_cases hj : j = i
        · subst hj
          obtain rfl : a = b := creation_unique hc hb
          by_contra hne
          rw [Threads.move_pc_of_ne _ _ _ (Ne.symm hne)] at hx'
          exact hnew (Ne.symm hne) hx' hb' hbb.symm
        · rw [Threads.move_pc_of_ne _ _ _ hj] at hx
          by_cases hj' : j' = i
          · subst hj'
            obtain rfl : a = b' := creation_unique hc hb'
            exact absurd hbb (hnew hj hx hb)
          · rw [Threads.move_pc_of_ne _ _ _ hj'] at hx'
            exact hs.alone hx hx' hb hb' hbb

/-- A call that is not a creation in flight, before or after it moves, does not
change what is in flight. -/
theorem inFlight_move {s : Pool ι} {bank : Bank} {i : ι} {pc : PC} (hold : ∀ x, s.pc i ≠ .added x)
    (hnew : ∀ x, pc ≠ .added x) (ident : Identity) :
    InFlight calls (s.move bank i pc) ident ↔ InFlight calls s ident := by
  constructor
  · rintro ⟨j, a, x, hx, hc, hi⟩
    have hj : j ≠ i := by rintro rfl; exact hnew x (by simpa using hx)
    exact ⟨j, a, x, by rwa [Threads.move_pc_of_ne _ _ _ hj] at hx, hc, hi⟩
  · rintro ⟨j, a, x, hx, hc, hi⟩
    have hj : j ≠ i := by rintro rfl; exact hold x hx
    exact ⟨j, a, x, by rwa [Threads.move_pc_of_ne _ _ _ hj], hc, hi⟩

/-- A creation that registers is in flight from then on. -/
theorem inFlight_add {s : Pool ι} {bank : Bank} {i : ι} {a : Creation} {x : CreatedAccount}
    (hpc : s.pc i = .dispatched) (hc : calls i = .createAccount a) (ident : Identity) :
    InFlight calls (s.move bank i (.added x)) ident ↔
      ident = a.identity ∨ InFlight calls s ident := by
  constructor
  · rintro ⟨j, b, y, hy, hb, rfl⟩
    by_cases hj : j = i
    · subst hj
      obtain rfl : a = b := creation_unique hc hb
      exact .inl rfl
    · exact .inr ⟨j, b, y, by rwa [Threads.move_pc_of_ne _ _ _ hj] at hy, hb, rfl⟩
  · rintro (rfl | ⟨j, b, y, hy, hb, rfl⟩)
    · exact ⟨i, a, x, by simp, hc, rfl⟩
    · have hj : j ≠ i := by rintro rfl; rw [hpc] at hy; cases hy
      exact ⟨j, b, y, by rwa [Threads.move_pc_of_ne _ _ _ hj], hb, rfl⟩

/-- A creation that publishes its entry is no longer in flight. -/
theorem inFlight_put {s : Pool ι} (hs : FlightsKept calls s) {bank : Bank} {i : ι} {a : Creation}
    {x : CreatedAccount} {pc : PC} (hpc : s.pc i = .added x) (hc : calls i = .createAccount a)
    (hnew : ∀ y, pc ≠ .added y) (ident : Identity) :
    InFlight calls (s.move bank i pc) ident ↔ ident ≠ a.identity ∧ InFlight calls s ident := by
  constructor
  · rintro ⟨j, b, y, hy, hb, rfl⟩
    have hj : j ≠ i := by rintro rfl; exact hnew y (by simpa using hy)
    rw [Threads.move_pc_of_ne _ _ _ hj] at hy
    exact ⟨fun hi ↦ hj (hs.alone hy hpc hb hc hi), j, b, y, hy, hb, rfl⟩
  · rintro ⟨hne, j, b, y, hy, hb, rfl⟩
    have hj : j ≠ i := by
      rintro rfl
      obtain rfl : a = b := creation_unique hc hb
      exact hne rfl
    exact ⟨j, b, y, by rwa [Threads.move_pc_of_ne _ _ _ hj], hb, rfl⟩

/-! ## Linearization -/

open Classical in
/-- The bank without the servants that are in flight: what the calls that have
taken effect add up to. -/
noncomputable def published (calls : ι → Call) (s : Pool ι) : Bank where
  adapter := ⟨fun ident ↦ if InFlight calls s ident then none else s.store.adapter.find ident⟩
  createdAccounts := s.store.createdAccounts

omit [DecidableEq ι] in
theorem find_published_of_inFlight {s : Pool ι} {ident : Identity} (h : InFlight calls s ident) :
    (published calls s).adapter.find ident = none := if_pos h

omit [DecidableEq ι] in
theorem find_published {s : Pool ι} {ident : Identity} (h : ¬ InFlight calls s ident) :
    (published calls s).adapter.find ident = s.store.adapter.find ident := if_neg h

omit [DecidableEq ι] in
/-- Two states publish the same when they have the same entries, and the same
servants out of flight. -/
theorem published_congr {s s' : Pool ι} (hmap : s'.store.createdAccounts = s.store.createdAccounts)
    (hflight : ∀ ident, InFlight calls s' ident ↔ InFlight calls s ident)
    (hfind : ∀ ident, ¬ InFlight calls s ident →
      s'.store.adapter.find ident = s.store.adapter.find ident) :
    published calls s' = published calls s := by
  apply Bank.ext'
  · intro ident
    by_cases h : InFlight calls s ident
    · rw [find_published_of_inFlight h, find_published_of_inFlight ((hflight ident).mpr h)]
    · rw [find_published h, find_published (mt (hflight ident).mp h), hfind ident h]
  · intro p
    exact congrArg (·.get p) hmap

/-- The reply a call is bound to give: from the step that decides it. -/
def PC.committed : PC → Option Reply
  | .done r => some r
  | .returned r => some r
  | _ => none

def alone (calls : ι → Call) : Object Bank ι Reply := fun i ↦ dispatch (calls i)

omit [DecidableEq ι] in
theorem exec_alone (calls : ι → Call) (l : List ι) (s : Bank) :
    (alone calls).exec l s = dispatch.exec (l.map calls) s := Object.exec_map dispatch calls l s

omit [DecidableEq ι] in
/-- The published stores hold what the adapter holds, out of flight. -/
theorem find_published_iff {s : Pool ι} {ident : Identity} {servant : Servant} :
    (published calls s).adapter.find ident = some servant ↔
      ¬ InFlight calls s ident ∧ s.store.adapter.find ident = some servant := by
  by_cases h : InFlight calls s ident
  · simp [find_published_of_inFlight h, h]
  · simp [find_published h, h]

/-- A call that was and stays out of flight, and leaves the stores alone, publishes
nothing. -/
theorem published_move {s : Pool ι} {i : ι} {pc : PC} (hold : ∀ x, s.pc i ≠ .added x)
    (hnew : ∀ x, pc ≠ .added x) : published calls (s.move s.store i pc) = published calls s :=
  published_congr rfl (inFlight_move hold hnew) fun _ _ ↦ rfl

/-- A servant that is registered is in flight, and publishes nothing. -/
theorem published_add {s : Pool ι} {i : ι} {a : Creation} {x : CreatedAccount}
    (hpc : s.pc i = .dispatched) (hc : calls i = .createAccount a)
    (hfree : s.store.adapter.find a.identity = none) :
    published calls (s.move { s.store with
      adapter := s.store.adapter.insert (.account a.servant) a.identity } i (.added x)) =
      published calls s := by
  refine Bank.ext' ?_ fun _ ↦ rfl
  intro ident
  ext servant
  rw [find_published_iff, find_published_iff, inFlight_add hpc hc, Threads.move_store]
  by_cases hi : ident = a.identity
  · subst hi
    simp [hfree]
  · simp [hi, ObjectAdapter.find_insert_of_ne]

/-- A creation that writes its entry publishes its servant too: the stores are those
its registration alone would leave. -/
theorem published_put {s : Pool ι} (hs : FlightsKept calls s) {i : ι} {a : Creation} {pc : PC}
    (hpc : s.pc i = .added a.entry) (hc : calls i = .createAccount a) (hnew : ∀ x, pc ≠ .added x)
    (hheld : s.store.adapter.find a.identity = some (.account a.servant)) :
    published calls (s.move { s.store with
      createdAccounts := s.store.createdAccounts.put a.pesel a.entry } i pc) =
      (published calls s).register a := by
  refine Bank.ext' ?_ fun _ ↦ rfl
  intro ident
  ext servant
  rw [find_published_iff, inFlight_put hs hpc hc hnew, Threads.move_store, Bank.register_adapter]
  by_cases hi : ident = a.identity
  · subst hi
    simp [hheld]
  · rw [ObjectAdapter.find_insert_of_ne _ _ hi, find_published_iff]
    simp [hi]

/-- A step that meets no identity in flight is silent, or is the point at which
its call takes effect. -/
theorem step_advance {s s' : Pool ι} {e : Event ι Reply} (hs : FlightsKept calls s)
    (h : restrict (Step calls) (AwaitsEntry calls) s e s') :
    (published calls s' = published calls s ∧
      (fun i ↦ (s'.pc i).committed) = fun i ↦ (s.pc i).committed) ∨
    ∃ i r, (s.pc i).committed = none ∧
      alone calls i (published calls s) = (r, published calls s') ∧
      (fun i ↦ (s'.pc i).committed) =
        Function.update (fun i ↦ (s.pc i).committed) i (some r) := by
  obtain ⟨hstep, hawait⟩ := h
  cases hstep with
  | invoke hpc =>
      refine .inl ⟨published_move (by simp [hpc]) (by simp), ?_⟩
      exact Threads.family_move_eq (fun _ ↦ PC.committed) (by rw [hpc]; rfl)
  | reply hpc =>
      refine .inl ⟨published_move (by simp [hpc]) (by simp), ?_⟩
      exact Threads.family_move_eq (fun _ ↦ PC.committed) (by rw [hpc]; rfl)
  | add hpc hc hadd =>
      obtain ⟨-, hfree, rfl, rfl⟩ := ObjectAdapter.add_ok_inv hadd
      refine .inl ⟨published_add hpc hc hfree, ?_⟩
      exact Threads.family_move_eq (fun _ ↦ PC.committed) (by rw [hpc]; rfl)
  | @raise i a e hpc hc hadd =>
      refine .inr ⟨i, .createAccount (.error e), by rw [hpc]; rfl, ?_,
        Threads.family_move fun _ ↦ PC.committed⟩
      have hadd' : (published calls s).adapter.add (.account a.servant) a.identity = .error e := by
        rw [← hadd]
        exact ObjectAdapter.add_error_congr hadd (find_published (hawait i a rfl hpc hc))
      rw [published_move (by simp [hpc]) (by simp), alone, hc, dispatch_createAccount, hadd']
  | @put i a newAccount hpc hc =>
      obtain ⟨a', hc', rfl, hp, hheld⟩ := hs.held hpc
      obtain rfl : a = a' := creation_unique hc hc'
      -- the identity is in flight, so the published stores do not refuse the creation
      have hfree := find_published_of_inFlight ⟨i, a, a.entry, hpc, hc, rfl⟩
      refine .inr ⟨i, .createAccount (.ok a.entry), by rw [hpc]; rfl, ?_,
        Threads.family_move fun _ ↦ PC.committed⟩
      rw [published_put hs hpc hc (by simp) hheld, alone, hc,
        dispatch_of_not_refused (by simpa [Refused, hfree] using hp)]
  | @get i p hpc hc =>
      refine .inr ⟨i, .getAccount (s.store.createdAccounts.get p), by rw [hpc]; rfl, ?_,
        Threads.family_move fun _ ↦ PC.committed⟩
      rw [published_move (by simp [hpc]) (by simp), alone, hc]
      rfl

/-- The factory's calls have commit points, in the runs in which no creation meets
its identity in flight. -/
noncomputable def commitPoints (calls : ι → Call) :
    CommitPoints (restrict (Step calls) (AwaitsEntry calls)) id (alone calls) where
  abs := published calls
  committed s i := (s.pc i).committed
  started s i := s.pc i ≠ .idle
  inv := FlightsKept calls
  inv_step hs h := hs.step h.1
  advance hs h := step_advance hs h
  started_step := by
    rintro s e s' i ⟨h, -⟩ hi
    -- only an invocation takes a call out of `idle`
    cases h with
    | @invoke j hpc =>
        by_cases hij : i = j
        · subst hij; exact .inr rfl
        · rw [Threads.move_pc_of_ne _ _ _ hij] at hi
          exact .inl hi
    | add hpc hc hadd => exact .inl (Threads.ne_of_move_ne (by simp [hpc]) hi)
    | raise hpc hc hadd => exact .inl (Threads.ne_of_move_ne (by simp [hpc]) hi)
    | put hpc hc => exact .inl (Threads.ne_of_move_ne (by simp [hpc]) hi)
    | get hpc hc => exact .inl (Threads.ne_of_move_ne (by simp [hpc]) hi)
    | reply hpc => exact .inl (Threads.ne_of_move_ne (by simp [hpc]) hi)
  committed_started := by
    intro s i _ h hidle
    simp [hidle, PC.committed] at h
  ret_committed := by
    rintro s e s' i r - ⟨h, -⟩ he
    cases h with
    | reply hpc =>
        cases he
        simp [hpc, PC.committed]
    | _ => cases he
  inv_committed := by
    rintro s e s' i - ⟨h, -⟩ he
    cases h with
    | invoke hpc =>
        cases he
        simp [hpc, PC.committed]
    | _ => cases he

omit [DecidableEq ι] in
theorem flightsKept_init : FlightsKept calls Pool.init where
  held h := nomatch h
  alone h := nomatch h

omit [DecidableEq ι] in
/-- Nothing is in flight when every call has returned. -/
theorem published_of_complete {s : Pool ι} (h : s.Complete) : published calls s = s.store := by
  refine Bank.ext' (fun ident ↦ find_published ?_) fun _ ↦ rfl
  rintro ⟨j, _, x, hx, -, -⟩
  rcases h j with hj | ⟨r, hj⟩ <;> rw [hj] at hx <;> cases hx

omit [DecidableEq ι] in
theorem published_init : published calls (Pool.init : Pool ι) = start :=
  published_of_complete fun _ ↦ .inl rfl

/-! ## What a client was told -/

/-- The reply tells the client that there is an account for the PESEL. -/
def Reply.TellsOfAccount : Reply → Prop
  | .createAccount (.ok _) => True
  | .createAccount (.error (.alreadyRegistered _ _)) => True
  | _ => False

/-- Serially, a PESEL whose identity is taken has an entry. -/
theorem entry_of_held {cs : List Call} {i : Identity} {b : AccountServant}
    (h : (dispatch.exec cs start).adapter.find i = some (.account b)) :
    (dispatch.exec cs start).createdAccounts.get i.name ≠ none := by
  revert i b
  refine exec_invariant (I := fun s ↦ ∀ {i b}, s.adapter.find i = some (.account b) →
    s.createdAccounts.get i.name ≠ none) (fun h ↦ nomatch (find_start h).1) ?_
  intro a s _ hs _ i b h
  rw [Bank.register_createdAccounts, PMap.get_put]
  split
  · exact Option.some_ne_none _
  · next hne =>
      rcases find_register h with ⟨rfl, -⟩ | h
      · exact absurd rfl hne
      · exact hs h

/-- Serially, after a creation that tells of an account, lookups find one. -/
theorem entry_of_tellsOfAccount {before mid : List Call} {a : Creation}
    (h : (dispatch (.createAccount a) (dispatch.exec before start)).1.TellsOfAccount) :
    (dispatch.exec (before ++ .createAccount a :: mid) start).createdAccounts.get a.pesel ≠
      none := by
  have hp : a.pesel ≠ "" := by
    intro hp
    rw [dispatch_createAccount, ObjectAdapter.add_illegal _ _ (show a.identity.name = "" from hp)] at h
    exact h
  obtain ⟨b, hb, -⟩ := (servantsKept (before ++ .createAccount a :: mid)).account_of_held
    (held_of_mem (by simp) hp start)
  exact entry_of_held hb

/-- The calls of the history `es` are answered, and leave the stores, as in some
serial execution; and a client that was told of an account finds one. -/
structure RegistryLinearizes (calls : ι → Call) (es : List (Event ι Reply)) (bank : Bank) :
    Prop where
  /-- Some serial order, respecting real time, explains the replies and the stores. -/
  serial : ∃ l, Linearizes id (alone calls) start es bank l
  /-- A lookup made after a client was told of an account is not empty. -/
  told : ∀ es₁ es₂ i j a r found, es = es₁ ++ es₂ → calls i = .createAccount a →
    calls j = .getAccount a.pesel → Returns id es₁ i r → r.TellsOfAccount → Invoked id es₂ j →
    Returns id es j (.getAccount found) → found ≠ none

omit [DecidableEq ι] in
/-- A history with a serial order keeps what clients were told. -/
theorem registryLinearizes_of_serial {es : List (Event ι Reply)} {bank : Bank}
    (h : ∃ l, Linearizes id (alone calls) start es bank l) : RegistryLinearizes calls es bank where
  serial := h
  told := by
    rintro es₁ es₂ i j a r found rfl hi hj hr htells hinv hret
    obtain ⟨l, hl⟩ := h
    obtain ⟨before, mid, after, -, hri, hrj⟩ := hl.answers_in_order hr hinv hret
    rw [exec_alone, alone, hi] at hri
    rw [exec_alone, List.map_append, List.map_cons, alone, hi, hj, dispatch_getAccount,
      Reply.getAccount.injEq] at hrj
    rw [← hrj]
    exact entry_of_tellsOfAccount (hri ▸ htells)

/-- **The registry is linearizable** in every run in which no creation reaches
`adapter.add` while another creation of the same identity is between its two
updates.  The stores explained are the published ones, which are all of them once
every call has returned. -/
theorem registry_linearizes {es : List (Event ι Reply)} {s : Pool ι}
    (h : Run (restrict (Step calls) (AwaitsEntry calls)) Pool.init es s) :
    RegistryLinearizes calls es (published calls s) ∧
      (s.Complete → published calls s = s.store) := by
  refine ⟨registryLinearizes_of_serial ?_, published_of_complete⟩
  rw [← show published calls Pool.init = start from published_init]
  exact (commitPoints calls).linearized flightsKept_init (fun _ ↦ rfl) (fun _ hne ↦ hne rfl) h

def pairCalls : Fin 2 → Call
  | 0 => .createAccount (sampleCreation "44051401458" 1500)
  | 1 => .getAccount "44051401458"

/-- A lookup between the two updates of a creation. -/
theorem registry_linearizes_pair : ∃ s : Pool (Fin 2), s.Complete ∧
    RegistryLinearizes pairCalls [.inv 0, .inv 1, .tau 0, .tau 1, .tau 0,
      .ret 0 (.createAccount (.ok (sampleCreation "44051401458" 1500).entry)),
      .ret 1 (.getAccount none)] (published pairCalls s) := by
  have hfree : start.adapter.find (sampleCreation "44051401458" 1500).identity = none := rfl
  have hname : (sampleCreation "44051401458" 1500).identity.name ≠ "" := by decide
  have h₀ : Run (restrict (Step pairCalls) (AwaitsEntry pairCalls)) Pool.init [] Pool.init := .nil
  have h₁ := h₀.snoc ⟨.invoke (i := 0) rfl, fun _ _ h ↦ (nomatch h)⟩
  have h₂ := h₁.snoc ⟨.invoke (i := 1) rfl, fun _ _ h ↦ (nomatch h)⟩
  have h₃ := h₂.snoc ⟨.add (i := 0) rfl rfl (ObjectAdapter.add_free _ _ hname hfree), by
    rintro i a - - - ⟨j, _, _, hj, -, -⟩
    match j with
    | 0 => cases hj
    | 1 => cases hj⟩
  have h₄ := h₃.snoc ⟨.get (i := 1) rfl rfl, by
    rintro i a hi - hc
    cases hi
    cases hc⟩
  have h₅ := h₄.snoc ⟨.put (i := 0) rfl rfl, by
    rintro i a hi hpc -
    cases hi
    cases hpc⟩
  have h₆ := h₅.snoc ⟨.reply (i := 0) rfl, fun _ _ h ↦ (nomatch h)⟩
  have h₇ := h₆.snoc ⟨.reply (i := 1) rfl, fun _ _ h ↦ (nomatch h)⟩
  refine ⟨_, ?_, (registry_linearizes h₇).1⟩
  intro i
  match i with
  | 0 => exact .inr ⟨_, rfl⟩
  | 1 => exact .inr ⟨_, rfl⟩

/-- Two clients create an account for one PESEL, a third looks it up. -/
def raceCalls : Fin 3 → Call
  | 0 => .createAccount (sampleCreation "44051401458" 1500)
  | 1 => .createAccount (sampleCreation "44051401458" 1500)
  | 2 => .getAccount "44051401458"

/-- The first creation is between its two updates while the second is refused and
the lookup is made. -/
def raceHistory : List (Event (Fin 3) Reply) :=
  [.inv 0, .tau 0, .inv 1, .tau 1,
    .ret 1 (.createAccount (.error (.alreadyRegistered "servant" ⟨"44051401458", "premium"⟩))),
    .inv 2, .tau 2, .ret 2 (.getAccount none), .tau 0,
    .ret 0 (.createAccount (.ok (sampleCreation "44051401458" 1500).entry))]

theorem raceHistory_run : ∃ s : Pool (Fin 3),
    Run (Step raceCalls) Pool.init raceHistory s ∧ s.Complete := by
  have hfree : start.adapter.find (sampleCreation "44051401458" 1500).identity = none := rfl
  have hname : (sampleCreation "44051401458" 1500).identity.name ≠ "" := by decide
  have h₀ : Run (Step raceCalls) Pool.init [] Pool.init := .nil
  have h₁ := h₀.snoc (.invoke (i := 0) rfl)
  have h₂ := h₁.snoc (.add (i := 0) rfl rfl (ObjectAdapter.add_free _ _ hname hfree))
  have h₃ := h₂.snoc (.invoke (i := 1) rfl)
  have h₄ := h₃.snoc (.raise (i := 1) rfl rfl
    (ObjectAdapter.add_taken _ _ hname (ObjectAdapter.find_insert_self _ _ _)))
  have h₅ := h₄.snoc (.reply (i := 1) rfl)
  have h₆ := h₅.snoc (.invoke (i := 2) rfl)
  have h₇ := h₆.snoc (.get (i := 2) rfl rfl)
  have h₈ := h₇.snoc (.reply (i := 2) rfl)
  have h₉ := h₈.snoc (.put (i := 0) rfl rfl)
  refine ⟨_, h₉.snoc (.reply (i := 0) rfl), ?_⟩
  intro i
  match i with
  | 0 => exact .inr ⟨_, rfl⟩
  | 1 => exact .inr ⟨_, rfl⟩
  | 2 => exact .inr ⟨_, rfl⟩

/-- The second client is told that the PESEL is registered, and a lookup after
that finds nothing. -/
theorem registry_not_linearizable : ∃ s : Pool (Fin 3),
    Run (Step raceCalls) Pool.init raceHistory s ∧ s.Complete ∧
      ¬ RegistryLinearizes raceCalls raceHistory s.store := by
  obtain ⟨s, hrun, hcomplete⟩ := raceHistory_run
  refine ⟨s, hrun, hcomplete, ?_⟩
  intro h
  have htold : Returns id (raceHistory.take 5) 1 (.createAccount (.error
      (.alreadyRegistered "servant" ⟨"44051401458", "premium"⟩))) :=
    ⟨_, by simp [raceHistory], rfl⟩
  have hasked : Invoked id (raceHistory.drop 5) 2 := ⟨.inv 2, by simp [raceHistory], rfl⟩
  have hfound : Returns id raceHistory 2 (.getAccount none) :=
    ⟨.ret 2 (.getAccount none), by simp [raceHistory], rfl⟩
  exact h.told _ _ 1 2 (sampleCreation "44051401458" 1500) _ none
    (List.take_append_drop 5 raceHistory).symm rfl rfl htold trivial hasked hfound rfl

end StockBank.Server
