import StockBank.Server.Registry

/-!
# The bank client

The dialogue of `bankclient.py` behind the menu entry "log in to an account".  The
client talks to the bank through the factory and through the account proxy it is
given; what it prints is recorded, since what a user gets to see is what the
dialogue is about.

The dialogue asks for the PESEL *and* the user key, and reads both from one line,
but only ever looks at the PESEL.
-/

namespace StockBank.Client

open Lib Demo Ice Server

/-- The exceptions that end a dialogue. -/
inductive PyException
  | indexError
  | attributeError
  | /-- No servant under the identity of a proxy. -/
    objectNotExist (id : Identity)
  | /-- The servant has no such operation. -/
    operationNotExist (id : Identity)
  deriving DecidableEq, Repr

/-- A line the client prints. -/
inductive Output
  | text (line : String)
  | balance (balance : Money)
  deriving DecidableEq, Repr

/-- The bank, and what the client has printed. -/
structure Session where
  bank : Bank
  printed : List Output

/-- Client code: it may end with an exception, and what it printed stays printed. -/
abbrev ClientM := Code PyException Session

/-- `str.split(" ")`. -/
def split (line : String) : List String := (line.toList.splitOn ' ').map String.ofList

def print (line : Output) : ClientM Unit :=
  modify fun s ↦ { s with printed := s.printed ++ [line] }

def index (l : List String) (i : ℕ) : ClientM String :=
  match l[i]? with
  | some x => return x
  | none => throw .indexError

/-- `accountsCreator.getAccount` through its proxy: null arrives as the
default-constructed record. -/
def getAccount (pesel : String) : ClientM CreatedAccount := do
  let (result, bank) := (Server.getAccount pesel).run (← get).bank
  modify fun s ↦ { s with bank := bank }
  return result.getD CreatedAccount.nullMarshalValue

/-- An operation of an account, through its proxy. -/
def invoke {α : Type} (proxy : Option AccountPrx) (operation : AccountServant → α) : ClientM α := do
  match proxy with
  | none => throw .attributeError
  | some proxy =>
    match (← get).bank.adapter.find proxy.ident with
    | none => throw (.objectNotExist proxy.ident)
    | some .accountsCreator => throw (.operationNotExist proxy.ident)
    | some (.account self) => return operation self

/-- `accountStatus`, on the line the user types. -/
def accountStatus (userData : String) : ClientM Unit := do
  print (.text "-----------------------------------------------")
  print (.text "---- Check account status: ----")
  print (.text "---- PESEL and user key:   ----")
  let userDataSplitted := split userData
  let accountProxy := (← getAccount (← index userDataSplitted 0)).account
  print (.text "-----------------------------------------------")
  print (.text "---- Your account status: ----")
  let account_balance ← invoke accountProxy AccountServant.getAccountStatus
  print (.balance account_balance)
  print (.text "-----------------------------------------------")

/-- What the dialogue prints. -/
def printed (userData : String) (s : Bank) : List Output :=
  ((accountStatus userData).exec ⟨s, []⟩).2.printed

/-- The dialogue shows a balance. -/
def Discloses (userData : String) (s : Bank) : Prop := ∃ m, .balance m ∈ printed userData s

/-- The PESEL typed: the first word of the line. -/
def typedPesel (userData : String) : String := (split userData)[0]?.getD ""

/-- The key typed: the second word of the line, if there is one. -/
def typedKey (userData : String) : Option String := (split userData)[1]?

/-! ## What the dialogue does -/

section

variable {α : Type} (s : Session)

theorem exec_print (line : Output) :
    (print line).exec s = (.ok (), { s with printed := s.printed ++ [line] }) := rfl

theorem exec_index {l : List String} {i : ℕ} {x : String} (h : l[i]? = some x) :
    (index l i).exec s = (.ok x, s) := by
  rw [index, h]
  rfl

theorem exec_getAccount (pesel : String) :
    (getAccount pesel).exec s =
      (.ok ((s.bank.createdAccounts.get pesel).getD CreatedAccount.nullMarshalValue), s) := rfl

theorem exec_invoke_none (operation : AccountServant → α) :
    (invoke none operation).exec s = (.error .attributeError, s) := rfl

theorem exec_invoke_some {proxy : AccountPrx} {self : AccountServant}
    (h : s.bank.adapter.find proxy.ident = some (.account self)) (operation : AccountServant → α) :
    (invoke (some proxy) operation).exec s = (.ok (operation self), s) := by
  rw [invoke, Code.exec_get_bind, h]
  rfl

end

theorem getElem_zero_split (userData : String) :
    (split userData)[0]? = some (typedPesel userData) := by
  have hne : split userData ≠ [] := by
    simp [split, List.splitOn_ne_nil]
  obtain ⟨w, ws, hw⟩ := List.exists_cons_of_ne_nil hne
  simp [typedPesel, hw]

/-- The texts before the balance. -/
def texts : List Output :=
  [.text "-----------------------------------------------",
    .text "---- Check account status: ----",
    .text "---- PESEL and user key:   ----",
    .text "-----------------------------------------------",
    .text "---- Your account status: ----"]

/-- Without an entry for the PESEL the dialogue ends before the balance. -/
theorem printed_of_none {userData : String} {s : Bank}
    (h : s.createdAccounts.get (typedPesel userData) = none) : printed userData s = texts := by
  simp only [printed, accountStatus, Code.exec_bind, exec_print,
    exec_index _ (getElem_zero_split _), exec_getAccount, h, Option.getD_none,
    CreatedAccount.nullMarshalValue, exec_invoke_none]
  rfl

/-- With an entry whose proxy reaches an account the dialogue prints its balance. -/
theorem printed_of_some {userData : String} {s : Bank} {e : CreatedAccount} {proxy : AccountPrx}
    {self : AccountServant} (h : s.createdAccounts.get (typedPesel userData) = some e)
    (hproxy : e.account = some proxy)
    (hself : s.adapter.find proxy.ident = some (.account self)) :
    printed userData s = texts ++ [.balance self.getAccountStatus,
      .text "-----------------------------------------------"] := by
  simp only [printed, accountStatus, Code.exec_bind, exec_print,
    exec_index _ (getElem_zero_split _), exec_getAccount, h, Option.getD_some, hproxy]
  rw [exec_invoke_some _ hself]
  rfl

/-- **What a user gets to see.**  In every reachable state the dialogue shows a
balance exactly when the PESEL has an entry, whatever key is typed. -/
theorem discloses_iff (cs : List Call) (userData : String) :
    Discloses userData (dispatch.exec cs start) ↔
      (dispatch.exec cs start).createdAccounts.get (typedPesel userData) ≠ none := by
  cases he : (dispatch.exec cs start).createdAccounts.get (typedPesel userData) with
  | none =>
      refine iff_of_false ?_ fun h ↦ h rfl
      rintro ⟨m, hm⟩
      rw [printed_of_none he] at hm
      simp [texts] at hm
  | some e =>
      refine iff_of_true ?_ (Option.some_ne_none e)
      obtain ⟨_, a, _, -, -, -, -, hagrees⟩ := agrees_of_entry he
      obtain ⟨proxy, hproxy, hident⟩ := Option.map_eq_some_iff.mp hagrees.proxy
      refine ⟨a.servant.getAccountStatus, ?_⟩
      rw [printed_of_some he hproxy (hident ▸ hagrees.registered)]
      simp

/-! ## Who gets to see it -/

/-- The key issued for the account that `p` resolves to: the one the last creation
for `p` returned. -/
def IssuedKey (cs : List Call) (p key : String) : Prop :=
  ∃ before a after r, cs = before ++ .createAccount a :: after ∧ a.pesel = p ∧
    (dispatch (.createAccount a) (dispatch.exec before start)).1 = .createAccount (.ok r) ∧
    AllRefused p after (dispatch.exec (before ++ [.createAccount a]) start) ∧ r.key = key

/-- The key issued for a PESEL is the one in its entry. -/
theorem issuedKey_iff (cs : List Call) (p key : String) :
    IssuedKey cs p key ↔
      ∃ e, (dispatch.exec cs start).createdAccounts.get p = some e ∧ e.key = key := by
  constructor
  · rintro ⟨before, a, after, r, rfl, rfl, hr, hafter, rfl⟩
    exact ⟨r, entry_of_allRefused hr hafter, rfl⟩
  · rintro ⟨e, he, rfl⟩
    obtain ⟨before, a, after, rfl, hp, hr, hafter⟩ := exists_writer he
    exact ⟨before, a, after, e, rfl, hp, hr, hafter, rfl⟩

/-- **Only the key holder logs in** exactly when the PESEL typed has no entry, or
the key typed is the one in its entry: the dialogue does not look at the key. -/
theorem discloses_only_with_key_iff (cs : List Call) (userData : String) :
    (Discloses userData (dispatch.exec cs start) →
      ∃ key, IssuedKey cs (typedPesel userData) key ∧ typedKey userData = some key) ↔
    ∀ e, (dispatch.exec cs start).createdAccounts.get (typedPesel userData) = some e →
      typedKey userData = some e.key := by
  rw [discloses_iff]
  constructor
  · intro h e he
    obtain ⟨key, hissued, htyped⟩ := h (by rw [he]; exact Option.some_ne_none e)
    obtain ⟨e', he', rfl⟩ := (issuedKey_iff _ _ _).mp hissued
    obtain rfl := Option.some.inj (he.symm.trans he')
    exact htyped
  · intro h hne
    obtain ⟨e, he⟩ := Option.ne_none_iff_exists'.mp hne
    exact ⟨e.key, (issuedKey_iff _ _ _).mpr ⟨e, he, rfl⟩, h e he⟩

/-- A client with key 1000 logs in with key 0. -/
theorem discloses_without_key :
    ¬ (Discloses "44051401458 0"
        (dispatch.exec [.createAccount (sampleCreation "44051401458" 1500)] start) →
      ∃ key, IssuedKey [.createAccount (sampleCreation "44051401458" 1500)]
        (typedPesel "44051401458 0") key ∧ typedKey "44051401458 0" = some key) := by
  intro h
  have hpesel : typedPesel "44051401458 0" = "44051401458" := by decide
  have hentry : (dispatch.exec [.createAccount (sampleCreation "44051401458" 1500)]
      start).createdAccounts.get (typedPesel "44051401458 0") =
        some (sampleCreation "44051401458" 1500).entry := by
    rw [hpesel]
    rfl
  obtain ⟨key, hissued, htyped⟩ := h ((discloses_iff _ _).mpr (by rw [hentry]; simp))
  obtain ⟨e, he, rfl⟩ := (issuedKey_iff _ _ _).mp hissued
  obtain rfl := Option.some.inj (hentry.symm.trans he)
  exact absurd htyped (by decide +kernel)

end StockBank.Client
