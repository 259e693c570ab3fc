import StockBank.Lib.Code
import StockBank.Lib.Serial
import StockBank.Ice
import StockBank.Server.Account

/-!
# The accounts factory

`AccountsCreator.java`, served by the object adapter that `Server.start` sets up.
The state has two stores, which `createAccount` updates one after the other: the
adapter's servants, keyed on the pair of PESEL and category, and the map
`createdAccounts`, keyed on the PESEL alone.

`dispatch` is the factory as an object that serves one call at a time.
`dispatch_createAccount` says once what a creation can do, and is what the later
modules use instead of the definition.
-/

namespace StockBank.Server

open Lib Demo Java Ice

/-- The servants the adapter holds. -/
inductive Servant
  | accountsCreator
  | account (self : AccountServant)
  deriving DecidableEq, Repr

/-- The state of the running server. -/
structure Bank where
  /-- The object adapter, `current.adapter`. -/
  adapter : ObjectAdapter Servant
  /-- `AccountsCreator.createdAccounts`. -/
  createdAccounts : PMap String CreatedAccount

@[ext] theorem Bank.ext' {s s' : Bank} (h₁ : ∀ ident, s.adapter.find ident = s'.adapter.find ident)
    (h₂ : ∀ p, s.createdAccounts.get p = s'.createdAccounts.get p) : s = s' := by
  obtain ⟨adapter, createdAccounts⟩ := s
  obtain ⟨adapter', createdAccounts'⟩ := s'
  obtain rfl : adapter = adapter' := ObjectAdapter.ext h₁
  obtain rfl : createdAccounts = createdAccounts' := PMap.ext h₂
  rfl

/-- The state when the adapter is activated: `Server.start` has registered the factory. -/
def start : Bank where
  adapter := ObjectAdapter.empty.insert .accountsCreator ⟨"accountfactory", "accfac"⟩
  createdAccounts := PMap.empty

/-- Server code: it may raise an Ice exception, and what it did before it raised stays done. -/
abbrev ServerM := Code LocalException Bank

/-- `current.adapter.add`. -/
def adapterAdd (servant : Servant) (ident : Identity) : ServerM ObjectPrx := do
  match (← get).adapter.add servant ident with
  | .error e => throw e
  | .ok (proxy, adapter) =>
    modify fun s ↦ { s with adapter := adapter }
    return proxy

/-- `createdAccounts.put`. -/
def createdAccountsPut (PESEL : String) (newAccount : CreatedAccount) : ServerM Unit :=
  modify fun s ↦ { s with createdAccounts := s.createdAccounts.put PESEL newAccount }

/-- `AccountsCreator.PREMIUM_MIN_LIMIT`. -/
def PREMIUM_MIN_LIMIT : ℤ := 1000

/-- `AccountsCreator.isPremium`. -/
def isPremium (declaredIncome : ℤ) : Bool := declaredIncome ≥ PREMIUM_MIN_LIMIT

/-- `AccountsCreator.createAccount`.  The first draw gives the balance, the second
is the one the account's constructor makes for the key. -/
def createAccount (firstName lastName PESEL : String) (declaredIncome : Money)
    (balanceDraw keyDraw : Random) : ServerM CreatedAccount := do
  let initDefaultBalance : Money :=
    { currency := declaredIncome.currency, value := toInt (balanceDraw.val * 1000) }
  let cat := if isPremium declaredIncome.value then "premium" else "standard"
  if isPremium declaredIncome.value then
    let account := PremiumAccount.new firstName lastName PESEL initDefaultBalance keyDraw
    let proxy ← adapterAdd (.account (.premiumAccount account)) ⟨PESEL, cat⟩
    let newAccount : CreatedAccount :=
      ⟨some (.premiumAccount proxy), account.key, isPremium declaredIncome.value⟩
    createdAccountsPut PESEL newAccount
    return newAccount
  else
    let account := Account.new firstName lastName PESEL initDefaultBalance keyDraw
    let proxy ← adapterAdd (.account (.account account)) ⟨PESEL, cat⟩
    let newAccount : CreatedAccount :=
      ⟨some (.account proxy), account.key, isPremium declaredIncome.value⟩
    createdAccountsPut PESEL newAccount
    return newAccount

/-- `AccountsCreator.getAccount`: null when the map has no entry. -/
def getAccount (PESEL : String) : StateM Bank (Option CreatedAccount) := do
  return (← get).createdAccounts.get PESEL

/-- The arguments of a `createAccount` call, and the draws it makes. -/
structure Creation where
  firstName : String
  lastName : String
  pesel : String
  declaredIncome : Money
  balanceDraw : Random
  keyDraw : Random

/-- A creation whose draws are both zero. -/
def sampleCreation (pesel : String) (income : ℤ) : Creation where
  firstName := "Jan"
  lastName := "Kowalski"
  pesel := pesel
  declaredIncome := ⟨.PLN, income⟩
  balanceDraw := Random.zero
  keyDraw := Random.zero

/-- A call of the factory. -/
inductive Call
  | createAccount (a : Creation)
  | getAccount (pesel : String)

/-- The reply to a call. -/
inductive Reply
  | createAccount (result : Except LocalException CreatedAccount)
  | getAccount (result : Option CreatedAccount)
  deriving DecidableEq

/-- The factory, serving one call at a time. -/
def dispatch : Object Bank Call Reply
  | .createAccount a, s =>
    let (result, s') := (createAccount a.firstName a.lastName a.pesel a.declaredIncome
      a.balanceDraw a.keyDraw).exec s
    (.createAccount result, s')
  | .getAccount pesel, s =>
    let (result, s') := (getAccount pesel).run s
    (.getAccount result, s')

/-! ## The parts of a creation

The two branches of `createAccount` differ in the class of the servant and in the
cast of its proxy, and are otherwise the same. -/

def category (premium : Bool) : String := if premium then "premium" else "standard"

theorem category_injective : Function.Injective category := by
  intro b b' h
  cases b <;> cases b' <;> simp_all [category]

namespace Creation

variable (a : Creation)

/-- The tier the declared income decides. -/
def premium : Bool := isPremium a.declaredIncome.value

def identity : Identity := ⟨a.pesel, category a.premium⟩

def balance : Money := ⟨a.declaredIncome.currency, toInt (a.balanceDraw.val * 1000)⟩

def servant : AccountServant :=
  if a.premium then .premiumAccount (.new a.firstName a.lastName a.pesel a.balance a.keyDraw)
  else .account (.new a.firstName a.lastName a.pesel a.balance a.keyDraw)

/-- A proxy, cast to the interface of the tier. -/
def cast (proxy : ObjectPrx) : AccountPrx :=
  if a.premium then .premiumAccount proxy else .account proxy

/-- The entry for the proxy that the adapter returned. -/
def newAccount (proxy : ObjectPrx) : CreatedAccount :=
  ⟨some (a.cast proxy), a.servant.toAccount.key, a.premium⟩

/-- The entry written, and returned, when the adapter accepts the identity. -/
def entry : CreatedAccount := a.newAccount ⟨a.identity⟩

@[simp] theorem identity_name : a.identity.name = a.pesel := rfl

@[simp] theorem identity_category : a.identity.category = category a.premium := rfl

@[simp] theorem cast_ident (proxy : ObjectPrx) : (a.cast proxy).ident = proxy.ident := by
  unfold cast; split <;> rfl

@[simp] theorem servant_pesel : a.servant.toAccount.pesel = a.pesel := by
  unfold servant; split <;> rfl

@[simp] theorem servant_getAccountStatus : a.servant.getAccountStatus = a.balance := by
  unfold servant; split <;> rfl

@[simp] theorem servant_isPremium : a.servant.isPremium = a.premium := by
  unfold servant
  cases h : a.premium <;> rfl

@[simp] theorem entry_account : a.entry.account = some (a.cast ⟨a.identity⟩) := rfl

@[simp] theorem entry_key : a.entry.key = a.servant.toAccount.key := rfl

@[simp] theorem entry_isPremium : a.entry.isPremium = a.premium := rfl

end Creation

/-- The state after a creation that succeeds. -/
def Bank.register (s : Bank) (a : Creation) : Bank where
  adapter := s.adapter.insert (.account a.servant) a.identity
  createdAccounts := s.createdAccounts.put a.pesel a.entry

@[simp] theorem Bank.register_adapter (s : Bank) (a : Creation) :
    (s.register a).adapter = s.adapter.insert (.account a.servant) a.identity := rfl

@[simp] theorem Bank.register_createdAccounts (s : Bank) (a : Creation) :
    (s.register a).createdAccounts = s.createdAccounts.put a.pesel a.entry := rfl

/-- Code after an `add` runs on the new adapter, or not at all. -/
theorem exec_adapterAdd_bind {α : Type} (servant : Servant) (ident : Identity)
    (k : ObjectPrx → ServerM α) (s : Bank) :
    (adapterAdd servant ident >>= k).exec s =
      match s.adapter.add servant ident with
      | .error e => (.error e, s)
      | .ok (proxy, adapter) => (k proxy).exec { s with adapter := adapter } := by
  rw [Code.exec_bind, adapterAdd, Code.exec_get_bind]
  cases s.adapter.add servant ident <;> rfl

/-- A creation asks the adapter for its identity.  Refused, it raises and changes
nothing; otherwise it writes and returns its entry. -/
theorem dispatch_createAccount (a : Creation) (s : Bank) :
    dispatch (.createAccount a) s =
      match s.adapter.add (.account a.servant) a.identity with
      | .error e => (.createAccount (.error e), s)
      | .ok (proxy, adapter) =>
        (.createAccount (.ok (a.newAccount proxy)),
          ⟨adapter, s.createdAccounts.put a.pesel (a.newAccount proxy)⟩) := by
  have htier : isPremium a.declaredIncome.value = a.premium := rfl
  cases h : a.premium
  all_goals
    simp only [dispatch, createAccount, Creation.servant, Creation.balance, Creation.identity,
      Creation.newAccount, Creation.cast, category, htier, h, Bool.false_eq_true, ↓reduceIte,
      exec_adapterAdd_bind]
    generalize s.adapter.add _ _ = added
    cases added with
    | error e => rfl
    | ok r => rfl

/-- A creation is refused when it has no PESEL, or its identity is taken. -/
def Refused (a : Creation) (s : Bank) : Prop :=
  a.pesel = "" ∨ s.adapter.find a.identity ≠ none

/-- A refused creation raises, and changes nothing. -/
theorem dispatch_of_refused {a : Creation} {s : Bank} (h : Refused a s) :
    ∃ e, dispatch (.createAccount a) s = (.createAccount (.error e), s) := by
  rw [dispatch_createAccount]
  by_cases hp : a.pesel = ""
  · rw [ObjectAdapter.add_illegal _ _ (show a.identity.name = "" from hp)]
    exact ⟨_, rfl⟩
  · obtain ⟨held, hheld⟩ := Option.ne_none_iff_exists'.mp (h.resolve_left hp)
    rw [ObjectAdapter.add_taken _ _ (show a.identity.name ≠ "" from hp) hheld]
    exact ⟨_, rfl⟩

/-- A creation that is not refused registers its servant and writes its entry. -/
theorem dispatch_of_not_refused {a : Creation} {s : Bank} (h : ¬ Refused a s) :
    dispatch (.createAccount a) s = (.createAccount (.ok a.entry), s.register a) := by
  obtain ⟨hp, hfree⟩ := not_or.mp h
  rw [dispatch_createAccount,
    ObjectAdapter.add_free _ _ (show a.identity.name ≠ "" from hp) (not_not.mp hfree)]
  rfl

@[simp] theorem dispatch_getAccount (p : String) (s : Bank) :
    dispatch (.getAccount p) s = (.getAccount (s.createdAccounts.get p), s) := rfl

/-- A creation that returned was not refused, and returned its entry. -/
theorem entry_of_reply_ok {a : Creation} {s : Bank} {e : CreatedAccount}
    (h : (dispatch (.createAccount a) s).1 = .createAccount (.ok e)) :
    ¬ Refused a s ∧ e = a.entry := by
  by_cases hr : Refused a s
  · obtain ⟨_, he⟩ := dispatch_of_refused hr
    rw [he] at h
    cases h
  · rw [dispatch_of_not_refused hr] at h
    cases h
    exact ⟨hr, rfl⟩

/-- **Invariant rule of the bank.**  Only a creation that is not refused changes
the state, so a property that those keep holds after every list of calls. -/
theorem exec_invariant {I : Bank → Prop} {cs : List Call} {s : Bank} (h₀ : I s)
    (hreg : ∀ a s, .createAccount a ∈ cs → I s → ¬ Refused a s → I (s.register a)) :
    I (dispatch.exec cs s) := by
  apply Object.exec_invariant_of h₀
  intro c hc s hs
  cases c with
  | getAccount p => exact hs
  | createAccount a =>
      by_cases hr : Refused a s
      · obtain ⟨_, he⟩ := dispatch_of_refused hr
        rw [he]
        exact hs
      · rw [dispatch_of_not_refused hr]
        exact hreg a s hc hs hr

end StockBank.Server
