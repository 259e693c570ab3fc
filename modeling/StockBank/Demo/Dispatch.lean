import StockBank.Java.Strings
import StockBank.Ice.Incoming
import StockBank.Demo.Marshal

/-!
# The generated dispatch

The interfaces `AccountsCreator`, `Account` and `PremiumAccount`, as the classes generated
from `slice/bank.ice` have them: the operations a servant implements, over whatever state it
has, and the code that finds the operation of a request, reads its parameters, calls it and
writes its results.

An operation is found by its position in the table `iceOps`, which is searched as if it were
in order.  The `switch` on the position and the table are two lists that have to agree.
-/

namespace StockBank.Demo

open Lib Bytes Java Ice

variable {σ : Type}

/-- A method of a servant, which may raise. -/
abbrev Method (σ : Type) := Code DispatchException σ

/-- A servant's interface `AccountsCreator`.  A record may be null. -/
structure AccountsCreator (σ : Type) where
  createAccount : String → String → String → Money → Method σ (Option CreatedAccount)
  getAccount : String → Method σ (Option CreatedAccount)

structure Account (σ : Type) where
  getAccountStatus : Method σ Money
  isPremium : Method σ Bool

structure PremiumAccount (σ : Type) extends Account σ where
  getLoan : Currency → Int32 → Int32 → Method σ Double

/-- A servant, by the most derived interface that it implements. -/
inductive Servant (σ : Type)
  | accountsCreator (obj : AccountsCreator σ)
  | account (obj : Account σ)
  | premiumAccount (obj : PremiumAccount σ)

/-- What a dispatch does to the state of the servants and to the stream of its request. -/
abbrev DispatchM (σ : Type) := Code DispatchException (σ × List UInt8)

/-- `Object._iceCheckMode`, where null stands for the normal mode. -/
def iceCheckMode (expected : Option OperationMode) (received : OperationMode) :
    DispatchM σ Unit :=
  let expected := expected.getD .normal
  if expected ≠ received then
    if expected = .idempotent ∧ received = .nonmutating then
      return ()
    else
      throw (.protocolException (.marshal ("unexpected operation mode. expected = " ++
        expected.toString ++ " received = " ++ received.toString)))
  else
    return ()

/-- From `startReadParams` to `endReadParams`. -/
def readParams [Runtime] {α : Type} (params : Encoding → InputStream α) :
    InputStream (Encoding × α) :=
  readEncapsulation fun encoding _ ↦ params encoding

/-- `Incoming.readEmptyParams`. -/
def readEmptyParams : InputStream (Encoding × Unit) := do
  return (← skipEmptyEncapsulation, ())

/-- From `startWriteParams` to `endWriteParams`. -/
def writeParams (current : Current) (encoding : Encoding) (results : List UInt8) :
    DispatchM σ (Option (List UInt8)) :=
  if current.response then
    return some (replyOk current.requestId (writeEncapsulation encoding results))
  else
    throw (.protocolException (.marshal "can't marshal out parameters for oneway dispatch"))

/-- `Incoming.writeEmptyParams`. -/
def writeEmptyParams (current : Current) (encoding : Encoding) :
    DispatchM σ (Option (List UInt8)) :=
  if current.response then
    return some (replyOk current.requestId (writeEncapsulation encoding []))
  else
    return none

/-- The shape of the generated `_iceD_` functions: the mode is checked, except for the operations of
`Object`, the parameters are read before the method is called, and the results are written when it
has returned. -/
def iceD {α β : Type} (mode : Option (Option OperationMode)) (params : InputStream (Encoding × α))
    (method : α → Method σ β) (write : Encoding → β → List UInt8) (current : Current) :
    DispatchM σ (Option (List UInt8)) := do
  mode.forM fun expected ↦ iceCheckMode expected current.mode
  let (encoding, a) ← Code.mapError .protocolException (Code.second params)
  let ret ← Code.first (method a)
  writeParams current encoding (write encoding ret)

/-! ## The operations of every object -/

namespace Object

/-- `Object._iceD_ice_id`, of an object with this `ice_staticId`. -/
def iceD_ice_id (staticId : String) : Current → DispatchM σ (Option (List UInt8)) :=
  iceD none readEmptyParams (fun _ ↦ return staticId) fun _ ↦ writeString

/-- `Object._iceD_ice_ids`, of an object with these `_iceIds`. -/
def iceD_ice_ids (iceIds : List String) : Current → DispatchM σ (Option (List UInt8)) :=
  iceD none readEmptyParams (fun _ ↦ return iceIds) fun _ ↦ writeStringSeq

/-- `Object.ice_isA`. -/
def ice_isA (iceIds : List String) (s : String) : Bool := 0 ≤ Java.binarySearch iceIds s

/-- `Object._iceD_ice_isA`. -/
def iceD_ice_isA [Runtime] (iceIds : List String) : Current → DispatchM σ (Option (List UInt8)) :=
  iceD none (readParams fun _ ↦ readString) (fun s ↦ return ice_isA iceIds s) fun _ ↦ writeBool

/-- `Object._iceD_ice_ping`. -/
def iceD_ice_ping (current : Current) : DispatchM σ (Option (List UInt8)) := do
  let (encoding, ()) ← Code.mapError .protocolException (Code.second readEmptyParams)
  writeEmptyParams current encoding

end Object

/-! ## The accounts factory -/

namespace AccountsCreator

def iceIds : List String := ["::Demo::AccountsCreator", "::Ice::Object"]

def ice_staticId : String := "::Demo::AccountsCreator"

/-- The parameters of `createAccount`. -/
def readCreateAccount [Runtime] (encoding : Encoding) :
    InputStream (String × String × String × Money) := do
  let firstName ← readString
  let lastName ← readString
  let pesel ← readString
  let declaredIncome ← Money.ice_read encoding
  return (firstName, lastName, pesel, declaredIncome)

def iceD_createAccount [Runtime] (reference : Reference) (obj : AccountsCreator σ) :
    Current → DispatchM σ (Option (List UInt8)) :=
  iceD (some none) (readParams readCreateAccount)
    (fun (firstName, lastName, pesel, declaredIncome) ↦
      obj.createAccount firstName lastName pesel declaredIncome)
    fun encoding ↦ CreatedAccount.ice_write encoding reference

def iceD_getAccount [Runtime] (reference : Reference) (obj : AccountsCreator σ) :
    Current → DispatchM σ (Option (List UInt8)) :=
  iceD (some none) (readParams fun _ ↦ readString) obj.getAccount
    fun encoding ↦ CreatedAccount.ice_write encoding reference

def iceOps : List String :=
  ["createAccount", "getAccount", "ice_id", "ice_ids", "ice_isA", "ice_ping"]

/-- `AccountsCreator._iceDispatch`. -/
def iceDispatch [Runtime] (reference : Reference) (obj : AccountsCreator σ) (current : Current) :
    DispatchM σ (Option (List UInt8)) :=
  match Java.binarySearch iceOps current.operation with
  | 0 => iceD_createAccount reference obj current
  | 1 => iceD_getAccount reference obj current
  | 2 => Object.iceD_ice_id ice_staticId current
  | 3 => Object.iceD_ice_ids iceIds current
  | 4 => Object.iceD_ice_isA iceIds current
  | 5 => Object.iceD_ice_ping current
  | _ => throw .operationNotExist

end AccountsCreator

/-! ## Accounts -/

namespace Account

def iceIds : List String := ["::Demo::Account", "::Ice::Object"]

def ice_staticId : String := "::Demo::Account"

def iceD_getAccountStatus (obj : Account σ) : Current → DispatchM σ (Option (List UInt8)) :=
  iceD (some (some .idempotent)) readEmptyParams (fun _ ↦ obj.getAccountStatus) Money.ice_write

def iceD_isPremium (obj : Account σ) : Current → DispatchM σ (Option (List UInt8)) :=
  iceD (some none) readEmptyParams (fun _ ↦ obj.isPremium) fun _ ↦ writeBool

def iceOps : List String :=
  ["getAccountStatus", "ice_id", "ice_ids", "ice_isA", "ice_ping", "isPremium"]

/-- `Account._iceDispatch`. -/
def iceDispatch [Runtime] (obj : Account σ) (current : Current) :
    DispatchM σ (Option (List UInt8)) :=
  match Java.binarySearch iceOps current.operation with
  | 0 => iceD_getAccountStatus obj current
  | 1 => Object.iceD_ice_id ice_staticId current
  | 2 => Object.iceD_ice_ids iceIds current
  | 3 => Object.iceD_ice_isA iceIds current
  | 4 => Object.iceD_ice_ping current
  | 5 => iceD_isPremium obj current
  | _ => throw .operationNotExist

end Account

namespace PremiumAccount

def iceIds : List String := ["::Demo::Account", "::Demo::PremiumAccount", "::Ice::Object"]

def ice_staticId : String := "::Demo::PremiumAccount"

/-- The parameters of `getLoan`. -/
def readGetLoan (encoding : Encoding) : InputStream (Currency × Int32 × Int32) := do
  let currency ← Currency.ice_read encoding
  let value ← readInt
  let periodLength ← readInt
  return (currency, value, periodLength)

def iceD_getLoan [Runtime] (obj : PremiumAccount σ) :
    Current → DispatchM σ (Option (List UInt8)) :=
  iceD (some none) (readParams readGetLoan)
    (fun (currency, value, periodLength) ↦ obj.getLoan currency value periodLength)
    fun _ ↦ writeDouble

def iceOps : List String :=
  ["getAccountStatus", "getLoan", "ice_id", "ice_ids", "ice_isA", "ice_ping", "isPremium"]

/-- `PremiumAccount._iceDispatch`. -/
def iceDispatch [Runtime] (obj : PremiumAccount σ) (current : Current) :
    DispatchM σ (Option (List UInt8)) :=
  match Java.binarySearch iceOps current.operation with
  | 0 => Account.iceD_getAccountStatus obj.toAccount current
  | 1 => iceD_getLoan obj current
  | 2 => Object.iceD_ice_id ice_staticId current
  | 3 => Object.iceD_ice_ids iceIds current
  | 4 => Object.iceD_ice_isA iceIds current
  | 5 => Object.iceD_ice_ping current
  | 6 => Account.iceD_isPremium obj.toAccount current
  | _ => throw .operationNotExist

end PremiumAccount

/-- `_iceDispatch`, of the interface of the servant. -/
def Servant.iceDispatch [Runtime] (reference : Reference) (servant : Servant σ)
    (current : Current) : DispatchM σ (Option (List UInt8)) :=
  match servant with
  | .accountsCreator obj => obj.iceDispatch reference current
  | .account obj => obj.iceDispatch current
  | .premiumAccount obj => obj.iceDispatch current

/-! ## What a dispatch does to the servants -/

/-- The code leaves the state of the servants, or does a step `R` to it, which may depend on
the bytes of the parameters. -/
def Steps {α : Type} (x : DispatchM σ α) (R : List UInt8 → σ → σ → Prop) : Prop :=
  ∀ s bs, (x.exec (s, bs)).2.1 = s ∨ R bs s (x.exec (s, bs)).2.1

/-- The mode passes the check: it is the one that is expected, or one that old clients send. -/
def Passes (expected received : OperationMode) : Prop :=
  received = expected ∨ expected = .idempotent ∧ received = .nonmutating

/-- What the check raises. -/
def unexpectedMode (expected received : OperationMode) : DispatchException :=
  .protocolException (.marshal ("unexpected operation mode. expected = " ++ expected.toString ++
    " received = " ++ received.toString))

theorem exec_iceCheckMode_of_passes {expected : Option OperationMode} {received : OperationMode}
    (h : Passes (expected.getD .normal) received) (s : σ × List UInt8) :
    (iceCheckMode expected received).exec s = (.ok (), s) := by
  unfold iceCheckMode
  rcases h with rfl | h
  · simp only [ne_eq, not_true_eq_false, if_false]
    rfl
  · simp only [if_pos h, ite_self]
    rfl

theorem exec_iceCheckMode_of_not_passes {expected : Option OperationMode}
    {received : OperationMode} (h : ¬ Passes (expected.getD .normal) received)
    (s : σ × List UInt8) : (iceCheckMode expected received).exec s =
      (.error (unexpectedMode (expected.getD .normal) received), s) := by
  obtain ⟨hne, hold⟩ := not_or.mp h
  simp only [iceCheckMode, if_pos (Ne.symm hne), if_neg hold]
  rfl

/-- The mode of a request is checked, or it is not. -/
theorem exec_checked_cases (mode : Option (Option OperationMode)) (received : OperationMode)
    (s : σ × List UInt8) :
    (mode.forM fun expected ↦ iceCheckMode expected received : DispatchM σ PUnit).exec s =
        (.ok ⟨⟩, s) ∨
      ∃ e, (mode.forM fun expected ↦ iceCheckMode expected received : DispatchM σ PUnit).exec s =
        (.error e, s) := by
  cases mode with
  | none => exact .inl rfl
  | some expected =>
      by_cases h : Passes (expected.getD .normal) received
      · exact .inl (exec_iceCheckMode_of_passes h s)
      · exact .inr ⟨_, exec_iceCheckMode_of_not_passes h s⟩

theorem exec_writeParams_cases (current : Current) (encoding : Encoding) (results : List UInt8)
    (s : σ × List UInt8) : ((writeParams current encoding results).exec s).2 = s := by
  unfold writeParams
  split <;> rfl

/-- A dispatch function calls its method once, with the parameters it has read, or not at
all. -/
theorem steps_iceD {α β : Type} (mode : Option (Option OperationMode))
    (params : InputStream (Encoding × α)) (method : α → Method σ β)
    (write : Encoding → β → List UInt8) (current : Current) :
    Steps (iceD mode params method write current) fun bs s s' ↦
      ∃ encoding a left, params.exec bs = (.ok (encoding, a), left) ∧
        s' = ((method a).exec s).2 := by
  intro s bs
  rcases exec_checked_cases mode current.mode (s, bs) with hmode | ⟨e, hmode⟩
  · rw [iceD, Code.exec_bind_of_ok hmode, Code.exec_bind, Code.exec_mapError, Code.exec_second]
    rcases hparams : params.exec bs with ⟨e | ⟨encoding, a⟩, bs'⟩
    · exact .inl rfl
    · refine .inr ⟨encoding, a, bs', hparams, ?_⟩
      change (Code.exec (Code.first (method a) >>= _) (s, bs')).2.1 = _
      rw [Code.exec_bind, Code.exec_first]
      rcases (method a).exec s with ⟨e | ret, s'⟩
      · rfl
      · exact congrArg Prod.fst (exec_writeParams_cases current encoding (write encoding ret) _)
  · rw [iceD, Code.exec_bind_of_error hmode]
    exact .inl rfl

/-- A dispatch function whose method only looks at the state leaves it. -/
theorem steps_iceD_of_reads {α β : Type} {mode : Option (Option OperationMode)}
    {params : InputStream (Encoding × α)} {method : α → Method σ β}
    {write : Encoding → β → List UInt8} {current : Current}
    (hmethod : ∀ a s, ((method a).exec s).2 = s) (R : List UInt8 → σ → σ → Prop) :
    Steps (iceD mode params method write current) R := by
  intro s bs
  rcases steps_iceD mode params method write current s bs with h | ⟨-, a, -, -, h⟩
  · exact .inl h
  · exact .inl (h.trans (hmethod a s))

theorem steps_ice_ping (current : Current) (R : List UInt8 → σ → σ → Prop) :
    Steps (Object.iceD_ice_ping current) R := by
  intro s bs
  rw [Object.iceD_ice_ping, Code.exec_bind, Code.exec_mapError, Code.exec_second]
  rcases readEmptyParams.exec bs with ⟨e | ⟨encoding, _⟩, bs'⟩
  · exact .inl rfl
  · change (Code.exec (writeEmptyParams current encoding) (s, bs')).2.1 = s ∨ _
    unfold writeEmptyParams
    split <;> exact .inl rfl

end StockBank.Demo
