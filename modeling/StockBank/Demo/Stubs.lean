import StockBank.Demo.Dispatch

/-!
# The generated stubs

`AccountsCreatorPrx`, `AccountPrx` and `PremiumAccountPrx`, and the operations of every
proxy, as the classes generated from `slice/bank.ice` have them: an operation is written
with its parameters, and its results are read from the reply.

`Servant.perform` is the meaning of an operation: what it does when it is called on the
servant itself.  `Servant.iceDispatch_implements` says that the dispatch of what a stub writes
does just that, and writes what the stub reads: the stub and the dispatch were generated from
one interface, and the tables of the dispatch are in order.
-/

namespace StockBank.Demo

open Lib Bytes Java Ice

/-- An operation, with its parameters. -/
inductive Invocation
  | createAccount (firstName lastName pesel : String) (declaredIncome : Money)
  | getAccount (pesel : String)
  | getAccountStatus
  | isPremium
  | getLoan (currency : Currency) (value periodLength : Int32)
  | ice_id
  | ice_ids
  | ice_isA (id : String)
  | ice_ping
  deriving DecidableEq

namespace Invocation

def operation : Invocation → String
  | createAccount .. => "createAccount"
  | getAccount _ => "getAccount"
  | getAccountStatus => "getAccountStatus"
  | isPremium => "isPremium"
  | getLoan .. => "getLoan"
  | ice_id => "ice_id"
  | ice_ids => "ice_ids"
  | ice_isA _ => "ice_isA"
  | ice_ping => "ice_ping"

/-- The mode that the stub sends. -/
def mode : Invocation → OperationMode
  | createAccount .. | getAccount _ | isPremium | getLoan .. => .normal
  | getAccountStatus => .idempotent
  | ice_id | ice_ids | ice_isA _ | ice_ping => .nonmutating

/-- The dispatch of the operation checks the mode. -/
def Checked : Invocation → Prop
  | createAccount .. | getAccount _ | getAccountStatus | isPremium | getLoan .. => True
  | ice_id | ice_ids | ice_isA _ | ice_ping => False

/-- The modes that a request for the operation may have. -/
def Accepts (inv : Invocation) (received : OperationMode) : Prop :=
  inv.Checked → Passes inv.mode received

/-- The parameters, as the stub writes them. -/
def params (encoding : Encoding) : Invocation → List UInt8
  | createAccount firstName lastName pesel declaredIncome =>
    writeString firstName ++ (writeString lastName ++ (writeString pesel ++
      declaredIncome.ice_write encoding))
  | getAccount pesel => writeString pesel
  | getLoan currency value periodLength =>
    currency.ice_write encoding ++ (writeInt value ++ writeInt periodLength)
  | ice_isA id => writeString id
  | getAccountStatus | isPremium | ice_id | ice_ids | ice_ping => []

/-- What the method of the servant returns.  A record may be null. -/
def Returned : Invocation → Type
  | createAccount .. | getAccount _ => Option CreatedAccount
  | getAccountStatus => Money
  | isPremium | ice_isA _ => Bool
  | getLoan .. => Double
  | ice_id => String
  | ice_ids => List String
  | ice_ping => Unit

/-- What the stub returns. -/
def Received : Invocation → Type
  | createAccount .. | getAccount _ => CreatedAccount
  | getAccountStatus => Money
  | isPremium | ice_isA _ => Bool
  | getLoan .. => Double
  | ice_id => String
  | ice_ids => List String
  | ice_ping => Unit

/-- The results, as the dispatch writes them. -/
def results [Runtime] (reference : Reference) (encoding : Encoding) :
    (inv : Invocation) → inv.Returned → List UInt8
  | createAccount .., ret | getAccount _, ret => CreatedAccount.ice_write encoding reference ret
  | getAccountStatus, ret => Money.ice_write encoding ret
  | isPremium, ret | ice_isA _, ret => writeBool ret
  | getLoan .., ret => writeDouble ret
  | ice_id, ret => writeString ret
  | ice_ids, ret => writeStringSeq ret
  | ice_ping, _ => []

/-- The results, as the stub reads them. -/
def readResults [Runtime] (encoding : Encoding) : (inv : Invocation) → InputStream inv.Received
  | createAccount .. | getAccount _ => CreatedAccount.ice_read encoding
  | getAccountStatus => Money.ice_read encoding
  | isPremium | ice_isA _ => readBool
  | getLoan .. => readDouble
  | ice_id => readString
  | ice_ids => readStringSeq
  | ice_ping => (return () : InputStream Unit)

/-- `OutgoingAsync.markCompleted`: what the stub does with the rest of a reply. -/
def unmarshal [Runtime] (inv : Invocation) : InputStream inv.Received :=
  match inv with
  | ice_ping => do
    let _ ← skipEmptyEncapsulation
    return ()
  | inv => do
    let (_, ret) ← readEncapsulation fun encoding _ ↦ inv.readResults encoding
    return ret

/-- What arrives of what was returned. -/
def received : (inv : Invocation) → inv.Returned → inv.Received
  | createAccount .., ret | getAccount _, ret => CreatedAccount.received ret
  | getLoan .., ret => ret.nearest
  | getAccountStatus, ret => ret
  | isPremium, ret | ice_isA _, ret => ret
  | ice_id, ret => ret
  | ice_ids, ret => ret
  | ice_ping, ret => ret

/-- The numbers among the parameters are those of a Java `int`. -/
def IsInt : Invocation → Prop
  | createAccount _ _ _ declaredIncome => declaredIncome.IsInt
  | _ => True

/-- What is returned can be sent: its numbers are those of a Java `int`, and its proxies have
an identity. -/
def Sendable : (inv : Invocation) → inv.Returned → Prop
  | createAccount .., ret | getAccount _, ret => CreatedAccount.Named ret
  | getAccountStatus, ret => Money.IsInt ret
  | _, _ => True

/-- **The results are read back.** -/
theorem reads_results [Runtime] {reference : Reference} {encoding : Encoding} {inv : Invocation}
    {ret : inv.Returned} (h : Fits (inv.results reference encoding ret))
    (hret : inv.Sendable ret) :
    Reads (inv.readResults encoding) (inv.results reference encoding ret) (inv.received ret) := by
  cases inv with
  | createAccount | getAccount => exact reads_createdAccount h hret
  | getAccountStatus => exact reads_money encoding hret
  | isPremium | ice_isA => exact reads_readBool ret
  | getLoan => exact reads_readDouble ret
  | ice_id => exact reads_readString h
  | ice_ids => exact reads_readStringSeq h
  | ice_ping => exact Reads.pure ()

theorem reads_unmarshal [Runtime] {reference : Reference} {encoding : Encoding} {inv : Invocation}
    {ret : inv.Returned} (h : Fits (writeEncapsulation encoding (inv.results reference encoding ret)))
    (hret : inv.Sendable ret) :
    Reads inv.unmarshal (writeEncapsulation encoding (inv.results reference encoding ret))
      (inv.received ret) := by
  have hresults := reads_results h.body hret
  cases inv with
  | ice_ping => exact (reads_skipEmptyEncapsulation encoding).bind_last (Reads.pure ())
  | createAccount | getAccount | getAccountStatus | isPremium | getLoan | ice_id | ice_ids
  | ice_isA => exact (reads_readEncapsulation h fun rest ↦ hresults rest).bind_last (Reads.pure _)

end Invocation

/-! ## The meaning of an operation -/

namespace Servant

variable {σ : Type}

/-- `_iceIds`. -/
def iceIds : Servant σ → List String
  | accountsCreator _ => AccountsCreator.iceIds
  | account _ => Account.iceIds
  | premiumAccount _ => PremiumAccount.iceIds

def ice_staticId : Servant σ → String
  | accountsCreator _ => AccountsCreator.ice_staticId
  | account _ => Account.ice_staticId
  | premiumAccount _ => PremiumAccount.ice_staticId

/-- What an operation does on a servant, when the servant has it. -/
def perform (servant : Servant σ) (inv : Invocation) : Method σ inv.Returned :=
  match servant, inv with
  | accountsCreator obj, .createAccount firstName lastName pesel declaredIncome =>
    obj.createAccount firstName lastName pesel declaredIncome
  | accountsCreator obj, .getAccount pesel => obj.getAccount pesel
  | account obj, .getAccountStatus => obj.getAccountStatus
  | account obj, .isPremium => obj.isPremium
  | premiumAccount obj, .getAccountStatus => obj.getAccountStatus
  | premiumAccount obj, .isPremium => obj.isPremium
  | premiumAccount obj, .getLoan currency value periodLength =>
    obj.getLoan currency value periodLength
  | servant, .ice_id => (return servant.ice_staticId : Method σ String)
  | servant, .ice_ids => (return servant.iceIds : Method σ (List String))
  | servant, .ice_isA id => (return decide (id ∈ servant.iceIds) : Method σ Bool)
  | _, .ice_ping => (return () : Method σ Unit)
  | _, _ => throw .operationNotExist

end Servant

/-! ## The dispatch of an operation -/

section

variable {σ : Type}

/-- How the dispatch of an operation that has returned ends: a request that is not answered
has no results. -/
def Invocation.reply [Runtime] (reference : Reference) (encoding : Encoding) (current : Current)
    (inv : Invocation) (ret : inv.Returned) : Except DispatchException (Option (List UInt8)) :=
  if current.response then
    .ok (some (replyOk current.requestId
      (writeEncapsulation encoding (inv.results reference encoding ret))))
  else if inv = .ice_ping then
    .ok none
  else
    .error (.protocolException (.marshal "can't marshal out parameters for oneway dispatch"))

/-- The parameters that are there are read, and the state of the servants is not looked at. -/
theorem exec_params {α : Type} {params : InputStream α} {bs : List UInt8} {a : α}
    (h : Reads params bs a) (s : σ) (rest : List UInt8) :
    (Code.mapError DispatchException.protocolException (Code.second params)).exec (s, bs ++ rest) =
      (.ok a, (s, rest)) := by
  rw [Code.exec_mapError, Code.exec_second, h rest]
  rfl

/-- **What a dispatch function does**: when its parameters are there it calls its method, and
writes what that returns. -/
theorem exec_iceD {α β : Type} {mode : Option (Option OperationMode)}
    {params : InputStream (Encoding × α)} {method : α → Method σ β}
    {write : Encoding → β → List UInt8} {current : Current}
    (hmode : ∀ expected ∈ mode, Passes (expected.getD .normal) current.mode)
    {bs : List UInt8} {encoding : Encoding} {a : α}
    (h : Reads params bs (encoding, a)) (s : σ) (rest : List UInt8) :
    (iceD mode params method write current).exec (s, bs ++ rest) =
      match (method a).exec s with
      | (.ok ret, s') => (writeParams current encoding (write encoding ret)).exec (s', rest)
      | (.error e, s') => (.error e, (s', rest)) := by
  have hcheck : (mode.forM fun expected ↦ iceCheckMode expected current.mode : DispatchM σ PUnit).exec
      (s, bs ++ rest) = (.ok ⟨⟩, (s, bs ++ rest)) := by
    cases mode with
    | none => rfl
    | some expected => exact exec_iceCheckMode_of_passes (hmode expected rfl) _
  rw [iceD, Code.exec_bind_of_ok hcheck,
    Code.exec_bind_of_ok (exec_params h s rest), Code.exec_bind, Code.exec_first]
  rcases (method a).exec s with ⟨_ | ret, s'⟩ <;> rfl

/-- A dispatch function refuses a mode that does not pass, before it reads anything. -/
theorem exec_iceD_of_not_passes {α β : Type} {expected : Option OperationMode}
    {mode : OperationMode} {params : InputStream (Encoding × α)} {method : α → Method σ β}
    {write : Encoding → β → List UInt8} {current : Current}
    (h : ¬ Passes mode current.mode) (hexpected : expected.getD .normal = mode)
    (s : σ × List UInt8) :
    (iceD (some expected) params method write current).exec s =
      (.error (unexpectedMode mode current.mode), s) := by
  subst hexpected
  rw [iceD]
  exact Code.exec_bind_of_error (exec_iceCheckMode_of_not_passes h s) _

/-- The dispatch `d` of an operation, on the parameters that a stub writes, does what `method`
does, and replies. -/
def Dispatches [Runtime] (reference : Reference) (encoding : Encoding) (current : Current)
    (inv : Invocation) (d : DispatchM σ (Option (List UInt8))) (method : Method σ inv.Returned) :
    Prop :=
  ∀ s rest, ∃ left,
    d.exec (s, writeEncapsulation encoding (inv.params encoding) ++ rest) =
      match method.exec s with
      | (.ok ret, s') => (inv.reply reference encoding current ret, (s', left))
      | (.error e, s') => (.error e, (s', left))

variable [Runtime] {reference : Reference} {encoding : Encoding} {current : Current}
  {inv : Invocation}

/-- A dispatch function that reads the parameters of the stub, and writes its results. -/
theorem dispatches_iceD {α : Type} {mode : Option (Option OperationMode)}
    {params : InputStream (Encoding × α)} {method : α → Method σ inv.Returned} {a : α}
    (h : Reads params (writeEncapsulation encoding (inv.params encoding)) (encoding, a))
    (hmode : ∀ expected ∈ mode, Passes (expected.getD .normal) current.mode)
    (hping : inv ≠ .ice_ping) :
    Dispatches reference encoding current inv
      (iceD mode params method (fun encoding ↦ inv.results reference encoding) current)
      (method a) := by
  refine fun s rest ↦ ⟨rest, ?_⟩
  rw [exec_iceD hmode h]
  rcases (method a).exec s with ⟨e | ret, s'⟩
  · rfl
  · change (writeParams current encoding _).exec (s', rest) =
      (Invocation.reply reference encoding current inv ret, (s', rest))
    rw [writeParams, Invocation.reply]
    rw [if_neg hping]
    split <;> rfl

/-- An operation that the table does not have. -/
theorem dispatches_operationNotExist :
    Dispatches reference encoding current inv (throw .operationNotExist : DispatchM σ _)
      (throw .operationNotExist) :=
  fun _ _ ↦ ⟨_, rfl⟩

theorem reads_readParams {α : Type} {params : Encoding → InputStream α} {bs : List UInt8} {a : α}
    (h : Fits (writeEncapsulation encoding bs)) (hparams : Reads (params encoding) bs a) :
    Reads (readParams params) (writeEncapsulation encoding bs) (encoding, a) :=
  reads_readEncapsulation h fun rest ↦ hparams rest

omit [Runtime] in
theorem reads_readEmptyParams :
    Reads readEmptyParams (writeEncapsulation encoding []) (encoding, ()) :=
  (reads_skipEmptyEncapsulation encoding).map fun encoding ↦ (encoding, ())

/-! ### The operations of every object -/

theorem dispatches_ice_id (staticId : String) :
    Dispatches reference encoding current .ice_id (Object.iceD_ice_id staticId current)
      (return staticId : Method σ String) := by
  apply dispatches_iceD
  · exact reads_readEmptyParams
  · exact fun _ h ↦ absurd h (Option.not_mem_none _)
  · simp

theorem dispatches_ice_ids (iceIds : List String) :
    Dispatches reference encoding current .ice_ids (Object.iceD_ice_ids iceIds current)
      (return iceIds : Method σ (List String)) := by
  apply dispatches_iceD
  · exact reads_readEmptyParams
  · exact fun _ h ↦ absurd h (Option.not_mem_none _)
  · simp

/-- `ice_isA` is about the list of identifiers, when that is in order. -/
theorem dispatches_ice_isA {iceIds : List String} (hids : Searchable iceIds) {id : String}
    (h : Fits (writeEncapsulation encoding (writeString id))) :
    Dispatches reference encoding current (.ice_isA id) (Object.iceD_ice_isA iceIds current)
      (return decide (id ∈ iceIds) : Method σ Bool) := by
  have hisA : Object.ice_isA iceIds id = decide (id ∈ iceIds) :=
    decide_eq_decide.mpr (binarySearch_nonneg_iff hids)
  rw [← hisA]
  apply dispatches_iceD
  · exact reads_readParams h (reads_readString h.body)
  · exact fun _ h ↦ absurd h (Option.not_mem_none _)
  · simp

theorem dispatches_ice_ping :
    Dispatches reference encoding current .ice_ping (Object.iceD_ice_ping current)
      (return () : Method σ Unit) := by
  refine fun s rest ↦ ⟨rest, ?_⟩
  rw [Object.iceD_ice_ping]
  change Code.exec _ (s, writeEncapsulation encoding [] ++ rest) = _
  rw [Code.exec_bind_of_ok (exec_params reads_readEmptyParams s rest)]
  change (writeEmptyParams current encoding).exec (s, rest) =
    (Invocation.reply reference encoding current .ice_ping (), (s, rest))
  unfold writeEmptyParams Invocation.reply
  cases current.response <;> rfl

/-! ### The operations of the interfaces -/

theorem reads_readCreateAccount {firstName lastName pesel : String} {declaredIncome : Money}
    (h : Fits (Invocation.params encoding (.createAccount firstName lastName pesel declaredIncome)))
    (hint : declaredIncome.IsInt) :
    Reads (AccountsCreator.readCreateAccount encoding)
      (Invocation.params encoding (.createAccount firstName lastName pesel declaredIncome))
      (firstName, lastName, pesel, declaredIncome) :=
  (reads_readString h.left).bind ((reads_readString h.right.left).bind
    ((reads_readString h.right.right.left).bind ((reads_money encoding hint).map _)))

omit [Runtime] in
theorem reads_readGetLoan {currency : Currency} {value periodLength : Int32} :
    Reads (PremiumAccount.readGetLoan encoding)
      (Invocation.params encoding (.getLoan currency value periodLength))
      (currency, value, periodLength) :=
  (reads_currency encoding currency).bind ((reads_readInt value).bind ((reads_readInt _).map _))

omit [Runtime] in
theorem searchable_iceOps : Searchable AccountsCreator.iceOps ∧ Searchable Account.iceOps ∧
    Searchable PremiumAccount.iceOps := by
  decide

omit [Runtime] in
theorem searchable_iceIds (servant : Servant σ) : Searchable servant.iceIds := by
  cases servant with
  | accountsCreator => exact (by decide : Searchable AccountsCreator.iceIds)
  | account => exact (by decide : Searchable Account.iceIds)
  | premiumAccount => exact (by decide : Searchable PremiumAccount.iceIds)

/-- `_iceOps`. -/
def Servant.iceOps : Servant σ → List String
  | accountsCreator _ => AccountsCreator.iceOps
  | account _ => Account.iceOps
  | premiumAccount _ => PremiumAccount.iceOps

/-- An operation that the interface does not have is refused before its parameters are read. -/
theorem Servant.iceDispatch_of_not_mem (servant : Servant σ)
    (h : current.operation ∉ servant.iceOps) :
    servant.iceDispatch reference current = throw .operationNotExist := by
  obtain ⟨hcreator, haccount, hpremium⟩ := searchable_iceOps
  cases servant with
  | accountsCreator obj =>
      obtain ⟨n, hn⟩ := exists_binarySearch_negSucc hcreator h
      rw [iceDispatch, AccountsCreator.iceDispatch, hn]
      rfl
  | account obj =>
      obtain ⟨n, hn⟩ := exists_binarySearch_negSucc haccount h
      rw [iceDispatch, Account.iceDispatch, hn]
      rfl
  | premiumAccount obj =>
      obtain ⟨n, hn⟩ := exists_binarySearch_negSucc hpremium h
      rw [iceDispatch, PremiumAccount.iceDispatch, hn]
      rfl

/-- A request for the operation, in a mode that it may have. -/
structure Requests (current : Current) (inv : Invocation) : Prop where
  operation : current.operation = inv.operation
  mode : inv.Accepts current.mode

section

variable (hrequest : Requests current inv)

include hrequest

omit [Runtime] in
/-- What an operation checks is the mode of the stub. -/
theorem Requests.passes (hchecked : inv.Checked) {expected : Option OperationMode}
    (hexpected : expected.getD .normal = inv.mode) :
    ∀ e ∈ some expected, Passes (e.getD .normal) current.mode := by
  intro e he
  obtain rfl := Option.mem_some.mp he
  exact hexpected ▸ hrequest.mode hchecked

omit [Runtime] in
/-- Where the operation is in a table. -/
theorem Requests.position {ops : List String} (hsearch : Searchable ops) (i : ℕ)
    (hi : ops[i]? = some inv.operation) : Java.binarySearch ops current.operation = i := by
  rw [hrequest.operation]
  exact Java.binarySearch_eq_of_getElem? hsearch hi

theorem Servant.dispatches_absent (servant : Servant σ) (h : inv.operation ∉ servant.iceOps)
    (hperform : servant.perform inv = throw .operationNotExist) :
    Dispatches reference encoding current inv (servant.iceDispatch reference current)
      (servant.perform inv) := by
  rw [hperform, servant.iceDispatch_of_not_mem (hrequest.operation ▸ h)]
  exact dispatches_operationNotExist

variable (h : Fits (writeEncapsulation encoding (inv.params encoding))) (hint : inv.IsInt)

include h hint

theorem AccountsCreator.dispatches (obj : AccountsCreator σ) :
    Dispatches reference encoding current inv (obj.iceDispatch reference current)
      ((Servant.accountsCreator obj).perform inv) := by
  obtain ⟨hsearch, -, -⟩ := searchable_iceOps
  cases inv with
  | createAccount firstName lastName pesel declaredIncome =>
      rw [iceDispatch, hrequest.position hsearch 0 rfl]
      apply dispatches_iceD (a := (firstName, lastName, pesel, declaredIncome))
      · exact reads_readParams h (reads_readCreateAccount h.body hint)
      · exact hrequest.passes trivial rfl
      · simp
  | getAccount pesel =>
      rw [iceDispatch, hrequest.position hsearch 1 rfl]
      apply dispatches_iceD
      · exact reads_readParams h (reads_readString h.body)
      · exact hrequest.passes trivial rfl
      · simp
  | ice_id =>
      rw [iceDispatch, hrequest.position hsearch 2 rfl]
      exact dispatches_ice_id _
  | ice_ids =>
      rw [iceDispatch, hrequest.position hsearch 3 rfl]
      exact dispatches_ice_ids _
  | ice_isA id =>
      rw [iceDispatch, hrequest.position hsearch 4 rfl]
      exact dispatches_ice_isA (searchable_iceIds (.accountsCreator obj)) h
  | ice_ping =>
      rw [iceDispatch, hrequest.position hsearch 5 rfl]
      exact dispatches_ice_ping
  | getAccountStatus | isPremium | getLoan =>
      exact Servant.dispatches_absent hrequest (.accountsCreator obj)
        (by simp [Servant.iceOps, iceOps, Invocation.operation]) rfl

theorem Account.dispatches (obj : Account σ) :
    Dispatches reference encoding current inv (obj.iceDispatch current)
      ((Servant.account obj).perform inv) := by
  obtain ⟨-, hsearch, -⟩ := searchable_iceOps
  cases inv with
  | getAccountStatus =>
      rw [iceDispatch, hrequest.position hsearch 0 rfl]
      apply dispatches_iceD
      · exact reads_readEmptyParams
      · exact hrequest.passes trivial rfl
      · simp
  | ice_id =>
      rw [iceDispatch, hrequest.position hsearch 1 rfl]
      exact dispatches_ice_id _
  | ice_ids =>
      rw [iceDispatch, hrequest.position hsearch 2 rfl]
      exact dispatches_ice_ids _
  | ice_isA id =>
      rw [iceDispatch, hrequest.position hsearch 3 rfl]
      exact dispatches_ice_isA (searchable_iceIds (.account obj)) h
  | ice_ping =>
      rw [iceDispatch, hrequest.position hsearch 4 rfl]
      exact dispatches_ice_ping
  | isPremium =>
      rw [iceDispatch, hrequest.position hsearch 5 rfl]
      apply dispatches_iceD
      · exact reads_readEmptyParams
      · exact hrequest.passes trivial rfl
      · simp
  | createAccount | getAccount | getLoan =>
      exact Servant.dispatches_absent hrequest (.account obj)
        (by simp [Servant.iceOps, iceOps, Invocation.operation]) rfl

theorem PremiumAccount.dispatches (obj : PremiumAccount σ) :
    Dispatches reference encoding current inv (obj.iceDispatch current)
      ((Servant.premiumAccount obj).perform inv) := by
  obtain ⟨-, -, hsearch⟩ := searchable_iceOps
  cases inv with
  | getAccountStatus =>
      rw [iceDispatch, hrequest.position hsearch 0 rfl]
      apply dispatches_iceD
      · exact reads_readEmptyParams
      · exact hrequest.passes trivial rfl
      · simp
  | getLoan currency value periodLength =>
      rw [iceDispatch, hrequest.position hsearch 1 rfl]
      apply dispatches_iceD (a := (currency, value, periodLength))
      · exact reads_readParams h reads_readGetLoan
      · exact hrequest.passes trivial rfl
      · simp
  | ice_id =>
      rw [iceDispatch, hrequest.position hsearch 2 rfl]
      exact dispatches_ice_id _
  | ice_ids =>
      rw [iceDispatch, hrequest.position hsearch 3 rfl]
      exact dispatches_ice_ids _
  | ice_isA id =>
      rw [iceDispatch, hrequest.position hsearch 4 rfl]
      exact dispatches_ice_isA (searchable_iceIds (.premiumAccount obj)) h
  | ice_ping =>
      rw [iceDispatch, hrequest.position hsearch 5 rfl]
      exact dispatches_ice_ping
  | isPremium =>
      rw [iceDispatch, hrequest.position hsearch 6 rfl]
      apply dispatches_iceD
      · exact reads_readEmptyParams
      · exact hrequest.passes trivial rfl
      · simp
  | createAccount | getAccount =>
      exact Servant.dispatches_absent hrequest (.premiumAccount obj)
        (by simp [Servant.iceOps, iceOps, Invocation.operation]) rfl

/-- The dispatch does what the operation means, and replies with what it returns. -/
theorem Servant.dispatches (servant : Servant σ) :
    Dispatches reference encoding current inv (servant.iceDispatch reference current)
      (servant.perform inv) := by
  cases servant with
  | accountsCreator obj => exact obj.dispatches hrequest h hint
  | account obj => exact obj.dispatches hrequest h hint
  | premiumAccount obj => exact obj.dispatches hrequest h hint

end

/-! ### Modes that do not pass -/

/-- The dispatch of an operation, in a mode that it checks and that does not pass. -/
theorem Servant.iceDispatch_of_not_accepts (servant : Servant σ)
    (hop : current.operation = inv.operation) (hmem : current.operation ∈ servant.iceOps)
    (h : ¬ inv.Accepts current.mode) (s : σ × List UInt8) :
    (servant.iceDispatch reference current).exec s =
      (.error (unexpectedMode inv.mode current.mode), s) := by
  obtain ⟨hchecked, hpasses⟩ := Classical.not_imp.mp h
  obtain ⟨hcreator, haccount, hpremium⟩ := searchable_iceOps
  have hposition : ∀ {ops : List String}, Searchable ops → ∀ i : ℕ, ops[i]? = some inv.operation →
      Java.binarySearch ops current.operation = i :=
    fun hsearch i hi ↦ hop ▸ Java.binarySearch_eq_of_getElem? hsearch hi
  rw [hop] at hmem
  cases servant with
  | accountsCreator obj =>
      rw [iceDispatch, AccountsCreator.iceDispatch]
      cases inv with
      | createAccount =>
          rw [hposition hcreator 0 rfl]
          exact exec_iceD_of_not_passes hpasses rfl s
      | getAccount =>
          rw [hposition hcreator 1 rfl]
          exact exec_iceD_of_not_passes hpasses rfl s
      | getAccountStatus | isPremium | getLoan =>
          exact absurd hmem (by simp [iceOps, AccountsCreator.iceOps, Invocation.operation])
      | ice_id | ice_ids | ice_isA | ice_ping => exact hchecked.elim
  | account obj =>
      rw [iceDispatch, Account.iceDispatch]
      cases inv with
      | getAccountStatus =>
          rw [hposition haccount 0 rfl]
          exact exec_iceD_of_not_passes hpasses rfl s
      | isPremium =>
          rw [hposition haccount 5 rfl]
          exact exec_iceD_of_not_passes hpasses rfl s
      | createAccount | getAccount | getLoan =>
          exact absurd hmem (by simp [iceOps, Account.iceOps, Invocation.operation])
      | ice_id | ice_ids | ice_isA | ice_ping => exact hchecked.elim
  | premiumAccount obj =>
      rw [iceDispatch, PremiumAccount.iceDispatch]
      cases inv with
      | getAccountStatus =>
          rw [hposition hpremium 0 rfl]
          exact exec_iceD_of_not_passes hpasses rfl s
      | getLoan =>
          rw [hposition hpremium 1 rfl]
          exact exec_iceD_of_not_passes hpasses rfl s
      | isPremium =>
          rw [hposition hpremium 6 rfl]
          exact exec_iceD_of_not_passes hpasses rfl s
      | createAccount | getAccount =>
          exact absurd hmem (by simp [iceOps, PremiumAccount.iceOps, Invocation.operation])
      | ice_id | ice_ids | ice_isA | ice_ping => exact hchecked.elim

/-- **The dispatch implements the interface.**  What a stub writes is dispatched as the operation
that it means, and replied to with what that returns; an operation that the interface has, in
a mode that does not pass its check, and any other operation are refused, and change nothing. -/
theorem Servant.iceDispatch_implements (servant : Servant σ) (reference : Reference)
    (current : Current) :
    (∀ {encoding inv}, Requests current inv →
      Fits (writeEncapsulation encoding (inv.params encoding)) → inv.IsInt →
      Dispatches reference encoding current inv (servant.iceDispatch reference current)
        (servant.perform inv)) ∧
    (∀ {inv : Invocation}, current.operation = inv.operation → current.operation ∈ servant.iceOps →
      ¬ inv.Accepts current.mode → ∀ s bs,
        (servant.iceDispatch reference current).exec (s, bs) =
          (.error (unexpectedMode inv.mode current.mode), (s, bs))) ∧
    (current.operation ∉ servant.iceOps → ∀ s bs,
      (servant.iceDispatch reference current).exec (s, bs) =
        (.error .operationNotExist, (s, bs))) := by
  refine ⟨?_, ?_, ?_⟩
  · exact fun hrequest h hint ↦ servant.dispatches hrequest h hint
  · exact fun hop hmem h s bs ↦ servant.iceDispatch_of_not_accepts hop hmem h (s, bs)
  · intro h s bs
    rw [servant.iceDispatch_of_not_mem h]
    rfl

end

section

local instance : Runtime := sampleRuntime

/-- An account whose servant holds its balance as the state. -/
def balanceAccount : Account ℤ where
  getAccountStatus := do return ⟨.PLN, ← get⟩
  isPremium := return false

/-- A request for the status of that account. -/
def statusCurrent : Current :=
  ⟨⟨"44051401458", "standard"⟩, "", "getAccountStatus", .idempotent, PMap.empty, 1, true⟩

/-- That request is dispatched; in the normal mode it is refused. -/
theorem iceDispatch_implements_getAccountStatus :
    Dispatches sampleReference currentEncoding statusCurrent .getAccountStatus
      ((Servant.account balanceAccount).iceDispatch sampleReference statusCurrent)
      ((Servant.account balanceAccount).perform .getAccountStatus) ∧
    ((Servant.account balanceAccount).iceDispatch sampleReference
      { statusCurrent with mode := .normal }).exec (5, []) =
        (.error (unexpectedMode .idempotent .normal), (5, [])) := by
  have hfits : Fits (writeEncapsulation currentEncoding
      (Invocation.getAccountStatus.params currentEncoding)) :=
    lt_of_lt_of_le (show _ < 2 ^ 10 by decide +kernel) (by decide)
  have hop : statusCurrent.operation = Invocation.getAccountStatus.operation := rfl
  have hmode : ¬ Invocation.getAccountStatus.Accepts .normal := by
    intro h
    rcases h trivial with h | ⟨-, h⟩ <;> cases h
  constructor
  · exact ((Servant.account balanceAccount).iceDispatch_implements sampleReference
      statusCurrent).1 ⟨hop, fun _ ↦ .inl rfl⟩ hfits trivial
  · exact ((Servant.account balanceAccount).iceDispatch_implements sampleReference
      { statusCurrent with mode := .normal }).2.1 hop (by decide) hmode _ _

end

end StockBank.Demo
