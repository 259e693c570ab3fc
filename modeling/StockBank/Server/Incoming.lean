import StockBank.Demo.Stubs
import StockBank.Server.Registry

/-!
# The bank on the wire

`Incoming.invoke` over the servants of the bank: the front of a request is read, the servant
is looked up in the adapter, its interface dispatches the operation, and the reply is
written.  The bank has no servant locators, no default servants and no facets.

A message that is delivered is a list of bytes, whoever wrote it.  `serve_cases` says once
what any bytes can do to the bank: nothing, or one `createAccount` of the factory.
-/

namespace StockBank.Server

open Lib Bytes Ice Java

/-- What a dispatch meets when it is executed: the next two values of `Math.random()`, and the
rates of the poll thread. -/
structure Moment where
  balanceDraw : Random
  keyDraw : Random
  availableCurrencies : PMap Demo.Currency ℚ

/-! ## The servants -/

/-- `AccountsCreator`, as the dispatch calls it. -/
def factory (moment : Moment) : Demo.AccountsCreator Bank where
  createAccount firstName lastName PESEL declaredIncome := do
    return some (← Code.mapError .localException (createAccount firstName lastName PESEL
      declaredIncome moment.balanceDraw moment.keyDraw))
  getAccount PESEL := getAccount PESEL

namespace AccountServant

/-- The operations of `Account`, as the class of the servant has them. -/
def toObject (self : AccountServant) : Demo.Account Bank where
  getAccountStatus := return self.getAccountStatus
  isPremium := return self.isPremium

end AccountServant

/-- `PremiumAccount`, as the dispatch calls it. -/
def PremiumAccount.toObject (moment : Moment) (self : PremiumAccount) :
    Demo.PremiumAccount Bank where
  toAccount := (AccountServant.premiumAccount self).toObject
  getLoan currency value periodLength :=
    Code.mapError .nullPointerException (Code.ofExcept
      (self.getLoan moment.availableCurrencies currency value.toInt periodLength.toInt))

/-- A servant of the adapter, by the interface that it implements. -/
def Servant.toObject (moment : Moment) : Servant → Demo.Servant Bank
  | .accountsCreator => .accountsCreator (factory moment)
  | .account (.account self) => .account (AccountServant.account self).toObject
  | .account (.premiumAccount self) => .premiumAccount (self.toObject moment)

/-! ## What an operation can do -/

/-- The bytes are the parameters of this creation, and its draws are those of the moment. -/
def Moment.Asks [Runtime] (moment : Moment) (bs : List UInt8) (a : Creation) : Prop :=
  (∃ encoding left, (Demo.readParams Demo.AccountsCreator.readCreateAccount).exec bs =
    (.ok (encoding, a.firstName, a.lastName, a.pesel, a.declaredIncome), left)) ∧
  a.balanceDraw = moment.balanceDraw ∧ a.keyDraw = moment.keyDraw

/-- The step of the creation that the bytes ask for, refused or not. -/
def Creates [Runtime] (moment : Moment) (bs : List UInt8) (s s' : Bank) : Prop :=
  ∃ a, moment.Asks bs a ∧ s' = (dispatch (.createAccount a) s).2

/-- The creation that the parameters of `createAccount` ask for at this moment. -/
def Moment.creation (moment : Moment) (firstName lastName pesel : String)
    (declaredIncome : Demo.Money) : Creation :=
  ⟨firstName, lastName, pesel, declaredIncome, moment.balanceDraw, moment.keyDraw⟩

section

variable (moment : Moment) (firstName lastName pesel : String) (declaredIncome : Demo.Money)
  {s : Bank}

/-- The method of the factory does what a creation does, and raises where that raises. -/
theorem exec_factory_createAccount {result : Except LocalException Demo.CreatedAccount} {s' : Bank}
    (h : dispatch (.createAccount (moment.creation firstName lastName pesel declaredIncome)) s =
      (.createAccount result, s')) :
    ((factory moment).createAccount firstName lastName pesel declaredIncome).exec s =
      ((result.map some).mapError .localException, s') := by
  have hexec : (createAccount firstName lastName pesel declaredIncome moment.balanceDraw
      moment.keyDraw).exec s = (result, s') := by
    obtain ⟨hresult, hs⟩ := Prod.mk.inj h
    exact Prod.ext (Reply.createAccount.inj hresult) hs
  rw [factory, Code.exec_bind, Code.exec_mapError, hexec]
  cases result <;> rfl

theorem exec_factory_createAccount_of_not_refused
    (h : ¬ Refused (moment.creation firstName lastName pesel declaredIncome) s) :
    ((factory moment).createAccount firstName lastName pesel declaredIncome).exec s =
      (.ok (some (moment.creation firstName lastName pesel declaredIncome).entry),
        s.register (moment.creation firstName lastName pesel declaredIncome)) :=
  exec_factory_createAccount _ _ _ _ _ (dispatch_of_not_refused h)

theorem exec_factory_createAccount_of_refused
    (h : Refused (moment.creation firstName lastName pesel declaredIncome) s) :
    ∃ e, ((factory moment).createAccount firstName lastName pesel declaredIncome).exec s =
      (.error (.localException e), s) := by
  obtain ⟨e, he⟩ := dispatch_of_refused h
  exact ⟨e, exec_factory_createAccount _ _ _ _ _ he⟩

/-- The one method that writes. -/
theorem exec_factory_createAccount_snd (s : Bank) :
    (((factory moment).createAccount firstName lastName pesel declaredIncome).exec s).2 =
      (dispatch (.createAccount (moment.creation firstName lastName pesel declaredIncome)) s).2 := by
  by_cases h : Refused (moment.creation firstName lastName pesel declaredIncome) s
  · obtain ⟨e, he⟩ := dispatch_of_refused h
    rw [exec_factory_createAccount _ _ _ _ _ he, he]
  · rw [exec_factory_createAccount_of_not_refused _ _ _ _ _ h, dispatch_of_not_refused h]

end

theorem exists_premiumAccount {b : AccountServant} (h : b.isPremium = true) :
    ∃ self, b = .premiumAccount self := by
  cases b with
  | account self => cases h
  | premiumAccount self => exact ⟨self, rfl⟩

theorem mem_iceIds_premiumAccount (moment : Moment) (self : PremiumAccount) :
    "::Demo::PremiumAccount" ∈
      ((Servant.account (.premiumAccount self)).toObject moment).iceIds := by
  change _ ∈ Demo.PremiumAccount.iceIds
  decide

theorem exec_perform_getLoan (moment : Moment) (self : PremiumAccount) (currency : Demo.Currency)
    (value periodLength : Int32) (s : Bank) :
    (((Servant.account (.premiumAccount self)).toObject moment).perform
      (.getLoan currency value periodLength)).exec s =
        ((self.getLoan moment.availableCurrencies currency value.toInt periodLength.toInt).mapError
          .nullPointerException, s) := rfl

/-- A loan is returned by a premium account, at what it costs on the rates of the moment. -/
theorem premiumAccount_of_getLoan {moment : Moment} {servant : Servant} {s : Bank}
    {currency : Demo.Currency} {value periodLength : Int32} {cost : Double}
    (h : (((servant.toObject moment).perform (.getLoan currency value periodLength)).exec s).1 =
      .ok cost) :
    ∃ self, servant = .account (.premiumAccount self) ∧
      self.getLoan moment.availableCurrencies currency value.toInt periodLength.toInt =
        .ok cost := by
  rcases servant with _ | self | self
  · cases h
  · cases h
  · refine ⟨self, rfl, ?_⟩
    rw [exec_perform_getLoan] at h
    rcases hloan : self.getLoan moment.availableCurrencies currency value.toInt periodLength.toInt
      with e | cost'
    · rw [hloan] at h
      cases h
    · rw [hloan] at h
      cases h
      rfl

/-- A status is returned by an account, and is its balance. -/
theorem account_of_getAccountStatus {moment : Moment} {servant : Servant} {s : Bank}
    {m : Demo.Money}
    (h : (((servant.toObject moment).perform .getAccountStatus).exec s).1 = .ok m) :
    ∃ self, servant = .account self ∧ self.getAccountStatus = m := by
  rcases servant with _ | self | self
  · cases h
  · cases h
    exact ⟨_, rfl, rfl⟩
  · cases h
    exact ⟨_, rfl, rfl⟩

section

variable [Runtime] (reference : Reference) (moment : Moment) (current : Current)

theorem steps_iceD_createAccount :
    Demo.Steps ((factory moment).iceD_createAccount reference current) (Creates moment) := by
  unfold Demo.AccountsCreator.iceD_createAccount
  intro s bs
  refine (Demo.steps_iceD _ _ _ _ current s bs).imp_right ?_
  rintro ⟨encoding, ⟨firstName, lastName, pesel, declaredIncome⟩, left, hparams, h⟩
  refine ⟨moment.creation firstName lastName pesel declaredIncome,
    ⟨⟨encoding, left, hparams⟩, rfl, rfl⟩, h.trans ?_⟩
  exact exec_factory_createAccount_snd moment firstName lastName pesel declaredIncome s

theorem steps_factory :
    Demo.Steps ((factory moment).iceDispatch reference current) fun bs s s' ↦
      current.operation = "createAccount" ∧ Creates moment bs s s' := by
  unfold Demo.AccountsCreator.iceDispatch
  split
  · rename_i hpos
    have hoperation := getElem?_of_binarySearch (i := 0) hpos
    intro s bs
    exact (steps_iceD_createAccount reference moment current s bs).imp_right fun h ↦
      ⟨(Option.some.inj hoperation).symm, h⟩
  · exact Demo.steps_iceD_of_reads (fun _ _ ↦ rfl) _
  · exact Demo.steps_iceD_of_reads (fun _ _ ↦ rfl) _
  · exact Demo.steps_iceD_of_reads (fun _ _ ↦ rfl) _
  · exact Demo.steps_iceD_of_reads (fun _ _ ↦ rfl) _
  · exact Demo.steps_ice_ping _ _
  · exact fun _ _ ↦ .inl rfl

/-- An account only looks at the bank. -/
theorem steps_account (self : AccountServant) (R : List UInt8 → Bank → Bank → Prop) :
    Demo.Steps (self.toObject.iceDispatch current) R := by
  unfold Demo.Account.iceDispatch
  split
  · exact Demo.steps_iceD_of_reads (fun _ _ ↦ rfl) _
  · exact Demo.steps_iceD_of_reads (fun _ _ ↦ rfl) _
  · exact Demo.steps_iceD_of_reads (fun _ _ ↦ rfl) _
  · exact Demo.steps_iceD_of_reads (fun _ _ ↦ rfl) _
  · exact Demo.steps_ice_ping _ _
  · exact Demo.steps_iceD_of_reads (fun _ _ ↦ rfl) _
  · exact fun _ _ ↦ .inl rfl

theorem steps_premiumAccount (self : PremiumAccount) (R : List UInt8 → Bank → Bank → Prop) :
    Demo.Steps ((self.toObject moment).iceDispatch current) R := by
  unfold Demo.PremiumAccount.iceDispatch
  split
  · exact Demo.steps_iceD_of_reads (fun _ _ ↦ rfl) _
  · exact Demo.steps_iceD_of_reads (fun _ _ ↦ rfl) _
  · exact Demo.steps_iceD_of_reads (fun _ _ ↦ rfl) _
  · exact Demo.steps_iceD_of_reads (fun _ _ ↦ rfl) _
  · exact Demo.steps_iceD_of_reads (fun _ _ ↦ rfl) _
  · exact Demo.steps_ice_ping _ _
  · exact Demo.steps_iceD_of_reads (fun _ _ ↦ rfl) _
  · exact fun _ _ ↦ .inl rfl

/-- A dispatch leaves the bank, or it is one of `createAccount` on the factory. -/
theorem steps_iceDispatch (servant : Servant) :
    Demo.Steps ((servant.toObject moment).iceDispatch reference current) fun bs s s' ↦
      servant = .accountsCreator ∧ current.operation = "createAccount" ∧
        Creates moment bs s s' := by
  rcases servant with _ | self | self
  · intro s bs
    exact (steps_factory reference moment current s bs).imp_right fun h ↦ ⟨rfl, h⟩
  · exact steps_account current _ _
  · exact steps_premiumAccount moment current self _

end

/-! ## A request -/

/-- `ServantManager.findServant`: every servant is in the empty facet. -/
def Bank.findServant (s : Bank) (id : Identity) (facet : String) : Option Servant :=
  if facet = "" then s.adapter.find id else none

/-- `ServantManager.hasServant`. -/
def Bank.hasServant (s : Bank) (id : Identity) : Bool := (s.adapter.find id).isSome

theorem Bank.find_of_findServant {s : Bank} {id : Identity} {facet : String} {servant : Servant}
    (h : s.findServant id facet = some servant) :
    facet = "" ∧ s.adapter.find id = some servant := by
  rw [findServant] at h
  split at h
  · rename_i hfacet
    exact ⟨hfacet, h⟩
  · cases h

/-- `Incoming.completed`: the reply, when the request wants one. -/
def respond [StackTraces] (current : Current)
    (result : Except DispatchException (Option (List UInt8))) : Option (List UInt8) :=
  if current.response then
    match result with
    | .ok os => os
    | .error e => some (handleException current e)
  else
    none

section

variable [Runtime] [StackTraces] (reference : Reference)

/-- `Incoming.invoke`. -/
def invoke (moment : Moment) (requestId : Int32) (response : Bool) :
    Code FatalException (Bank × List UInt8) (Option (List UInt8)) := do
  let current ← Code.second (readCurrent requestId response)
  let s ← get
  match s.1.findServant current.id current.facet with
  | none =>
    let _ ← Code.mapError .protocolException (Code.second skipEncapsulation)
    if s.1.hasServant current.id then
      return respond current (.error .facetNotExist)
    else
      return respond current (.error .objectNotExist)
  | some servant =>
    let (result, s') := ((servant.toObject moment).iceDispatch reference current).exec s
    set s'
    return respond current result

/-- A request that is delivered: the bytes of the message after its header. -/
structure Delivery where
  moment : Moment
  /-- The message came over `udp`. -/
  datagram : Bool
  bytes : List UInt8

/-- `ConnectionI.parseMessage` and `ConnectionI.invokeAll`, for a request: it is answered unless
its id is zero or it came over `udp`. -/
def receive (delivery : Delivery) : Code FatalException (Bank × List UInt8)
    (Option (List UInt8)) := do
  let requestId ← Code.mapError .protocolException (Code.second readInt)
  invoke reference delivery.moment requestId (!delivery.datagram && requestId != 0)

/-- The bank as an object that serves one message at a time. -/
def serve : Object Bank Delivery (Except FatalException (Option (List UInt8))) :=
  fun delivery s ↦
    let (result, s') := (receive reference delivery).exec (s, delivery.bytes)
    (result, s'.1)

theorem serve_eq (delivery : Delivery) (s : Bank) :
    serve reference delivery s =
      (((receive reference delivery).exec (s, delivery.bytes)).1,
        ((receive reference delivery).exec (s, delivery.bytes)).2.1) := rfl

/-! ## What any bytes can do -/

/-- The bytes are a request for `createAccount` of the object with this identity, and this is
the creation that it asks for when it is dispatched. -/
def Delivery.Asks (delivery : Delivery) (id : Identity) (a : Creation) : Prop :=
  ∃ requestId bytes current left, readInt.exec delivery.bytes = (.ok requestId, bytes) ∧
    (readCurrent requestId (!delivery.datagram && requestId != 0)).exec bytes =
      (.ok current, left) ∧
    current.id = id ∧ current.facet = "" ∧ current.operation = "createAccount" ∧
    delivery.moment.Asks left a

/-- What is done with a request, once its front is read, is the dispatch of its servant. -/
theorem exec_invoke_of_current {moment : Moment} {requestId : Int32} {response : Bool}
    {current : Current} {s : Bank} {bs left : List UInt8}
    (hcurrent : (readCurrent requestId response).exec bs = (.ok current, left)) {servant : Servant}
    (hservant : s.findServant current.id current.facet = some servant) :
    (invoke reference moment requestId response).exec (s, bs) =
      (.ok (respond current
        (((servant.toObject moment).iceDispatch reference current).exec (s, left)).1),
        (((servant.toObject moment).iceDispatch reference current).exec (s, left)).2) := by
  have hread : (Code.second (readCurrent requestId response)).exec (s, bs) =
      (.ok current, (s, left)) := by
    rw [Code.exec_second, hcurrent]
  rw [invoke, Code.exec_bind_of_ok hread, Code.exec_get_bind, hservant]
  rfl

/-- Where there is no servant, the parameters are skipped. -/
theorem exec_invoke_of_none {moment : Moment} {requestId : Int32} {response : Bool}
    {current : Current} {s : Bank} {bs left rest : List UInt8} {encoding : EncodingVersion}
    (hcurrent : (readCurrent requestId response).exec bs = (.ok current, left))
    (hservant : s.findServant current.id current.facet = none)
    (hskip : skipEncapsulation.exec left = (.ok encoding, rest)) :
    (invoke reference moment requestId response).exec (s, bs) =
      (.ok (respond current
        (.error (if s.hasServant current.id then .facetNotExist else .objectNotExist))),
        (s, rest)) := by
  have hread : (Code.second (readCurrent requestId response)).exec (s, bs) =
      (.ok current, (s, left)) := by
    rw [Code.exec_second, hcurrent]
  have hparams : (Code.mapError FatalException.protocolException (Code.second skipEncapsulation)).exec
      (s, left) = (.ok encoding, (s, rest)) := by
    rw [Code.exec_mapError, Code.exec_second, hskip]
    rfl
  rw [invoke, Code.exec_bind_of_ok hread, Code.exec_get_bind, hservant]
  refine (Code.exec_bind_of_ok hparams _).trans ?_
  cases s.hasServant current.id <;> rfl

/-- A message leaves the bank, or its servant is found and its dispatch is what is done. -/
theorem serve_cases_dispatch (delivery : Delivery) (s : Bank) :
    (serve reference delivery s).2 = s ∨
      ∃ requestId bytes current left servant,
        readInt.exec delivery.bytes = (.ok requestId, bytes) ∧
        (readCurrent requestId (!delivery.datagram && requestId != 0)).exec bytes =
          (.ok current, left) ∧
        s.findServant current.id current.facet = some servant ∧
        serve reference delivery s =
          (.ok (respond current (((servant.toObject delivery.moment).iceDispatch reference
            current).exec (s, left)).1),
            (((servant.toObject delivery.moment).iceDispatch reference current).exec
              (s, left)).2.1) := by
  rw [serve_eq]
  rcases hid : readInt.exec delivery.bytes with ⟨e | requestId, bytes⟩
  · left
    rw [receive, Code.exec_bind, Code.exec_mapError, Code.exec_second, hid]
    rfl
  have hread : (Code.mapError FatalException.protocolException (Code.second readInt)).exec
      (s, delivery.bytes) = (.ok requestId, (s, bytes)) := by
    rw [Code.exec_mapError, Code.exec_second, hid]
    rfl
  rw [receive, Code.exec_bind_of_ok hread]
  rcases hcurrent : (readCurrent requestId (!delivery.datagram && requestId != 0)).exec bytes
    with ⟨e | current, left⟩
  · left
    rw [invoke, Code.exec_bind, Code.exec_second, hcurrent]
  cases hservant : s.findServant current.id current.facet with
  | none =>
      left
      rw [invoke, Code.exec_bind, Code.exec_second, hcurrent]
      simp only [Code.exec_get_bind, hservant]
      rw [Code.exec_bind, Code.exec_mapError, Code.exec_second]
      rcases skipEncapsulation.exec left with ⟨e | encoding, left'⟩
      · rfl
      · cases s.hasServant current.id <;> rfl
  | some servant =>
      rw [exec_invoke_of_current reference hcurrent hservant]
      exact .inr ⟨requestId, bytes, current, left, servant, rfl, hcurrent, hservant, rfl⟩

/-- **What any bytes can do** to the bank: nothing, or the creation that they ask the factory
for. -/
theorem serve_cases (delivery : Delivery) (s : Bank) :
    (serve reference delivery s).2 = s ∨
      ∃ id a, delivery.Asks id a ∧ s.adapter.find id = some .accountsCreator ∧
        (serve reference delivery s).2 = (dispatch (.createAccount a) s).2 := by
  rcases serve_cases_dispatch reference delivery s with
    h | ⟨requestId, bytes, current, left, servant, hid, hcurrent, hservant, h⟩
  · exact .inl h
  · rw [h]
    refine (steps_iceDispatch reference delivery.moment current servant s left).imp_right ?_
    rintro ⟨rfl, hoperation, a, ha, hstep⟩
    obtain ⟨hfacet, hfind⟩ := Bank.find_of_findServant hservant
    exact ⟨current.id, a, ⟨requestId, bytes, current, left, hid, hcurrent, rfl, hfacet,
      hoperation, ha⟩, hfind, hstep⟩

end

end StockBank.Server
