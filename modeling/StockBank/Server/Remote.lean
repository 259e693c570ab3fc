import StockBank.Server.Incoming

/-!
# Calls over the wire

Two levels of the bank, connected in both directions.

* What a stub writes, the bank carries out as the call it stands for, and what the bank
  replies the stub reads as the outcome of that call (`remote_calls`).
* Whatever bytes are delivered, the bank is in a state that calls of its factory lead to
  (`serve_exec`), so what holds in every such state holds on the wire, where anyone can
  send anything.
-/

namespace StockBank.Server

open Lib Bytes Ice Java

/-- A request, as a stub makes it. -/
structure Request where
  id : Identity
  facet : String
  requestId : Int32
  ctx : List (String × String)
  encoding : Encoding
  inv : Demo.Invocation

namespace Request

/-- The bytes of the message, after its header. -/
def write (r : Request) : List UInt8 :=
  writeInt r.requestId ++ (prepare r.id r.facet r.inv.operation r.inv.mode r.ctx ++
    writeEncapsulation r.encoding (r.inv.params r.encoding))

/-- The current that the dispatch has of it. -/
def current (r : Request) (response : Bool) : Current :=
  ⟨r.id, r.facet, r.inv.operation, r.inv.mode, contextOf r.ctx, r.requestId, response⟩

/-- The call that the request stands for: the operation, on the servant itself. -/
def perform (moment : Moment) (r : Request) : Code DispatchException Bank r.inv.Returned := do
  let s ← get
  match s.findServant r.id r.facet with
  | none => if s.hasServant r.id then throw .facetNotExist else throw .objectNotExist
  | some servant => (servant.toObject moment).perform r.inv

theorem exec_perform_of_none {moment : Moment} {r : Request} {s : Bank}
    (h : s.findServant r.id r.facet = none) : (r.perform moment).exec s =
      (.error (if s.hasServant r.id then .facetNotExist else .objectNotExist), s) := by
  rw [perform, Code.exec_get_bind, h]
  cases s.hasServant r.id <;> rfl

theorem exec_perform_of_some {moment : Moment} {r : Request} {s : Bank} {servant : Servant}
    (h : s.findServant r.id r.facet = some servant) :
    (r.perform moment).exec s = ((servant.toObject moment).perform r.inv).exec s := by
  rw [perform, Code.exec_get_bind, h]

/-- The outcome of a call, as the stub returns it. -/
def outcome [Runtime] [StackTraces] (r : Request) (result : Except DispatchException r.inv.Returned) :
    Except ClientException r.inv.Received :=
  match result with
  | .ok ret => .ok (r.inv.received ret)
  | .error e => .error (e.received (r.current true))

/-- The request can be sent: it fits a buffer, and its numbers are those of a Java `int`. -/
structure Sendable (r : Request) : Prop where
  fits : Fits r.write
  isInt : r.inv.IsInt

end Request

/-! ## Who is in the adapter -/

/-- The identity under which `Server.start` has registered the factory. -/
def factoryIdentity : Identity := ⟨"accountfactory", "accfac"⟩

/-- The factory has one identity. -/
theorem eq_factoryIdentity {cs : List Call} {id : Identity}
    (h : (dispatch.exec cs start).adapter.find id = some .accountsCreator) :
    id = factoryIdentity := by
  revert h
  refine exec_invariant (I := fun s ↦ s.adapter.find id = some .accountsCreator →
    id = factoryIdentity) ?_ ?_
  · intro h
    by_contra hne
    cases (ObjectAdapter.find_insert_of_ne _ _ hne).symm.trans h
  · intro a s _ hs _ h
    rcases find_register h with ⟨-, hb⟩ | h
    · cases hb
    · exact hs h

/-- The servant of an account is that of a creation of the run. -/
theorem exists_creation_servant {cs : List Call} {i : Identity} {b : AccountServant}
    (h : (dispatch.exec cs start).adapter.find i = some (.account b)) :
    ∃ a, .createAccount a ∈ cs ∧ a.identity = i ∧ a.servant = b := by
  revert i b
  refine exec_invariant (I := fun s ↦ ∀ {i b}, s.adapter.find i = some (.account b) →
    ∃ a, .createAccount a ∈ cs ∧ a.identity = i ∧ a.servant = b)
    (fun h ↦ nomatch (find_start h).1) ?_
  intro a s ha hs _ i b h
  rcases find_register h with ⟨rfl, hb⟩ | h
  · exact ⟨a, ha, rfl, (Servant.account.inj hb).symm⟩
  · exact hs h

/-! ## What can be returned -/

/-- What the bank holds can be sent: proxies have an identity, and balances are numbers of a
Java `int`. -/
structure Sendable (s : Bank) : Prop where
  named : ∀ p, Demo.CreatedAccount.Named (s.createdAccounts.get p)
  isInt : ∀ {i b}, s.adapter.find i = some (.account b) → b.getAccountStatus.IsInt

theorem sendable_start : Sendable start where
  named _ _ h := nomatch h
  isInt h := nomatch (find_start h).1

theorem Creation.named_entry {a : Creation} (h : a.pesel ≠ "") :
    Demo.CreatedAccount.Named (some a.entry) := by
  rintro e he account haccount
  obtain rfl := Option.some.inj he
  rw [Creation.entry_account] at haccount
  obtain rfl := Option.some.inj haccount
  rw [Creation.cast_ident]
  exact h

theorem Creation.isInt_balance (a : Creation) : a.balance.IsInt := by
  obtain ⟨hlow, hhigh⟩ := a.balance_value
  constructor <;> omega

theorem Sendable.register {s : Bank} (hs : Sendable s) {a : Creation} (ha : ¬ Refused a s) :
    Sendable (s.register a) where
  named p := by
    rw [Bank.register_createdAccounts, PMap.get_put]
    split
    · exact Creation.named_entry fun hp ↦ ha (.inl hp)
    · exact hs.named p
  isInt h := by
    rcases find_register h with ⟨-, hb⟩ | h
    · cases hb
      rw [Creation.servant_getAccountStatus]
      exact a.isInt_balance
    · exact hs.isInt h

/-- What an operation of a bank that can be sent returns can be sent. -/
theorem sendable_returned {s s' : Bank} (hs : Sendable s) {moment : Moment} {servant : Servant}
    {id : Identity} (hservant : s.adapter.find id = some servant) {inv : Demo.Invocation}
    {ret : inv.Returned} (h : ((servant.toObject moment).perform inv).exec s = (.ok ret, s')) :
    inv.Sendable ret := by
  cases inv with
  | createAccount firstName lastName pesel declaredIncome =>
      rcases servant with _ | self | self
      · change ((factory moment).createAccount firstName lastName pesel declaredIncome).exec s = _
          at h
        by_cases hr : Refused (moment.creation firstName lastName pesel declaredIncome) s
        · obtain ⟨e, he⟩ := exec_factory_createAccount_of_refused _ _ _ _ _ hr
          rw [he] at h
          cases h
        · rw [exec_factory_createAccount_of_not_refused _ _ _ _ _ hr] at h
          cases h
          exact Creation.named_entry fun hp ↦ hr (.inl hp)
      · cases h
      · cases h
  | getAccount pesel =>
      rcases servant with _ | self | self
      · cases h
        exact hs.named pesel
      · cases h
      · cases h
  | getAccountStatus =>
      rcases servant with _ | self | self
      · cases h
      · cases h
        exact hs.isInt hservant
      · cases h
        exact hs.isInt hservant
  | isPremium | getLoan | ice_id | ice_ids | ice_isA | ice_ping => trivial

/-! ## A call over the wire -/

section

variable [Runtime] [StackTraces] (reference : Reference)

/-- How the bank replies to a call that the dispatch has made. -/
def Request.reply (r : Request) (response : Bool) (result : Except DispatchException r.inv.Returned) :
    Option (List UInt8) :=
  respond (r.current response)
    (result.bind (r.inv.reply reference r.encoding (r.current response)))

/-- A request that wants a reply has one. -/
theorem Request.exists_reply (r : Request) (result : Except DispatchException r.inv.Returned) :
    ∃ bytes, r.reply reference true result = some bytes := by
  cases result with
  | error e => exact ⟨_, rfl⟩
  | ok ret => exact ⟨_, rfl⟩

/-- **The bank carries out a request** as the call that it stands for. -/
theorem serve_write {r : Request} (hr : r.Sendable) (moment : Moment) (datagram : Bool) (s : Bank) :
    serve reference ⟨moment, datagram, r.write⟩ s =
      (.ok (r.reply reference (!datagram && r.requestId != 0) ((r.perform moment).exec s).1),
        ((r.perform moment).exec s).2) := by
  generalize hresponse : (!datagram && r.requestId != 0) = response
  have hid : (Code.mapError FatalException.protocolException (Code.second readInt)).exec
      (s, r.write) = (.ok r.requestId, (s, prepare r.id r.facet r.inv.operation r.inv.mode r.ctx ++
        writeEncapsulation r.encoding (r.inv.params r.encoding))) := by
    rw [Code.exec_mapError, Code.exec_second, Request.write, reads_readInt r.requestId _]
    rfl
  have hcurrent : (readCurrent r.requestId response).exec
      (prepare r.id r.facet r.inv.operation r.inv.mode r.ctx ++
        writeEncapsulation r.encoding (r.inv.params r.encoding)) =
          (.ok (r.current response), writeEncapsulation r.encoding (r.inv.params r.encoding)) :=
    reads_current hr.fits.right.left r.requestId response _
  rw [serve_eq, receive, Code.exec_bind_of_ok hid, hresponse]
  cases hservant : s.findServant r.id r.facet with
  | none =>
      have hskip := reads_skipEncapsulation hr.fits.right.right []
      rw [List.append_nil] at hskip
      rw [exec_invoke_of_none reference hcurrent hservant hskip, Request.exec_perform_of_none hservant]
      rfl
  | some servant =>
      have hdispatches : Demo.Dispatches reference r.encoding (r.current response) r.inv
          ((servant.toObject moment).iceDispatch reference (r.current response))
          ((servant.toObject moment).perform r.inv) :=
        Demo.Servant.dispatches ⟨rfl, fun _ ↦ .inl rfl⟩ hr.fits.right.right hr.isInt _
      obtain ⟨left, hleft⟩ := hdispatches s []
      rw [List.append_nil] at hleft
      rw [exec_invoke_of_current reference hcurrent hservant, hleft,
        Request.exec_perform_of_some hservant]
      rcases ((servant.toObject moment).perform r.inv).exec s with ⟨e | ret, s'⟩ <;> rfl

/-- What a reply says is what its stub returns. -/
theorem reads_reply {r : Request} {moment : Moment} {s s' : Bank} (hs : Sendable s)
    {result : Except DispatchException r.inv.Returned}
    (hperform : (r.perform moment).exec s = (result, s')) {bytes : List UInt8}
    (hreply : r.reply reference true result = some bytes) (hfits : Fits bytes) :
    Reads (readReply r.inv.unmarshal) bytes (r.requestId, r.outcome result) := by
  cases result with
  | error e =>
      obtain rfl := Option.some.inj hreply
      exact reads_handleException hfits
  | ok ret =>
      obtain rfl := Option.some.inj hreply
      have hret : r.inv.Sendable ret := by
        cases hservant : s.findServant r.id r.facet with
        | none =>
            rw [Request.exec_perform_of_none hservant] at hperform
            cases hperform
        | some servant =>
            rw [Request.exec_perform_of_some hservant] at hperform
            exact sendable_returned hs (Bank.find_of_findServant hservant).2 hperform
      exact reads_replyOk (Demo.Invocation.reads_unmarshal hfits.right.right hret)

/-! ## Runs -/

/-- The bank on the level of calls: a request does what it stands for. -/
def call : Object Bank (Moment × Request) (Σ r : Request, Except DispatchException r.inv.Returned) :=
  fun p s ↦ (⟨p.2, ((p.2.perform p.1).exec s).1⟩, ((p.2.perform p.1).exec s).2)

/-- A request that is sent over `tcp`. -/
def deliver (p : Moment × Request) : Delivery := ⟨p.1, false, p.2.write⟩

/-- The reply tells the caller the outcome, and which request it is of.  A request with the id
zero wants no reply. -/
def Tells (reply : Except FatalException (Option (List UInt8)))
    (p : Σ r : Request, Except DispatchException r.inv.Returned) : Prop :=
  ∃ os, reply = .ok os ∧ (p.1.requestId = 0 → os = none) ∧
    (p.1.requestId ≠ 0 → ∃ bytes, os = some bytes ∧
      (Fits bytes → Reads (readReply p.1.inv.unmarshal) bytes (p.1.requestId, p.1.outcome p.2)))

/-- Whatever is delivered, what the bank holds can be sent. -/
theorem Sendable.serve {s : Bank} (hs : Sendable s) (delivery : Delivery) :
    Sendable (serve reference delivery s).2 := by
  rcases serve_cases reference delivery s with h | ⟨-, a, -, -, h⟩
  · rwa [h]
  · rw [h]
    by_cases ha : Refused a s
    · obtain ⟨e, he⟩ := dispatch_of_refused ha
      rwa [he]
    · rw [dispatch_of_not_refused ha]
      exact hs.register ha

/-- One call. -/
theorem serve_deliver {s : Bank} (hs : Sendable s) {p : Moment × Request} (hp : p.2.Sendable) :
    (serve reference (deliver p) s).2 = (call p s).2 ∧
      Tells (serve reference (deliver p) s).1 (call p s).1 := by
  have hserve := serve_write reference hp p.1 false s
  rw [Bool.not_false, Bool.true_and] at hserve
  refine ⟨congrArg Prod.snd hserve, _, congrArg Prod.fst hserve, ?_, ?_⟩
  · intro (h : p.2.requestId = 0)
    rw [h]
    rfl
  intro (h : p.2.requestId ≠ 0)
  rw [bne_iff_ne.mpr h]
  obtain ⟨bytes, hbytes⟩ := p.2.exists_reply reference ((p.2.perform p.1).exec s).1
  exact ⟨bytes, hbytes, reads_reply reference hs rfl hbytes⟩

/-- In the reply the stub of `r` reads that the operation has returned `x`. -/
def Reports (r : Request) (reply : Except FatalException (Option (List UInt8)))
    (x : r.inv.Received) : Prop :=
  ∃ bytes requestId left, reply = .ok (some bytes) ∧ Fits bytes ∧
    (readReply r.inv.unmarshal).exec bytes = (.ok (requestId, .ok x), left)

/-- What the stub reads in the reply is what the operation has returned. -/
theorem Reports.of_tells {r : Request} {reply : Except FatalException (Option (List UInt8))}
    {result : Except DispatchException r.inv.Returned} {x : r.inv.Received}
    (h : Reports r reply x) (htells : Tells reply ⟨r, result⟩) :
    ∃ ret, result = .ok ret ∧ r.inv.received ret = x := by
  obtain ⟨bytes, requestId, left, rfl, hfits, hread⟩ := h
  obtain ⟨os, hos, hzero, hreply⟩ := htells
  obtain rfl := Except.ok.inj hos
  have hne : r.requestId ≠ 0 := fun h₀ ↦ nomatch hzero h₀
  obtain ⟨bytes', hbytes, hreads⟩ := hreply hne
  obtain rfl := Option.some.inj hbytes
  have hsame := hread.symm.trans (hreads hfits).exec
  cases result with
  | error e => cases hsame
  | ok ret =>
      cases hsame
      exact ⟨ret, rfl, rfl⟩

/-- What a stub reports, a servant of the bank has returned. -/
theorem Reports.performed {s : Bank} (hs : Sendable s) {moment : Moment} {r : Request}
    (hr : r.Sendable) {x : r.inv.Received}
    (h : Reports r (serve reference (deliver (moment, r)) s).1 x) :
    ∃ servant ret, s.adapter.find r.id = some servant ∧
      (((servant.toObject moment).perform r.inv).exec s).1 = .ok ret ∧ r.inv.received ret = x := by
  obtain ⟨ret, hret, hx⟩ := h.of_tells (serve_deliver reference hs (p := (moment, r)) hr).2
  cases hservant : s.findServant r.id r.facet with
  | none =>
      rw [Request.exec_perform_of_none hservant] at hret
      cases hret
  | some servant =>
      rw [Request.exec_perform_of_some hservant] at hret
      exact ⟨servant, ret, (Bank.find_of_findServant hservant).2, hret, hx⟩

/-- What a servant of the bank returns, the stub reports, if the reply fits a buffer. -/
theorem reports_of_performed {s : Bank} (hs : Sendable s) {moment : Moment} {r : Request}
    (hr : r.Sendable) (hid : r.requestId ≠ 0) {ret : r.inv.Returned}
    (h : ((r.perform moment).exec s).1 = .ok ret)
    (hfits : Fits (replyOk r.requestId
      (writeEncapsulation r.encoding (r.inv.results reference r.encoding ret)))) :
    Reports r (serve reference (deliver (moment, r)) s).1 (r.inv.received ret) := by
  obtain ⟨os, hos, -, hreply⟩ := (serve_deliver reference hs (p := (moment, r)) hr).2
  obtain ⟨bytes, rfl, hreads⟩ := hreply hid
  have hserve := congrArg Prod.fst (serve_write reference hr moment false s)
  rw [h, Bool.not_false, Bool.true_and, bne_iff_ne.mpr hid] at hserve
  have hbytes : replyOk r.requestId
      (writeEncapsulation r.encoding (r.inv.results reference r.encoding ret)) = bytes :=
    Option.some.inj (Except.ok.inj (hserve.symm.trans hos))
  rw [hbytes] at hfits
  have houtcome : r.outcome (call (moment, r) s).1.2 = .ok (r.inv.received ret) := by
    change r.outcome ((r.perform moment).exec s).1 = _
    rw [h]
    rfl
  refine ⟨bytes, r.requestId, [], hos, hfits, ?_⟩
  rw [← houtcome]
  exact (hreads hfits).exec

/-- **Calls over the wire are calls on the servants.**  However many requests the stubs have
sent, the bank is in the state that the calls lead to, and every reply is read as the outcome
of its call. -/
theorem remote_calls {l : List (Moment × Request)} (hl : ∀ p ∈ l, p.2.Sendable) :
    (serve reference).exec (l.map deliver) start = call.exec l start ∧
      List.Forall₂ (fun delivered called ↦ Tells delivered.2 called.2)
        ((serve reference).served (l.map deliver) start) (call.served l start) := by
  have hrun : ∀ s, Sendable s → (serve reference).exec (l.map deliver) s = call.exec l s ∧
      List.Forall₂ (fun delivered called ↦ Tells delivered.2 called.2)
        ((serve reference).served (l.map deliver) s) (call.served l s) := by
    induction l with
    | nil => exact fun s _ ↦ ⟨rfl, .nil⟩
    | cons p l ih =>
        intro s hs
        obtain ⟨hstate, htells⟩ := serve_deliver reference hs (hl p List.mem_cons_self)
        have hnext := ih (fun q hq ↦ hl q (List.mem_cons_of_mem _ hq)) (call p s).2
          (hstate ▸ hs.serve reference (deliver p))
        rw [List.map_cons, Object.exec_cons, Object.exec_cons, Object.served, Object.served, hstate]
        exact ⟨hnext.1, .cons htells hnext.2⟩
  exact hrun start sendable_start

end

section

local instance : Runtime := sampleRuntime

local instance sampleStackTraces : StackTraces where
  printStackTrace _ := ""

/-- A moment at which both draws are zero, before the first rate. -/
def sampleMoment : Moment where
  balanceDraw := Random.zero
  keyDraw := Random.zero
  availableCurrencies := (PMap.empty.put .EUR 0).put .USD 0

/-- A request for a premium account. -/
abbrev createRequest : Request :=
  ⟨factoryIdentity, "", 1, [], currentEncoding,
    .createAccount "Jan" "Kowalski" "44051401458" ⟨.PLN, 1500⟩⟩

/-- A request for a loan of that account. -/
abbrev loanRequest : Request :=
  ⟨⟨"44051401458", "premium"⟩, "", 2, [], currentEncoding, .getLoan .EUR 1000 10⟩

/-- A request for its balance. -/
abbrev statusRequest : Request :=
  ⟨⟨"44051401458", "premium"⟩, "", 3, [], currentEncoding, .getAccountStatus⟩

theorem sendable_createRequest : createRequest.Sendable where
  fits := lt_of_lt_of_le (show createRequest.write.length < 2 ^ 10 by decide +kernel) (by decide)
  isInt := by constructor <;> decide

theorem sendable_loanRequest : loanRequest.Sendable where
  fits := lt_of_lt_of_le (show loanRequest.write.length < 2 ^ 10 by decide +kernel) (by decide)
  isInt := trivial

theorem sendable_statusRequest : statusRequest.Sendable where
  fits := lt_of_lt_of_le (show statusRequest.write.length < 2 ^ 10 by decide +kernel) (by decide)
  isInt := trivial

/-- A creation, a loan of the account and a request for its balance. -/
abbrev sampleCalls : List (Moment × Request) :=
  [(sampleMoment, createRequest), (sampleMoment, loanRequest), (sampleMoment, statusRequest)]

/-- These calls over the wire, and what their replies tell. -/
theorem remote_calls_sample :
    (serve sampleReference).exec (sampleCalls.map deliver) start = call.exec sampleCalls start ∧
      List.Forall₂ (fun delivered called ↦ Tells delivered.2 called.2)
        ((serve sampleReference).served (sampleCalls.map deliver) start)
        (call.served sampleCalls start) := by
  refine remote_calls sampleReference (l := sampleCalls) fun p hp ↦ ?_
  rcases List.mem_cons.mp hp with rfl | hp
  · exact sendable_createRequest
  rcases List.mem_cons.mp hp with rfl | hp
  · exact sendable_loanRequest
  · obtain rfl := List.mem_singleton.mp hp
    exact sendable_statusRequest

end

section

variable [Runtime] [StackTraces] (reference : Reference)

/-! ## Messages of any origin -/

/-- Whatever is delivered, the bank goes on to a state that calls of its factory lead to.  The
creations are those that some of the messages have asked the factory for, in the order of the
messages. -/
theorem serve_exec_from (before : List Call) (ds : List Delivery) :
    ∃ cs : List (Delivery × Creation), (cs.map Prod.fst).Sublist ds ∧
      (∀ p ∈ cs, p.1.Asks factoryIdentity p.2) ∧
      (serve reference).exec ds (dispatch.exec before start) =
        dispatch.exec (cs.map fun p ↦ .createAccount p.2) (dispatch.exec before start) := by
  induction ds using List.reverseRecOn with
  | nil => exact ⟨[], .slnil, fun _ h ↦ absurd h List.not_mem_nil, rfl⟩
  | append_singleton ds delivery ih =>
      obtain ⟨cs, hsub, hasks, hexec⟩ := ih
      rw [Object.exec_append, Object.exec_cons, Object.exec_nil]
      rcases serve_cases reference delivery
        ((serve reference).exec ds (dispatch.exec before start)) with h | ⟨id, a, ha, hfind, h⟩
      · exact ⟨cs, hsub.trans (List.sublist_append_left ds [delivery]), hasks, h.trans hexec⟩
      · rw [hexec, ← Object.exec_append] at hfind
        obtain rfl := eq_factoryIdentity hfind
        refine ⟨cs ++ [(delivery, a)], ?_, ?_, ?_⟩
        · rw [List.map_append]
          exact hsub.append (List.Sublist.refl [delivery])
        · intro p hp
          rcases List.mem_append.mp hp with hp | hp
          · exact hasks p hp
          · obtain rfl := List.mem_singleton.mp hp
            exact ha
        · rw [h, hexec, List.map_append, Object.exec_append]
          rfl

theorem serve_exec (ds : List Delivery) :
    ∃ cs : List (Delivery × Creation), (cs.map Prod.fst).Sublist ds ∧
      (∀ p ∈ cs, p.1.Asks factoryIdentity p.2) ∧
      (serve reference).exec ds start =
        dispatch.exec (cs.map fun p ↦ .createAccount p.2) start :=
  serve_exec_from reference [] ds

omit [Runtime] [StackTraces] in
/-- A creation that was asked for, among the calls that it led to. -/
theorem exists_of_mem_calls {cs : List (Delivery × Creation)} {a : Creation}
    (h : .createAccount a ∈ cs.map fun p ↦ Call.createAccount p.2) : ∃ p ∈ cs, p.2 = a := by
  obtain ⟨p, hp, heq⟩ := List.mem_map.mp h
  exact ⟨p, hp, Call.createAccount.inj heq⟩

omit [Runtime] [StackTraces] in
/-- The servant of an account is that of a creation that was asked for. -/
theorem exists_asked_servant {cs : List (Delivery × Creation)} {id : Identity} {b : AccountServant}
    (h : (dispatch.exec (cs.map fun p ↦ .createAccount p.2) start).adapter.find id =
      some (.account b)) : ∃ p ∈ cs, p.2.identity = id ∧ p.2.servant = b := by
  obtain ⟨a, ha, hid, hservant⟩ := exists_creation_servant h
  obtain ⟨p, hp, rfl⟩ := exists_of_mem_calls ha
  exact ⟨p, hp, hid, hservant⟩

/-- **Whatever is delivered, the bank is sound**: its accounts are those of creations that some
of the messages have asked the factory for, and an entry agrees with the servant of the creation
that it is of. -/
theorem served_sound (ds : List Delivery) :
    ∃ cs : List (Delivery × Creation), (cs.map Prod.fst).Sublist ds ∧
      (∀ p ∈ cs, p.1.Asks factoryIdentity p.2) ∧
      (serve reference).exec ds start =
        dispatch.exec (cs.map fun p ↦ .createAccount p.2) start ∧
      ServantsKept ((serve reference).exec ds start) ∧
      (∀ id b, ((serve reference).exec ds start).adapter.find id = some (.account b) →
        ∃ p ∈ cs, p.2.identity = id ∧ p.2.servant = b) ∧
      ∀ pesel e, ((serve reference).exec ds start).createdAccounts.get pesel = some e →
        ∃ p ∈ cs, p.2.pesel = pesel ∧ Agrees ((serve reference).exec ds start) pesel e
          p.2.declaredIncome (category p.2.premium) p.2.servant := by
  obtain ⟨cs, hsub, hasks, hexec⟩ := serve_exec reference ds
  refine ⟨cs, hsub, hasks, hexec, hexec ▸ servantsKept _, ?_, ?_⟩
  · intro id b hb
    rw [hexec] at hb
    exact exists_asked_servant hb
  · intro pesel e he
    rw [hexec] at he
    obtain ⟨before, a, after, hcs, hpesel, -, -, hagrees⟩ := agrees_of_entry he
    obtain ⟨p, hp, rfl⟩ := exists_of_mem_calls
      (hcs ▸ List.mem_append_right before List.mem_cons_self)
    rw [hexec]
    exact ⟨p, hp, hpesel, hagrees⟩

/-- The message has raised an exception that its dispatch does not handle. -/
def isFatal (reply : Except FatalException (Option (List UInt8))) : Bool :=
  match reply with
  | .error _ => true
  | .ok _ => false

/-- Such a message leaves the bank. -/
theorem serve_of_isFatal (delivery : Delivery) (s : Bank)
    (h : isFatal (serve reference delivery s).1 = true) : (serve reference delivery s).2 = s := by
  rcases serve_cases_dispatch reference delivery s with
    hs | ⟨requestId, bytes, current, left, servant, -, -, -, hs⟩
  · exact hs
  · rw [hs] at h
    cases h

/-- A servant stays where it is, whatever is delivered. -/
theorem find_serve_exec {s : Bank} {i : Identity} {x : Servant} (h : s.adapter.find i = some x)
    (ds : List Delivery) : ((serve reference).exec ds s).adapter.find i = some x := by
  refine Object.exec_invariant (I := fun s : Bank ↦ s.adapter.find i = some x) ?_ h ds
  intro delivery s hs
  rcases serve_cases reference delivery s with hstep | ⟨-, a, -, -, hstep⟩
  · rwa [hstep]
  · rw [hstep]
    exact find_exec hs [.createAccount a]

/-- **Every account on the wire was asked for**: its servant is that of a creation which one of
the messages has asked the factory for. -/
theorem asked_of_find {ds : List Delivery} {id : Identity} {b : AccountServant}
    (h : ((serve reference).exec ds start).adapter.find id = some (.account b)) :
    ∃ delivery ∈ ds, ∃ a, delivery.Asks factoryIdentity a ∧ a.identity = id ∧ a.servant = b := by
  obtain ⟨cs, hsub, hasks, hexec⟩ := serve_exec reference ds
  rw [hexec] at h
  obtain ⟨⟨delivery, a⟩, hmem, hid, hservant⟩ := exists_asked_servant h
  exact ⟨delivery, hsub.mem (List.mem_map.mpr ⟨_, hmem, rfl⟩), a, hasks _ hmem, hid, hservant⟩

end

end StockBank.Server
