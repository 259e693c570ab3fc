import StockBank.Ice.Connection
import StockBank.Server.Remote

/-!
# The endpoints of the bank

`Server.start` opens two endpoints.  Over `tcp` every client has a stream of bytes, which comes
in pieces; over `udp` every packet is a message.  The messages are dispatched as they are
complete, on a bank that all clients share.  One is dispatched at a time, as by the one thread
that the pool of the server has by default.  What takes time is not part of the model: a connection
may be closed at any point, for a timeout or because it is lost.

* Whatever arrives, each stream is cut into messages of its own, and what the bank does with them
  it does by deliveries of single requests (`arrivals_served`), so what holds for those holds at the
  endpoints.
* A request that raises an exception which the dispatch does not handle closes its connection, and
  is nothing to the bank and to the other clients (`fatal_closes_connection`).
* Where the clients send requests, the bank carries out the requests of all, each client's in its
  order, however the streams are cut and in whatever order the pieces arrive; where a connection
  is closed it is a first part of the requests (`requests_over_tcp`).
-/

namespace StockBank.Server

open Lib Bytes Ice

/-- The bank that the dispatches of the clients `κ` share. -/
structure Dispatching (κ : Type) where
  bank : Bank
  /-- How many requests have been dispatched. -/
  dispatched : ℕ
  /-- The replies that have been sent, and to whom. -/
  sent : List (κ × List UInt8)

/-- The endpoints. -/
structure Endpoints (κ : Type) where
  tcp : κ → Framing.Connection ConnectionException
  /-- The exception that has closed the endpoint. -/
  udp : Option ConnectionException
  dispatching : Dispatching κ

def Endpoints.start {κ : Type} (messageSizeMax : Int32) : Endpoints κ where
  tcp _ := .start (framing messageSizeMax)
  udp := none
  dispatching := ⟨Server.start, 0, []⟩

inductive Arrival (κ : Type)
  | /-- A piece of the stream of a client; or its end, which is a timeout (`ConnectionI.timedOut`)
    or the loss of the connection. -/
    stream (event : Framing.StreamEvent κ ConnectionException)
  | /-- A packet, of anyone. -/
    packet (bytes : List UInt8)

section

variable {κ : Type} [Runtime] [StackTraces] (reference : Reference) (moments : ℕ → Moment)

/-- What is sent to a client for a request that has been dispatched. -/
def reply (k : Option κ) (result : Except FatalException (Option (List UInt8))) :
    List (κ × List UInt8) :=
  match k, result with
  | some k, .ok (some os) => [(k, writeMessage replyMsg os)]
  | _, _ => []

/-- `ConnectionI.invokeAll`, for a client or a packet.  An exception that is not one of Ice ends
it too, but it is the thread pool that handles it, and the connection goes on. -/
def invokeAll (k : Option κ) (requestId : Int32) :
    ℕ → List UInt8 → Code ConnectionException (Dispatching κ) Unit
  | 0, _ => return ()
  | invokeNum + 1, stream => do
    let s ← get
    let (result, bank, stream) :=
      (invoke reference (moments s.dispatched) requestId (k.isSome && requestId != 0)).exec
        (s.bank, stream)
    set (⟨bank, s.dispatched + 1, s.sent ++ reply k result⟩ : Dispatching κ)
    match result with
    | .ok _ => invokeAll k requestId invokeNum stream
    | .error (.protocolException e) => throw (.protocolException e)
    | .error .arrayIndexOutOfBoundsException => return ()

/-- A message that is complete. -/
def handle (k : Option κ) (message : List UInt8) :
    Code ConnectionException (Dispatching κ) Unit :=
  match parseMessage.exec message with
  | (.error e, _) => throw e
  | (.ok info, stream) => invokeAll reference moments k info.requestId info.invokeNum stream

variable (messageSizeMax : Int32)

/-- A packet: what is wrong with the message does not matter to the endpoint, but an exception
of its dispatch does. -/
def Endpoints.receivePacket (s : Endpoints κ) (bytes : List UInt8) : Endpoints κ :=
  if s.udp.isSome ∨ bytes.length < headerSize then s
  else
    match ((readHeader messageSizeMax).exec bytes).1 with
    | .error _ => s
    | .ok size =>
      if bytes.length < size then s
      else
        match parseMessage.exec bytes with
        | (.error _, _) => s
        | (.ok info, stream) =>
          match (invokeAll reference moments none info.requestId info.invokeNum stream).exec
            s.dispatching with
          | (.ok _, dispatching) => { s with dispatching }
          | (.error e, dispatching) => { s with udp := some e, dispatching }

def Endpoints.arrive [DecidableEq κ] (s : Endpoints κ) : Arrival κ → Endpoints κ
  | .stream event =>
    let (tcp, dispatching) := (framing messageSizeMax).step
      (fun k ↦ handle reference moments (some k)) (s.tcp, s.dispatching) event
    { s with tcp, dispatching }
  | .packet bytes => s.receivePacket reference moments messageSizeMax bytes

/-! ## Anything that arrives -/

/-- A request of a message is a delivery of its own. -/
theorem serve_writeInt (moment : Moment) (datagram : Bool) (requestId : Int32)
    (stream : List UInt8) (s : Bank) :
    serve reference ⟨moment, datagram, writeInt requestId ++ stream⟩ s =
      (((invoke reference moment requestId (!datagram && requestId != 0)).exec (s, stream)).1,
        ((invoke reference moment requestId (!datagram && requestId != 0)).exec (s, stream)).2.1) := by
  have hread : (Code.mapError FatalException.protocolException (Code.second readInt)).exec
      (s, writeInt requestId ++ stream) = (.ok requestId, (s, stream)) := by
    rw [Code.exec_mapError, Code.exec_second, reads_readInt requestId stream]
    rfl
  rw [serve_eq, receive, Code.exec_bind_of_ok hread]

/-- The bank, as it answers a delivery of a client or of a packet. -/
def answer : Object Bank (Option κ × Delivery) (List (κ × List UInt8)) := fun p s ↦
  (reply p.1 (serve reference p.2 s).1, (serve reference p.2 s).2)

theorem exec_answer (ds : List (Option κ × Delivery)) (s : Bank) :
    (answer reference).exec ds s = (serve reference).exec (ds.map Prod.snd) s := by
  induction ds generalizing s with
  | nil => rfl
  | cons p ds ih => exact ih _

/-- What has been dispatched so far are these deliveries. -/
structure Served (ds : List (Option κ × Delivery)) (s : Dispatching κ) : Prop where
  bank : s.bank = (serve reference).exec (ds.map Prod.snd) start
  sent : s.sent = ((answer reference).served ds start).flatMap Prod.snd
  moments : ds.map (fun p ↦ p.2.moment) = (List.range s.dispatched).map moments
  datagram : ∀ p ∈ ds, p.2.datagram = p.1.isNone

theorem Served.snoc {ds : List (Option κ × Delivery)} {s : Dispatching κ}
    (hs : Served reference moments ds s) {k : Option κ} {bytes : List UInt8}
    {result : Except FatalException (Option (List UInt8))} {bank : Bank}
    (hserve : serve reference ⟨moments s.dispatched, k.isNone, bytes⟩ s.bank = (result, bank)) :
    Served reference moments (ds ++ [(k, ⟨moments s.dispatched, k.isNone, bytes⟩)])
      ⟨bank, s.dispatched + 1, s.sent ++ reply k result⟩ := by
  refine ⟨?_, ?_, ?_, ?_⟩
  · rw [List.map_append, Object.exec_append, ← hs.bank]
    exact (congrArg Prod.snd hserve).symm
  · have hbank : (answer reference).exec ds start = s.bank :=
      (exec_answer reference ds start).trans hs.bank.symm
    have hanswer : answer reference (k, ⟨moments s.dispatched, k.isNone, bytes⟩) s.bank =
        (reply k result, bank) := by
      rw [answer, hserve]
    rw [Object.served_append, hbank, List.flatMap_append, ← hs.sent, Object.served, hanswer,
      Object.served, List.flatMap_singleton]
  · rw [List.map_append, hs.moments, List.range_succ, List.map_append]
    rfl
  · intro p hp
    rcases List.mem_append.mp hp with hp | hp
    · exact hs.datagram p hp
    · obtain rfl := List.mem_singleton.mp hp
      rfl

/-- The deliveries of the requests of a message. -/
def invocations (k : Option κ) (requestId : Int32) :
    ℕ → List UInt8 → Dispatching κ → List (Option κ × Delivery)
  | 0, _, _ => []
  | invokeNum + 1, stream, s =>
    (k, ⟨moments s.dispatched, k.isNone, writeInt requestId ++ stream⟩) ::
      match (invoke reference (moments s.dispatched) requestId
        (k.isSome && requestId != 0)).exec (s.bank, stream) with
      | (.ok os, bank, stream) =>
        invocations k requestId invokeNum stream
          ⟨bank, s.dispatched + 1, s.sent ++ reply k (.ok os)⟩
      | (.error _, _, _) => []

/-- The deliveries of a message. -/
def deliveriesOf (k : Option κ) (message : List UInt8) (s : Dispatching κ) :
    List (Option κ × Delivery) :=
  match parseMessage.exec message with
  | (.error _, _) => []
  | (.ok info, stream) => invocations reference moments k info.requestId info.invokeNum stream s

/-- One more request of a message is a delivery, after which the others are dispatched, unless it
has raised an exception. -/
theorem exec_invokeAll_succ (k : Option κ) (requestId : Int32) (invokeNum : ℕ)
    (stream : List UInt8) {s : Dispatching κ} {result : Except FatalException (Option (List UInt8))}
    {bank : Bank} (hserve : serve reference
      ⟨moments s.dispatched, k.isNone, writeInt requestId ++ stream⟩ s.bank = (result, bank)) :
    (∃ os left, result = .ok os ∧
      (invokeAll reference moments k requestId (invokeNum + 1) stream).exec s =
        (invokeAll reference moments k requestId invokeNum left).exec
          ⟨bank, s.dispatched + 1, s.sent ++ reply k result⟩ ∧
      invocations reference moments k requestId (invokeNum + 1) stream s =
        (k, ⟨moments s.dispatched, k.isNone, writeInt requestId ++ stream⟩) ::
          invocations reference moments k requestId invokeNum left
            ⟨bank, s.dispatched + 1, s.sent ++ reply k result⟩) ∨
    ∃ e, result = .error e ∧
      ((invokeAll reference moments k requestId (invokeNum + 1) stream).exec s).2 =
        ⟨bank, s.dispatched + 1, s.sent ++ reply k result⟩ ∧
      (∀ e', e = .protocolException e' →
        ((invokeAll reference moments k requestId (invokeNum + 1) stream).exec s).1 =
          .error (.protocolException e')) ∧
      invocations reference moments k requestId (invokeNum + 1) stream s =
        [(k, ⟨moments s.dispatched, k.isNone, writeInt requestId ++ stream⟩)] := by
  rw [serve_writeInt, Option.not_isNone] at hserve
  rw [invokeAll, invocations, Code.exec_get_bind]
  rcases hinvoke : (invoke reference (moments s.dispatched) requestId
    (k.isSome && requestId != 0)).exec (s.bank, stream) with ⟨result', bank', left⟩
  rw [hinvoke] at hserve
  obtain ⟨rfl, rfl⟩ := Prod.mk.inj hserve
  simp only [Code.exec_set_bind]
  rcases result' with (e | _) | os
  · refine .inr ⟨_, rfl, rfl, fun e' he ↦ ?_, rfl⟩
    obtain rfl := FatalException.protocolException.inj he
    rfl
  · refine .inr ⟨_, rfl, rfl, fun e' he ↦ ?_, rfl⟩
    cases he
  · exact .inl ⟨os, left, rfl, rfl, rfl⟩

theorem served_invokeAll (k : Option κ) (requestId : Int32) (invokeNum : ℕ) (stream : List UInt8)
    {ds : List (Option κ × Delivery)} {s : Dispatching κ} (hs : Served reference moments ds s) :
    Served reference moments
      (ds ++ invocations reference moments k requestId invokeNum stream s)
      ((invokeAll reference moments k requestId invokeNum stream).exec s).2 := by
  induction invokeNum generalizing stream ds s with
  | zero =>
      rw [invocations, List.append_nil]
      exact hs
  | succ invokeNum ih =>
      rcases hserve : serve reference ⟨moments s.dispatched, k.isNone, writeInt requestId ++ stream⟩
        s.bank with ⟨result, bank⟩
      rcases exec_invokeAll_succ reference moments k requestId invokeNum stream hserve with
        ⟨os, left, -, hexec, hds⟩ | ⟨e, -, hexec, -, hds⟩
      · rw [hexec, hds, List.append_cons]
        exact ih left (hs.snoc reference moments hserve)
      · rw [hexec, hds]
        exact hs.snoc reference moments hserve

theorem served_handle (k : Option κ) (message : List UInt8) {ds : List (Option κ × Delivery)}
    {s : Dispatching κ} (hs : Served reference moments ds s) :
    Served reference moments (ds ++ deliveriesOf reference moments k message s)
      ((handle reference moments k message).exec s).2 := by
  rw [handle, deliveriesOf]
  rcases parseMessage.exec message with ⟨e | info, stream⟩
  · rw [List.append_nil]
    exact hs
  · exact served_invokeAll reference moments k _ _ _ hs

/-- Messages that are handled, one after the other. -/
def handleAll (ms : List (Option κ × List UInt8)) (s : Dispatching κ) : Dispatching κ :=
  ms.foldl (fun s p ↦ ((handle reference moments p.1 p.2).exec s).2) s

theorem handleAll_append (ms ms' : List (Option κ × List UInt8)) (s : Dispatching κ) :
    handleAll reference moments (ms ++ ms') s =
      handleAll reference moments ms' (handleAll reference moments ms s) :=
  List.foldl_append

/-- Their deliveries. -/
def deliveries : List (Option κ × List UInt8) → Dispatching κ → List (Option κ × Delivery)
  | [], _ => []
  | p :: ms, s => deliveriesOf reference moments p.1 p.2 s ++
      deliveries ms ((handle reference moments p.1 p.2).exec s).2

theorem served_handleAll (ms : List (Option κ × List UInt8)) {ds : List (Option κ × Delivery)}
    {s : Dispatching κ} (hs : Served reference moments ds s) :
    Served reference moments (ds ++ deliveries reference moments ms s)
      (handleAll reference moments ms s) := by
  induction ms generalizing ds s with
  | nil =>
      rw [deliveries, List.append_nil]
      exact hs
  | cons p ms ih =>
      rw [deliveries, ← List.append_assoc]
      exact ih (served_handle reference moments p.1 p.2 hs)

/-- The bank, before anything has arrived. -/
def Dispatching.start : Dispatching κ := ⟨Server.start, 0, []⟩

/-- Whatever messages are handled, what has been dispatched are their deliveries. -/
theorem served_deliveries (ms : List (Option κ × List UInt8)) :
    Served reference moments (deliveries reference moments ms .start)
      (handleAll reference moments ms .start) :=
  served_handleAll reference moments ms ⟨rfl, rfl, rfl, fun _ hp ↦ absurd hp List.not_mem_nil⟩

/-! ## Requests that raise -/

theorem fst_of_mem_invocations {k : Option κ} {requestId : Int32} {invokeNum : ℕ}
    {stream : List UInt8} {s : Dispatching κ} {p : Option κ × Delivery}
    (hp : p ∈ invocations reference moments k requestId invokeNum stream s) : p.1 = k := by
  induction invokeNum generalizing stream s with
  | zero => exact absurd hp List.not_mem_nil
  | succ invokeNum ih =>
      rcases hserve : serve reference ⟨moments s.dispatched, k.isNone, writeInt requestId ++ stream⟩
        s.bank with ⟨result, bank⟩
      rcases exec_invokeAll_succ reference moments k requestId invokeNum stream hserve with
        ⟨os, left, -, -, hds⟩ | ⟨e, -, -, -, hds⟩ <;> rw [hds] at hp
      · rcases List.mem_cons.mp hp with rfl | hp
        · rfl
        · exact ih hp
      · rw [List.mem_singleton.mp hp]

/-- The deliveries of a message are its sender's. -/
theorem fst_of_mem_deliveriesOf {k : Option κ} {message : List UInt8} {s : Dispatching κ}
    {p : Option κ × Delivery} (hp : p ∈ deliveriesOf reference moments k message s) : p.1 = k := by
  rw [deliveriesOf] at hp
  rcases hparse : parseMessage.exec message with ⟨e | info, stream⟩ <;> rw [hparse] at hp
  · exact absurd hp List.not_mem_nil
  · exact fst_of_mem_invocations reference moments hp

theorem fst_of_mem_deliveries {ms : List (Option κ × List UInt8)} {s : Dispatching κ}
    {p : Option κ × Delivery} (hp : p ∈ deliveries reference moments ms s) :
    ∃ m ∈ ms, m.1 = p.1 := by
  induction ms generalizing s with
  | nil => exact absurd hp List.not_mem_nil
  | cons m ms ih =>
      rcases List.mem_append.mp hp with hp | hp
      · exact ⟨m, List.mem_cons_self, (fst_of_mem_deliveriesOf reference moments hp).symm⟩
      · obtain ⟨m', hm', hfst⟩ := ih hp
        exact ⟨m', List.mem_cons_of_mem m hm', hfst⟩

/-- A request that raises an exception of Ice is the last of its message that is dispatched, and
the message raises the exception. -/
theorem invocations_stop {k k' : Option κ} {requestId : Int32} {invokeNum : ℕ}
    {stream : List UInt8} {s : Dispatching κ} {before after : List (Option κ × Delivery)}
    {delivery : Delivery} {e : ProtocolException}
    (hds : invocations reference moments k requestId invokeNum stream s =
      before ++ (k', delivery) :: after)
    (he : (serve reference delivery ((serve reference).exec (before.map Prod.snd) s.bank)).1 =
      .error (.protocolException e)) :
    after = [] ∧ ((invokeAll reference moments k requestId invokeNum stream).exec s).1 =
      .error (.protocolException e) := by
  induction invokeNum generalizing stream s before with
  | zero => simp [invocations] at hds
  | succ invokeNum ih =>
      rcases hserve : serve reference ⟨moments s.dispatched, k.isNone, writeInt requestId ++ stream⟩
        s.bank with ⟨result, bank⟩
      have hstep := exec_invokeAll_succ reference moments k requestId invokeNum stream hserve
      cases before with
      | nil =>
          rw [invocations, List.nil_append] at hds
          obtain ⟨hfirst, hlater⟩ := List.cons.inj hds
          obtain ⟨-, rfl⟩ := Prod.mk.inj hfirst
          rw [List.map_nil, Object.exec_nil, hserve] at he
          rcases hstep with ⟨os, left, hok, -, -⟩ | ⟨e', hraises, -, hexec, hcons⟩
          · cases hok.symm.trans he
          · rw [invocations] at hcons
            refine ⟨hlater.symm.trans (List.cons.inj hcons).2, hexec e ?_⟩
            exact Except.error.inj (hraises.symm.trans he)
      | cons p before =>
          rw [List.map_cons, Object.exec_cons] at he
          rcases hstep with ⟨os, left, -, hexec, hcons⟩ | ⟨e', -, -, -, hcons⟩ <;> rw [hcons] at hds
          · obtain ⟨rfl, hrest⟩ := List.cons.inj hds
            rw [hexec]
            refine ih hrest ?_
            rwa [hserve] at he
          · simp at hds

theorem deliveriesOf_stop {k k' : Option κ} {message : List UInt8} {s : Dispatching κ}
    {before after : List (Option κ × Delivery)} {delivery : Delivery} {e : ProtocolException}
    (hds : deliveriesOf reference moments k message s = before ++ (k', delivery) :: after)
    (he : (serve reference delivery ((serve reference).exec (before.map Prod.snd) s.bank)).1 =
      .error (.protocolException e)) :
    after = [] ∧ ((handle reference moments k message).exec s).1 =
      .error (.protocolException e) := by
  rw [deliveriesOf] at hds
  rw [handle]
  rcases hparse : parseMessage.exec message with ⟨e' | info, stream⟩ <;> rw [hparse] at hds
  · simp at hds
  · exact invocations_stop reference moments hds he

/-- Around any of the deliveries, the messages are those before, one, and those after. -/
theorem exists_message {ms : List (Option κ × List UInt8)} {s : Dispatching κ}
    {before after : List (Option κ × Delivery)} {p : Option κ × Delivery}
    (hds : deliveries reference moments ms s = before ++ p :: after) :
    ∃ ms₁ m ms₂ ds₁ ds₂, ms = ms₁ ++ m :: ms₂ ∧
      before = deliveries reference moments ms₁ s ++ ds₁ ∧
      deliveriesOf reference moments m.1 m.2 (handleAll reference moments ms₁ s) =
        ds₁ ++ p :: ds₂ ∧
      ∀ d ∈ after, d ∈ ds₂ ∨ ∃ m ∈ ms₂, m.1 = d.1 := by
  induction ms generalizing s before with
  | nil => exact absurd hds.symm (List.append_ne_nil_of_right_ne_nil _ (List.cons_ne_nil _ _))
  | cons m ms ih =>
      rw [deliveries] at hds
      rcases split_append hds with ⟨ds₂, hmessage, rfl⟩ | ⟨front, rfl, hrest⟩
      · refine ⟨[], m, ms, before, ds₂, rfl, rfl, hmessage, fun d hd ↦ ?_⟩
        exact (List.mem_append.mp hd).imp_right (fst_of_mem_deliveries reference moments)
      · obtain ⟨ms₁, m', ms₂, ds₁, ds₂, rfl, rfl, hmessage, hafter⟩ := ih hrest
        refine ⟨m :: ms₁, m', ms₂, ds₁, ds₂, rfl, ?_, hmessage, hafter⟩
        rw [deliveries, List.append_assoc]

/-! ## Requests that arrive -/

/-- The message of a request, as a stub sends it. -/
def Request.message (r : Request) : List UInt8 := writeMessage requestMsg r.write

/-- The requests, at the moments of their dispatch. -/
def timed (l : List (κ × Request)) : List (Moment × Request) :=
  l.mapIdx fun i p ↦ (moments i, p.2)

/-- What has been dispatched so far: the bank has carried out the requests, and has told the
clients the outcomes. -/
structure Carried (l : List (κ × Request)) (s : Dispatching κ) : Prop where
  bank : s.bank = call.exec (timed moments l) start
  sendable : Sendable s.bank
  dispatched : s.dispatched = l.length
  told : ∃ results : List (κ × Except FatalException (Option (List UInt8))),
    results.map Prod.fst = l.map Prod.fst ∧ s.sent = results.flatMap (fun p ↦ reply (some p.1) p.2) ∧
      List.Forall₂ (fun result called ↦ Tells result.2 called.2) results
        (call.served (timed moments l) start)

/-- The message of a request is one delivery. -/
theorem exec_handle {r : Request} (k : κ) {s : Dispatching κ} {os : Option (List UInt8)}
    {bank : Bank}
    (h : serve reference (deliver (moments s.dispatched, r)) s.bank = (.ok os, bank)) :
    (handle reference moments (some k) r.message).exec s =
      (.ok (), ⟨bank, s.dispatched + 1, s.sent ++ reply (some k) (.ok os)⟩) := by
  have hparse := reads_parseMessage_request r.requestId (r.write.length + headerSize)
    (prepare r.id r.facet r.inv.operation r.inv.mode r.ctx ++
      writeEncapsulation r.encoding (r.inv.params r.encoding))
  rw [List.append_assoc] at hparse
  have hmessage : parseMessage.exec r.message = (.ok ⟨r.requestId, 1⟩,
      prepare r.id r.facet r.inv.operation r.inv.mode r.ctx ++
        writeEncapsulation r.encoding (r.inv.params r.encoding)) := hparse
  rw [handle, hmessage]
  rcases exec_invokeAll_succ reference moments (some k) r.requestId 0 _ h with
    ⟨_, left, -, hexec, -⟩ | ⟨e, he, -⟩
  · exact hexec
  · cases he

/-- One more request is carried out. -/
theorem Carried.handle {l : List (κ × Request)} {s : Dispatching κ}
    (hs : Carried moments l s) (k : κ) {r : Request} (hr : r.Sendable) :
    ∃ s', (handle reference moments (some k) r.message).exec s = (.ok (), s') ∧
      Carried moments (l ++ [(k, r)]) s' := by
  obtain ⟨hstate, htells⟩ := serve_deliver reference hs.sendable (p := (moments s.dispatched, r)) hr
  have hsendable := hs.sendable.serve reference (deliver (moments s.dispatched, r))
  rcases hserve : serve reference (deliver (moments s.dispatched, r)) s.bank with ⟨result, bank⟩
  rw [hserve] at hstate htells hsendable
  obtain ⟨os, rfl, -⟩ := id htells
  obtain ⟨results, hclients, hsent, htold⟩ := hs.told
  have htimed : timed moments (l ++ [(k, r)]) = timed moments l ++ [(moments s.dispatched, r)] := by
    rw [timed, List.mapIdx_concat, hs.dispatched]
    rfl
  refine ⟨_, exec_handle reference moments k hserve, ?_, hsendable, ?_, results ++ [(k, .ok os)],
    ?_, ?_, ?_⟩
  · rw [htimed, Object.exec_append, ← hs.bank]
    exact hstate
  · rw [hs.dispatched, List.length_append]
    rfl
  · rw [List.map_append, hclients, List.map_append]
    rfl
  · rw [List.flatMap_append, ← hsent, List.flatMap_singleton]
  · rw [htimed, Object.served_append, ← hs.bank]
    exact List.rel_append htold (.cons htells .nil)

/-! ## The endpoints -/

/-- The exception has closed the connection of the client, or the endpoint of the packets. -/
def Endpoints.ClosedBy (s : Endpoints κ) (k : Option κ) (e : ConnectionException) : Prop :=
  match k with
  | some k => s.tcp k = .closed e
  | none => s.udp = some e

/-- A packet is ignored, or it is handled as a message. -/
theorem receivePacket_cases (s : Endpoints κ) (bytes : List UInt8) :
    s.receivePacket reference moments messageSizeMax bytes = s ∨
      s.udp = none ∧ (s.receivePacket reference moments messageSizeMax bytes).tcp = s.tcp ∧
        (s.receivePacket reference moments messageSizeMax bytes).dispatching =
          ((handle reference moments none bytes).exec s.dispatching).2 ∧
        ∀ e, ((handle reference moments none bytes).exec s.dispatching).1 = .error e →
          (s.receivePacket reference moments messageSizeMax bytes).udp = some e := by
  unfold Endpoints.receivePacket
  split
  · exact .inl rfl
  · next hreads =>
    have hudp : s.udp = none := Option.not_isSome_iff_eq_none.mp (not_or.mp hreads).1
    split
    · exact .inl rfl
    split
    · exact .inl rfl
    rw [handle]
    rcases parseMessage.exec bytes with ⟨e | info, stream⟩
    · exact .inl rfl
    rcases hexec : (invokeAll reference moments none info.requestId info.invokeNum stream).exec
      s.dispatching with ⟨e | _, s'⟩
    · simp [hexec, hudp]
    · simp [hexec, hudp]

variable [DecidableEq κ]

/-- What an arrival brings of the stream of a client. -/
def Arrival.bytesOf (k : κ) : Arrival κ → List UInt8
  | .stream event => event.bytesOf k
  | .packet _ => []

/-- The packet of an arrival. -/
def Arrival.packet? : Arrival κ → Option (List UInt8)
  | .stream _ => none
  | .packet bytes => some bytes

theorem arrive_piece_tcp (s : Endpoints κ) (k k' : κ) (bytes : List UInt8) :
    (s.arrive reference moments messageSizeMax (.stream (.piece k bytes))).tcp k' =
      if k' = k then ((framing messageSizeMax).receive (handle reference moments (some k))
        (s.tcp k, s.dispatching) bytes).1 else s.tcp k' :=
  Function.update_apply ..

theorem arrive_close_tcp (s : Endpoints κ) (k k' : κ) (e : ConnectionException) :
    (s.arrive reference moments messageSizeMax (.stream (.close k e))).tcp k' =
      if k' = k then (s.tcp k).close e else s.tcp k' :=
  Function.update_apply ..

/-- What is closed stays closed. -/
theorem Endpoints.ClosedBy.arrive {s : Endpoints κ} {k : Option κ} {e : ConnectionException}
    (h : s.ClosedBy k e) (arrival : Arrival κ) :
    (s.arrive reference moments messageSizeMax arrival).ClosedBy k e := by
  cases arrival with
  | packet bytes =>
      change (s.receivePacket reference moments messageSizeMax bytes).ClosedBy k e
      rcases receivePacket_cases reference moments messageSizeMax s bytes with
        hsame | ⟨hudp, htcp, -⟩
      · rwa [hsame]
      · cases k with
        | none => cases hudp.symm.trans h
        | some k => exact (congrFun htcp k).trans h
  | stream event =>
      cases k with
      | none => cases event <;> exact h
      | some k =>
          have hclosed : s.tcp k = .closed e := h
          cases event with
          | piece k' bytes =>
              refine (arrive_piece_tcp reference moments messageSizeMax s k' k bytes).trans ?_
              split
              · next hkk => rw [← hkk, hclosed, Framing.receive_closed]
              · exact h
          | close k' e' =>
              refine (arrive_close_tcp reference moments messageSizeMax s k' k e').trans ?_
              split
              · next hkk =>
                rw [← hkk, hclosed]
                rfl
              · exact h

/-- A message that raises an exception closes its connection, and is the last of it. -/
def Stopped (ms : List (Option κ × List UInt8)) (s : Endpoints κ) : Prop :=
  ∀ before k m after e, ms = before ++ (k, m) :: after →
    ((handle reference moments k m).exec (handleAll reference moments before .start)).1 = .error e →
    s.ClosedBy k e ∧ ∀ p ∈ after, p.1 ≠ k

omit [DecidableEq κ] in
/-- More messages, none of which is of a connection that is closed. -/
theorem Stopped.append {ms ms' : List (Option κ × List UInt8)} {s s' : Endpoints κ}
    (hs : Stopped reference moments ms s) (hkeep : ∀ {k e}, s.ClosedBy k e → s'.ClosedBy k e)
    (hopen : ∀ {k e}, s.ClosedBy k e → ∀ p ∈ ms', p.1 ≠ k)
    (hnew : ∀ before k m after e, ms' = before ++ (k, m) :: after →
      ((handle reference moments k m).exec (handleAll reference moments before
        (handleAll reference moments ms .start))).1 = .error e →
      s'.ClosedBy k e ∧ ∀ p ∈ after, p.1 ≠ k) : Stopped reference moments (ms ++ ms') s' := by
  intro before k m after e hsplit he
  rcases split_append hsplit with ⟨rest, hms, rfl⟩ | ⟨front, rfl, hms'⟩
  · obtain ⟨hclosed, hlast⟩ := hs _ _ _ _ _ hms he
    refine ⟨hkeep hclosed, fun p hp ↦ ?_⟩
    exact (List.mem_append.mp hp).elim (hlast p) (hopen hclosed p)
  · rw [handleAll_append] at he
    exact hnew _ _ _ _ _ hms' he

/-- What has arrived has been cut into these messages, and they are what has been handled. -/
structure Handled (arrivals : List (Arrival κ)) (ms : List (Option κ × List UInt8))
    (s : Endpoints κ) : Prop where
  streams : ∀ k, (s.tcp k).Follows (Framing.ofKey (some k) ms) (arrivals.flatMap (Arrival.bytesOf k))
  packets : (Framing.ofKey none ms).Sublist (arrivals.filterMap Arrival.packet?)
  dispatching : s.dispatching = handleAll reference moments ms .start
  stopped : Stopped reference moments ms s

theorem Handled.piece {arrivals : List (Arrival κ)} {ms : List (Option κ × List UInt8)}
    {s : Endpoints κ} (hs : Handled reference moments arrivals ms s) (k : κ) (bytes : List UInt8) :
    ∃ ms', Handled reference moments (arrivals ++ [.stream (.piece k bytes)]) ms'
      (s.arrive reference moments messageSizeMax (.stream (.piece k bytes))) := by
  obtain ⟨ms', hms'⟩ := Framing.exists_messages (framing messageSizeMax)
    (handle reference moments (some k)) (s.tcp k) s.dispatching bytes
  have htcp := arrive_piece_tcp reference moments messageSizeMax s k
  have hfold : ∀ (ms : List (List UInt8)) (s : Dispatching κ),
      handleAll reference moments (ms.map (Prod.mk (some k))) s =
        ms.foldl (fun s m ↦ ((handle reference moments (some k) m).exec s).2) s :=
    fun _ _ ↦ List.foldl_map
  refine ⟨ms ++ ms'.map (Prod.mk (some k)), fun k' ↦ ?_, ?_, ?_, ?_⟩
  · rw [List.flatMap_append, List.flatMap_singleton, Framing.ofKey_append, htcp]
    by_cases hkk : k' = k
    · subst hkk
      rw [if_pos rfl, Framing.ofKey_map_self, Arrival.bytesOf, Framing.StreamEvent.bytesOf,
        if_pos rfl]
      exact hms'.follows (hs.streams k')
    · have hne : some k ≠ some k' := fun h ↦ hkk (Option.some.inj h).symm
      rw [if_neg hkk, Framing.ofKey_map_of_ne hne, Arrival.bytesOf, Framing.StreamEvent.bytesOf,
        if_neg (Ne.symm hkk), List.append_nil, List.append_nil]
      exact hs.streams k'
  · rw [Framing.ofKey_append, Framing.ofKey_map_of_ne (Option.some_ne_none k), List.append_nil,
      List.filterMap_append]
    exact hs.packets.trans (List.sublist_append_left ..)
  · rw [handleAll_append, ← hs.dispatching, hfold]
    exact hms'.state
  · refine hs.stopped.append reference moments
      (fun h ↦ h.arrive reference moments messageSizeMax _) (fun {k' e} h p hp hpk ↦ ?_)
      fun before k' m after e hsplit he ↦ ?_
    · obtain ⟨m, hm, rfl⟩ := List.mem_map.mp hp
      obtain rfl : some k = k' := hpk
      rw [hms'.closed h] at hm
      exact absurd hm List.not_mem_nil
    · obtain ⟨before, l, rfl, rfl, hl⟩ := List.map_eq_append_iff.mp hsplit
      obtain ⟨m', after, rfl, hm', rfl⟩ := List.map_eq_cons_iff.mp hl
      obtain ⟨rfl, rfl⟩ := Prod.mk.inj hm'
      rw [← hs.dispatching, hfold] at he
      obtain ⟨rfl, hclosed⟩ := hms'.stops rfl he
      refine ⟨?_, fun _ hp ↦ absurd hp List.not_mem_nil⟩
      exact ((htcp k bytes).trans (if_pos rfl)).trans hclosed

theorem Handled.close {arrivals : List (Arrival κ)} {ms : List (Option κ × List UInt8)}
    {s : Endpoints κ} (hs : Handled reference moments arrivals ms s) (k : κ)
    (e : ConnectionException) :
    Handled reference moments (arrivals ++ [.stream (.close k e)]) ms
      (s.arrive reference moments messageSizeMax (.stream (.close k e))) where
  streams k' := by
    rw [List.flatMap_append, List.flatMap_singleton, Arrival.bytesOf, Framing.StreamEvent.bytesOf,
      List.append_nil, arrive_close_tcp reference moments messageSizeMax s k k' e]
    split
    · next hkk =>
      subst hkk
      exact (hs.streams k').close e
    · exact hs.streams k'
  packets := by
    rw [List.filterMap_append]
    exact hs.packets.trans (List.sublist_append_left ..)
  dispatching := hs.dispatching
  stopped before k m after e hsplit he := (hs.stopped before k m after e hsplit he).imp_left fun h ↦
    h.arrive reference moments messageSizeMax _

theorem Handled.packet {arrivals : List (Arrival κ)} {ms : List (Option κ × List UInt8)}
    {s : Endpoints κ} (hs : Handled reference moments arrivals ms s) (bytes : List UInt8) :
    ∃ ms', Handled reference moments (arrivals ++ [.packet bytes]) ms'
      (s.arrive reference moments messageSizeMax (.packet bytes)) := by
  have harrive : s.arrive reference moments messageSizeMax (.packet bytes) =
      s.receivePacket reference moments messageSizeMax bytes := rfl
  have hstream : ∀ k, (arrivals ++ [Arrival.packet bytes]).flatMap (Arrival.bytesOf k) =
      arrivals.flatMap (Arrival.bytesOf k) := by
    intro k
    rw [List.flatMap_append, List.flatMap_singleton, Arrival.bytesOf, List.append_nil]
  have hpackets : (arrivals ++ [Arrival.packet bytes]).filterMap Arrival.packet? =
      arrivals.filterMap Arrival.packet? ++ [bytes] := List.filterMap_append
  rcases receivePacket_cases reference moments messageSizeMax s bytes with
    hsame | ⟨hudp, htcp, hdispatching, hcloses⟩
  · rw [harrive, hsame]
    refine ⟨ms, fun k ↦ ?_, ?_, hs.dispatching, hs.stopped⟩
    · rw [hstream]
      exact hs.streams k
    · rw [hpackets]
      exact hs.packets.trans (List.sublist_append_left ..)
  · refine ⟨ms ++ [(none, bytes)], fun k ↦ ?_, ?_, ?_, ?_⟩
    · rw [harrive, htcp, hstream, Framing.ofKey_append,
        Framing.ofKey_cons_of_ne (Option.some_ne_none k).symm]
      exact (List.append_nil _).symm ▸ hs.streams k
    · rw [hpackets, Framing.ofKey_append]
      exact hs.packets.append (List.Sublist.refl _)
    · rw [harrive, hdispatching, hs.dispatching, handleAll_append]
      rfl
    · refine hs.stopped.append reference moments
        (fun h ↦ h.arrive reference moments messageSizeMax _) (fun {k e} h p hp hpk ↦ ?_)
        fun before k m after e hsplit he ↦ ?_
      · obtain rfl := List.mem_singleton.mp hp
        obtain rfl : none = k := hpk
        cases hudp.symm.trans h
      · obtain ⟨rfl, hcons⟩ : before = [] ∧ (none, bytes) :: [] = (k, m) :: after := by
          cases before with
          | nil => exact ⟨rfl, hsplit⟩
          | cons p before => simp at hsplit
        obtain ⟨hp, rfl⟩ := List.cons.inj hcons
        obtain ⟨rfl, rfl⟩ := Prod.mk.inj hp
        rw [← hs.dispatching] at he
        exact ⟨hcloses e he, fun _ hp ↦ absurd hp List.not_mem_nil⟩

/-- Whatever arrives is handled as messages. -/
theorem exists_handled_arrivals (arrivals : List (Arrival κ)) :
    ∃ ms, Handled reference moments arrivals ms (arrivals.foldl
      (Endpoints.arrive reference moments messageSizeMax) (.start messageSizeMax)) := by
  induction arrivals using List.reverseRecOn with
  | nil => exact ⟨[], fun _ ↦ rfl, .slnil, rfl, fun _ _ _ _ _ h ↦ by simp at h⟩
  | append_singleton arrivals arrival ih =>
      obtain ⟨ms, hs⟩ := ih
      rw [List.foldl_append, List.foldl_cons, List.foldl_nil]
      cases arrival with
      | packet bytes => exact hs.packet reference moments messageSizeMax bytes
      | stream event =>
          cases event with
          | piece k bytes => exact hs.piece reference moments messageSizeMax k bytes
          | close k e => exact ⟨ms, hs.close reference moments messageSizeMax k e⟩

/-- **Whatever arrives at the endpoints**, in whatever pieces: each client's stream is cut into
messages of its own, the messages are what is handled, and what the bank does and replies is that of
the deliveries of their single requests. -/
theorem arrivals_served (arrivals : List (Arrival κ)) :
    ∃ ms : List (Option κ × List UInt8),
      Handled reference moments arrivals ms (arrivals.foldl
        (Endpoints.arrive reference moments messageSizeMax) (.start messageSizeMax)) ∧
      Served reference moments (deliveries reference moments ms .start) (arrivals.foldl
        (Endpoints.arrive reference moments messageSizeMax) (.start messageSizeMax)).dispatching := by
  obtain ⟨ms, hs⟩ := exists_handled_arrivals reference moments messageSizeMax arrivals
  exact ⟨ms, hs, hs.dispatching ▸ served_deliveries reference moments ms⟩

/-! ## Requests that raise an exception -/

/-- The bank, as it dispatches the deliveries of clients and packets. -/
def serveOf : Object Bank (Option κ × Delivery) (Except FatalException (Option (List UInt8))) :=
  fun p ↦ serve reference p.2

omit [DecidableEq κ] in
theorem exec_serveOf (ds : List (Option κ × Delivery)) (s : Bank) :
    (serveOf reference).exec ds s = (serve reference).exec (ds.map Prod.snd) s := by
  induction ds generalizing s with
  | nil => rfl
  | cons p ds ih => exact ih _

omit [DecidableEq κ] in
theorem flatMap_answer (ds : List (Option κ × Delivery)) (s : Bank) :
    ((answer reference).served ds s).flatMap Prod.snd =
      ((serveOf reference).served ds s).flatMap fun p ↦ reply p.1.1 p.2 := by
  induction ds generalizing s with
  | nil => rfl
  | cons p ds ih => exact congrArg (reply p.1 (serve reference p.2 s).1 ++ ·) (ih _)

omit [DecidableEq κ] [Runtime] [StackTraces] in
/-- Nothing is sent for a request that raises an exception which is not handled. -/
theorem flatMap_filter_isFatal
    (l : List ((Option κ × Delivery) × Except FatalException (Option (List UInt8)))) :
    (l.filter fun p ↦ !isFatal p.2).flatMap (fun p ↦ reply p.1.1 p.2) =
      l.flatMap fun p ↦ reply p.1.1 p.2 := by
  induction l with
  | nil => rfl
  | cons p l ih =>
      rcases hp : p.2 with e | os
      · have hfatal : (!isFatal p.2) = false := by rw [hp]; rfl
        have hnone : reply p.1.1 p.2 = [] := by
          rw [hp]
          cases p.1.1 <;> rfl
        have hdrop : (p :: l).filter (fun p ↦ !isFatal p.2) = l.filter fun p ↦ !isFatal p.2 :=
          List.filter_cons_of_neg (by simp [hfatal])
        rw [hdrop, List.flatMap_cons, hnone, List.nil_append, ih]
      · have hfatal : (!isFatal p.2) = true := by rw [hp]; rfl
        have hkeep : (p :: l).filter (fun p ↦ !isFatal p.2) = p :: l.filter fun p ↦ !isFatal p.2 :=
          List.filter_cons_of_pos hfatal
        rw [hkeep, List.flatMap_cons, List.flatMap_cons, ih]

omit [DecidableEq κ] in
/-- Deliveries do what those of them do that raise no such exception. -/
theorem Served.remaining {ds : List (Option κ × Delivery)} {s : Dispatching κ}
    (hs : Served reference moments ds s) :
    s.bank = (serve reference).exec
        (((serveOf reference).remaining isFatal ds start).map Prod.snd) start ∧
      s.sent = ((answer reference).served
        ((serveOf reference).remaining isFatal ds start) start).flatMap Prod.snd := by
  have hstep : ∀ (p : Option κ × Delivery) s, isFatal (serveOf reference p s).1 = true →
      (serveOf reference p s).2 = s := fun p s h ↦ serve_of_isFatal reference p.2 s h
  constructor
  · rw [hs.bank, ← exec_serveOf, ← exec_serveOf, Object.exec_remaining hstep]
  · rw [hs.sent, flatMap_answer, flatMap_answer, Object.served_remaining hstep,
      flatMap_filter_isFatal]

/-- **A request that raises an exception which is not handled** never happened to the bank and the
clients, whatever else arrives.  When the exception is one of Ice it closes the connection of the
request, of which nothing more is dispatched. -/
theorem fatal_closes_connection (arrivals : List (Arrival κ)) :
    ∃ ms : List (Option κ × List UInt8),
      let s := arrivals.foldl (Endpoints.arrive reference moments messageSizeMax)
        (.start messageSizeMax)
      let ds := deliveries reference moments ms .start
      Handled reference moments arrivals ms s ∧
      s.dispatching.bank = (serve reference).exec
        (((serveOf reference).remaining isFatal ds start).map Prod.snd) start ∧
      s.dispatching.sent = ((answer reference).served
        ((serveOf reference).remaining isFatal ds start) start).flatMap Prod.snd ∧
      ∀ before k delivery after e, ds = before ++ (k, delivery) :: after →
        (serve reference delivery ((serve reference).exec (before.map Prod.snd) start)).1 =
          .error (.protocolException e) →
        s.ClosedBy k (.protocolException e) ∧ ∀ p ∈ after, p.1 ≠ k := by
  obtain ⟨ms, hs⟩ := exists_handled_arrivals reference moments messageSizeMax arrivals
  obtain ⟨hbank, hsent⟩ := (served_deliveries reference moments ms).remaining
  rw [← hs.dispatching] at hbank hsent
  refine ⟨ms, hs, hbank, hsent, fun before k delivery after e hsplit he ↦ ?_⟩
  · obtain ⟨ms₁, ⟨k', m⟩, ms₂, ds₁, ds₂, rfl, rfl, hmessage, hafter⟩ :=
      exists_message reference moments hsplit
    obtain rfl : k = k' := fst_of_mem_deliveriesOf reference moments
      (hmessage ▸ List.mem_append_right ds₁ List.mem_cons_self)
    rw [List.map_append, Object.exec_append,
      ← (served_deliveries reference moments ms₁).bank] at he
    obtain ⟨rfl, hraises⟩ := deliveriesOf_stop reference moments hmessage he
    obtain ⟨hclosed, hlast⟩ := hs.stopped _ _ _ _ _ rfl hraises
    refine ⟨hclosed, fun p hp ↦ ?_⟩
    rcases hafter p hp with hp | ⟨m', hm', hfst⟩
    · exact absurd hp List.not_mem_nil
    · exact hfst ▸ hlast m' hm'

/-! ## Requests over `tcp` -/

/-- Where the streams go on, and no packets arrive. -/
theorem foldl_arrive_stream
    (events : List (Framing.StreamEvent κ ConnectionException)) (s : Endpoints κ) :
    (events.map Arrival.stream).foldl (Endpoints.arrive reference moments messageSizeMax) s =
      let r := events.foldl ((framing messageSizeMax).step
        fun k ↦ Server.handle reference moments (some k)) (s.tcp, s.dispatching)
      { s with tcp := r.1, dispatching := r.2 } := by
  induction events generalizing s with
  | nil => rfl
  | cons event events ih => exact ih _

/-- **Requests over `tcp`.**  However the streams of the clients are cut, in whatever order their
pieces arrive, and whichever connections are closed, the bank carries out requests one by one, each
client's in its order, and sends each client the outcomes of its requests.  Of a client they are a
first part; where its connection is not closed, it is no shorter than what has arrived. -/
theorem requests_over_tcp {requests : κ → List Request}
    (hsendable : ∀ k, ∀ r ∈ requests k, r.Sendable)
    (hsize : ∀ k, ∀ r ∈ requests k, (r.write.length + headerSize : ℕ) ≤ messageSizeMax.toInt)
    {events : List (Framing.StreamEvent κ ConnectionException)}
    (hevents : ∀ k, events.flatMap (Framing.StreamEvent.bytesOf k) <+:
      ((requests k).map Request.message).flatten) :
    ∃ l : List (κ × Request),
      let s := (events.map Arrival.stream).foldl
        (Endpoints.arrive reference moments messageSizeMax) (.start messageSizeMax)
      Carried moments l s.dispatching ∧ (∀ k, Framing.ofKey k l <+: requests k) ∧
      ∀ k, (∀ e, .close k e ∉ events) → (∀ e, s.tcp k ≠ .closed e) ∧
        ∀ arrived, arrived <+: requests k → (arrived.map Request.message).flatten <+:
          events.flatMap (Framing.StreamEvent.bytesOf k) → arrived <+: Framing.ofKey k l := by
  have hstart : Carried moments ([] : List (κ × Request)) .start :=
    ⟨rfl, sendable_start, rfl, [], rfl, rfl, .nil⟩
  have hmessages : ∀ {k as}, as <+: requests k → (framing messageSizeMax).Completes
      (.start (framing messageSizeMax)) (as.map Request.message).flatten
      (.start (framing messageSizeMax)) (as.map Request.message) := by
    intro k as has
    refine Framing.completes_flatten fun m hm ↦ ?_
    obtain ⟨r, hr, rfl⟩ := List.mem_map.mp hm
    exact isMessage_writeMessage requestMsg (hsize k r (has.mem hr))
  choose rest hrest using hevents
  have hall : ∀ k, (framing messageSizeMax).Completes (.start (framing messageSizeMax))
      (events.flatMap (Framing.StreamEvent.bytesOf k) ++ rest k) (.start (framing messageSizeMax))
      ((requests k).map Request.message) := fun k ↦ hrest k ▸ hmessages (List.prefix_refl _)
  obtain ⟨l, hcarried, hfront, hcompletes⟩ := Framing.exists_handled (I := Carried moments)
    (A := fun _ r ↦ r.Sendable) (fun hr hs ↦ hs.handle reference moments _ hr) hsendable
    (fun k ↦ .inr (hall k)) hstart
  refine ⟨l, ?_⟩
  rw [foldl_arrive_stream]
  refine ⟨hcarried, hfront, fun k hopen ↦ ?_⟩
  have hk := hcompletes k (fun e he ↦ nomatch he) hopen
  constructor
  · exact hk.ne_closed_of_append (hall k)
  · rintro arrived harrived ⟨later, hlater⟩
    obtain ⟨c, ms, hms, -⟩ := Framing.exists_completes (F := framing messageSizeMax)
      (.start (framing messageSizeMax)) later
    have hsame := (((hmessages harrived).append hms).unique (hlater ▸ hk)).2
    refine List.prefix_of_prefix_length_le harrived (hfront k) ?_
    have hlength := congrArg List.length hsame
    rw [List.length_append, List.length_map, List.length_map] at hlength
    omega

end

section

local instance endpointsRuntime : Runtime := sampleRuntime

local instance endpointsStackTraces : StackTraces := sampleStackTraces

/-- One client asks for an account, and another one for a loan of it. -/
abbrev sampleRequest (k : Bool) : Request := cond k loanRequest createRequest

/-- Their streams: that of the first client in two pieces, between which the second one breaks off
in the middle of its message, and times out. -/
abbrev sampleEvents : List (Framing.StreamEvent Bool ConnectionException) :=
  [.piece false ((sampleRequest false).message.take 5),
    .piece true ((sampleRequest true).message.take 20), .close true .timeout,
    .piece false ((sampleRequest false).message.drop 5)]

theorem requests_over_tcp_sample :
    ∃ l : List (Bool × Request),
      let s := (sampleEvents.map Arrival.stream).foldl
        (Endpoints.arrive sampleReference (fun _ ↦ sampleMoment) 1048576) (.start 1048576)
      Carried (fun _ ↦ sampleMoment) l s.dispatching ∧
      (∀ k, Framing.ofKey k l <+: [sampleRequest k]) ∧
      ∀ k, (∀ e, .close k e ∉ sampleEvents) → (∀ e, s.tcp k ≠ .closed e) ∧
        ∀ arrived, arrived <+: [sampleRequest k] → (arrived.map Request.message).flatten <+:
          sampleEvents.flatMap (Framing.StreamEvent.bytesOf k) →
          arrived <+: Framing.ofKey k l := by
  have hlength : ∀ k, (sampleRequest k).write.length < 2 ^ 10 := by decide +kernel
  have hsendable : ∀ k, ∀ r ∈ [sampleRequest k], r.Sendable := by
    intro k r hr
    obtain rfl := List.mem_singleton.mp hr
    cases k with
    | false => exact sendable_createRequest
    | true => exact sendable_loanRequest
  have hsize : ∀ k, ∀ r ∈ [sampleRequest k],
      (r.write.length + headerSize : ℕ) ≤ (1048576 : Int32).toInt := by
    intro k r hr
    obtain rfl := List.mem_singleton.mp hr
    have hmax : (1048576 : Int32).toInt = 1048576 := by decide
    have := hlength k
    rw [hmax, headerSize]
    omega
  have hevents : ∀ k, sampleEvents.flatMap (Framing.StreamEvent.bytesOf k) <+:
      ([sampleRequest k].map Request.message).flatten := by
    intro k
    cases k with
    | false => simp [Framing.StreamEvent.bytesOf]
    | true => simp [Framing.StreamEvent.bytesOf, List.take_prefix]
  exact requests_over_tcp sampleReference (fun _ ↦ sampleMoment) 1048576 hsendable hsize hevents

end

end StockBank.Server
