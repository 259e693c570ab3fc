import StockBank.Ice
import StockBank.Ice.Proxy

/-!
# Requests and replies

The two ends of an invocation, as far as they do not depend on the operation:
`ProxyOutgoingAsyncBaseI.prepare` writes the front of a request and `Incoming.invoke`
reads it, `Incoming` writes the reply and `ProxyOutgoingAsyncBaseI.completed` reads it.

A message is modelled from the request id on, which is what follows its header.
-/

namespace StockBank.Ice

open Lib Bytes Java

inductive OperationMode
  | normal
  | nonmutating
  | idempotent
  deriving DecidableEq, Repr

namespace OperationMode

def value : OperationMode → UInt8
  | normal => 0
  | nonmutating => 1
  | idempotent => 2

/-- `OperationMode.values()[b]`, where there is one. -/
def ofByte : UInt8 → Option OperationMode
  | 0 => some normal
  | 1 => some nonmutating
  | 2 => some idempotent
  | _ => none

@[simp] theorem ofByte_value (v : OperationMode) : ofByte v.value = some v := by
  cases v <;> rfl

/-- `Object._iceOperationModeToString`. -/
def toString : OperationMode → String
  | normal => "::Ice::Normal"
  | nonmutating => "::Ice::Nonmutating"
  | idempotent => "::Ice::Idempotent"

end OperationMode

/-! ## The front of a request -/

/-- `Current`, and whether the request is answered. -/
structure Current where
  id : Identity
  facet : String
  operation : String
  mode : OperationMode
  ctx : PMap String String
  requestId : Int32
  response : Bool

/-- The exceptions that `Incoming.invoke` lets through: there is no reply that tells of them. -/
inductive FatalException
  | protocolException (e : ProtocolException)
  | arrayIndexOutOfBoundsException
  deriving DecidableEq, Repr

/-- An entry of a context. -/
def writeEntry (entry : String × String) : List UInt8 :=
  writeString entry.1 ++ writeString entry.2

def readEntry [Runtime] : InputStream (String × String) := do
  let first ← readString
  let second ← readString
  return (first, second)

/-- `ContextHelper.write`, for the entries of a context in some order. -/
def writeContext (ctx : List (String × String)) : List UInt8 :=
  writeSize ctx.length ++ ctx.flatMap writeEntry

/-- A context, from its entries. -/
def contextOf (ctx : List (String × String)) : PMap String String :=
  ctx.foldl (fun ctx entry ↦ ctx.put entry.1 entry.2) PMap.empty

def readContext [Runtime] : InputStream (PMap String String) := do
  let sz ← readSize
  return contextOf (← many readEntry sz)

/-- The mode of a request. -/
def readMode : Reader FatalException OperationMode := do
  match OperationMode.ofByte (← Code.mapError .protocolException readByte) with
  | none => throw .arrayIndexOutOfBoundsException
  | some mode => return mode

/-- The part of `Incoming.invoke` that reads the current. -/
def readCurrent [Runtime] (requestId : Int32) (response : Bool) : Reader FatalException Current := do
  let id ← Code.mapError .protocolException Identity.read
  let facet ← Code.mapError .protocolException (readFacetPath (.marshal ""))
  let operation ← Code.mapError .protocolException readString
  let mode ← readMode
  let ctx ← Code.mapError .protocolException readContext
  return ⟨id, facet, operation, mode, ctx, requestId, response⟩

/-- `ProxyOutgoingAsyncBaseI.prepare`, after the header. -/
def prepare (id : Identity) (facet operation : String) (mode : OperationMode)
    (ctx : List (String × String)) : List UInt8 :=
  id.write ++ (writeFacetPath facet ++ (writeString operation ++ ([mode.value] ++
    writeContext ctx)))

/-! ## Replies -/

/-- The exceptions of a dispatch, which the reply tells of. -/
inductive DispatchException
  | objectNotExist
  | facetNotExist
  | operationNotExist
  | protocolException (e : ProtocolException)
  | localException (e : LocalException)
  | nullPointerException (e : NullPointerException)
  deriving DecidableEq, Repr

/-- `Throwable.printStackTrace`. -/
class StackTraces where
  printStackTrace : DispatchException → String

/-- `ReplyStatus`. -/
inductive ReplyStatus
  | replyOK
  | replyUserException
  | replyObjectNotExist
  | replyFacetNotExist
  | replyOperationNotExist
  | replyUnknownLocalException
  | replyUnknownUserException
  | replyUnknownException
  deriving DecidableEq, Repr

namespace ReplyStatus

def value : ReplyStatus → UInt8
  | replyOK => 0
  | replyUserException => 1
  | replyObjectNotExist => 2
  | replyFacetNotExist => 3
  | replyOperationNotExist => 4
  | replyUnknownLocalException => 5
  | replyUnknownUserException => 6
  | replyUnknownException => 7

def ofByte : UInt8 → Option ReplyStatus
  | 0 => some replyOK
  | 1 => some replyUserException
  | 2 => some replyObjectNotExist
  | 3 => some replyFacetNotExist
  | 4 => some replyOperationNotExist
  | 5 => some replyUnknownLocalException
  | 6 => some replyUnknownUserException
  | 7 => some replyUnknownException
  | _ => none

@[simp] theorem ofByte_value (v : ReplyStatus) : ofByte v.value = some v := by
  cases v <;> rfl

end ReplyStatus

/-- `ice_id` of the exceptions of a stream. -/
def ProtocolException.ice_id : ProtocolException → String
  | unmarshalOutOfBounds => "::Ice::UnmarshalOutOfBoundsException"
  | encapsulation => "::Ice::EncapsulationException"
  | proxyUnmarshal => "::Ice::ProxyUnmarshalException"
  | marshal _ => "::Ice::MarshalException"
  | unsupportedEncoding _ _ => "::Ice::UnsupportedEncodingException"

/-- `ice_id` of the exceptions of the adapter. -/
def LocalException.ice_id : LocalException → String
  | illegalIdentity _ => "::Ice::IllegalIdentityException"
  | alreadyRegistered _ _ => "::Ice::AlreadyRegisteredException"

/-- A reply with results: from `startWriteParams` to `endWriteParams`. -/
def replyOk (requestId : Int32) (encapsulation : List UInt8) : List UInt8 :=
  writeInt requestId ++ ([ReplyStatus.replyOK.value] ++ encapsulation)

/-- A reply that the request could not be dispatched. -/
def replyRequestFailed (current : Current) (status : ReplyStatus) : List UInt8 :=
  writeInt current.requestId ++ ([status.value] ++ (current.id.write ++
    (writeFacetPath current.facet ++ writeString current.operation)))

/-- A reply that tells of an exception that the interface does not know. -/
def replyUnknown (current : Current) (status : ReplyStatus) (unknown : String) : List UInt8 :=
  writeInt current.requestId ++ ([status.value] ++ writeString unknown)

/-- `Incoming.handleException`: an exception of Ice is told with its type, any other one
with its trace alone. -/
def handleException [StackTraces] (current : Current) (e : DispatchException) : List UInt8 :=
  match e with
  | .objectNotExist => replyRequestFailed current .replyObjectNotExist
  | .facetNotExist => replyRequestFailed current .replyFacetNotExist
  | .operationNotExist => replyRequestFailed current .replyOperationNotExist
  | .protocolException e =>
    replyUnknown current .replyUnknownLocalException
      (e.ice_id ++ "\n" ++ StackTraces.printStackTrace (.protocolException e))
  | .localException e =>
    replyUnknown current .replyUnknownLocalException
      (e.ice_id ++ "\n" ++ StackTraces.printStackTrace (.localException e))
  | .nullPointerException e =>
    replyUnknown current .replyUnknownException
      (StackTraces.printStackTrace (.nullPointerException e))

/-- The exceptions that a caller gets. -/
inductive ClientException
  | objectNotExist (id : Identity) (facet operation : String)
  | facetNotExist (id : Identity) (facet operation : String)
  | operationNotExist (id : Identity) (facet operation : String)
  | unknownLocal (unknown : String)
  | unknownUser (unknown : String)
  | unknown (unknown : String)
  | unknownReplyStatus
  | /-- What `throwUserException` raises: the interface declares no exceptions. -/
    userException
  | protocolException (e : ProtocolException)
  deriving DecidableEq, Repr

/-- The exceptions of a request that could not be dispatched. -/
def readRequestFailed [Runtime] {α : Type}
    (failed : Identity → String → String → ClientException) : Reader ClientException α := do
  let id ← Code.mapError .protocolException Identity.read
  let facet ← Code.mapError .protocolException (readFacetPath (.marshal ""))
  let operation ← Code.mapError .protocolException readString
  throw (failed id facet operation)

def readUnknown [Runtime] {α : Type} (unknown : String → ClientException) :
    Reader ClientException α := do
  let text ← Code.mapError .protocolException readString
  throw (unknown text)

/-- `ProxyOutgoingAsyncBaseI.completed`, and the unmarshalling of the results. -/
def completed [Runtime] {α : Type} (unmarshal : InputStream α) : Reader ClientException α := do
  match ReplyStatus.ofByte (← Code.mapError .protocolException readByte) with
  | some .replyOK => Code.mapError .protocolException unmarshal
  | some .replyUserException => throw .userException
  | some .replyObjectNotExist => readRequestFailed .objectNotExist
  | some .replyFacetNotExist => readRequestFailed .facetNotExist
  | some .replyOperationNotExist => readRequestFailed .operationNotExist
  | some .replyUnknownLocalException => readUnknown .unknownLocal
  | some .replyUnknownUserException => readUnknown .unknownUser
  | some .replyUnknownException => readUnknown .unknown
  | none => throw .unknownReplyStatus

/-- A reply: the id of its request, and the outcome. -/
def readReply [Runtime] {α : Type} (unmarshal : InputStream α) :
    Reader ClientException (Int32 × Except ClientException α) := do
  let requestId ← Code.mapError .protocolException readInt
  let s ← get
  let (result, s') := (completed unmarshal).exec s
  set s'
  return (requestId, result)

/-- What the caller gets for an exception of the dispatch. -/
def DispatchException.received [StackTraces] (current : Current) (e : DispatchException) :
    ClientException :=
  match e with
  | .objectNotExist => .objectNotExist current.id current.facet current.operation
  | .facetNotExist => .facetNotExist current.id current.facet current.operation
  | .operationNotExist => .operationNotExist current.id current.facet current.operation
  | .protocolException e =>
    .unknownLocal (e.ice_id ++ "\n" ++ StackTraces.printStackTrace (.protocolException e))
  | .localException e =>
    .unknownLocal (e.ice_id ++ "\n" ++ StackTraces.printStackTrace (.localException e))
  | .nullPointerException e => .unknown (StackTraces.printStackTrace (.nullPointerException e))

/-! ## What was written is read -/

section

variable [Runtime]

theorem reads_entry {entry : String × String} (h : Fits (writeEntry entry)) :
    Reads readEntry (writeEntry entry) entry :=
  (reads_readString h.left).bind ((reads_readString h.right).bind_last (Reads.pure entry))

theorem reads_context {ctx : List (String × String)} (h : Fits (writeContext ctx)) :
    Reads readContext (writeContext ctx) (contextOf ctx) := by
  have hne : ∀ entry, writeEntry entry ≠ [] :=
    fun entry ↦ List.append_ne_nil_of_left_ne_nil (writeString_ne_nil _) _
  have hlen := length_le_length_flatMap hne ctx
  have hmany := Reads.many fun entry hentry ↦ reads_entry (h.right.of_mem hentry)
  exact (reads_readSize (hlen.trans_lt h.right)).bind (hmany.map contextOf)

/-- **The front of a request is read back** as the current of its dispatch. -/
theorem reads_current {id : Identity} {facet operation : String} {mode : OperationMode}
    {ctx : List (String × String)} (h : Fits (prepare id facet operation mode ctx))
    (requestId : Int32) (response : Bool) :
    Reads (readCurrent requestId response) (prepare id facet operation mode ctx)
      ⟨id, facet, operation, mode, contextOf ctx, requestId, response⟩ := by
  have hmode : Reads readMode [mode.value] mode := by
    refine ((reads_readByte mode.value).mapError _).bind_last ?_
    rw [OperationMode.ofByte_value]
    exact Reads.pure mode
  refine ((reads_identity h.left).mapError _).bind ?_
  refine ((reads_facetPath _ h.right.left).mapError _).bind ?_
  refine ((reads_readString h.right.right.left).mapError _).bind ?_
  refine hmode.bind ?_
  exact ((reads_context h.right.right.right.right).mapError _).bind_last (Reads.pure _)

/-! ### Replies -/

section

variable {α : Type} {unmarshal : InputStream α}

/-- What the outcome of a reply is, after the id of its request. -/
theorem reads_readReply (requestId : Int32) {bs : List UInt8} {result : Except ClientException α}
    (h : ∀ rest, (completed unmarshal).exec (bs ++ rest) = (result, rest)) :
    Reads (readReply unmarshal) (writeInt requestId ++ bs) (requestId, result) := by
  refine ((reads_readInt requestId).mapError _).bind fun rest ↦ ?_
  rw [Code.exec_get_bind, h rest]
  rfl

/-- The status of a reply decides how the rest of it is read. -/
theorem exec_completed (status : ReplyStatus) (bs : List UInt8) :
    (completed unmarshal).exec (status.value :: bs) =
      (match some status with
      | some .replyOK => Code.mapError .protocolException unmarshal
      | some .replyUserException => throw .userException
      | some .replyObjectNotExist => readRequestFailed .objectNotExist
      | some .replyFacetNotExist => readRequestFailed .facetNotExist
      | some .replyOperationNotExist => readRequestFailed .operationNotExist
      | some .replyUnknownLocalException => readUnknown .unknownLocal
      | some .replyUnknownUserException => readUnknown .unknownUser
      | some .replyUnknownException => readUnknown .unknown
      | none => throw .unknownReplyStatus : Reader ClientException α).exec bs := by
  have hbyte := (reads_readByte status.value).mapError (ClientException.protocolException) bs
  rw [List.singleton_append] at hbyte
  rw [completed, Code.exec_bind_of_ok hbyte, ReplyStatus.ofByte_value]

theorem reads_replyOk {requestId : Int32} {encapsulation : List UInt8} {a : α}
    (h : Reads unmarshal encapsulation a) :
    Reads (readReply unmarshal) (replyOk requestId encapsulation) (requestId, .ok a) := by
  refine reads_readReply requestId fun rest ↦ ?_
  rw [List.append_assoc, List.singleton_append, exec_completed]
  exact h.mapError _ rest

theorem exec_readRequestFailed {id : Identity} {facet operation : String}
    (h : Fits (id.write ++ (writeFacetPath facet ++ writeString operation)))
    (failed : Identity → String → String → ClientException) (rest : List UInt8) :
    (readRequestFailed failed : Reader ClientException α).exec
      (id.write ++ (writeFacetPath facet ++ writeString operation) ++ rest) =
        (.error (failed id facet operation), rest) := by
  have hid := (reads_identity h.left).mapError ClientException.protocolException
  have hfacet := (reads_facetPath (.marshal "") h.right.left).mapError
    ClientException.protocolException
  have hoperation := (reads_readString h.right.right).mapError ClientException.protocolException
  rw [readRequestFailed, List.append_assoc, Code.exec_bind_of_ok (hid _), List.append_assoc,
    Code.exec_bind_of_ok (hfacet _), Code.exec_bind_of_ok (hoperation _)]
  rfl

theorem exec_readUnknown {text : String} (h : Fits (writeString text))
    (unknown : String → ClientException) (rest : List UInt8) :
    (readUnknown unknown : Reader ClientException α).exec (writeString text ++ rest) =
      (.error (unknown text), rest) := by
  have htext := (reads_readString h).mapError ClientException.protocolException
  rw [readUnknown, Code.exec_bind_of_ok (htext _)]
  rfl

/-- **An exception of the dispatch arrives** at the caller as the one it stands for. -/
theorem reads_handleException [StackTraces] {current : Current} {e : DispatchException}
    (h : Fits (handleException current e)) :
    Reads (readReply unmarshal) (handleException current e)
      (current.requestId, .error (e.received current)) := by
  cases e with
  | objectNotExist | facetNotExist | operationNotExist =>
      refine reads_readReply _ fun rest ↦ ?_
      rw [List.append_assoc, List.singleton_append, exec_completed]
      exact exec_readRequestFailed h.right.right _ rest
  | protocolException e | localException e | nullPointerException e =>
      refine reads_readReply _ fun rest ↦ ?_
      rw [List.append_assoc, List.singleton_append, exec_completed]
      exact exec_readUnknown h.right.right _ rest

end

end

end StockBank.Ice
