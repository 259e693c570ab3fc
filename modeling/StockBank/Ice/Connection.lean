import StockBank.Lib.Framing
import StockBank.Ice.Incoming

/-!
# The messages of a connection

The header of a message, and what a connection does with the message that follows it:
`ConnectionI.message` and `ConnectionI.parseMessage` of the vendored Ice, for a server that has
nothing outstanding and uncompresses nothing.
-/

namespace StockBank.Ice

open Lib Bytes

/-- The exceptions of a connection. -/
inductive ConnectionException
  | badMagic (badMagic : List UInt8)
  | unsupportedProtocol (bad : ProtocolVersion)
  | illegalMessageSize
  | memoryLimit (size : Int32)
  | featureNotSupported
  | unknownMessage
  | closeConnection
  | timeout
  | connectionLost
  | protocolException (e : ProtocolException)
  deriving DecidableEq, Repr

/-! ## Headers -/

/-- `Protocol.headerSize`. -/
def headerSize : ℕ := 14

/-- `Protocol.magic`: the letters `IceP`. -/
def magic : List UInt8 := [0x49, 0x63, 0x65, 0x50]

/-- `Protocol.checkSupportedProtocol`. -/
def checkSupportedProtocol (v : ProtocolVersion) : Reader ConnectionException Unit :=
  if v.major ≠ Protocol_1_0.major ∨ v.minor.toInt8.toInt > Protocol_1_0.minor.toInt8.toInt then
    throw (.unsupportedProtocol v)
  else
    return ()

/-- `Protocol.checkSupportedProtocolEncoding`. -/
def checkSupportedProtocolEncoding (v : EncodingVersion) : Reader ConnectionException Unit :=
  if v.major ≠ Encoding_1_0.major ∨ v.minor.toInt8.toInt > Encoding_1_0.minor.toInt8.toInt then
    throw (.protocolException (.unsupportedEncoding v Encoding_1_0))
  else
    return ()

/-- The part of `ConnectionI.message` that reads a header: the size of its message. -/
def readHeader (messageSizeMax : Int32) : Reader ConnectionException ℕ := do
  let m ← take (.protocolException .unmarshalOutOfBounds) 4
  if m ≠ magic then
    throw (.badMagic m)
  checkSupportedProtocol (← Code.mapError .protocolException ProtocolVersion.read)
  checkSupportedProtocolEncoding (← Code.mapError .protocolException EncodingVersion.read)
  let _messageType ← Code.mapError .protocolException readByte
  let _compress ← Code.mapError .protocolException readByte
  let size ← Code.mapError .protocolException readInt
  if size.toInt < headerSize then
    throw .illegalMessageSize
  if size > messageSizeMax then
    throw (.memoryLimit size)
  return size.toInt.toNat

/-- The format of the messages, with this `Ice.MessageSizeMax`. -/
def framing (messageSizeMax : Int32) : Framing ConnectionException where
  headerSize := headerSize
  headerSize_pos := by decide
  messageSize header := ((readHeader messageSizeMax).exec header).1

/-! ## Messages -/

def requestMsg : UInt8 := 0

def requestBatchMsg : UInt8 := 1

def replyMsg : UInt8 := 2

def validateConnectionMsg : UInt8 := 3

def closeConnectionMsg : UInt8 := 4

/-- `requestHdr` and its siblings, with the size of the message. -/
def writeHeader (messageType : UInt8) (size : ℕ) : List UInt8 :=
  magic ++ (Protocol_1_0.write ++ (Encoding_1_0.write ++ ([messageType] ++ ([0] ++
    writeInt (Int32.ofNat size)))))

/-- A message, as `ConnectionI.sendMessage` completes it. -/
def writeMessage (messageType : UInt8) (body : List UInt8) : List UInt8 :=
  writeHeader messageType (body.length + headerSize) ++ body

/-- What is to be dispatched: so many requests, the first of which is next in the stream. -/
structure MessageInfo where
  requestId : Int32
  invokeNum : ℕ

/-- `ConnectionI.parseMessage`.  A reply is to no request, and a validation needs none. -/
def parseMessage : Reader ConnectionException MessageInfo := do
  let _ ← take (.protocolException .unmarshalOutOfBounds) 8
  let messageType ← Code.mapError .protocolException readByte
  let compress ← Code.mapError .protocolException readByte
  if compress = 2 then
    throw .featureNotSupported
  let _ ← take (.protocolException .unmarshalOutOfBounds) 4
  if messageType = closeConnectionMsg then
    throw .closeConnection
  else if messageType = requestMsg then
    let requestId ← Code.mapError .protocolException readInt
    return ⟨requestId, 1⟩
  else if messageType = requestBatchMsg then
    let invokeNum ← Code.mapError .protocolException readInt
    if invokeNum.toInt < 0 then
      throw (.protocolException .unmarshalOutOfBounds)
    return ⟨0, invokeNum.toInt.toNat⟩
  else if messageType = replyMsg then
    let requestId ← Code.mapError .protocolException readInt
    return ⟨requestId, 0⟩
  else if messageType = validateConnectionMsg then
    return ⟨0, 0⟩
  else
    throw .unknownMessage

/-! ## What was written is read -/

theorem length_writeHeader (messageType : UInt8) (size : ℕ) :
    (writeHeader messageType size).length = headerSize := by
  simp [writeHeader, magic, ProtocolVersion.write, EncodingVersion.write, writeInt,
    Wire.length_fixed, headerSize]

theorem length_writeMessage (messageType : UInt8) (body : List UInt8) :
    (writeMessage messageType body).length = body.length + headerSize := by
  rw [writeMessage, List.length_append, length_writeHeader, Nat.add_comm]

/-- A header is read back, when its message is not too large. -/
theorem reads_readHeader {messageSizeMax : Int32} (messageType : UInt8) {size : ℕ}
    (hmin : headerSize ≤ size) (hmax : (size : ℤ) ≤ messageSizeMax.toInt) :
    Reads (readHeader messageSizeMax) (writeHeader messageType size) size := by
  have hsize : (Int32.ofNat size).toInt = size :=
    toInt_ofNat (by have := messageSizeMax.toInt_lt; omega)
  refine (Reads.take _ magic).bind (Reads.ite_neg (not_not.mpr rfl) ?_)
  refine ((reads_protocolVersion _).mapError _).bind (Reads.bind_nil (Reads.pure ()) ?_)
  refine ((reads_encodingVersion _).mapError _).bind (Reads.bind_nil (Reads.pure ()) ?_)
  refine ((reads_readByte messageType).mapError _).bind (((reads_readByte 0).mapError _).bind ?_)
  refine ((reads_readInt _).mapError _).bind_last ?_
  rw [hsize]
  refine Reads.ite_neg (by omega) (Reads.ite_neg ?_ (Reads.pure size))
  rw [gt_iff_lt, Int32.lt_iff_toInt_lt, hsize]
  omega

/-- What `sendMessage` has completed is a message. -/
theorem isMessage_writeMessage {messageSizeMax : Int32} (messageType : UInt8) {body : List UInt8}
    (hmax : (body.length + headerSize : ℕ) ≤ messageSizeMax.toInt) :
    (framing messageSizeMax).IsMessage (writeMessage messageType body) := by
  have hmin : headerSize ≤ body.length + headerSize := Nat.le_add_left _ _
  refine ⟨hmin.trans_eq (length_writeMessage messageType body).symm, ?_⟩
  have htake : (writeMessage messageType body).take headerSize =
      writeHeader messageType (body.length + headerSize) :=
    List.take_left' (length_writeHeader messageType _)
  change ((readHeader messageSizeMax).exec ((writeMessage messageType body).take headerSize)).1 = _
  rw [htake, (reads_readHeader messageType hmin hmax).exec, length_writeMessage]

/-- A request, to the point where its dispatch begins. -/
theorem reads_parseMessage_request (requestId : Int32) (size : ℕ) :
    Reads parseMessage (writeHeader requestMsg size ++ writeInt requestId) ⟨requestId, 1⟩ := by
  have hsplit : writeHeader requestMsg size ++ writeInt requestId =
      (magic ++ (Protocol_1_0.write ++ Encoding_1_0.write)) ++ ([requestMsg] ++ ([0] ++
        (writeInt (Int32.ofNat size) ++ writeInt requestId))) := by
    simp [writeHeader]
  have hsize : (writeInt (Int32.ofNat size)).length = 4 := Wire.length_fixed _ _
  rw [hsplit]
  refine (Reads.take _ (magic ++ (Protocol_1_0.write ++ Encoding_1_0.write))).bind ?_
  refine ((reads_readByte requestMsg).mapError _).bind (((reads_readByte 0).mapError _).bind ?_)
  refine Reads.ite_neg (by decide) ?_
  refine Reads.bind (hsize ▸ Reads.take _ (writeInt (Int32.ofNat size))) ?_
  refine Reads.ite_neg (by decide) (Reads.ite_pos rfl ?_)
  exact ((reads_readInt requestId).mapError _).bind_last (Reads.pure _)

end StockBank.Ice
