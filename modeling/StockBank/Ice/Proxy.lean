import StockBank.Ice
import StockBank.Ice.Stream

/-!
# Proxies on the wire

A proxy is marshalled as the identity of its object and, unless it is null, the rest of
its reference: facet, mode, versions, and how to reach the object, which is a list of
endpoints or the name of an adapter.  `_ObjectPrxI._write`, `RoutableReference.streamWrite`,
`ReferenceFactory.create` and `EndpointFactoryManager.read` of the vendored Ice, with the
endpoint factories of a communicator without plug-ins.

In the old encoding the versions of a reference are not transmitted: what comes back is
`Reference.transmitted`.
-/

namespace StockBank.Ice

open Lib Bytes

def Identity.write (v : Identity) : List UInt8 := writeString v.name ++ writeString v.category

def Identity.read [Runtime] : InputStream Identity := do
  let name ← readString
  let category ← readString
  return ⟨name, category⟩

/-- A facet, as a path of at most one. -/
def writeFacetPath (facet : String) : List UInt8 :=
  writeStringSeq (if facet = "" then [] else [facet])

/-- A path of more than one facet raises `e`. -/
def readFacetPath [Runtime] (e : ProtocolException) : InputStream String := do
  match ← readStringSeq with
  | [] => return ""
  | [facet] => return facet
  | _ :: _ :: _ => throw e

/-! ## Endpoints -/

structure TcpEndpointI where
  host : String
  port : Int32
  timeout : Int32
  compress : Bool
  deriving DecidableEq, Repr

structure UdpEndpointI where
  host : String
  port : Int32
  compress : Bool
  deriving DecidableEq, Repr

structure WSEndpoint where
  delegate : TcpEndpointI
  resource : String
  deriving DecidableEq, Repr

/-- The types of endpoints that there is a factory for, or a factory with an underlying one:
`tcp`, `udp` and `ws`. -/
def HasFactory (type : Int16) : Prop := type = 1 ∨ type = 3 ∨ type = 4

instance (type : Int16) : Decidable (HasFactory type) := inferInstanceAs (Decidable (_ ∨ _))

/-- An endpoint that there is no factory for. -/
structure OpaqueEndpointI where
  type : { type : Int16 // ¬ HasFactory type }
  rawEncoding : Encoding
  rawBytes : List UInt8
  deriving DecidableEq

inductive EndpointI
  | tcp (endpoint : TcpEndpointI)
  | udp (endpoint : UdpEndpointI)
  | ws (endpoint : WSEndpoint)
  | other (endpoint : OpaqueEndpointI)
  deriving DecidableEq

def TcpEndpointI.write (v : TcpEndpointI) : List UInt8 :=
  writeString v.host ++ (writeInt v.port ++ (writeInt v.timeout ++ writeBool v.compress))

def TcpEndpointI.read [Runtime] : InputStream TcpEndpointI := do
  let host ← readString
  let port ← readInt
  let timeout ← readInt
  let compress ← readBool
  return ⟨host, port, timeout, compress⟩

/-- The versions of the old encoding are always these. -/
def UdpEndpointI.versions (encoding : Encoding) : List UInt8 :=
  if encoding.val = Encoding_1_0 then Protocol_1_0.write ++ Encoding_1_0.write else []

def UdpEndpointI.write (encoding : Encoding) (v : UdpEndpointI) : List UInt8 :=
  writeString v.host ++ (writeInt v.port ++ (versions encoding ++ writeBool v.compress))

def UdpEndpointI.read [Runtime] (encoding : Encoding) : InputStream UdpEndpointI := do
  let host ← readString
  let port ← readInt
  -- what the versions are is not looked at
  let _ ← many readByte (if encoding.val = Encoding_1_0 then 4 else 0)
  let compress ← readBool
  return ⟨host, port, compress⟩

def WSEndpoint.write (v : WSEndpoint) : List UInt8 := v.delegate.write ++ writeString v.resource

def WSEndpoint.read [Runtime] : InputStream WSEndpoint := do
  let delegate ← TcpEndpointI.read
  let resource ← readString
  return ⟨delegate, resource⟩

namespace EndpointI

/-- `EndpointI.type`. -/
def type : EndpointI → Int16
  | tcp _ => 1
  | udp _ => 3
  | ws _ => 4
  | other endpoint => endpoint.type

/-- `EndpointI.streamWrite`. -/
def streamWrite (encoding : Encoding) : EndpointI → List UInt8
  | tcp endpoint => writeEncapsulation encoding endpoint.write
  | udp endpoint => writeEncapsulation encoding (endpoint.write encoding)
  | ws endpoint => writeEncapsulation encoding endpoint.write
  | other endpoint => writeEncapsulation endpoint.rawEncoding endpoint.rawBytes

/-- What `EndpointFactoryManager.read` reads inside the encapsulation. -/
def readBody [Runtime] (type : Int16) (encoding : Encoding) (stop : ℕ) :
    InputStream EndpointI := do
  if h : HasFactory type then
    if type = 1 then
      return .tcp (← TcpEndpointI.read)
    else if type = 3 then
      return .udp (← UdpEndpointI.read encoding)
    else
      return .ws (← WSEndpoint.read)
  else
    let left ← remaining
    return .other ⟨⟨type, h⟩, encoding, ← take .unmarshalOutOfBounds (left - stop)⟩

/-- A type, and an endpoint of it. -/
def write (encoding : Encoding) (v : EndpointI) : List UInt8 :=
  writeShort v.type ++ v.streamWrite encoding

/-- `EndpointFactoryManager.read`. -/
def read [Runtime] : InputStream EndpointI := do
  let type ← readShort
  let (_, e) ← readEncapsulation (readBody type)
  return e

end EndpointI

/-! ## References -/

/-- `Reference.ModeTwoway`, …, `Reference.ModeBatchDatagram`. -/
inductive Mode
  | twoway
  | oneway
  | batchOneway
  | datagram
  | batchDatagram
  deriving DecidableEq, Repr

def Mode.value : Mode → UInt8
  | twoway => 0
  | oneway => 1
  | batchOneway => 2
  | datagram => 3
  | batchDatagram => 4

def Mode.ofByte : UInt8 → Option Mode
  | 0 => some twoway
  | 1 => some oneway
  | 2 => some batchOneway
  | 3 => some datagram
  | 4 => some batchDatagram
  | _ => none

@[simp] theorem Mode.ofByte_value (v : Mode) : ofByte v.value = some v := by
  cases v <;> rfl

/-- How a routable reference reaches its object: by endpoints, if there are any. -/
inductive Address
  | endpoints (first : EndpointI) (others : List EndpointI)
  | adapterId (id : String)
  deriving DecidableEq

/-- What a reference transmits besides the identity. -/
structure Reference where
  facet : String
  mode : Mode
  secure : Bool
  protocol : ProtocolVersion
  encoding : EncodingVersion
  address : Address
  deriving DecidableEq

def Address.write (encoding : Encoding) : Address → List UInt8
  | endpoints first others =>
    writeSize (first :: others).length ++ (first :: others).flatMap (EndpointI.write encoding)
  | adapterId id => writeSize 0 ++ writeString id

def Address.read [Runtime] : InputStream Address := do
  let sz ← readSize
  match ← many EndpointI.read sz with
  | [] => return adapterId (← readString)
  | first :: others => return endpoints first others

namespace Reference

/-- The versions, which the old encoding does not have. -/
def versions (encoding : Encoding) (v : Reference) : List UInt8 :=
  if encoding.val = Encoding_1_0 then [] else v.protocol.write ++ v.encoding.write

def readVersions (encoding : Encoding) : InputStream (ProtocolVersion × EncodingVersion) := do
  if encoding.val = Encoding_1_0 then
    return (Protocol_1_0, Encoding_1_0)
  else
    let protocol ← ProtocolVersion.read
    let encoding ← EncodingVersion.read
    return (protocol, encoding)

/-- `RoutableReference.streamWrite`. -/
def streamWrite (encoding : Encoding) (v : Reference) : List UInt8 :=
  writeFacetPath v.facet ++ ([v.mode.value] ++ (writeBool v.secure ++
    (v.versions encoding ++ v.address.write encoding)))

/-- `ReferenceFactory.create`, after the identity. -/
def create [Runtime] (encoding : Encoding) : InputStream Reference := do
  let facet ← readFacetPath .proxyUnmarshal
  match Mode.ofByte (← readByte) with
  | none => throw .proxyUnmarshal
  | some mode =>
    let secure ← readBool
    let versions ← readVersions encoding
    let address ← Address.read
    return ⟨facet, mode, secure, versions.1, versions.2, address⟩

/-- The reference at the other end. -/
def transmitted (encoding : Encoding) (v : Reference) : Reference :=
  if encoding.val = Encoding_1_0 then
    { v with protocol := Protocol_1_0, encoding := Encoding_1_0 }
  else
    v

end Reference

/-- `OutputStream.writeProxy`, for proxies with this reference. -/
def writeProxy (encoding : Encoding) (reference : Reference) : Option ObjectPrx → List UInt8
  | none => Identity.write ⟨"", ""⟩
  | some proxy => proxy.ident.write ++ reference.streamWrite encoding

/-- `ProxyFactory.streamToProxy`: an empty identity is that of a null proxy. -/
def readProxy [Runtime] (encoding : Encoding) : InputStream (Option (ObjectPrx × Reference)) := do
  let ident ← Identity.read
  if ident.name = "" ∧ ident.category = "" then
    return none
  else
    return some (⟨ident⟩, ← Reference.create encoding)

/-! ## What was written is read -/

section

variable [Runtime]

theorem reads_identity {v : Identity} (h : Fits v.write) : Reads Identity.read v.write v :=
  (reads_readString h.left).bind ((reads_readString h.right).bind_last (Reads.pure v))

theorem reads_facetPath (e : ProtocolException) {facet : String} (h : Fits (writeFacetPath facet)) :
    Reads (readFacetPath e) (writeFacetPath facet) facet := by
  refine (reads_readStringSeq h).bind_last ?_
  by_cases hfacet : facet = ""
  · rw [if_pos hfacet, hfacet]
    exact Reads.pure ""
  · rw [if_neg hfacet]
    exact Reads.pure facet

theorem reads_tcp {v : TcpEndpointI} (h : Fits v.write) : Reads TcpEndpointI.read v.write v :=
  (reads_readString h.left).bind ((reads_readInt _).bind ((reads_readInt _).bind
    ((reads_readBool _).bind_last (Reads.pure v))))

theorem reads_udp {encoding : Encoding} {v : UdpEndpointI} (h : Fits (v.write encoding)) :
    Reads (UdpEndpointI.read encoding) (v.write encoding) v := by
  have hversions : ∃ bytes, Reads (many readByte (if encoding.val = Encoding_1_0 then 4 else 0))
      (UdpEndpointI.versions encoding) bytes := by
    refine ⟨UdpEndpointI.versions encoding, ?_⟩
    unfold UdpEndpointI.versions
    split <;> exact fun _ ↦ rfl
  obtain ⟨bytes, hversions⟩ := hversions
  exact (reads_readString h.left).bind ((reads_readInt _).bind (hversions.bind
    ((reads_readBool _).bind_last (Reads.pure v))))

theorem reads_ws {v : WSEndpoint} (h : Fits v.write) : Reads WSEndpoint.read v.write v :=
  (reads_tcp h.left).bind ((reads_readString h.right).bind_last (Reads.pure v))

theorem reads_endpoint {encoding : Encoding} {v : EndpointI} (h : Fits (v.write encoding)) :
    Reads EndpointI.read (v.write encoding) v := by
  refine (reads_readShort _).bind ?_
  cases v with
  | tcp v =>
      have hbody : ∀ stop, Reads (EndpointI.readBody 1 encoding stop) v.write (.tcp v) :=
        fun stop ↦ (reads_tcp h.right.body).map EndpointI.tcp
      exact (reads_readEncapsulation h.right fun rest ↦ hbody _ rest).bind_last (Reads.pure _)
  | udp v =>
      have hbody : ∀ stop, Reads (EndpointI.readBody 3 encoding stop) (v.write encoding) (.udp v) :=
        fun stop ↦ (reads_udp h.right.body).map EndpointI.udp
      exact (reads_readEncapsulation h.right fun rest ↦ hbody _ rest).bind_last (Reads.pure _)
  | ws v =>
      have hbody : ∀ stop, Reads (EndpointI.readBody 4 encoding stop) v.write (.ws v) :=
        fun stop ↦ (reads_ws h.right.body).map EndpointI.ws
      exact (reads_readEncapsulation h.right fun rest ↦ hbody _ rest).bind_last (Reads.pure _)
  | other v =>
      have hbody : ∀ rest : List UInt8,
          (EndpointI.readBody v.type v.rawEncoding rest.length).exec (v.rawBytes ++ rest) =
            (.ok (.other v), rest) := by
        intro rest
        have hleft : (v.rawBytes ++ rest).length - rest.length = v.rawBytes.length := by simp
        rw [EndpointI.readBody, dif_neg v.type.property, exec_remaining_bind, hleft]
        exact (Reads.take ProtocolException.unmarshalOutOfBounds v.rawBytes).map
          (fun bytes ↦ EndpointI.other ⟨v.type, v.rawEncoding, bytes⟩) rest
      exact (reads_readEncapsulation h.right hbody).bind_last (Reads.pure _)

theorem reads_address {encoding : Encoding} {v : Address} (h : Fits (v.write encoding)) :
    Reads Address.read (v.write encoding) v := by
  cases v with
  | endpoints first others =>
      have hne : ∀ e : EndpointI, e.write encoding ≠ [] :=
        fun e ↦ List.append_ne_nil_of_left_ne_nil (List.cons_ne_nil _ _) _
      have hlen := length_le_length_flatMap hne (first :: others)
      have hmany := Reads.many fun e he ↦ reads_endpoint (h.right.of_mem he)
      exact (reads_readSize (hlen.trans_lt h.right)).bind (hmany.bind_last (Reads.pure _))
  | adapterId id =>
      refine (reads_readSize (by decide)).bind ?_
      exact (Reads.pure []).bind_nil ((reads_readString h.right).map _)

theorem reads_reference {encoding : Encoding} {v : Reference} (h : Fits (v.streamWrite encoding)) :
    Reads (Reference.create encoding) (v.streamWrite encoding) (v.transmitted encoding) := by
  have hversions : Reads (Reference.readVersions encoding) (v.versions encoding)
      ((v.transmitted encoding).protocol, (v.transmitted encoding).encoding) := by
    unfold Reference.readVersions Reference.versions Reference.transmitted
    split
    · exact Reads.pure _
    · exact (reads_protocolVersion _).bind ((reads_encodingVersion _).bind_last (Reads.pure _))
  have htransmitted : v.transmitted encoding = ⟨v.facet, v.mode, v.secure,
      (v.transmitted encoding).protocol, (v.transmitted encoding).encoding, v.address⟩ := by
    unfold Reference.transmitted
    split <;> rfl
  rw [htransmitted]
  refine (reads_facetPath _ h.left).bind ((reads_readByte _).bind ?_)
  rw [Mode.ofByte_value]
  exact (reads_readBool _).bind (hversions.bind
    ((reads_address h.right.right.right.right).bind_last (Reads.pure _)))

/-- **A proxy is read back**, with what its reference transmits. -/
theorem reads_proxy {encoding : Encoding} {reference : Reference} {v : Option ObjectPrx}
    (h : Fits (writeProxy encoding reference v))
    (hnull : ∀ proxy ∈ v, ¬ (proxy.ident.name = "" ∧ proxy.ident.category = "")) :
    Reads (readProxy encoding) (writeProxy encoding reference v)
      (v.map fun proxy ↦ (proxy, reference.transmitted encoding)) := by
  cases v with
  | none => exact (reads_identity h).bind_last (Reads.ite_pos ⟨rfl, rfl⟩ (Reads.pure none))
  | some proxy =>
      refine (reads_identity h.left).bind (Reads.ite_neg (hnull proxy rfl) ?_)
      exact (reads_reference h.right).map _

/-- **Proxies survive the wire**: a proxy is read back, and two proxies that are written alike
are the same, with the same reference as far as it is transmitted. -/
theorem proxy_round_trip {encoding : Encoding} {reference reference' : Reference}
    {v v' : Option ObjectPrx} (h : Fits (writeProxy encoding reference v))
    (hnull : ∀ proxy ∈ v, ¬ (proxy.ident.name = "" ∧ proxy.ident.category = ""))
    (hnull' : ∀ proxy ∈ v', ¬ (proxy.ident.name = "" ∧ proxy.ident.category = "")) :
    Reads (readProxy encoding) (writeProxy encoding reference v)
      (v.map fun proxy ↦ (proxy, reference.transmitted encoding)) ∧
    (writeProxy encoding reference v = writeProxy encoding reference' v' →
      v = v' ∧ ∀ proxy ∈ v, reference.transmitted encoding = reference'.transmitted encoding) := by
  have hreads := reads_proxy h hnull
  refine ⟨hreads, fun heq ↦ ?_⟩
  rw [heq] at h hreads
  have hsame := hreads.unique (reads_proxy h hnull')
  cases v with
  | none =>
      cases v' with
      | none => exact ⟨rfl, fun _ h ↦ nomatch h⟩
      | some proxy' => cases hsame
  | some proxy =>
      cases v' with
      | none => cases hsame
      | some proxy' =>
          obtain ⟨hproxy, hreference⟩ := Prod.mk.inj (Option.some.inj hsame)
          exact ⟨congrArg some hproxy, fun _ _ ↦ hreference⟩

end

section

local instance : Runtime := sampleRuntime

/-- What the bank publishes of itself, with the endpoints of `Server.start`. -/
def sampleReference : Reference where
  facet := ""
  mode := .twoway
  secure := false
  protocol := Protocol_1_0
  encoding := Encoding_1_1
  address := .endpoints (.tcp ⟨"localhost", 10001, 60000, false⟩) [.udp ⟨"localhost", 10001, false⟩]

/-- The proxy of an account. -/
def samplePrx : Option ObjectPrx := some ⟨⟨"44051401458", "premium"⟩⟩

theorem proxy_round_trip_account :
    Reads (readProxy currentEncoding) (writeProxy currentEncoding sampleReference samplePrx)
      (samplePrx.map fun proxy ↦ (proxy, sampleReference.transmitted currentEncoding)) := by
  have hfits : Fits (writeProxy currentEncoding sampleReference samplePrx) :=
    lt_of_lt_of_le (show _ < 2 ^ 10 by decide +kernel) (by decide)
  have hnull : ∀ proxy ∈ samplePrx, ¬ (proxy.ident.name = "" ∧ proxy.ident.category = "") := by
    rintro proxy hproxy ⟨hname, -⟩
    obtain rfl := Option.some.inj hproxy
    exact absurd hname (by decide)
  exact (@proxy_round_trip _ currentEncoding sampleReference sampleReference samplePrx samplePrx hfits
    hnull hnull).1

end

end StockBank.Ice
