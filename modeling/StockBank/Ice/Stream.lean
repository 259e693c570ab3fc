import StockBank.Lib.Bytes
import StockBank.Java.Doubles
import Mathlib.Data.List.Basic

/-!
# Ice streams

`OutputStream` and `InputStream` of the vendored Ice, for the types that the bank's
interface is made of: sizes, numbers, booleans, strings, enumerators, sequences of
strings, and encapsulations.

A stream that is written is the list of its bytes.  A stream that is read is the list of
the bytes that are left, so a position in it is the number of bytes left there: an
encapsulation ends where `stop` bytes are left.

What each `read` does with what the `write` of the same name wrote is said by `Reads`.
-/

namespace StockBank.Ice

open Lib Bytes Java

/-- `EncodingVersion`.  A Java `byte` is signed, which only `checkSupportedEncoding` notices. -/
structure EncodingVersion where
  major : UInt8
  minor : UInt8
  deriving DecidableEq, Repr

def Encoding_1_0 : EncodingVersion := ⟨1, 0⟩

def Encoding_1_1 : EncodingVersion := ⟨1, 1⟩

/-- The versions that `Protocol.checkSupportedEncoding` lets pass. -/
def EncodingVersion.Supported (v : EncodingVersion) : Prop :=
  v.major = Encoding_1_1.major ∧ v.minor.toInt8.toInt ≤ Encoding_1_1.minor.toInt8.toInt

instance (v : EncodingVersion) : Decidable v.Supported :=
  inferInstanceAs (Decidable (_ ∧ _))

/-- The encoding of an encapsulation: one that has passed the check. -/
abbrev Encoding := { v : EncodingVersion // v.Supported }

/-- The encoding that a request is written in. -/
def currentEncoding : Encoding := ⟨Encoding_1_1, by decide⟩

/-- `ProtocolVersion`. -/
structure ProtocolVersion where
  major : UInt8
  minor : UInt8
  deriving DecidableEq, Repr

def Protocol_1_0 : ProtocolVersion := ⟨1, 0⟩

/-- The exceptions of a stream. -/
inductive ProtocolException
  | /-- `UnmarshalOutOfBoundsException`. -/
    unmarshalOutOfBounds
  | /-- `EncapsulationException`. -/
    encapsulation
  | /-- `ProxyUnmarshalException`. -/
    proxyUnmarshal
  | /-- `MarshalException`. -/
    marshal (reason : String)
  | /-- `UnsupportedEncodingException`. -/
    unsupportedEncoding (bad supported : EncodingVersion)
  deriving DecidableEq, Repr

/-- Code that reads a stream. -/
abbrev InputStream := Reader ProtocolException

/-- What the streams leave to the Java runtime, and to the parts of Ice for classes. -/
class Runtime where
  /-- `new String(bytes, "UTF8")` for bytes that are not UTF-8. -/
  malformed : List UInt8 → String
  /-- `InputStream.readValue`, which skips an instance of a class. -/
  readValue : Encoding → InputStream Unit

/-! ## Bytes and numbers -/

def readByte : InputStream UInt8 := byte .unmarshalOutOfBounds

def writeBool (v : Bool) : List UInt8 := [if v then 1 else 0]

def readBool : InputStream Bool := do return (← readByte) == 1

def writeShort (v : Int16) : List UInt8 := Wire.fixed 2 v.toUInt16.toNat

def readShort : InputStream Int16 := do
  return (UInt16.ofNat (littleEndian (← take .unmarshalOutOfBounds 2))).toInt16

def writeInt (v : Int32) : List UInt8 := Wire.fixed 4 v.toUInt32.toNat

def readInt : InputStream Int32 := do
  return (UInt32.ofNat (littleEndian (← take .unmarshalOutOfBounds 4))).toInt32

def writeDouble (v : Double) : List UInt8 := Wire.fixed 8 (doubleToRawLongBits v).toNat

def readDouble : InputStream Double := do
  return longBitsToDouble (UInt64.ofNat (littleEndian (← take .unmarshalOutOfBounds 8)))

/-- A size: one byte, or the byte 255 and an `int`. -/
def writeSize (v : ℕ) : List UInt8 :=
  if v > 254 then 255 :: writeInt (Int32.ofNat v) else [UInt8.ofNat v]

def readSize : InputStream ℕ := do
  let b ← readByte
  if b = 255 then
    let v ← readInt
    if v.toInt < 0 then throw .unmarshalOutOfBounds else return v.toInt.toNat
  else
    return b.toNat

/-- `InputStream.readAndCheckSeqSize`, for a sequence that is not inside another one. -/
def readAndCheckSeqSize (minSize : ℕ) : InputStream ℕ := do
  let sz ← readSize
  if sz = 0 then
    return sz
  else
    if sz * minSize > (← remaining) then throw .unmarshalOutOfBounds else return sz

def skip (size : ℤ) : InputStream Unit := do
  if size < 0 ∨ size > (← remaining) then
    throw .unmarshalOutOfBounds
  else
    modify (List.drop size.toNat)

def skipSize : InputStream Unit := do
  let b ← readByte
  if b = 255 then skip 4 else return ()

/-! ## Strings -/

/-- The bytes of a string in UTF-8. -/
def utf8 (v : String) : List UInt8 := v.toByteArray.data.toList

def newString [Runtime] (bytes : List UInt8) : String :=
  (String.fromUTF8? ⟨bytes.toArray⟩).getD (Runtime.malformed bytes)

def writeString (v : String) : List UInt8 := writeSize (utf8 v).length ++ utf8 v

def readString [Runtime] : InputStream String := do
  let len ← readSize
  if len = 0 then return "" else return newString (← take .unmarshalOutOfBounds len)

def writeStringSeq (v : List String) : List UInt8 := writeSize v.length ++ v.flatMap writeString

def readStringSeq [Runtime] : InputStream (List String) := do
  let sz ← readAndCheckSeqSize 1
  many readString sz

/-! ## Enumerators -/

/-- An enumerator, of an enumeration of less than 127. -/
def writeEnum (encoding : Encoding) (v : ℕ) : List UInt8 :=
  if encoding.val = Encoding_1_0 then [UInt8.ofNat v] else writeSize v

/-- The number of an enumerator.  As a byte it is signed. -/
def readEnum (encoding : Encoding) : InputStream ℤ := do
  if encoding.val = Encoding_1_0 then
    return (← readByte).toInt8.toInt
  else
    return (← readSize)

/-! ## Encapsulations -/

def EncodingVersion.write (v : EncodingVersion) : List UInt8 := [v.major, v.minor]

theorem EncodingVersion.length_write (v : EncodingVersion) : v.write.length = 2 := rfl

def EncodingVersion.read : InputStream EncodingVersion := do
  let major ← readByte
  let minor ← readByte
  return ⟨major, minor⟩

def ProtocolVersion.write (v : ProtocolVersion) : List UInt8 := [v.major, v.minor]

def ProtocolVersion.read : InputStream ProtocolVersion := do
  let major ← readByte
  let minor ← readByte
  return ⟨major, minor⟩

/-- `Protocol.checkSupportedEncoding`. -/
def checkSupportedEncoding (v : EncodingVersion) : InputStream Encoding :=
  if h : v.Supported then return ⟨v, h⟩ else throw (.unsupportedEncoding v Encoding_1_1)

/-- `InputStream.startEncapsulation`: the encoding, and what is left where the
encapsulation ends. -/
def startEncapsulation : InputStream (Encoding × ℕ) := do
  let sz ← readInt
  if sz.toInt < 6 then
    throw .unmarshalOutOfBounds
  else
    let left ← remaining
    if sz.toInt - 4 > left then
      throw .unmarshalOutOfBounds
    else
      let encoding ← checkSupportedEncoding (← EncodingVersion.read)
      return (encoding, left - (sz.toInt - 4).toNat)

/-- `InputStream.skipOptional`, by the number of its format. -/
def skipOptional [Runtime] (encoding : Encoding) (format : ℕ) : InputStream Unit := do
  match format with
  | 0 => skip 1
  | 1 => skip 2
  | 2 => skip 4
  | 3 => skip 8
  | 4 => skipSize
  | 5 => skip (← readSize)
  | 6 => skip (← readInt).toInt
  | _ => Runtime.readValue encoding

/-- `InputStream.skipOptionals`.  Each turn reads at least one byte, so there are no more of
them than bytes. -/
def skipOptionals [Runtime] (encoding : Encoding) (stop : ℕ) : ℕ → InputStream Unit
  | 0 => return ()
  | turns + 1 => do
    if (← remaining) ≤ stop then
      return ()
    else
      let v := (← readByte).toNat
      if v = 255 then
        return ()
      else
        if v / 8 = 30 then skipSize else return ()
        skipOptional encoding (v % 8)
        skipOptionals encoding stop turns

/-- `InputStream.endEncapsulation`. -/
def endEncapsulation [Runtime] (encoding : Encoding) (stop : ℕ) : InputStream Unit := do
  if encoding.val ≠ Encoding_1_0 then
    skipOptionals encoding stop (← remaining)
    if (← remaining) ≠ stop then throw .encapsulation else return ()
  else
    if (← remaining) ≠ stop then
      -- a version of Ice before 3.3 wrote one byte more
      if (← remaining) ≠ stop + 1 then
        throw .encapsulation
      else
        let _ ← readByte
        return ()
    else
      return ()

/-- `InputStream.skipEmptyEncapsulation`. -/
def skipEmptyEncapsulation : InputStream Encoding := do
  let sz ← readInt
  if sz.toInt < 6 then
    throw .encapsulation
  else
    if sz.toInt - 4 > (← remaining) then
      throw .unmarshalOutOfBounds
    else
      let encoding ← checkSupportedEncoding (← EncodingVersion.read)
      if encoding.val = Encoding_1_0 then
        if sz.toInt ≠ 6 then throw .encapsulation else return encoding
      else
        modify (List.drop (sz.toInt - 6).toNat)
        return encoding

/-- `InputStream.skipEncapsulation`. -/
def skipEncapsulation : InputStream EncodingVersion := do
  let sz ← readInt
  if sz.toInt < 6 then
    throw .unmarshalOutOfBounds
  else
    let encoding ← EncodingVersion.read
    if sz.toInt - 6 > (← remaining) then
      throw .unmarshalOutOfBounds
    else
      modify (List.drop (sz.toInt - 6).toNat)
      return encoding

/-- An encapsulation, from `startEncapsulation` to `endEncapsulation`. -/
def writeEncapsulation (encoding : Encoding) (body : List UInt8) : List UInt8 :=
  writeInt (Int32.ofNat (body.length + 6)) ++ (encoding.val.write ++ body)

/-- What is read between `startEncapsulation` and `endEncapsulation`, and the encoding. -/
def readEncapsulation [Runtime] {α : Type} (body : Encoding → ℕ → InputStream α) :
    InputStream (Encoding × α) := do
  let (encoding, stop) ← startEncapsulation
  let a ← body encoding stop
  endEncapsulation encoding stop
  return (encoding, a)

/-! ## What was written is read -/

/-- The bytes fit a buffer, whose positions are `int`s. -/
def Fits (bs : List UInt8) : Prop := bs.length < 2 ^ 31

namespace Fits

variable {bs cs : List UInt8}

theorem left (h : Fits (bs ++ cs)) : Fits bs := by
  rw [Fits, List.length_append] at h
  exact Nat.lt_of_le_of_lt (Nat.le_add_right _ _) h

theorem right (h : Fits (bs ++ cs)) : Fits cs := by
  rw [Fits, List.length_append] at h
  exact Nat.lt_of_le_of_lt (Nat.le_add_left _ _) h

theorem of_mem {α : Type} {write : α → List UInt8} {as : List α} (h : Fits (as.flatMap write))
    {a : α} (ha : a ∈ as) : Fits (write a) := by
  obtain ⟨before, after, rfl⟩ := List.append_of_mem ha
  rw [List.flatMap_append, List.flatMap_cons] at h
  exact h.right.left

/-- What is in an encapsulation that fits. -/
theorem body {encoding : Encoding} (h : Fits (writeEncapsulation encoding bs)) : Fits bs :=
  h.right.right

theorem length_body {encoding : Encoding} (h : Fits (writeEncapsulation encoding bs)) :
    bs.length + 6 < 2 ^ 31 := by
  have hlen : (writeEncapsulation encoding bs).length = bs.length + 6 := by
    simp [writeEncapsulation, writeInt, Wire.length_fixed, EncodingVersion.write]
    omega
  rwa [Fits, hlen] at h

end Fits

theorem reads_fixed {α : Type} (width : ℕ) {n : ℕ} (h : n < 256 ^ width) (f : ℕ → α) :
    Reads (do return f (littleEndian (← take ProtocolException.unmarshalOutOfBounds width)))
      (Wire.fixed width n) (f n) := by
  have htake := Reads.take ProtocolException.unmarshalOutOfBounds (Wire.fixed width n)
  rw [Wire.length_fixed] at htake
  simpa only [littleEndian_fixed h] using htake.map fun bytes ↦ f (littleEndian bytes)

theorem reads_readByte (b : UInt8) : Reads readByte [b] b := Reads.byte _ b

theorem reads_readBool (v : Bool) : Reads readBool (writeBool v) v := by
  have h := (reads_readByte (if v then 1 else 0)).map (· == 1)
  cases v <;> exact h

theorem reads_readShort (v : Int16) : Reads readShort (writeShort v) v := by
  have h := reads_fixed 2 v.toUInt16.toNat_lt fun n ↦ (UInt16.ofNat n).toInt16
  rwa [UInt16.ofNat_toNat] at h

theorem reads_readInt (v : Int32) : Reads readInt (writeInt v) v := by
  have h := reads_fixed 4 v.toUInt32.toNat_lt fun n ↦ (UInt32.ofNat n).toInt32
  rwa [UInt32.ofNat_toNat] at h

/-- A number that fits an `int`. -/
theorem toInt_ofNat {n : ℕ} (h : n < 2 ^ 31) : (Int32.ofNat n).toInt = n :=
  Int32.toInt_ofInt_of_le (n := n) (by omega) (by omega)

theorem reads_readSize {n : ℕ} (h : n < 2 ^ 31) : Reads readSize (writeSize n) n := by
  rw [writeSize]
  split
  · refine (reads_readByte 255).bind ?_
    refine Reads.ite_pos rfl ?_
    refine (reads_readInt _).bind_last ?_
    rw [toInt_ofNat h]
    exact Reads.ite_neg (by omega) (Reads.pure n)
  · have hn : (UInt8.ofNat n).toNat = n := Wire.toNat_ofNat (by omega)
    refine (reads_readByte _).bind_last (Reads.ite_neg ?_ ?_)
    · intro h255
      rw [h255] at hn
      exact absurd hn (by simp; omega)
    · rw [hn]
      exact Reads.pure n

theorem writeSize_ne_nil (n : ℕ) : writeSize n ≠ [] := by
  rw [writeSize]
  split <;> simp

theorem writeString_ne_nil (v : String) : writeString v ≠ [] :=
  List.append_ne_nil_of_left_ne_nil (writeSize_ne_nil _) _

/-- The number of an enumerator. -/
theorem reads_readEnum (encoding : Encoding) {v : ℕ} (h : v < 127) :
    Reads (readEnum encoding) (writeEnum encoding v) v := by
  rw [writeEnum]
  split
  · have hv : (UInt8.ofNat v).toInt8.toInt = v :=
      Int8.toInt_ofInt_of_le (n := v) (by omega) (by omega)
    refine Reads.ite_pos ‹_› ?_
    simpa only [hv] using (reads_readByte (UInt8.ofNat v)).map fun b ↦ b.toInt8.toInt
  · exact Reads.ite_neg ‹_› ((reads_readSize (by omega)).map _)

theorem reads_encodingVersion (v : EncodingVersion) : Reads EncodingVersion.read v.write v :=
  fun _ ↦ rfl

theorem reads_protocolVersion (v : ProtocolVersion) : Reads ProtocolVersion.read v.write v :=
  fun _ ↦ rfl

theorem reads_checkSupportedEncoding (v : Encoding) :
    Reads (do checkSupportedEncoding (← EncodingVersion.read)) v.val.write v := by
  refine (reads_encodingVersion v.val).bind_last ?_
  rw [checkSupportedEncoding, dif_pos v.property]
  exact Reads.pure v

/-- A size is read where at least as many bytes follow. -/
theorem exec_readAndCheckSeqSize {n : ℕ} {rest : List UInt8} (h : n < 2 ^ 31)
    (hrest : n ≤ rest.length) :
    (readAndCheckSeqSize 1).exec (writeSize n ++ rest) = (.ok n, rest) := by
  rw [readAndCheckSeqSize, Code.exec_bind_of_ok (reads_readSize h rest)]
  split
  · rfl
  · rw [exec_remaining_bind, if_neg (by omega)]
    rfl

/-- A value is read as the `double` that stands for it. -/
theorem reads_readDouble (v : Double) : Reads readDouble (writeDouble v) v.nearest := by
  have h := reads_fixed 8 (doubleToRawLongBits v).toNat_lt
    fun n ↦ longBitsToDouble (UInt64.ofNat n)
  rwa [UInt64.ofNat_toNat] at h

section

variable [Runtime]

theorem reads_readString {v : String} (h : Fits (writeString v)) :
    Reads readString (writeString v) v := by
  refine (reads_readSize h.right).bind ?_
  by_cases hlen : (utf8 v).length = 0
  · have hutf8 : utf8 v = [] := List.length_eq_zero_iff.mp hlen
    have hv : v = "" := by
      rw [← String.toByteArray_inj]
      exact ByteArray.ext (Array.toList_inj.mp hutf8)
    subst hv
    exact Reads.ite_pos rfl (Reads.pure "")
  · have hnew : newString (utf8 v) = v := by
      simp [newString, utf8, String.fromUTF8?, v.isValidUTF8, String.fromUTF8]
    refine Reads.ite_neg hlen ?_
    simpa only [hnew] using (Reads.take _ (utf8 v)).map newString

theorem reads_readStringSeq {v : List String} (h : Fits (writeStringSeq v)) :
    Reads readStringSeq (writeStringSeq v) v := by
  intro rest
  have hle := length_le_length_flatMap writeString_ne_nil v
  have hmany : Reads (many readString v.length) (v.flatMap writeString) v :=
    Reads.many fun s hs ↦ reads_readString (h.right.of_mem hs)
  rw [readStringSeq, writeStringSeq, List.append_assoc, Code.exec_bind_of_ok
    (exec_readAndCheckSeqSize (hle.trans_lt h.right) (by rw [List.length_append]; omega))]
  exact hmany rest

omit [Runtime] in
/-- Where an encapsulation begins. -/
theorem exec_startEncapsulation {encoding : Encoding} {body : List UInt8}
    (h : Fits (writeEncapsulation encoding body)) (rest : List UInt8) :
    startEncapsulation.exec (writeEncapsulation encoding body ++ rest) =
      (.ok (encoding, rest.length), body ++ rest) := by
  have hsz := toInt_ofNat h.length_body
  have hleft : (encoding.val.write ++ body ++ rest).length = body.length + 2 + rest.length := by
    simp [EncodingVersion.write]
    omega
  have hstop : body.length + 2 + rest.length - ((body.length + 6 : ℕ) - 4 : ℤ).toNat =
      rest.length := by omega
  have hread := ((reads_checkSupportedEncoding encoding).map
    fun encoding ↦ (encoding, rest.length)) (body ++ rest)
  rw [startEncapsulation, writeEncapsulation, List.append_assoc,
    Code.exec_bind_of_ok (reads_readInt _ _), hsz, if_neg (by omega), exec_remaining_bind, hleft,
    if_neg (by push_cast; omega), hstop, List.append_assoc]
  simpa only [bind_assoc] using hread

/-- Where an encapsulation ends there is nothing to skip. -/
theorem exec_endEncapsulation (encoding : Encoding) (rest : List UInt8) :
    (endEncapsulation encoding rest.length).exec rest = (.ok (), rest) := by
  have hskip : ∀ turns, (skipOptionals encoding rest.length turns).exec rest = (.ok (), rest) := by
    rintro (_ | turns)
    · rfl
    · rw [skipOptionals, exec_remaining_bind, if_pos le_rfl]
      rfl
  rw [endEncapsulation]
  split
  · rw [exec_remaining_bind, Code.exec_bind_of_ok (hskip _), exec_remaining_bind, if_neg (by simp)]
    rfl
  · rw [exec_remaining_bind, if_neg (by simp)]
    rfl

/-- **An encapsulation is read back** when what is in it is. -/
theorem reads_readEncapsulation {α : Type} {encoding : Encoding} {bytes : List UInt8}
    (h : Fits (writeEncapsulation encoding bytes)) {body : Encoding → ℕ → InputStream α} {a : α}
    (hbody : ∀ rest, (body encoding rest.length).exec (bytes ++ rest) = (.ok a, rest)) :
    Reads (readEncapsulation body) (writeEncapsulation encoding bytes) (encoding, a) := by
  intro rest
  rw [readEncapsulation, Code.exec_bind_of_ok (exec_startEncapsulation h rest),
    Code.exec_bind_of_ok (hbody rest), Code.exec_bind_of_ok (exec_endEncapsulation encoding rest)]
  rfl

omit [Runtime] in
/-- An empty encapsulation. -/
theorem reads_skipEmptyEncapsulation (encoding : Encoding) :
    Reads skipEmptyEncapsulation (writeEncapsulation encoding []) encoding := by
  intro rest
  have hsz : (Int32.ofNat 6).toInt = 6 := rfl
  have hread := reads_checkSupportedEncoding encoding rest
  rw [skipEmptyEncapsulation, writeEncapsulation, List.append_assoc, List.append_nil,
    List.length_nil, Code.exec_bind_of_ok (reads_readInt _ _), hsz, if_neg (by omega),
    exec_remaining_bind, if_neg (by rw [List.length_append, EncodingVersion.length_write]; omega), ← bind_assoc,
    Code.exec_bind_of_ok hread]
  split <;> rfl

omit [Runtime] in
/-- An encapsulation that is not looked into. -/
theorem reads_skipEncapsulation {encoding : Encoding} {body : List UInt8}
    (h : Fits (writeEncapsulation encoding body)) :
    Reads skipEncapsulation (writeEncapsulation encoding body) encoding.val := by
  intro rest
  have hsz := toInt_ofNat h.length_body
  have hbody : ((body.length + 6 : ℕ) - 6 : ℤ) = body.length := by push_cast; omega
  rw [skipEncapsulation, writeEncapsulation, List.append_assoc, List.append_assoc,
    Code.exec_bind_of_ok (reads_readInt _ _), hsz, if_neg (by push_cast; omega),
    Code.exec_bind_of_ok (reads_encodingVersion _ _), exec_remaining_bind, hbody,
    if_neg (by simp), Int.toNat_natCast]
  change (Except.ok encoding.val, (body ++ rest).drop body.length) = _
  rw [List.drop_left]

end

/-- The runtime, on the values that the samples send. -/
@[reducible] def sampleRuntime : Runtime where
  malformed _ := "\uFFFD"
  readValue _ := throw .encapsulation

end StockBank.Ice
