import StockBank.Lib.Code
import Mathlib.Data.UInt
import Mathlib.Data.Nat.Basic
import Mathlib.Tactic.NormNum

/-!
# Tagged records on the wire

The wire format of protocol buffers.  A message is a list of records in a row, and
each record is a tag, which holds the number of a field and the kind of its payload,
and then the payload.  What the fields mean is no matter of the format: it is up to
the schemas of the two ends.

`Record.write` and `readRecords` are the two directions, and `parse_write` says that
a list of records that is written is read back.

The records of a group are the payload of one, so records nest.  How deep they may is up
to the reader, which has a limit.
-/

namespace Lib.Wire

/-- The ways in which reading a message can fail. -/
inductive ReadError
  | /-- The bytes end inside a record. -/
    truncated
  | /-- A varint goes on for too long. -/
    malformedVarint
  | /-- A length with its sign bit set. -/
    negativeSize
  | /-- A tag with the field number zero. -/
    invalidTag
  | /-- A group that is not ended, or an end that is not of the innermost group. -/
    invalidEndTag
  | invalidWireType (wireType : ℕ)
  | /-- Groups that nest too deep. -/
    recursionLimit
  | /-- A required field is not there. -/
    missing (number : ℕ)
  deriving DecidableEq, Repr

/-- Code that reads bytes from the front. -/
abbrev Reader := Code ReadError (List UInt8)

/-! ## Varints -/

/-- A number in base 128, from the least significant digit on.  The top bit of a byte
says that another one follows. -/
def varint (n : ℕ) : List UInt8 :=
  if n < 128 then [UInt8.ofNat n] else UInt8.ofNat (n % 128 + 128) :: varint (n / 128)
termination_by n

def readByte : Reader UInt8 := do
  match ← get with
  | [] => throw .truncated
  | b :: bs =>
    set bs
    return b

/-- A varint of at most so many bytes. -/
def readVarint : ℕ → Reader ℕ
  | 0 => throw .malformedVarint
  | fuel + 1 => do
    let b ← readByte
    if b.toNat < 128 then
      return b.toNat
    else
      return b.toNat - 128 + 128 * (← readVarint fuel)

theorem varint_of_lt {n : ℕ} (h : n < 128) : varint n = [UInt8.ofNat n] := by
  rw [varint, if_pos h]

theorem varint_of_ge {n : ℕ} (h : ¬ n < 128) :
    varint n = UInt8.ofNat (n % 128 + 128) :: varint (n / 128) := by
  rw [varint, if_neg h]

theorem varint_ne_nil (n : ℕ) : varint n ≠ [] := by
  by_cases h : n < 128
  · simp [varint_of_lt h]
  · simp [varint_of_ge h]

@[simp] theorem exec_readByte_cons (b : UInt8) (bs : List UInt8) :
    readByte.exec (b :: bs) = (.ok b, bs) := rfl

theorem toNat_ofNat {n : ℕ} (h : n < 256) : (UInt8.ofNat n).toNat = n := by
  rw [UInt8.toNat_ofNat']
  exact Nat.mod_eq_of_lt h

/-- A varint that fits is read back. -/
theorem exec_readVarint {fuel n : ℕ} (h : n < 128 ^ (fuel + 1)) (rest : List UInt8) :
    (readVarint (fuel + 1)).exec (varint n ++ rest) = (.ok n, rest) := by
  induction fuel generalizing n with
  | zero =>
      have hn : n < 128 := by simpa using h
      rw [varint_of_lt hn, readVarint, List.singleton_append,
        Code.exec_bind_of_ok (exec_readByte_cons _ _), toNat_ofNat (by omega), if_pos hn]
      rfl
  | succ fuel ih =>
      by_cases hn : n < 128
      · rw [varint_of_lt hn, readVarint, List.singleton_append,
          Code.exec_bind_of_ok (exec_readByte_cons _ _), toNat_ofNat (by omega), if_pos hn]
        rfl
      · have hdigit : n / 128 < 128 ^ (fuel + 1) := by
          rw [Nat.div_lt_iff_lt_mul (by decide), ← Nat.pow_succ]
          exact h
        have hsum : n % 128 + 128 - 128 + 128 * (n / 128) = n := by
          rw [Nat.add_sub_cancel]
          exact Nat.mod_add_div n 128
        rw [varint_of_ge hn, readVarint, List.cons_append,
          Code.exec_bind_of_ok (exec_readByte_cons _ _), toNat_ofNat (by omega), if_neg (by omega),
          Code.exec_bind_of_ok (ih hdigit), hsum]
        rfl

/-! ## Fixed-width numbers -/

/-- A number in so many bytes, from the least significant one on. -/
def fixed : ℕ → ℕ → List UInt8
  | 0, _ => []
  | width + 1, n => UInt8.ofNat (n % 256) :: fixed width (n / 256)

def readFixed : ℕ → Reader ℕ
  | 0 => return 0
  | width + 1 => do
    let b ← readByte
    return b.toNat + 256 * (← readFixed width)

theorem length_fixed (width n : ℕ) : (fixed width n).length = width := by
  induction width generalizing n with
  | zero => rfl
  | succ width ih => rw [fixed, List.length_cons, ih]

theorem exec_readFixed {width n : ℕ} (h : n < 256 ^ width) (rest : List UInt8) :
    (readFixed width).exec (fixed width n ++ rest) = (.ok n, rest) := by
  induction width generalizing n with
  | zero =>
      obtain rfl : n = 0 := by simpa using h
      rfl
  | succ width ih =>
      have hdigit : n / 256 < 256 ^ width := by
        rw [Nat.div_lt_iff_lt_mul (by decide), ← Nat.pow_succ]
        exact h
      rw [fixed, readFixed, List.cons_append, Code.exec_bind_of_ok (exec_readByte_cons _ _),
        Code.exec_bind_of_ok (ih hdigit), toNat_ofNat (by omega), Nat.mod_add_div]
      rfl

/-! ## Records -/

/-- The number of a field. -/
abbrev FieldNumber := { n : ℕ // 0 < n ∧ n < 2 ^ 29 }

mutual

/-- What a record carries.  The bytes of an embedded message are one of the cases, and the
records of a group, which are embedded without their length, are another. -/
inductive Payload
  | varint (n : BitVec 64)
  | fixed64 (n : BitVec 64)
  | bytes (bs : { bs : List UInt8 // bs.length < 2 ^ 31 })
  | group (records : List Record)
  | fixed32 (n : BitVec 32)

structure Record where
  number : FieldNumber
  payload : Payload

end

namespace Payload

/-- The kind of payload, as the tag names it. -/
def wireType : Payload → ℕ
  | varint _ => 0
  | fixed64 _ => 1
  | bytes _ => 2
  | group _ => 3
  | fixed32 _ => 5

/-- At most so many groups are open at once. -/
def NestsWithin : ℕ → Payload → Prop
  | 0, group _ => False
  | limit + 1, group records => ∀ r ∈ records, r.payload.NestsWithin limit
  | _, _ => True

theorem wireType_lt (p : Payload) : p.wireType < 8 := by
  cases p <;> simp [wireType]

/-- The tag that ends a group is no tag of a record. -/
theorem wireType_ne (p : Payload) : p.wireType ≠ 4 := by
  cases p <;> simp [wireType]

theorem exists_group {p : Payload} (h : p.wireType = 3) : ∃ records, p = group records := by
  cases p with
  | group records => exact ⟨records, rfl⟩
  | _ => simp [wireType] at h

end Payload

/-- The number of a field, and a kind of payload. -/
def tag (number : FieldNumber) (wireType : ℕ) : List UInt8 := varint (8 * number.val + wireType)

mutual

/-- The payload of a record of the field.  A group ends with a tag of its own. -/
def Payload.write (number : FieldNumber) : Payload → List UInt8
  | .varint n => Wire.varint n.toNat
  | .fixed64 n => fixed 8 n.toNat
  | .bytes bs => Wire.varint bs.val.length ++ bs.val
  | .group records => writeRecords records ++ tag number 4
  | .fixed32 n => fixed 4 n.toNat

/-- The tag of a record, and its payload. -/
def Record.write : Record → List UInt8
  | ⟨number, payload⟩ => tag number payload.wireType ++ payload.write number

/-- Records in a row. -/
def writeRecords : List Record → List UInt8
  | [] => []
  | r :: rs => r.write ++ writeRecords rs

end

theorem Record.write_eq (r : Record) :
    r.write = tag r.number r.payload.wireType ++ r.payload.write r.number := by
  cases r
  rfl

theorem writeRecords_eq (rs : List Record) : writeRecords rs = rs.flatMap Record.write := by
  induction rs with
  | nil => rfl
  | cons r rs ih => rw [writeRecords, ih, List.flatMap_cons]

/-- The next tag.  It has 32 bits, three of them for the kind of payload. -/
def readTag : Reader (FieldNumber × ℕ) := do
  let tag ← readVarint 10
  if h : 0 < tag % 2 ^ 32 / 8 then
    return ⟨⟨tag % 2 ^ 32 / 8, h, by omega⟩, tag % 8⟩
  else
    throw .invalidTag

/-- The next so many bytes. -/
def readBytes (len : ℕ) : Reader { bs : List UInt8 // bs.length = len } := do
  let bs ← get
  if h : len ≤ bs.length then
    set (bs.drop len)
    return ⟨bs.take len, by rw [List.length_take, Nat.min_eq_left h]⟩
  else
    throw .truncated

/-- A payload that is no group.  Where a record is due no group may end. -/
def readPlain : ℕ → Reader Payload
  | 0 => do return .varint (BitVec.ofNat 64 (← readVarint 10))
  | 1 => do return .fixed64 (BitVec.ofNat 64 (← readFixed 8))
  | 2 => do
    -- a length is a signed number of 32 bits
    let len := (← readVarint 10) % 2 ^ 32
    if h : len < 2 ^ 31 then
      let bs ← readBytes len
      return .bytes ⟨bs.val, bs.property.trans_lt h⟩
    else
      throw .negativeSize
  | 4 => throw .invalidEndTag
  | 5 => do return .fixed32 (BitVec.ofNat 32 (← readFixed 4))
  | wireType => throw (.invalidWireType wireType)

/-- The records of a group of the field, up to the tag that ends it. -/
def readGroup (readPayload : FieldNumber → ℕ → Reader Payload) (number : FieldNumber) :
    ℕ → Reader (List Record)
  | 0 => throw .invalidEndTag
  | fuel + 1 => do
    if (← get) = [] then
      throw .invalidEndTag
    else
      let tag ← readTag
      if tag.2 = 4 then
        if tag.1 = number then
          return []
        else
          throw .invalidEndTag
      else
        let payload ← readPayload tag.1 tag.2
        return ⟨tag.1, payload⟩ :: (← readGroup readPayload number fuel)

/-- The payload of a record of the field, in which at most so many groups are open at
once. -/
def readPayload : ℕ → FieldNumber → ℕ → Reader Payload
  | 0, _, 3 => throw .recursionLimit
  | limit + 1, number, 3 => do
    return .group (← readGroup (readPayload limit) number (← get).length)
  | _, _, wireType => readPlain wireType

/-- The next record. -/
def readRecord (limit : ℕ) : Reader Record := do
  let tag ← readTag
  return ⟨tag.1, ← readPayload limit tag.1 tag.2⟩

/-- The records up to the end of the bytes, of which there are at most so many. -/
def readRecords (limit : ℕ) : ℕ → Reader (List Record)
  | 0 => return []
  | fuel + 1 => do
    if (← get) = [] then
      return []
    else
      let r ← readRecord limit
      return r :: (← readRecords limit fuel)

/-- The records of a message, whose groups nest within the limit.  A record has at least
one byte. -/
def parse (limit : ℕ) (bs : List UInt8) : Except ReadError (List Record) :=
  ((readRecords limit bs.length).exec bs).1

theorem tag_ne_nil (number : FieldNumber) (wireType : ℕ) : tag number wireType ≠ [] :=
  varint_ne_nil _

theorem Record.write_ne_nil (r : Record) : r.write ≠ [] := by
  rw [r.write_eq]
  exact List.append_ne_nil_of_left_ne_nil (tag_ne_nil _ _) _

/-- There are at least as many bytes as records. -/
theorem length_le_length_write (rs : List Record) :
    rs.length ≤ (rs.flatMap Record.write).length := by
  induction rs with
  | nil => exact Nat.zero_le _
  | cons r rs ih =>
      have hr := List.length_pos_iff.mpr r.write_ne_nil
      rw [List.flatMap_cons, List.length_append, List.length_cons]
      omega

/-! ## What is written is read back -/

theorem exec_readTag {number : FieldNumber} {wireType : ℕ} (h : wireType < 8) (rest : List UInt8) :
    readTag.exec (tag number wireType ++ rest) = (.ok (number, wireType), rest) := by
  obtain ⟨number, hpos, hlt⟩ := number
  have htag : 8 * number + wireType < 128 ^ (9 + 1) := by
    norm_num
    omega
  have hnumber : (8 * number + wireType) % 2 ^ 32 / 8 = number := by omega
  have hkind : (8 * number + wireType) % 8 = wireType := by omega
  rw [tag, readTag, Code.exec_bind_of_ok (exec_readVarint htag _), dif_pos (by omega)]
  simp only [hkind, hnumber]
  rfl

/-- Bytes that are there are read. -/
theorem exec_readBytes {len : ℕ} {bs : List UInt8} (h : bs.length = len) (rest : List UInt8) :
    (readBytes len).exec (bs ++ rest) = (.ok ⟨bs, h⟩, rest) := by
  subst h
  have hle : bs.length ≤ (bs ++ rest).length := by simp
  rw [readBytes, Code.exec_get_bind, dif_pos hle]
  change (Except.ok (Subtype.mk ((bs ++ rest).take bs.length) _), (bs ++ rest).drop bs.length) = _
  simp only [List.take_left, List.drop_left]

theorem exec_readPlain {p : Payload} (h : p.wireType ≠ 3) (number : FieldNumber)
    (rest : List UInt8) :
    (readPlain p.wireType).exec (p.write number ++ rest) = (.ok p, rest) := by
  have hvarint : ∀ {n : ℕ}, n < 2 ^ 64 → ∀ rest : List UInt8,
      (readVarint 10).exec (varint n ++ rest) = (.ok n, rest) :=
    fun hn ↦ exec_readVarint (hn.trans (by norm_num))
  cases p with
  | varint n =>
      rw [Payload.write, Payload.wireType, readPlain, Code.exec_bind_of_ok (hvarint n.isLt rest),
        BitVec.ofNat_toNat]
      rfl
  | fixed64 n =>
      have hn : n.toNat < 256 ^ 8 := n.isLt
      rw [Payload.write, Payload.wireType, readPlain,
        Code.exec_bind_of_ok (exec_readFixed hn rest), BitVec.ofNat_toNat]
      rfl
  | bytes bs =>
      have hlt : bs.val.length < 2 ^ 31 := bs.property
      have hlen : bs.val.length = bs.val.length % 2 ^ 32 := by omega
      rw [Payload.write, Payload.wireType, readPlain, List.append_assoc,
        Code.exec_bind_of_ok (hvarint (by omega) _), dif_pos (by omega),
        Code.exec_bind_of_ok (exec_readBytes hlen rest)]
      rfl
  | group records => exact absurd rfl h
  | fixed32 n =>
      have hn : n.toNat < 256 ^ 4 := n.isLt
      rw [Payload.write, Payload.wireType, readPlain,
        Code.exec_bind_of_ok (exec_readFixed hn rest), BitVec.ofNat_toNat]
      rfl

section

variable {readPayload : FieldNumber → ℕ → Reader Payload} {number : FieldNumber} {fuel : ℕ}
  {bs mid mid' rest : List UInt8} {rs : List Record}

theorem ne_nil_of_readTag {tag : FieldNumber × ℕ} (h : readTag.exec bs = (.ok tag, rest)) :
    bs ≠ [] := by
  rintro rfl
  cases h

/-- A group ends. -/
theorem exec_readGroup_end (h : readTag.exec bs = (.ok (number, 4), rest)) :
    (readGroup readPayload number (fuel + 1)).exec bs = (.ok [], rest) := by
  rw [readGroup, Code.exec_get_bind, if_neg (ne_nil_of_readTag h), Code.exec_bind_of_ok h,
    if_pos rfl, if_pos rfl]
  rfl

/-- A group goes on with a record. -/
theorem exec_readGroup_record {tag : FieldNumber × ℕ} {payload : Payload}
    (h : readTag.exec bs = (.ok tag, mid)) (hend : tag.2 ≠ 4)
    (hpayload : (readPayload tag.1 tag.2).exec mid = (.ok payload, mid')) :
    (readGroup readPayload number (fuel + 1)).exec bs =
      Code.exec (do return ⟨tag.1, payload⟩ :: (← readGroup readPayload number fuel)) mid' := by
  rw [readGroup, Code.exec_get_bind, if_neg (ne_nil_of_readTag h), Code.exec_bind_of_ok h,
    if_neg hend, Code.exec_bind_of_ok hpayload]

/-- The records of a group, when the payload of each is read back. -/
theorem exec_readGroup
    (h : ∀ r ∈ rs, ∀ rest, (readPayload r.number r.payload.wireType).exec
      (r.payload.write r.number ++ rest) = (.ok r.payload, rest)) (hfuel : rs.length < fuel) :
    (readGroup readPayload number fuel).exec (rs.flatMap Record.write ++ (tag number 4 ++ rest)) =
      (.ok rs, rest) := by
  obtain ⟨fuel, rfl⟩ := Nat.exists_eq_succ_of_ne_zero (Nat.ne_zero_of_lt hfuel)
  induction rs generalizing fuel with
  | nil => exact exec_readGroup_end (exec_readTag (by decide) rest)
  | cons r rs ih =>
      obtain ⟨number', payload⟩ := r
      have hlt := Nat.lt_of_succ_lt_succ hfuel
      obtain ⟨fuel, rfl⟩ := Nat.exists_eq_succ_of_ne_zero (Nat.ne_zero_of_lt hlt)
      rw [List.flatMap_cons, Record.write, List.append_assoc, List.append_assoc]
      rw [exec_readGroup_record (exec_readTag payload.wireType_lt _) payload.wireType_ne
        (h ⟨number', payload⟩ List.mem_cons_self _),
        Code.exec_bind_of_ok (ih (fun r hr ↦ h r (List.mem_cons_of_mem _ hr)) fuel hlt)]
      rfl

end

theorem readPayload_of_ne {wireType : ℕ} (h : wireType ≠ 3) (limit : ℕ) (number : FieldNumber) :
    readPayload limit number wireType = readPlain wireType := by
  unfold readPayload
  split
  · exact absurd rfl h
  · exact absurd rfl h
  · rfl

theorem exec_readPayload_of_ne {p : Payload} (h : p.wireType ≠ 3) (limit : ℕ)
    (number : FieldNumber) (rest : List UInt8) :
    (readPayload limit number p.wireType).exec (p.write number ++ rest) = (.ok p, rest) := by
  rw [readPayload_of_ne h]
  exact exec_readPlain h number rest

/-- A payload is read back when its groups nest within the limit. -/
theorem exec_readPayload {limit : ℕ} {p : Payload} (h : p.NestsWithin limit)
    (number : FieldNumber) (rest : List UInt8) :
    (readPayload limit number p.wireType).exec (p.write number ++ rest) = (.ok p, rest) := by
  rcases ne_or_eq p.wireType 3 with hp | hp
  · exact exec_readPayload_of_ne hp limit number rest
  induction limit generalizing p number rest with
  | zero =>
      obtain ⟨records, rfl⟩ := Payload.exists_group hp
      exact h.elim
  | succ limit ih =>
      obtain ⟨records, rfl⟩ := Payload.exists_group hp
      have hrecords : ∀ r ∈ records, ∀ rest, (readPayload limit r.number r.payload.wireType).exec
          (r.payload.write r.number ++ rest) = (.ok r.payload, rest) := by
        intro r hr rest
        rcases ne_or_eq r.payload.wireType 3 with hr' | hr'
        · exact exec_readPayload_of_ne hr' limit r.number rest
        · exact ih (h r hr) r.number rest hr'
      have hfuel : records.length <
          (records.flatMap Record.write ++ (tag number 4 ++ rest)).length := by
        have hle := length_le_length_write records
        have hpos := List.length_pos_iff.mpr (tag_ne_nil number 4)
        rw [List.length_append, List.length_append]
        omega
      rw [Payload.write, writeRecords_eq, List.append_assoc, Payload.wireType, readPayload,
        Code.exec_get_bind, Code.exec_bind_of_ok (exec_readGroup hrecords hfuel)]
      rfl

theorem exec_readRecord {limit : ℕ} {r : Record} (h : r.payload.NestsWithin limit)
    (rest : List UInt8) : (readRecord limit).exec (r.write ++ rest) = (.ok r, rest) := by
  rw [r.write_eq, List.append_assoc, readRecord,
    Code.exec_bind_of_ok (exec_readTag r.payload.wireType_lt _),
    Code.exec_bind_of_ok (exec_readPayload h r.number rest)]
  cases r
  rfl

theorem exec_readRecords {limit fuel : ℕ} {rs : List Record}
    (h : ∀ r ∈ rs, r.payload.NestsWithin limit) (hfuel : rs.length ≤ fuel) :
    (readRecords limit fuel).exec (rs.flatMap Record.write) = (.ok rs, []) := by
  induction rs generalizing fuel with
  | nil => cases fuel <;> rfl
  | cons r rs ih =>
      cases fuel with
      | zero => exact absurd hfuel (by simp)
      | succ fuel =>
          have hne : r.write ++ rs.flatMap Record.write ≠ [] :=
            List.append_ne_nil_of_left_ne_nil r.write_ne_nil _
          rw [List.flatMap_cons, readRecords, Code.exec_get_bind, if_neg hne,
            Code.exec_bind_of_ok (exec_readRecord (h r List.mem_cons_self) _),
            Code.exec_bind_of_ok (ih (fun r' hr' ↦ h r' (List.mem_cons_of_mem _ hr'))
              (Nat.le_of_succ_le_succ hfuel))]
          rfl

/-- **Records are read back** as they were written, whatever their number and their
payloads, if their groups nest within the limit. -/
theorem parse_write {limit : ℕ} {rs : List Record} (h : ∀ r ∈ rs, r.payload.NestsWithin limit) :
    parse limit (rs.flatMap Record.write) = .ok rs := by
  rw [parse, exec_readRecords h (length_le_length_write rs)]

end Lib.Wire
