import StockBank.Lib.Wire
import StockBank.Stock.Proto

/-!
# Messages of the rate protocol

How the two ends write and read their messages.  They agree on `currencyData`, but each
was generated from a copy of `stock.proto` of its own: where the bank's copy has
`repeated currencyData`, the service's has `required currencyData`.

On the wire the two look alike, so neither end notices.  A list that reaches a
`required` field is merged into one record, whose fields are those read last; that is
`readRequired_writeRepeated`.

A `double` is its pattern of 64 bits.

Both readers skip the records that their schema has no field for, groups among them.
-/

namespace StockBank.Stock

open Lib Lib.Wire

/-- How deep messages and groups may nest, the default of the run times. -/
def recursionLimit : ℕ := 100

/-! ## `currencyData` -/

/-- `currencyData`, with the bits of its `double`. -/
abbrev RawData := CurrencyData (BitVec 64)

/-- `CURR_FIELD_NUMBER`. -/
def CURR_FIELD_NUMBER : FieldNumber := ⟨1, by decide⟩

/-- `VALUE_FIELD_NUMBER`. -/
def VALUE_FIELD_NUMBER : FieldNumber := ⟨2, by decide⟩

/-- `currencyData.writeTo`. -/
def writeTo (d : RawData) : List UInt8 :=
  Record.write ⟨CURR_FIELD_NUMBER, .varint (BitVec.ofNat 64 d.curr.number)⟩ ++
    Record.write ⟨VALUE_FIELD_NUMBER, .fixed64 d.value⟩

/-- `currencyData` while it is read: the fields that have come so far. -/
structure RawData.Builder where
  curr : Option Currency
  value : Option (BitVec 64)

namespace RawData.Builder

def empty : Builder := ⟨none, none⟩

/-- One record.  A field that has come before is overwritten; a number that is not of
the enumeration, and a record that is of no field, are kept aside as unknown. -/
def mergeRecord (b : Builder) (r : Record) : Builder :=
  match r.number.val, r.payload with
  | 1, .varint rawValue =>
    match Currency.forNumber (rawValue.toNat % 2 ^ 32) with
    | some c => { b with curr := some c }
    | none => b
  | 2, .fixed64 bits => { b with value := some bits }
  | _, _ => b

/-- All records of the message in `bs`, which is embedded in another. -/
def mergeFrom (b : Builder) (bs : List UInt8) : Except ReadError Builder := do
  return (← parse (recursionLimit - 1) bs).foldl mergeRecord b

/-- The message, when its required fields have come. -/
def build (b : Builder) : Except ReadError RawData :=
  match b.curr, b.value with
  | none, _ => throw (.missing CURR_FIELD_NUMBER.val)
  | some _, none => throw (.missing VALUE_FIELD_NUMBER.val)
  | some curr, some value => return ⟨curr, value⟩

end RawData.Builder

/-! ## Fields of the type `currencyData` -/

theorem length_writeTo (d : RawData) : (writeTo d).length = 11 := by
  obtain ⟨curr, value⟩ := d
  cases curr <;> simp [writeTo, Record.write, tag, Payload.write, Payload.wireType, CURR_FIELD_NUMBER,
    VALUE_FIELD_NUMBER, varint_of_lt, length_fixed, Currency.number]

/-- A `currencyData` in a field of another message. -/
def embedded (field : FieldNumber) (d : RawData) : Record where
  number := field
  payload := .bytes ⟨writeTo d, by rw [length_writeTo]; decide⟩

/-- The bytes of a record of the field. -/
def embeddedBytes (field : FieldNumber) (r : Record) : Option (List UInt8) :=
  match r.payload with
  | .bytes bs => if r.number = field then some bs.val else none
  | _ => none

/-- A field `repeated currencyData`, written. -/
def writeRepeated (field : FieldNumber) (l : List RawData) : List UInt8 :=
  (l.map (embedded field)).flatMap Record.write

/-- A field `required currencyData`, written. -/
def writeRequired (field : FieldNumber) (d : RawData) : List UInt8 := (embedded field d).write

/-- A message with one field `repeated currencyData`: each record of the field is an
element of its own. -/
def readRepeated (field : FieldNumber) (bs : List UInt8) : Except ReadError (List RawData) := do
  let fields := (← parse recursionLimit bs).filterMap (embeddedBytes field)
  let builders ← fields.mapM RawData.Builder.empty.mergeFrom
  builders.mapM RawData.Builder.build

/-- A message with one field `required currencyData`: all records of the field are
merged into one. -/
def readRequired (field : FieldNumber) (bs : List UInt8) : Except ReadError RawData := do
  match (← parse recursionLimit bs).filterMap (embeddedBytes field) with
  | [] => throw (.missing field.val)
  | fields =>
    let builder ← fields.foldlM RawData.Builder.mergeFrom RawData.Builder.empty
    builder.build

/-! ## The messages -/

/-- `CURRENCIES_FIELD_NUMBER`, in both copies. -/
def CURRENCIES_FIELD_NUMBER : FieldNumber := ⟨1, by decide⟩

/-- `UPDATEDCURRENCIES_FIELD_NUMBER`, in both copies. -/
def UPDATEDCURRENCIES_FIELD_NUMBER : FieldNumber := ⟨1, by decide⟩

namespace BankSchema

/-- `stockRequest`, as the bank writes it. -/
def writeStockRequest : List RawData → List UInt8 := writeRepeated CURRENCIES_FIELD_NUMBER

/-- `stockResponse`, as the bank reads it. -/
def readStockResponse : List UInt8 → Except ReadError (List RawData) :=
  readRepeated UPDATEDCURRENCIES_FIELD_NUMBER

end BankSchema

namespace ServiceSchema

/-- `stockRequest`, as the service reads it. -/
def readStockRequest : List UInt8 → Except ReadError RawData :=
  readRequired CURRENCIES_FIELD_NUMBER

/-- `stockResponse`, as the service writes it. -/
def writeStockResponse : RawData → List UInt8 := writeRequired UPDATEDCURRENCIES_FIELD_NUMBER

end ServiceSchema

/-! ## What one end reads of the other -/

namespace RawData.Builder

/-- Both fields have come. -/
def complete (d : RawData) : Builder := ⟨some d.curr, some d.value⟩

end RawData.Builder

open RawData.Builder

/-- A message that is read after another overwrites both of its fields. -/
theorem mergeFrom_writeTo (b : RawData.Builder) (d : RawData) :
    b.mergeFrom (writeTo d) = .ok (complete d) := by
  let rs : List Record := [⟨CURR_FIELD_NUMBER, .varint (BitVec.ofNat 64 d.curr.number)⟩,
    ⟨VALUE_FIELD_NUMBER, .fixed64 d.value⟩]
  have hwrite : writeTo d = rs.flatMap Record.write := by
    rw [List.flatMap_cons, List.flatMap_singleton, writeTo]
  have hnests : ∀ r ∈ rs, r.payload.NestsWithin (recursionLimit - 1) := by
    simp [rs, Payload.NestsWithin]
  rw [mergeFrom, hwrite, parse_write hnests]
  obtain ⟨curr, value⟩ := d
  cases curr <;> rfl

/-- Of messages that are merged in a row the last one stays. -/
theorem foldlM_mergeFrom (l : List RawData) (b : RawData.Builder) :
    (l.map writeTo).foldlM mergeFrom b = .ok ((l.getLast?.map complete).getD b) := by
  induction l generalizing b with
  | nil => rfl
  | cons d l ih =>
      rw [List.map_cons, List.foldlM_cons, mergeFrom_writeTo]
      refine (ih (complete d)).trans ?_
      rw [List.getLast?_cons]
      cases l.getLast? <;> rfl

/-- The records of the field are the messages in it. -/
theorem filterMap_embeddedBytes (field : FieldNumber) (l : List RawData) :
    (l.map (embedded field)).filterMap (embeddedBytes field) = l.map writeTo := by
  rw [List.filterMap_map, ← List.filterMap_eq_map]
  congr 1
  funext d
  exact if_pos rfl

/-- No field of a message that is written is a group. -/
theorem nestsWithin_embedded (field : FieldNumber) (l : List RawData) (limit : ℕ) :
    ∀ r ∈ l.map (embedded field), r.payload.NestsWithin limit := by
  intro r hr
  obtain ⟨d, -, rfl⟩ := List.mem_map.mp hr
  simp [embedded, Payload.NestsWithin]

theorem parse_writeRepeated (limit : ℕ) (field : FieldNumber) (l : List RawData) :
    parse limit (writeRepeated field l) = .ok (l.map (embedded field)) :=
  parse_write (nestsWithin_embedded field l limit)

/-- **A list read as one record** is its last element, and no record when it is empty. -/
theorem readRequired_writeRepeated (field : FieldNumber) (l : List RawData) :
    readRequired field (writeRepeated field l) =
      match l.getLast? with
      | none => throw (.missing field.val)
      | some d => .ok d := by
  rw [readRequired, parse_writeRepeated]
  change (match (l.map (embedded field)).filterMap (embeddedBytes field) with
    | [] => throw (ReadError.missing field.val)
    | fields => fields.foldlM mergeFrom empty >>= build) = _
  rw [filterMap_embeddedBytes]
  cases l with
  | nil => rfl
  | cons d l =>
      change ((d :: l).map writeTo).foldlM mergeFrom empty >>= build = _
      rw [foldlM_mergeFrom, List.getLast?_cons]
      rfl

/-- A record read as a list is the list of this record. -/
theorem readRepeated_writeRequired (field : FieldNumber) (d : RawData) :
    readRepeated field (writeRequired field d) = .ok [d] := by
  have hparse : parse recursionLimit (writeRequired field d) = .ok [embedded field d] := by
    rw [← List.map_singleton, ← parse_writeRepeated, writeRepeated, List.map_singleton,
      List.flatMap_singleton, writeRequired]
  rw [readRepeated, hparse]
  change (do
    let builders ←
      (([d].map (embedded field)).filterMap (embeddedBytes field)).mapM empty.mergeFrom
    builders.mapM build) = _
  rw [filterMap_embeddedBytes, List.map_singleton, List.mapM_cons, mergeFrom_writeTo]
  rfl

/-- The service accepts the request, and reads the currencies that the bank wrote. -/
def RequestArrives (l : List RawData) : Prop :=
  ∃ d, ServiceSchema.readStockRequest (BankSchema.writeStockRequest l) = .ok d ∧ [d] = l

/-- The bank reads the response as a list whose first element is what the service wrote. -/
def ResponseArrives (d : RawData) : Prop :=
  ∃ l, BankSchema.readStockResponse (ServiceSchema.writeStockResponse d) = .ok l ∧ l[0]? = some d

/-- **The two ends read each other's messages**: requests exactly when they have one
element, and responses always. -/
theorem messages_arrive_iff (l : List RawData) (d : RawData) :
    (RequestArrives l ↔ l.length = 1) ∧ ResponseArrives d := by
  constructor
  · rw [RequestArrives, ServiceSchema.readStockRequest, BankSchema.writeStockRequest,
      readRequired_writeRepeated, List.length_eq_one_iff]
    constructor
    · rintro ⟨d, -, rfl⟩
      exact ⟨d, rfl⟩
    · rintro ⟨d, rfl⟩
      exact ⟨d, rfl, rfl⟩
  · exact ⟨[d], readRepeated_writeRequired _ d, rfl⟩

/-- Of two elements the service reads the second. -/
theorem not_requestArrives :
    ServiceSchema.readStockRequest (BankSchema.writeStockRequest [⟨.EUR, 0⟩, ⟨.CHF, 0⟩]) =
        .ok ⟨.CHF, 0⟩ ∧
      ¬ RequestArrives [⟨.EUR, 0⟩, ⟨.CHF, 0⟩] := by
  have hread := readRequired_writeRepeated CURRENCIES_FIELD_NUMBER [⟨.EUR, 0⟩, ⟨.CHF, 0⟩]
  refine ⟨hread, ?_⟩
  rintro ⟨d, -, hd⟩
  exact absurd (List.cons.inj hd).2 (List.cons_ne_nil _ _).symm

end StockBank.Stock
