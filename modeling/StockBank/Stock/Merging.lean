import StockBank.Lib.Records
import StockBank.Stock.Messages

/-!
# Messages of other peers

The readers of the rate protocol on bytes that its writers need not have written: fields out
of order, repeated or unknown, messages in a row, and messages that are cut short.

One record does to a builder what `Builder.amend` does with the fields of the record, so what
is read of any records is their last currency and their last value.
-/

namespace StockBank.Stock

open Lib Lib.Wire RawData.Builder

/-! ## What a record brings -/

/-- The currency that a record brings, if it is one of the enumeration. -/
def Record.curr? (r : Record) : Option Currency :=
  match r.number.val, r.payload with
  | 1, .varint rawValue => Currency.forNumber (rawValue.toNat % 2 ^ 32)
  | _, _ => none

/-- The value that a record brings. -/
def Record.value? (r : Record) : Option (BitVec 64) :=
  match r.number.val, r.payload with
  | 2, .fixed64 bits => some bits
  | _, _ => none

/-- The fields of `b'`, and those of `b` that `b'` has not. -/
def RawData.Builder.amend (b b' : RawData.Builder) : RawData.Builder :=
  ⟨b'.curr.or b.curr, b'.value.or b.value⟩

/-- What the records bring, the last of each field. -/
def lastOf (rs : List Record) : RawData.Builder :=
  ⟨(rs.filterMap Record.curr?).getLast?, (rs.filterMap Record.value?).getLast?⟩

theorem mergeRecord_eq (b : RawData.Builder) (r : Record) :
    b.mergeRecord r = b.amend ⟨Record.curr? r, Record.value? r⟩ := by
  obtain ⟨⟨number, hnumber⟩, payload⟩ := r
  unfold mergeRecord amend Record.curr? Record.value?
  split
  · next hn hp =>
    obtain rfl : number = 1 := hn
    split <;> simp_all
  · next hn hp =>
    obtain rfl : number = 2 := hn
    simp_all
  · next h₁ h₂ =>
    split
    · exact absurd ‹_› (by simp_all)
    · split <;> simp_all

theorem amend_assoc (b b' b'' : RawData.Builder) : (b.amend b').amend b'' = b.amend (b'.amend b'') := by
  simp [amend, Option.or_assoc]

/-- One more record in front. -/
theorem lastOf_cons (r : Record) (rs : List Record) :
    lastOf (r :: rs) = amend ⟨Record.curr? r, Record.value? r⟩ (lastOf rs) := by
  have hlast : ∀ {α : Type} (f : Record → Option α),
      ((r :: rs).filterMap f).getLast? = (rs.filterMap f).getLast?.or (f r) := by
    intro α f
    cases hf : f r with
    | none => simp [hf]
    | some a => cases ht : (rs.filterMap f).getLast? <;> simp [hf, List.getLast?_cons, ht]
  rw [lastOf, amend, hlast, hlast]
  rfl

theorem foldl_mergeRecord (b : RawData.Builder) (rs : List Record) :
    rs.foldl mergeRecord b = b.amend (lastOf rs) := by
  induction rs generalizing b with
  | nil => simp [lastOf, amend]
  | cons r rs ih => rw [List.foldl_cons, ih, mergeRecord_eq, amend_assoc, lastOf_cons]

/-- A message is merged into what was read before it. -/
theorem mergeFrom_of_parse (b : RawData.Builder) {bs : List UInt8} {rs : List Record}
    (h : parse (recursionLimit - 1) bs = .ok rs) : b.mergeFrom bs = .ok (b.amend (lastOf rs)) := by
  rw [mergeFrom, h, ← foldl_mergeRecord]
  rfl

theorem parse_of_mergeFrom {b b' : RawData.Builder} {bs : List UInt8} (h : b.mergeFrom bs = .ok b') :
    ∃ rs, parse (recursionLimit - 1) bs = .ok rs ∧ b' = b.amend (lastOf rs) := by
  cases hparse : parse (recursionLimit - 1) bs with
  | error e =>
      rw [mergeFrom, hparse] at h
      cases h
  | ok rs =>
      rw [mergeFrom_of_parse b hparse] at h
      exact ⟨rs, rfl, (Except.ok.inj h).symm⟩

theorem readRequired_of_nil {field : FieldNumber} {bs : List UInt8} {rs : List Record}
    (hparse : parse recursionLimit bs = .ok rs) (h : rs.filterMap (embeddedBytes field) = []) :
    readRequired field bs = .error (.missing field.val) := by
  simp only [readRequired, hparse, bind, Except.bind, h]
  rfl

theorem readRequired_of_ne_nil {field : FieldNumber} {bs : List UInt8} {rs : List Record}
    (hparse : parse recursionLimit bs = .ok rs) (h : rs.filterMap (embeddedBytes field) ≠ []) :
    readRequired field bs =
      (rs.filterMap (embeddedBytes field)).foldlM mergeFrom empty >>= build := by
  obtain ⟨l, ls, hfields⟩ := List.exists_cons_of_ne_nil h
  simp only [readRequired, hparse, bind, Except.bind, hfields]

/-- The elements of a list, of the bytes of each. -/
def readElements (fields : List (List UInt8)) : Except ReadError (List RawData) := do
  let builders ← fields.mapM empty.mergeFrom
  builders.mapM build

theorem readRepeated_of_parse (field : FieldNumber) {bs : List UInt8} {rs : List Record}
    (h : parse recursionLimit bs = .ok rs) :
    readRepeated field bs = readElements (rs.filterMap (embeddedBytes field)) := by
  rw [readRepeated, h]
  rfl

/-- What is accepted as a list has records. -/
theorem parse_of_readRepeated {field : FieldNumber} {bs : List UInt8} {l : List RawData}
    (h : readRepeated field bs = .ok l) : ∃ rs, parse recursionLimit bs = .ok rs := by
  cases hparse : parse recursionLimit bs with
  | error e =>
      rw [readRepeated, hparse] at h
      cases h
  | ok rs => exact ⟨rs, rfl⟩

theorem readElements_append {fields fields' : List (List UInt8)} {l l' : List RawData}
    (h : readElements fields = .ok l) (h' : readElements fields' = .ok l') :
    readElements (fields ++ fields') = .ok (l ++ l') := by
  rw [readElements] at h h' ⊢
  rw [List.mapM_append]
  cases hb : fields.mapM empty.mergeFrom with
  | error e =>
      rw [hb] at h
      cases h
  | ok builders =>
      cases hb' : fields'.mapM empty.mergeFrom with
      | error e =>
          rw [hb'] at h'
          cases h'
      | ok builders' =>
          rw [hb] at h
          rw [hb'] at h'
          change (builders ++ builders').mapM build = _
          change builders.mapM build = _ at h
          change builders'.mapM build = _ at h'
          rw [List.mapM_append, h, h']
          rfl

/-- The builders of two lists of messages in a row. -/
theorem foldlM_mergeFrom_amend (b : RawData.Builder) {fields : List (List UInt8)}
    {b' : RawData.Builder} (h : fields.foldlM mergeFrom empty = .ok b') :
    fields.foldlM mergeFrom b = .ok (b.amend b') := by
  have hamend : ∀ (fields : List (List UInt8)) (b₀ b' : RawData.Builder),
      fields.foldlM mergeFrom b₀ = .ok b' → fields.foldlM mergeFrom (b.amend b₀) = .ok (b.amend b') := by
    intro fields
    induction fields with
    | nil =>
        intro b₀ b' h
        obtain rfl := Except.ok.inj h
        rfl
    | cons bs fields ih =>
        intro b₀ b' h
        rw [List.foldlM_cons] at h ⊢
        cases hbs : b₀.mergeFrom bs with
        | error e =>
            rw [hbs] at h
            cases h
        | ok b₁ =>
            obtain ⟨rs, hparse, rfl⟩ := parse_of_mergeFrom hbs
            rw [hbs] at h
            rw [mergeFrom_of_parse (b.amend b₀) hparse, amend_assoc]
            exact ih _ _ h
  have h₀ := hamend fields empty b' h
  have hb : b.amend empty = b := by simp [amend, empty]
  rwa [hb] at h₀

/-- Only a builder with both fields can be built. -/
theorem eq_complete_of_build {b : RawData.Builder} {d : RawData} (h : b.build = .ok d) :
    b = complete d := by
  obtain ⟨_ | curr, _ | value⟩ := b
  · cases h
  · cases h
  · cases h
  · cases h
    rfl

/-- What is accepted as one record: its builder. -/
theorem readRequired_ok_iff {field : FieldNumber} {bs : List UInt8} {d : RawData} :
    readRequired field bs = .ok d ↔ ∃ rs, parse recursionLimit bs = .ok rs ∧
      (rs.filterMap (embeddedBytes field)).foldlM mergeFrom empty = .ok (complete d) := by
  cases hparse : parse recursionLimit bs with
  | error e =>
      rw [readRequired, hparse]
      constructor
      · intro h
        cases h
      · rintro ⟨rs, h, -⟩
        cases h
  | ok rs =>
      rcases eq_or_ne (rs.filterMap (embeddedBytes field)) [] with hfields | hfields
      · rw [readRequired_of_nil hparse hfields]
        constructor
        · intro h
          cases h
        · rintro ⟨rs', hrs, h⟩
          obtain rfl := Except.ok.inj hrs
          rw [hfields] at h
          cases h
      rw [readRequired_of_ne_nil hparse hfields]
      constructor
      · intro h
        cases hb : (rs.filterMap (embeddedBytes field)).foldlM mergeFrom empty with
        | error e =>
            rw [hb] at h
            cases h
        | ok b =>
            rw [hb] at h
            exact ⟨rs, rfl, eq_complete_of_build h ▸ hb⟩
      · rintro ⟨rs', hrs, h⟩
        obtain rfl := Except.ok.inj hrs
        rw [h]
        rfl

theorem readRequired_writeRequired (field : FieldNumber) (d : RawData) :
    readRequired field (writeRequired field d) = .ok d := by
  have hwrite : writeRequired field d = writeRepeated field [d] := by
    rw [writeRequired, writeRepeated, List.map_singleton, List.flatMap_singleton]
  rw [hwrite, readRequired_writeRepeated]
  rfl

/-- **Messages in a row** are read as one: the elements of the lists in a row, or the last of
the records. -/
theorem read_append {field : FieldNumber} {bs cs : List UInt8} :
    (∀ l l', readRepeated field bs = .ok l → readRepeated field cs = .ok l' →
      readRepeated field (bs ++ cs) = .ok (l ++ l')) ∧
    (∀ d d', readRequired field bs = .ok d → readRequired field cs = .ok d' →
      readRequired field (bs ++ cs) = .ok d') := by
  constructor
  · intro l l' h h'
    obtain ⟨rs, hrs⟩ := parse_of_readRepeated h
    obtain ⟨rs', hrs'⟩ := parse_of_readRepeated h'
    have hparse : parse recursionLimit (bs ++ cs) = .ok (rs ++ rs') := by
      rw [parse_append hrs, hrs']
      rfl
    rw [readRepeated_of_parse field hrs] at h
    rw [readRepeated_of_parse field hrs'] at h'
    rw [readRepeated_of_parse field hparse, List.filterMap_append]
    exact readElements_append h h'
  · intro d d' h h'
    obtain ⟨rs, hrs, hb⟩ := readRequired_ok_iff.mp h
    obtain ⟨rs', hrs', hb'⟩ := readRequired_ok_iff.mp h'
    refine readRequired_ok_iff.mpr ⟨rs ++ rs', ?_, ?_⟩
    · rw [parse_append hrs, hrs']
      rfl
    · rw [List.filterMap_append, List.foldlM_append, hb]
      exact (foldlM_mergeFrom_amend (complete d) hb').trans rfl

/-- Two requests of one element. -/
theorem read_append_pair :
    readRequired CURRENCIES_FIELD_NUMBER (writeRequired CURRENCIES_FIELD_NUMBER ⟨.EUR, 0⟩ ++
      writeRequired CURRENCIES_FIELD_NUMBER ⟨.CHF, 0⟩) = .ok ⟨.CHF, 0⟩ :=
  read_append.2 ⟨.EUR, 0⟩ ⟨.CHF, 0⟩ (readRequired_writeRequired _ _)
    (readRequired_writeRequired _ _)

/-! ## Messages that are cut short -/

/-- A list that is written is read back. -/
theorem readRepeated_writeRepeated (field : FieldNumber) (l : List RawData) :
    readRepeated field (writeRepeated field l) = .ok l := by
  rw [readRepeated_of_parse field (parse_writeRepeated recursionLimit field l),
    filterMap_embeddedBytes]
  induction l with
  | nil => rfl
  | cons d l ih =>
      have hd : readElements [writeTo d] = .ok [d] := by
        rw [readElements, List.mapM_cons, mergeFrom_writeTo]
        rfl
      exact readElements_append hd ih

/-- What is read depends on the records only. -/
theorem read_congr (field : FieldNumber) {bs cs : List UInt8}
    (h : parse recursionLimit bs = parse recursionLimit cs) :
    readRepeated field bs = readRepeated field cs ∧
      readRequired field bs = readRequired field cs := by
  rw [readRepeated, readRepeated, readRequired, readRequired, h]
  exact ⟨rfl, rfl⟩

/-- **A message that is cut short** is refused, or it is read as the list without some of its
last elements; a single record is refused. -/
theorem read_front {field : FieldNumber} {l : List RawData} {bs cs : List UInt8}
    (h : writeRepeated field l = bs ++ cs) (hcs : cs ≠ []) :
    ((∃ e, readRepeated field bs = .error e) ∧ (∃ e, readRequired field bs = .error e)) ∨
      ∃ l₁ l₂, l = l₁ ++ l₂ ∧ l₂ ≠ [] ∧ readRepeated field bs = .ok l₁ ∧
        readRequired field bs = match l₁.getLast? with
          | none => .error (.missing field.val)
          | some d => .ok d := by
  have hparse : parse recursionLimit (bs ++ cs) = .ok (l.map (embedded field)) := by
    rw [← h, parse_writeRepeated]
  rcases parse_front hparse with ⟨e, he⟩ | ⟨rs₁, rs₂, hrs, hbs, hrest⟩
  · left
    rw [readRepeated, readRequired, he]
    exact ⟨⟨e, rfl⟩, ⟨e, rfl⟩⟩
  · obtain ⟨l₁, l₂, rfl, rfl, rfl⟩ := List.map_eq_append_iff.mp hrs
    have hsame : parse recursionLimit bs = parse recursionLimit (writeRepeated field l₁) := by
      rw [hbs, parse_writeRepeated]
    obtain ⟨hrepeated, hrequired⟩ := read_congr field hsame
    refine .inr ⟨l₁, l₂, rfl, ?_, ?_, ?_⟩
    · rintro rfl
      exact hcs (eq_nil_of_parse hrest)
    · rw [hrepeated, readRepeated_writeRepeated]
    · rw [hrequired, readRequired_writeRepeated]
      rfl

/-- A list of two elements, cut in the middle. -/
theorem read_front_pair :
    ((∃ e, readRepeated CURRENCIES_FIELD_NUMBER (writeRequired CURRENCIES_FIELD_NUMBER ⟨.EUR, 0⟩) =
        .error e) ∧
      (∃ e, readRequired CURRENCIES_FIELD_NUMBER (writeRequired CURRENCIES_FIELD_NUMBER ⟨.EUR, 0⟩) =
        .error e)) ∨
    ∃ l₁ l₂ : List RawData, [⟨.EUR, 0⟩, ⟨.CHF, 0⟩] = l₁ ++ l₂ ∧ l₂ ≠ [] ∧
      readRepeated CURRENCIES_FIELD_NUMBER (writeRequired CURRENCIES_FIELD_NUMBER ⟨.EUR, 0⟩) =
        .ok l₁ ∧
      readRequired CURRENCIES_FIELD_NUMBER (writeRequired CURRENCIES_FIELD_NUMBER ⟨.EUR, 0⟩) =
        match l₁.getLast? with
        | none => .error (.missing CURRENCIES_FIELD_NUMBER.val)
        | some d => .ok d := by
  have hrest : writeRepeated CURRENCIES_FIELD_NUMBER [⟨.CHF, 0⟩] ≠ [] :=
    List.append_ne_nil_of_left_ne_nil (Record.write_ne_nil _) _
  exact read_front rfl hrest

end StockBank.Stock
