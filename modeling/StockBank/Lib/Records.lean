import StockBank.Lib.Bytes

/-!
# Records of arbitrary bytes

What can be said of the records of a message without knowing who wrote it.  A record that
is read is accounted for by the bytes it was read from, so two messages in a row hold the
records of both (`parse_append`), and the front of a message holds the first of its records,
or is refused (`parse_front`).
-/

namespace Lib.Wire

open Bytes

/-! ## Readers of the parts -/

theorem stable_readByte : Stable readByte := by
  rintro (_ | ⟨b, bs⟩) rest a h
  · cases h
  · cases h
    exact ⟨[b], rfl, fun _ ↦ rfl⟩

theorem stable_readVarint (fuel : ℕ) : Stable (readVarint fuel) := by
  induction fuel with
  | zero => exact Stable.throw _
  | succ fuel ih =>
      refine stable_readByte.bind fun b ↦ Stable.ite (fun _ ↦ Stable.pure _) fun _ ↦ ?_
      exact ih.map _

theorem stable_readFixed (width : ℕ) : Stable (readFixed width) := by
  induction width with
  | zero => exact Stable.pure 0
  | succ width ih => exact stable_readByte.bind fun b ↦ ih.map _

theorem stable_readBytes (len : ℕ) : Stable (readBytes len) := by
  intro bs rest a h
  rw [readBytes, Code.exec_get_bind] at h
  split at h
  · next hle =>
    cases h
    exact ⟨bs.take len, (List.take_append_drop len bs).symm, exec_readBytes _⟩
  · cases h

theorem stable_readPlain (wireType : ℕ) : Stable (readPlain wireType) := by
  unfold readPlain
  split
  · exact (stable_readVarint 10).map _
  · exact (stable_readFixed 8).map _
  · refine (stable_readVarint 10).bind fun len ↦ ?_
    dsimp only
    split
    · exact (stable_readBytes _).map _
    · exact Stable.throw _
  · exact Stable.throw _
  · exact (stable_readFixed 4).map _
  · exact Stable.throw _

theorem stable_readTag : Stable readTag := by
  refine (stable_readVarint 10).bind fun tag ↦ ?_
  split
  · exact Stable.pure _
  · exact Stable.throw _

theorem exec_readTag_ok {bs rest : List UInt8} {tag : FieldNumber × ℕ}
    (h : readTag.exec bs = (.ok tag, rest)) :
    ∃ used, used ≠ [] ∧ bs = used ++ rest ∧ Reads readTag used tag := by
  obtain ⟨used, rfl, hused⟩ := stable_readTag h
  exact ⟨used, ne_nil_of_readTag hused.exec, rfl, hused⟩

/-! ## Groups -/

section

variable {readPayload : FieldNumber → ℕ → Reader Payload} {number : FieldNumber} {fuel : ℕ}
  {bs rest : List UInt8} {rs : List Record}

/-- What a turn of the loop does: the group ends, or it goes on with a record. -/
theorem readGroup_cases (h : (readGroup readPayload number (fuel + 1)).exec bs = (.ok rs, rest)) :
    (readTag.exec bs = (.ok (number, 4), rest) ∧ rs = []) ∨
      ∃ tag payload rs' mid mid', readTag.exec bs = (.ok tag, mid) ∧ tag.2 ≠ 4 ∧
        (readPayload tag.1 tag.2).exec mid = (.ok payload, mid') ∧
        (readGroup readPayload number fuel).exec mid' = (.ok rs', rest) ∧
        rs = ⟨tag.1, payload⟩ :: rs' := by
  rw [readGroup, Code.exec_get_bind] at h
  split at h
  · cases h
  obtain ⟨⟨number', wireType⟩, mid, htag, hturn⟩ := Code.exists_of_exec_bind h
  split at hturn
  · next hend =>
    obtain rfl : wireType = 4 := hend
    split at hturn
    · next hnumber =>
      obtain rfl : number' = number := hnumber
      cases hturn
      exact .inl ⟨htag, rfl⟩
    · cases hturn
  · next hend =>
    obtain ⟨payload, mid', hpayload, hrecord⟩ := Code.exists_of_exec_bind hturn
    obtain ⟨rs', _, hrest, hreturn⟩ := Code.exists_of_exec_bind hrecord
    cases hreturn
    exact .inr ⟨_, payload, rs', mid, mid', htag, hend, hpayload, hrest, rfl⟩

/-- The bytes of a group account for its records, with any fuel of at least their number. -/
theorem exec_readGroup_ok (hstable : ∀ number wireType, Stable (readPayload number wireType))
    (h : (readGroup readPayload number fuel).exec bs = (.ok rs, rest)) :
    ∃ used, bs = used ++ rest ∧
      ∀ fuel', used.length ≤ fuel' → Reads (readGroup readPayload number fuel') used rs := by
  induction fuel generalizing bs rs with
  | zero => cases h
  | succ fuel ih =>
      obtain ⟨htag, rfl⟩ | ⟨tag, payload, rs', mid, mid', htag, hend, hpayload, hrest, rfl⟩ :=
        readGroup_cases h
      · obtain ⟨used, hne, rfl, hused⟩ := exec_readTag_ok htag
        refine ⟨used, rfl, fun fuel' hfuel' rest ↦ ?_⟩
        have hpos := List.length_pos_iff.mpr hne
        obtain ⟨fuel', rfl⟩ := Nat.exists_eq_add_of_lt (hpos.trans_le hfuel')
        exact exec_readGroup_end (hused rest)
      · obtain ⟨used, hne, rfl, hused⟩ := exec_readTag_ok htag
        obtain ⟨used', rfl, hused'⟩ := hstable _ _ hpayload
        obtain ⟨used'', rfl, hused''⟩ := ih hrest
        refine ⟨used ++ (used' ++ used''), by simp only [List.append_assoc],
          fun fuel' hfuel' rest ↦ ?_⟩
        have hpos := List.length_pos_iff.mpr hne
        rw [List.length_append, List.length_append] at hfuel'
        obtain ⟨fuel', rfl⟩ := Nat.exists_eq_add_of_lt (show 0 < fuel' by omega)
        rw [List.append_assoc, List.append_assoc]
        rw [exec_readGroup_record (hused _) hend (hused' _),
          Code.exec_bind_of_ok (hused'' _ (by omega) rest)]
        rfl

end

theorem stable_readPayload (limit : ℕ) (number : FieldNumber) (wireType : ℕ) :
    Stable (readPayload limit number wireType) := by
  induction limit generalizing number wireType with
  | zero =>
      by_cases h : wireType = 3
      · subst h
        exact Stable.throw _
      · rw [readPayload_of_ne h]
        exact stable_readPlain wireType
  | succ limit ih =>
      by_cases h : wireType = 3
      · subst h
        intro bs rest payload hbs
        rw [readPayload, Code.exec_get_bind] at hbs
        obtain ⟨rs, _, hrs, hbs⟩ := Code.exists_of_exec_bind hbs
        cases hbs
        obtain ⟨used, rfl, hused⟩ := exec_readGroup_ok ih hrs
        refine ⟨used, rfl, fun rest ↦ ?_⟩
        have hfuel : used.length ≤ (used ++ rest).length := by simp
        rw [readPayload, Code.exec_get_bind, Code.exec_bind_of_ok (hused _ hfuel rest)]
        rfl
      · rw [readPayload_of_ne h]
        exact stable_readPlain wireType

/-! ## Records in a row -/

theorem stable_readRecord (limit : ℕ) : Stable (readRecord limit) :=
  stable_readTag.bind fun _ ↦ (stable_readPayload _ _ _).map _

variable {limit : ℕ}

/-- A record takes bytes. -/
theorem exec_readRecord_ok {bs rest : List UInt8} {r : Record}
    (h : (readRecord limit).exec bs = (.ok r, rest)) :
    ∃ used, used ≠ [] ∧ bs = used ++ rest ∧ Reads (readRecord limit) used r := by
  obtain ⟨used, rfl, hused⟩ := stable_readRecord limit h
  refine ⟨used, ?_, rfl, hused⟩
  rintro rfl
  cases hused.exec

/-- More fuel than bytes makes no difference. -/
theorem exec_readRecords_of_le {fuel : ℕ} {bs : List UInt8} (h : bs.length ≤ fuel) :
    (readRecords limit fuel).exec bs = (readRecords limit bs.length).exec bs := by
  induction fuel using Nat.strong_induction_on generalizing bs with
  | _ fuel ih =>
      cases fuel with
      | zero => rw [Nat.le_zero.mp h]
      | succ fuel =>
          cases bs with
          | nil => rfl
          | cons b bs =>
              have hne := List.cons_ne_nil b bs
              rw [List.length_cons, readRecords, readRecords, Code.exec_get_bind, Code.exec_get_bind,
                if_neg hne, if_neg hne, Code.exec_bind, Code.exec_bind]
              rcases hr : (readRecord limit).exec (b :: bs) with ⟨e | r, rest⟩
              · rfl
              · obtain ⟨used, hne, hused, -⟩ := exec_readRecord_ok hr
                have hlen := congrArg List.length hused
                have hpos := List.length_pos_iff.mpr hne
                rw [List.length_append, List.length_cons] at hlen
                rw [List.length_cons] at h
                change Code.exec (readRecords limit fuel >>= _) rest =
                  Code.exec (readRecords limit bs.length >>= _) rest
                rw [Code.exec_bind, Code.exec_bind,
                  ih fuel (by omega) (by omega : rest.length ≤ fuel), ih bs.length (by omega) (by omega : rest.length ≤ bs.length)]

@[simp] theorem parse_nil : parse limit [] = .ok [] := rfl

/-- The records of a message that begins with one. -/
theorem parse_of_readRecord {bs rest : List UInt8} {r : Record}
    (h : (readRecord limit).exec bs = (.ok r, rest)) :
    parse limit bs = (parse limit rest).map (r :: ·) := by
  obtain ⟨used, hne, rfl, -⟩ := exec_readRecord_ok h
  have hpos := List.length_pos_iff.mpr hne
  obtain ⟨n, hn⟩ : ∃ n, (used ++ rest).length = n + 1 := by
    rw [List.length_append]
    exact ⟨used.length + rest.length - 1, by omega⟩
  have hle : rest.length ≤ n := by
    rw [List.length_append] at hn
    omega
  rw [parse, hn, readRecords, Code.exec_get_bind,
    if_neg (List.append_ne_nil_of_left_ne_nil hne rest), Code.exec_bind_of_ok h, Code.exec_bind,
    exec_readRecords_of_le hle, parse]
  rcases (readRecords limit rest.length).exec rest with ⟨e | rs, left⟩ <;> rfl

/-- A message that begins with no record is refused. -/
theorem parse_of_error {bs rest : List UInt8} {e : ReadError} (hbs : bs ≠ [])
    (h : (readRecord limit).exec bs = (.error e, rest)) : parse limit bs = .error e := by
  obtain ⟨n, hn⟩ := Nat.exists_eq_succ_of_ne_zero (List.length_pos_iff.mpr hbs).ne'
  rw [parse, hn, readRecords, Code.exec_get_bind, if_neg hbs, Code.exec_bind_of_error h]

/-- **Messages in a row.**  The records of a message that is followed by another are its own,
and then those of the other. -/
theorem parse_append {bs cs : List UInt8} {rs : List Record} (h : parse limit bs = .ok rs) :
    parse limit (bs ++ cs) = (parse limit cs).map (rs ++ ·) := by
  induction hn : bs.length using Nat.strong_induction_on generalizing bs rs with
  | _ n ih =>
      by_cases hbs : bs = []
      · subst hbs
        obtain rfl := Except.ok.inj h
        rw [List.nil_append]
        cases parse limit cs <;> rfl
      rcases hr : (readRecord limit).exec bs with ⟨e | r, rest⟩
      · rw [parse_of_error hbs hr] at h
        cases h
      rw [parse_of_readRecord hr] at h
      obtain ⟨used, hne, rfl, hreads⟩ := exec_readRecord_ok hr
      have hlen : rest.length < n := by
        have hpos := List.length_pos_iff.mpr hne
        rw [List.length_append] at hn
        omega
      cases hrest : parse limit rest with
      | error e =>
          rw [hrest] at h
          cases h
      | ok rs' =>
          rw [hrest] at h
          obtain rfl := Except.ok.inj h
          have hfirst : (readRecord limit).exec (used ++ (rest ++ cs)) = (.ok r, rest ++ cs) :=
            hreads _
          rw [List.append_assoc, parse_of_readRecord hfirst, ih rest.length hlen hrest rfl]
          cases parse limit cs <;> rfl

/-- **The front of a message** holds the first of its records, and what is left of it the
others; or it is refused. -/
theorem parse_front {bs cs : List UInt8} {rs : List Record} (h : parse limit (bs ++ cs) = .ok rs) :
    (∃ e, parse limit bs = .error e) ∨
      ∃ rs₁ rs₂, rs = rs₁ ++ rs₂ ∧ parse limit bs = .ok rs₁ ∧ parse limit cs = .ok rs₂ := by
  cases hbs : parse limit bs with
  | error e => exact .inl ⟨e, rfl⟩
  | ok rs₁ =>
      rw [parse_append hbs] at h
      cases hcs : parse limit cs with
      | error e =>
          rw [hcs] at h
          cases h
      | ok rs₂ =>
          rw [hcs] at h
          exact .inr ⟨rs₁, rs₂, (Except.ok.inj h).symm, rfl, rfl⟩

/-- Only a message without bytes has no records. -/
theorem eq_nil_of_parse {bs : List UInt8} (h : parse limit bs = .ok []) : bs = [] := by
  by_contra hbs
  rcases hr : (readRecord limit).exec bs with ⟨e | r, rest⟩
  · rw [parse_of_error hbs hr] at h
    cases h
  · rw [parse_of_readRecord hr] at h
    cases hrest : parse limit rest <;> rw [hrest] at h <;> cases h

end Lib.Wire
