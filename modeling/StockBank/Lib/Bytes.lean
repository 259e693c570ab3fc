import StockBank.Lib.Wire

/-!
# Reading bytes from the front

`Reads r bs a` says that the reader `r` turns the bytes `bs` into `a`, and leaves
whatever follows them.  It is a relation between formats and values that composes:
the bytes of a sequence of readers are those of its parts in a row, so what a writer
writes is read back piece by piece, with no offsets.

`Stable r` is the converse: all that `r` returns is accounted for by a front part of
its input, and more input behind it changes nothing.

Numbers are `Wire.fixed`, from the least significant byte on.
-/

namespace Lib.Bytes

/-- Code that reads bytes from the front. -/
abbrev Reader (ε : Type) := Code ε (List UInt8)

variable {ε α β : Type}

/-- How many bytes are left. -/
def remaining : Reader ε ℕ := return (← get).length

/-- The next `n` bytes.  Where there are fewer `underflow` is raised, and none is read. -/
def take (underflow : ε) (n : ℕ) : Reader ε (List UInt8) := do
  let bs ← get
  if n ≤ bs.length then
    set (bs.drop n)
    return bs.take n
  else
    throw underflow

/-- The next byte. -/
def byte (underflow : ε) : Reader ε UInt8 := do
  match ← get with
  | [] => throw underflow
  | b :: bs =>
    set bs
    return b

/-- `n` values in a row. -/
def many (r : Reader ε α) : ℕ → Reader ε (List α)
  | 0 => return []
  | n + 1 => do
    let a ← r
    return a :: (← many r n)

/-- The number that bytes are the digits of, from the least significant one on. -/
def littleEndian : List UInt8 → ℕ
  | [] => 0
  | b :: bs => b.toNat + 256 * littleEndian bs

@[simp] theorem exec_remaining_bind (k : ℕ → Reader ε α) (bs : List UInt8) :
    Code.exec (remaining >>= k) bs = Code.exec (k bs.length) bs := rfl

theorem littleEndian_fixed {width n : ℕ} (h : n < 256 ^ width) :
    littleEndian (Wire.fixed width n) = n := by
  induction width generalizing n with
  | zero =>
      obtain rfl : n = 0 := by simpa using h
      rfl
  | succ width ih =>
      have hdigit : n / 256 < 256 ^ width := by
        rw [Nat.div_lt_iff_lt_mul (by decide), ← Nat.pow_succ]
        exact h
      rw [Wire.fixed, littleEndian, ih hdigit, Wire.toNat_ofNat (by omega), Nat.mod_add_div]

/-- There are at least as many bytes as values. -/
theorem length_le_length_flatMap {write : α → List UInt8} (h : ∀ a, write a ≠ []) (as : List α) :
    as.length ≤ (as.flatMap write).length := by
  induction as with
  | nil => exact Nat.zero_le _
  | cons a as ih =>
      have ha := List.length_pos_iff.mpr (h a)
      rw [List.flatMap_cons, List.length_append, List.length_cons]
      omega

/-! ## What is read, whatever follows it -/

/-- `r` turns `bs` into `a`, and leaves what follows. -/
def Reads (r : Reader ε α) (bs : List UInt8) (a : α) : Prop :=
  ∀ rest, r.exec (bs ++ rest) = (.ok a, rest)

namespace Reads

variable {r : Reader ε α} {bs cs : List UInt8} {a : α} {b : β}

/-- Nothing follows. -/
theorem exec (h : Reads r bs a) : r.exec bs = (.ok a, []) := by
  simpa using h []

theorem pure (a : α) : Reads (Pure.pure a : Reader ε α) [] a := fun _ ↦ rfl

/-- The bytes of a sequence are those of its parts in a row. -/
theorem bind {k : α → Reader ε β} (h : Reads r bs a) (hk : Reads (k a) cs b) :
    Reads (r >>= k) (bs ++ cs) b := by
  intro rest
  rw [List.append_assoc, Code.exec_bind_of_ok (h _)]
  exact hk rest

/-- A value that is computed from what was read takes no bytes. -/
theorem map (h : Reads r bs a) (f : α → β) : Reads (do return f (← r)) bs (f a) := by
  simpa using h.bind (k := fun a ↦ Pure.pure (f a)) (Reads.pure (f a))

/-- One more check or a look at what is left takes no bytes. -/
theorem bind_nil {k : α → Reader ε β} (h : Reads r [] a) (hk : Reads (k a) cs b) :
    Reads (r >>= k) cs b := by
  simpa using h.bind hk

theorem bind_last {k : α → Reader ε β} (h : Reads r bs a) (hk : Reads (k a) [] b) :
    Reads (r >>= k) bs b := by
  simpa using h.bind hk

theorem ite_pos {c : Prop} [Decidable c] {r' : Reader ε α} (hc : c) (h : Reads r bs a) :
    Reads (if c then r else r') bs a := by
  rwa [if_pos hc]

theorem ite_neg {c : Prop} [Decidable c] {r' : Reader ε α} (hc : ¬ c) (h : Reads r' bs a) :
    Reads (if c then r else r') bs a := by
  rwa [if_neg hc]

theorem take (underflow : ε) (bs : List UInt8) : Reads (Bytes.take underflow bs.length) bs bs := by
  intro rest
  have hle : bs.length ≤ (bs ++ rest).length := by simp
  rw [Bytes.take, Code.exec_get_bind, if_pos hle]
  change (Except.ok ((bs ++ rest).take bs.length), (bs ++ rest).drop bs.length) = _
  simp only [List.take_left, List.drop_left]

theorem byte (underflow : ε) (b : UInt8) : Reads (Bytes.byte underflow) [b] b := fun _ ↦ rfl

/-- A list of values that are written one after the other. -/
theorem many {write : α → List UInt8} {as : List α} (h : ∀ a ∈ as, Reads r (write a) a) :
    Reads (Bytes.many r as.length) (as.flatMap write) as := by
  induction as with
  | nil => exact Reads.pure []
  | cons a as ih =>
      rw [List.flatMap_cons, List.length_cons, Bytes.many]
      refine (h a List.mem_cons_self).bind ?_
      exact (ih fun b hb ↦ h b (List.mem_cons_of_mem _ hb)).map _

/-- Exceptions do not matter to a reader that raises none. -/
theorem mapError {δ : Type} (h : Reads r bs a) (f : ε → δ) : Reads (Code.mapError f r) bs a := by
  intro rest
  rw [Code.exec_mapError, h rest]
  rfl

/-- A reader reads at most one value from the same bytes. -/
theorem unique {a' : α} (h : Reads r bs a) (h' : Reads r bs a') : a = a' := by
  have := h.exec.symm.trans h'.exec
  simpa using this

end Reads

/-! ## What was read is accounted for -/

/-- What `r` returns is accounted for by a front part of its input, whatever follows it. -/
def Stable (r : Reader ε α) : Prop :=
  ∀ ⦃bs rest : List UInt8⦄ ⦃a : α⦄, r.exec bs = (.ok a, rest) →
    ∃ used, bs = used ++ rest ∧ Reads r used a

namespace Stable

variable {r : Reader ε α}

theorem pure (a : α) : Stable (Pure.pure a : Reader ε α) := by
  rintro bs rest a' h
  cases h
  exact ⟨[], rfl, Reads.pure a⟩

theorem throw (e : ε) : Stable (MonadExcept.throw e : Reader ε α) := by
  rintro bs rest a h
  cases h

theorem bind {k : α → Reader ε β} (h : Stable r) (hk : ∀ a, Stable (k a)) : Stable (r >>= k) := by
  intro bs rest b hb
  obtain ⟨a, mid, hr, hk'⟩ := Code.exists_of_exec_bind hb
  obtain ⟨used, rfl, hused⟩ := h hr
  obtain ⟨used', rfl, hused'⟩ := hk a hk'
  exact ⟨used ++ used', by rw [List.append_assoc], hused.bind hused'⟩

theorem map (h : Stable r) (f : α → β) : Stable (do return f (← r)) := h.bind fun a ↦ pure (f a)

theorem ite {c : Prop} [Decidable c] {r' : Reader ε α} (h : c → Stable r) (h' : ¬ c → Stable r') :
    Stable (if c then r else r') := by
  split
  · exact h ‹_›
  · exact h' ‹_›

theorem take (underflow : ε) (n : ℕ) : Stable (Bytes.take underflow n) := by
  intro bs rest a h
  rw [Bytes.take, Code.exec_get_bind] at h
  split at h
  · have hlen : (bs.take n).length = n := by rw [List.length_take, Nat.min_eq_left ‹_›]
    have hreads := Reads.take underflow (bs.take n)
    rw [hlen] at hreads
    cases h
    exact ⟨bs.take n, (List.take_append_drop n bs).symm, hreads⟩
  · cases h

theorem byte (underflow : ε) : Stable (Bytes.byte underflow) := by
  rintro (_ | ⟨b, bs⟩) rest a h
  · cases h
  · cases h
    exact ⟨[b], rfl, Reads.byte underflow b⟩

theorem many (h : Stable r) (n : ℕ) : Stable (Bytes.many r n) := by
  induction n with
  | zero => exact pure []
  | succ n ih => exact h.bind fun a ↦ ih.map _

end Stable

end Lib.Bytes
