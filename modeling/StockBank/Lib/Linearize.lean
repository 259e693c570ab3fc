import StockBank.Lib.Serial
import StockBank.Lib.Run
import Mathlib.Data.List.Basic
import Mathlib.Data.List.Nodup

/-!
# Linearization by commit points

Calls `i : ι` are served concurrently: each is invoked, takes some internal
steps, and returns a reply.  The serial object `op` says what each call would do
if it ran alone.  A history of the concurrent system is *serialized* by a list
of its calls when serving the calls in that order, one at a time, ends in the
same state with the same replies, and *linearized* when the order moreover does
not contradict real time.

The way to find the order is the usual one.  A system has `CommitPoints` when
every step either leaves the abstract state alone or is the step at which one
call takes effect, all at once and as `op` says.  The order is then the order in
which the calls committed; `CommitPoints.linearized` is the rule.
-/

universe u v w x y

namespace Lib

variable {ι : Type u} {σ : Type v} {β : Type w} {ε : Type x} {γ : Type y}

/-- What one event says about the calls. -/
inductive Event (ι : Type u) (β : Type w)
  | inv (i : ι)
  | tau (i : ι)
  | ret (i : ι) (r : β)

/-- The call is invoked in this history. -/
def Invoked (view : ε → Event ι β) (es : List ε) (i : ι) : Prop := ∃ e ∈ es, view e = .inv i

/-- The call returns `r` in this history. -/
def Returns (view : ε → Event ι β) (es : List ε) (i : ι) (r : β) : Prop :=
  ∃ e ∈ es, view e = .ret i r

/-- `i` is listed before `j`. -/
def Precedes (l : List ι) (i j : ι) : Prop := ∃ pre post, l = pre ++ j :: post ∧ i ∈ pre

theorem Precedes.append {l : List ι} {i j : ι} (h : Precedes l i j) (l' : List ι) :
    Precedes (l ++ l') i j := by
  obtain ⟨pre, post, rfl, hi⟩ := h
  exact ⟨pre, post ++ l', by simp, hi⟩

/-- Served in the order `l`, the call `i` is answered `r`. -/
def Answers (op : Object σ ι β) (a₀ : σ) (l : List ι) (i : ι) (r : β) : Prop :=
  ∃ pre post, l = pre ++ i :: post ∧ (op i (op.exec pre a₀)).1 = r

theorem Answers.append {op : Object σ ι β} {a₀ : σ} {l : List ι} {i : ι} {r : β}
    (h : Answers op a₀ l i r) (l' : List ι) : Answers op a₀ (l ++ l') i r := by
  obtain ⟨pre, post, rfl, hr⟩ := h
  exact ⟨pre, post ++ l', by simp, hr⟩

/-- `l` serializes the history `es`: served one at a time in the order `l`, the
calls of `es` take `a₀` to `a` and are answered as they were in `es`. -/
structure Serializes (view : ε → Event ι β) (op : Object σ ι β) (a₀ : σ) (es : List ε) (a : σ)
    (l : List ι) : Prop where
  /-- No call is served twice. -/
  nodup : l.Nodup
  /-- Every call that returned is served. -/
  returned : ∀ i r, Returns view es i r → i ∈ l
  /-- Only calls that were invoked are served. -/
  invoked : ∀ i ∈ l, Invoked view es i
  /-- The serial execution ends in the same state. -/
  exec : op.exec l a₀ = a
  /-- The serial execution gives the same replies. -/
  reply : ∀ i r, Returns view es i r → Answers op a₀ l i r

/-- `l` linearizes the history `es`: it serializes it in an order that respects
real time. -/
structure Linearizes (view : ε → Event ι β) (op : Object σ ι β) (a₀ : σ) (es : List ε) (a : σ)
    (l : List ι) : Prop extends Serializes view op a₀ es a l where
  /-- A call that returned before another was invoked comes first. -/
  realTime : ∀ es₁ es₂, es = es₁ ++ es₂ → ∀ i r j, Returns view es₁ i r → Invoked view es₂ j →
    j ∈ l → Precedes l i j

/-- Around two occurrences of a call that is listed once, the list splits alike. -/
theorem eq_of_split {l pre pre' post post' : List ι} {i : ι} (hnd : l.Nodup)
    (h : l = pre ++ i :: post) (h' : l = pre' ++ i :: post') : pre = pre' := by
  subst h
  have hmem : i ∉ pre ++ post := (List.nodup_cons.mp (List.nodup_middle.mp hnd)).1
  rw [List.mem_append, not_or] at hmem
  exact ((List.append_cons_inj_of_notMem hmem.1 hmem.2).mp h').1

/-- **Two calls in real-time order.**  A call that returned before another was
invoked is served first; what it returned, and what the other returned, are the
replies at their places in the serial execution. -/
theorem Linearizes.answers_in_order {view : ε → Event ι β} {op : Object σ ι β} {a₀ a : σ}
    {es₁ es₂ : List ε} {l : List ι} (h : Linearizes view op a₀ (es₁ ++ es₂) a l) {i j : ι}
    {r r' : β} (hi : Returns view es₁ i r) (hinv : Invoked view es₂ j)
    (hj : Returns view (es₁ ++ es₂) j r') :
    ∃ pre mid post, l = pre ++ i :: mid ++ j :: post ∧ (op i (op.exec pre a₀)).1 = r ∧
      (op j (op.exec (pre ++ i :: mid) a₀)).1 = r' := by
  obtain ⟨before, post, hl, hmem⟩ := h.realTime es₁ es₂ rfl i r j hi hinv (h.returned j r' hj)
  obtain ⟨pre, mid, rfl⟩ := List.append_of_mem hmem
  have hi' : Returns view (es₁ ++ es₂) i r := by
    obtain ⟨e, he, hv⟩ := hi
    exact ⟨e, List.mem_append_left _ he, hv⟩
  obtain ⟨pre', post', hl', hr⟩ := h.reply i r hi'
  obtain ⟨before', post'', hl'', hr'⟩ := h.reply j r' hj
  have hl₁ : l = pre ++ i :: (mid ++ j :: post) := by simpa using hl
  obtain rfl := eq_of_split h.nodup hl₁ hl'
  obtain rfl := eq_of_split h.nodup hl hl''
  exact ⟨pre, mid, post, hl, hr, hr'⟩

/-- In a system where only an invocation starts a call, a call that has started was
invoked. -/
theorem invoked_of_started {step : γ → ε → γ → Prop} {view : ε → Event ι β}
    {started : γ → ι → Prop} {s₀ s : γ} {es : List ε} {i : ι} (h₀ : ¬ started s₀ i)
    (hstep : ∀ {s e s'}, step s e s' → started s' i → started s i ∨ view e = .inv i)
    (h : Run step s₀ es s) (hi : started s i) : Invoked view es i := by
  induction h with
  | nil => exact absurd hi h₀
  | snoc _ hs ih =>
      rcases hstep hs hi with h' | h'
      · obtain ⟨e, he, hv⟩ := ih h'
        exact ⟨e, List.mem_append_left _ he, hv⟩
      · exact ⟨_, List.mem_append_right _ (List.mem_singleton_self _), h'⟩

/-- A system whose calls take effect at single points.  `abs` is the state an
observer of the finished calls may assume, and `committed` the reply a call is
bound to give. -/
structure CommitPoints [DecidableEq ι] (step : γ → ε → γ → Prop) (view : ε → Event ι β)
    (op : Object σ ι β) where
  abs : γ → σ
  /-- The reply a call has committed to. -/
  committed : γ → ι → Option β
  started : γ → ι → Prop
  /-- The invariant the other laws may use. -/
  inv : γ → Prop
  inv_step : ∀ {s e s'}, inv s → step s e s' → inv s'
  /-- A step is silent, or one call commits. -/
  advance : ∀ {s e s'}, inv s → step s e s' →
    (abs s' = abs s ∧ committed s' = committed s) ∨
      ∃ i r, committed s i = none ∧ op i (abs s) = (r, abs s') ∧
        committed s' = Function.update (committed s) i (some r)
  /-- A call is started by its invocation. -/
  started_step : ∀ {s e s' i}, step s e s' → started s' i → started s i ∨ view e = .inv i
  /-- Only a started call commits. -/
  committed_started : ∀ {s i}, inv s → committed s i ≠ none → started s i
  /-- A call returns what it committed to. -/
  ret_committed : ∀ {s e s' i r}, inv s → step s e s' → view e = .ret i r →
    committed s i = some r
  /-- A call is invoked before it commits. -/
  inv_committed : ∀ {s e s' i}, inv s → step s e s' → view e = .inv i → committed s i = none

namespace CommitPoints

variable [DecidableEq ι] {step : γ → ε → γ → Prop} {view : ε → Event ι β} {op : Object σ ι β}
variable (C : CommitPoints step view op) {s₀ s : γ} {es : List ε}

theorem inv_run (h₀ : C.inv s₀) (h : Run step s₀ es s) : C.inv s :=
  h.invariant h₀ fun _ _ _ hi hs ↦ C.inv_step hi hs

/-- A commitment is never withdrawn. -/
theorem committed_mono {e : ε} {s' : γ} {i : ι} {r : β} (hi : C.inv s) (hs : step s e s')
    (h : C.committed s i = some r) : C.committed s' i = some r := by
  rcases C.advance hi hs with ⟨-, hc⟩ | ⟨j, r', hj, -, hc⟩
  · rw [hc, h]
  · have hne : i ≠ j := by rintro rfl; rw [hj] at h; cases h
    rw [hc, Function.update_of_ne hne, h]

/-- A call that returned had committed to its reply. -/
theorem committed_of_returns (h₀ : C.inv s₀) (h : Run step s₀ es s) {i : ι} {r : β}
    (hr : Returns view es i r) : C.committed s i = some r := by
  induction h with
  | nil =>
      obtain ⟨e, he, -⟩ := hr
      exact absurd he List.not_mem_nil
  | snoc hr' hs ih =>
      have hinv := C.inv_run h₀ hr'
      obtain ⟨e, he, hv⟩ := hr
      rcases List.mem_append.mp he with he | he
      · exact C.committed_mono hinv hs (ih ⟨e, he, hv⟩)
      · obtain rfl := List.mem_singleton.mp he
        exact C.committed_mono hinv hs (C.ret_committed hinv hs hv)

/-- `l` lists the calls in the order in which they committed, on the way from `s₀` to `s`. -/
structure CommitOrder (s₀ : γ) (es : List ε) (s : γ) (l : List ι) : Prop where
  nodup : l.Nodup
  /-- The calls listed are those that have committed. -/
  mem : ∀ i, i ∈ l ↔ C.committed s i ≠ none
  /-- Served in this order they lead to the abstract state. -/
  exec : op.exec l (C.abs s₀) = C.abs s
  /-- Served in this order they give the replies committed to. -/
  answers : ∀ i r, C.committed s i = some r → Answers op (C.abs s₀) l i r
  realTime : ∀ es₁ es₂, es = es₁ ++ es₂ → ∀ i r j, Returns view es₁ i r → Invoked view es₂ j →
    j ∈ l → Precedes l i j

namespace CommitOrder

variable {C} {l : List ι} {e : ε} {s' : γ}

theorem nil (hc₀ : ∀ i, C.committed s₀ i = none) : C.CommitOrder s₀ [] s₀ [] where
  nodup := List.nodup_nil
  mem i := by simp [hc₀ i]
  exec := rfl
  answers i r hr := by
    rw [hc₀ i] at hr
    cases hr
  realTime _ _ _ _ _ _ _ _ hj := absurd hj List.not_mem_nil

/-- After one more event, a call that had returned before another was invoked is
listed, and before that other call if it is listed too. -/
theorem realTime_snoc (hl : C.CommitOrder s₀ es s l) (h₀ : C.inv s₀) (hrun : Run step s₀ es s)
    (hs : step s e s') {es₁ es₂ : List ε} (hes : es ++ [e] = es₁ ++ es₂) {i j : ι} {r : β}
    (hi : Returns view es₁ i r) (hj : Invoked view es₂ j) :
    i ∈ l ∧ (j ∈ l → Precedes l i j) := by
  rcases List.eq_nil_or_concat es₂ with rfl | ⟨es₂, e', rfl⟩
  · obtain ⟨_, he, -⟩ := hj
    exact absurd he List.not_mem_nil
  rw [List.concat_eq_append, ← List.append_assoc] at hes
  obtain ⟨rfl, hee⟩ := List.append_inj' hes rfl
  obtain rfl : e = e' := List.singleton_inj.mp hee
  constructor
  · obtain ⟨ei, hei, hv⟩ := hi
    rw [hl.mem, C.committed_of_returns h₀ hrun ⟨ei, List.mem_append_left _ hei, hv⟩]
    exact Option.some_ne_none r
  · intro hjl
    obtain ⟨ej, hej, hv⟩ := hj
    rw [List.concat_eq_append] at hej
    rcases List.mem_append.mp hej with hej | hej
    · exact hl.realTime es₁ es₂ rfl i r j hi ⟨ej, hej, hv⟩ hjl
    -- a call invoked by the new event has not committed
    · obtain rfl := List.mem_singleton.mp hej
      exact absurd (C.inv_committed (C.inv_run h₀ hrun) hs hv) ((hl.mem j).mp hjl)

/-- A step at which no call commits keeps the order. -/
theorem silent (hl : C.CommitOrder s₀ es s l) (h₀ : C.inv s₀) (hrun : Run step s₀ es s)
    (hs : step s e s') (ha : C.abs s' = C.abs s) (hc : C.committed s' = C.committed s) :
    C.CommitOrder s₀ (es ++ [e]) s' l where
  nodup := hl.nodup
  mem := hc ▸ hl.mem
  exec := ha ▸ hl.exec
  answers := hc ▸ hl.answers
  realTime _ _ hes _ _ _ hi hj := (hl.realTime_snoc h₀ hrun hs hes hi hj).2

/-- The call that commits goes last. -/
theorem commit (hl : C.CommitOrder s₀ es s l) (h₀ : C.inv s₀) (hrun : Run step s₀ es s)
    (hs : step s e s') {k : ι} {r : β} (hk : C.committed s k = none)
    (hop : op k (C.abs s) = (r, C.abs s'))
    (hc : C.committed s' = Function.update (C.committed s) k (some r)) :
    C.CommitOrder s₀ (es ++ [e]) s' (l ++ [k]) where
  nodup := by
    refine List.nodup_append.mpr ⟨hl.nodup, List.nodup_singleton k, ?_⟩
    rintro a ha b hb rfl
    obtain rfl := List.mem_singleton.mp hb
    exact (hl.mem a).mp ha hk
  mem i := by
    rw [hc]
    by_cases hik : i = k
    · subst hik; simp
    · simp [hik, hl.mem]
  exec := by rw [Object.exec_append, hl.exec, Object.exec_cons, hop, Object.exec_nil]
  answers i r' hi := by
    rw [hc] at hi
    by_cases hik : i = k
    · subst hik
      rw [Function.update_self] at hi
      exact ⟨l, [], rfl, by rw [hl.exec, hop, Option.some.inj hi]⟩
    · rw [Function.update_of_ne hik] at hi
      exact (hl.answers i r' hi).append [k]
  realTime _ _ hes i _ j hi hj hjl := by
    obtain ⟨hil, hold⟩ := hl.realTime_snoc h₀ hrun hs hes hi hj
    rcases List.mem_append.mp hjl with hjl | hjl
    · exact (hold hjl).append [k]
    · obtain rfl := List.mem_singleton.mp hjl
      exact ⟨l, [], rfl, hil⟩

end CommitOrder

/-- Along every run the calls can be listed in the order in which they commit. -/
theorem exists_commitOrder (h₀ : C.inv s₀) (hc₀ : ∀ i, C.committed s₀ i = none)
    (h : Run step s₀ es s) : ∃ l, C.CommitOrder s₀ es s l := by
  induction h with
  | nil => exact ⟨[], .nil hc₀⟩
  | snoc hrun hs ih =>
      obtain ⟨l, hl⟩ := ih
      rcases C.advance (C.inv_run h₀ hrun) hs with ⟨ha, hc⟩ | ⟨k, r, hk, hop, hc⟩
      · exact ⟨l, hl.silent h₀ hrun hs ha hc⟩
      · exact ⟨l ++ [k], hl.commit h₀ hrun hs hk hop hc⟩

/-- **Commit-point rule.**  The calls, in the order in which they committed,
linearize every history. -/
theorem linearized (h₀ : C.inv s₀) (hc₀ : ∀ i, C.committed s₀ i = none)
    (hst : ∀ i, ¬ C.started s₀ i) (h : Run step s₀ es s) :
    ∃ l, Linearizes view op (C.abs s₀) es (C.abs s) l := by
  obtain ⟨l, hl⟩ := C.exists_commitOrder h₀ hc₀ h
  refine ⟨l, ⟨⟨hl.nodup, ?_, ?_, hl.exec, ?_⟩, hl.realTime⟩⟩
  · intro i r hr
    rw [hl.mem, C.committed_of_returns h₀ h hr]
    exact Option.some_ne_none r
  · intro i hi
    exact invoked_of_started (hst i) C.started_step h
      (C.committed_started (C.inv_run h₀ h) ((hl.mem i).mp hi))
  · intro i r hr
    exact hl.answers i r (C.committed_of_returns h₀ h hr)

end CommitPoints

end Lib
