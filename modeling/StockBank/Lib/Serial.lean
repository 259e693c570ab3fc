import Mathlib.Data.List.Induction

/-!
# Objects that serve one request at a time

An `Object σ α β` answers a request of type `α` with a reply of type `β` and
moves on to a new state.  A *serial execution* feeds it a list of requests in
order, and `exec` is the state it ends in.

Everything a serial execution keeps is proved one request at a time: the rules
`exec_invariant` and `exec_invariant_of` turn "each request keeps `I`" into
"every execution keeps `I`".

`served` pairs the requests of an execution with their replies.  Where a request
that fails changes nothing, the execution of the requests that `remain` without
the failed ones ends in the same state, with the same replies.
-/

universe u v w

namespace Lib

variable {σ : Type u} {α : Type v} {β : Type w}

/-- An object: what one request answers, and the state it leaves. -/
abbrev Object (σ : Type u) (α : Type v) (β : Type w) := α → σ → β × σ

namespace Object

variable (f : Object σ α β)

/-- The state after a list of requests, served in order. -/
def exec : List α → σ → σ
  | [], s => s
  | a :: l, s => exec l (f a s).2

@[simp] theorem exec_nil (s : σ) : f.exec [] s = s := rfl

@[simp] theorem exec_cons (a : α) (l : List α) (s : σ) :
    f.exec (a :: l) s = f.exec l (f a s).2 := rfl

/-- Executions compose. -/
@[simp] theorem exec_append (l₁ l₂ : List α) (s : σ) :
    f.exec (l₁ ++ l₂) s = f.exec l₂ (f.exec l₁ s) := by
  induction l₁ generalizing s with
  | nil => rfl
  | cons a l₁ ih => exact ih _

/-- Requests that stand for others are served as those. -/
theorem exec_map {γ : Type*} (g : γ → α) (l : List γ) (s : σ) :
    exec (fun i ↦ f (g i)) l s = f.exec (l.map g) s := by
  induction l generalizing s with
  | nil => rfl
  | cons i l ih => exact ih _

variable {f}

/-- **Invariant rule.**  A property kept by each request of the list is kept by
the execution. -/
theorem exec_invariant_of {I : σ → Prop} {l : List α} {s : σ} (h₀ : I s)
    (hstep : ∀ a ∈ l, ∀ s, I s → I (f a s).2) : I (f.exec l s) := by
  induction l generalizing s with
  | nil => exact h₀
  | cons a l ih =>
      exact ih (hstep a List.mem_cons_self s h₀)
        fun b hb ↦ hstep b (List.mem_cons_of_mem a hb)

/-- **Invariant rule**, for a property that every request keeps. -/
theorem exec_invariant {I : σ → Prop} (hstep : ∀ a s, I s → I (f a s).2) {s : σ} (h₀ : I s)
    (l : List α) : I (f.exec l s) :=
  exec_invariant_of h₀ fun a _ ↦ hstep a

/-! ## Requests that fail -/

variable (f)

/-- The requests of a serial execution, each with its reply. -/
def served : List α → σ → List (α × β)
  | [], _ => []
  | a :: l, s => (a, (f a s).1) :: served l (f a s).2

theorem served_append (l₁ l₂ : List α) (s : σ) :
    f.served (l₁ ++ l₂) s = f.served l₁ s ++ f.served l₂ (f.exec l₁ s) := by
  induction l₁ generalizing s with
  | nil => rfl
  | cons a l₁ ih => exact congrArg ((a, (f a s).1) :: ·) (ih _)

/-- The requests of an execution whose replies are not failures. -/
def remaining (fails : β → Bool) (l : List α) (s : σ) : List α :=
  ((f.served l s).filter fun p ↦ !fails p.2).map Prod.fst

variable {f} {fails : β → Bool}

/-- A first request that fails does not remain. -/
theorem remaining_cons_of_fails {a : α} {s : σ} (h : fails (f a s).1 = true) (l : List α) :
    f.remaining fails (a :: l) s = f.remaining fails l (f a s).2 := by
  simp [remaining, served, h]

theorem remaining_cons {a : α} {s : σ} (h : fails (f a s).1 = false) (l : List α) :
    f.remaining fails (a :: l) s = a :: f.remaining fails l (f a s).2 := by
  simp [remaining, served, h]

/-- **Erasure rule.**  If a request that fails changes nothing, the execution of the
requests that remain ends in the state of the whole execution. -/
theorem exec_remaining (h : ∀ a s, fails (f a s).1 = true → (f a s).2 = s) (l : List α) (s : σ) :
    f.exec (f.remaining fails l s) s = f.exec l s := by
  induction l generalizing s with
  | nil => rfl
  | cons a l ih =>
      cases ha : fails (f a s).1 with
      | true =>
          have hs : (f a s).2 = s := h a s ha
          rw [remaining_cons_of_fails ha, exec_cons, hs]
          exact ih s
      | false =>
          rw [remaining_cons ha, exec_cons, exec_cons]
          exact ih _

/-- **Erasure rule**, for the replies: the requests that remain are answered as they
were. -/
theorem served_remaining (h : ∀ a s, fails (f a s).1 = true → (f a s).2 = s) (l : List α)
    (s : σ) :
    f.served (f.remaining fails l s) s = (f.served l s).filter fun p ↦ !fails p.2 := by
  induction l generalizing s with
  | nil => rfl
  | cons a l ih =>
      cases ha : fails (f a s).1 with
      | true =>
          have hs : (f a s).2 = s := h a s ha
          rw [remaining_cons_of_fails ha, served, hs, ih]
          simp [ha]
      | false =>
          rw [remaining_cons ha, served, served, ih]
          simp [ha]

end Object

end Lib
