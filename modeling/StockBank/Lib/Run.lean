import Mathlib.Data.List.Induction

/-!
# Runs of labelled transition systems

`Run step s₀ es s` says that the system `step` can go from `s₀` to `s`, and that
`es` is the list of events it shows on the way.  Events are added at the end, so
an induction on a run meets the *last* step first: what the history so far says
is available when the next step is taken.

A run in which every step also meets a side condition is a run of the
restricted system `restrict step ok`.
-/

universe u v

namespace Lib

variable {σ : Type u} {ε : Type v}

/-- A run from `s₀`: the events it shows, and the state it is in. -/
inductive Run (step : σ → ε → σ → Prop) (s₀ : σ) : List ε → σ → Prop
  | nil : Run step s₀ [] s₀
  | snoc {es : List ε} {s s' : σ} {e : ε} :
      Run step s₀ es s → step s e s' → Run step s₀ (es ++ [e]) s'

/-- The steps of `step` that meet the condition `ok` in the state they start from. -/
def restrict (step : σ → ε → σ → Prop) (ok : σ → ε → Prop) (s : σ) (e : ε) (s' : σ) : Prop :=
  step s e s' ∧ ok s e

namespace Run

variable {step : σ → ε → σ → Prop} {s₀ s₁ s : σ} {es es₁ es₂ : List ε}

theorem append (h₁ : Run step s₀ es₁ s₁) (h₂ : Run step s₁ es₂ s) :
    Run step s₀ (es₁ ++ es₂) s := by
  induction h₂ with
  | nil => simpa using h₁
  | snoc _ hs ih => simpa using ih.snoc hs

theorem snoc_inv {e : ε} (h : Run step s₀ (es ++ [e]) s) :
    ∃ s₁, Run step s₀ es s₁ ∧ step s₁ e s := by
  generalize hes : es ++ [e] = es' at h
  cases h with
  | nil => simp at hes
  | snoc hr hs =>
      obtain ⟨rfl, rfl⟩ := List.append_singleton_inj.mp hes
      exact ⟨_, hr, hs⟩

/-- A run splits where its events do. -/
theorem append_inv (h : Run step s₀ (es₁ ++ es₂) s) :
    ∃ s₁, Run step s₀ es₁ s₁ ∧ Run step s₁ es₂ s := by
  induction es₂ using List.reverseRecOn generalizing s with
  | nil => exact ⟨s, by simpa using h, nil⟩
  | append_singleton es₂ e ih =>
      rw [← List.append_assoc] at h
      obtain ⟨s', hr, hs⟩ := h.snoc_inv
      obtain ⟨s₁, h₁, h₂⟩ := ih hr
      exact ⟨s₁, h₁, h₂.snoc hs⟩

/-- Around any of its events, a run is a run, a step and a run. -/
theorem split {e : ε} (h : Run step s₀ (es₁ ++ e :: es₂) s) :
    ∃ s₁ s₂, Run step s₀ es₁ s₁ ∧ step s₁ e s₂ ∧ Run step s₂ es₂ s := by
  rw [List.append_cons] at h
  obtain ⟨s₂, h₁, h₂⟩ := h.append_inv
  obtain ⟨s₁, h₁, hs⟩ := h₁.snoc_inv
  exact ⟨s₁, s₂, h₁, hs, h₂⟩

/-- **Invariant rule.**  A property that holds at the start and that every step
keeps holds in every state a run reaches. -/
theorem invariant {I : σ → Prop} (h : Run step s₀ es s) (h₀ : I s₀)
    (hstep : ∀ s e s', I s → step s e s' → I s') : I s := by
  induction h with
  | nil => exact h₀
  | snoc _ hs ih => exact hstep _ _ _ ih hs

/-- **Invariant rule**, relative to an invariant `I` that the steps may rely on. -/
theorem invariant_relative {I J : σ → Prop} (h : Run step s₀ es s) (hI : I s₀)
    (hstepI : ∀ s e s', I s → step s e s' → I s') (hJ : J s₀)
    (hstepJ : ∀ s e s', I s → J s → step s e s' → J s') : J s := by
  have hboth := h.invariant (I := fun s ↦ I s ∧ J s) ⟨hI, hJ⟩
    fun s e s' hs hstep ↦ ⟨hstepI s e s' hs.1 hstep, hstepJ s e s' hs.1 hs.2 hstep⟩
  exact hboth.2

end Run

end Lib
