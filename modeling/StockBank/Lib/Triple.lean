import StockBank.Lib.Code

/-!
# Pre- and postconditions of code that may raise

`Triple P x Q E` says what holds when `x` is run from a state with `P`: of a result it
returns and the state then, `Q`; and of an exception it raises and the state then, `E`.

A sequence of code is proved one part at a time, by `Triple.bind`: what the first part
leaves is what the next one finds, and an exception of either is one of the whole.
-/

universe u

namespace Lib.Code

variable {ε σ α β : Type u}

/-- From a state with `P`, the code returns with `Q` or raises with `E`. -/
def Triple (P : σ → Prop) (x : Code ε σ α) (Q : α → σ → Prop) (E : ε → σ → Prop) : Prop :=
  ∀ s, P s → match exec x s with
    | (.ok a, s') => Q a s'
    | (.error e, s') => E e s'

namespace Triple

variable {P P' : σ → Prop} {x : Code ε σ α} {Q Q' : α → σ → Prop} {E : ε → σ → Prop}

theorem pure {a : α} (h : ∀ s, P s → Q a s) : Triple P (Pure.pure a : Code ε σ α) Q E := h

theorem throw {e : ε} (h : ∀ s, P s → E e s) :
    Triple P (MonadExcept.throw e : Code ε σ α) Q E := h

/-- **Sequence rule.** -/
theorem bind {k : α → Code ε σ β} {R : β → σ → Prop} (h : Triple P x Q E)
    (hk : ∀ a, Triple (Q a) (k a) R E) : Triple P (x >>= k) R E := by
  intro s hs
  have hx := h s hs
  rw [exec_bind]
  rcases hexec : exec x s with ⟨e | a, s'⟩ <;> rw [hexec] at hx
  · exact hx
  · exact hk a s' hx

/-- **Sequence rule**, for a first part whose result has a property that does not depend on
the state. -/
theorem bind_of {k : α → Code ε σ β} {R : β → σ → Prop} {ψ : α → Prop}
    (h : Triple P x (fun a s ↦ ψ a ∧ Q a s) E) (hk : ∀ a, ψ a → Triple (Q a) (k a) R E) :
    Triple P (x >>= k) R E :=
  h.bind fun a s hs ↦ hk a hs.1 s hs.2

/-- **Handler rule.** -/
theorem tryCatch {handler : ε → Code ε σ α} {E' : ε → σ → Prop} (h : Triple P x Q E')
    (hhandler : ∀ e, Triple (E' e) (handler e) Q E) :
    Triple P (MonadExcept.tryCatch x handler) Q E := by
  intro s hs
  have hx := h s hs
  rw [exec_tryCatch]
  rcases hexec : exec x s with ⟨e | a, s'⟩ <;> rw [hexec] at hx
  · exact hhandler e s' hx
  · exact hx

/-- **Consequence rule**, for what is found and for what is returned. -/
theorem conseq (h : Triple P x Q E) (hP : ∀ s, P' s → P s) (hQ : ∀ a s, Q a s → Q' a s) :
    Triple P' x Q' E := by
  intro s hs
  have hx := h s (hP s hs)
  rcases hexec : exec x s with ⟨e | a, s'⟩ <;> rw [hexec] at hx
  · exact hx
  · exact hQ a s' hx

/-- **Branch rule**, for a part that is run or not. -/
theorem optional {c : Prop} [Decidable c] {x : Code ε σ PUnit} {k : PUnit → Code ε σ β}
    {R : β → σ → Prop} (h : c → Triple P x (fun _ ↦ P') E) (hnot : ¬ c → ∀ s, P s → P' s)
    (hk : ∀ a, Triple P' (k a) R E) : Triple P (if c then x >>= k else k ⟨⟩) R E := by
  split
  · rename_i hc
    exact (h hc).bind hk
  · rename_i hc
    exact (hk ⟨⟩).conseq (hnot hc) fun _ _ ↦ id

/-- Code that goes on with the state as it is. -/
theorem get_bind {k : σ → Code ε σ β} {R : β → σ → Prop} (h : ∀ s, P s → Triple (· = s) (k s) R E) :
    Triple P (get >>= k) R E := by
  intro s hs
  rw [exec_get_bind]
  exact h s hs s rfl

/-- A fact that what is found has. -/
theorem of_fact {φ : Prop} (hφ : ∀ s, P s → φ) (h : φ → Triple P x Q E) : Triple P x Q E :=
  fun s hs ↦ h (hφ s hs) s hs

/-- What holds after the code has run, however it ends. -/
theorem elim {R : σ → Prop} (h : Triple P x Q E) (hQ : ∀ a s, Q a s → R s)
    (hE : ∀ e s, E e s → R s) {s : σ} (hs : P s) : R (exec x s).2 := by
  have hx := h s hs
  rcases hexec : exec x s with ⟨e | a, s'⟩ <;> rw [hexec] at hx
  · exact hE e s' hx
  · exact hQ a s' hx

end Triple

end Lib.Code
