import Mathlib.Init

/-!
# Code that may raise

`Code ε σ α` is code over a state `σ` that returns an `α` or raises an `ε`.  An
exception does not undo what the code did before: `exec` gives the outcome
together with the state that is left in either case.

Sequences of code are taken apart by `exec_bind`, and by its two cases
`exec_bind_of_ok` and `exec_bind_of_error`.

Code over one component of a pair of states is code over the pair, by `first` and
`second`, and code that raises one kind of exception is code that raises another, by
`mapError`.
-/

universe u v

namespace Lib

variable {ε δ σ τ α β γ : Type u}

/-- Code over a state that returns or raises. -/
abbrev Code (ε σ α : Type u) : Type u := ExceptT ε (StateM σ) α

namespace Code

/-- What the code returns or raises from a state, and the state it leaves. -/
def exec (x : Code ε σ α) (s : σ) : Except ε α × σ := x.run.run s

@[simp] theorem exec_pure (a : α) (s : σ) : exec (pure a : Code ε σ α) s = (.ok a, s) := rfl

/-- Code runs on from the state the code before it has left, unless that raised. -/
theorem exec_bind (x : Code ε σ α) (k : α → Code ε σ β) (s : σ) :
    exec (x >>= k) s =
      match exec x s with
      | (.ok a, s') => exec (k a) s'
      | (.error e, s') => (.error e, s') := by
  have hrun : exec (x >>= k) s =
      StateT.run ((ExceptT.bindCont (m := StateM σ) (fun a ↦ k a)) (exec x s).1) (exec x s).2 := rfl
  rw [hrun]
  rcases exec x s with ⟨_ | a, s'⟩ <;> rfl

@[simp] theorem exec_get_bind (k : σ → Code ε σ β) (s : σ) :
    exec (get >>= k) s = exec (k s) s := rfl

@[simp] theorem exec_set_bind (s' : σ) (k : PUnit → Code ε σ β) (s : σ) :
    exec (set s' >>= k) s = exec (k ⟨⟩) s' := rfl

/-- What follows code that returns. -/
theorem exec_bind_of_ok {x : Code ε σ α} {s s' : σ} {a : α} (h : exec x s = (.ok a, s'))
    (k : α → Code ε σ β) : exec (x >>= k) s = exec (k a) s' := by
  rw [exec_bind, h]

/-- What follows code that raises is not run. -/
theorem exec_bind_of_error {x : Code ε σ α} {s s' : σ} {e : ε} (h : exec x s = (.error e, s'))
    (k : α → Code ε σ β) : exec (x >>= k) s = (.error e, s') := by
  rw [exec_bind, h]

/-- Code that returns has returned at every step. -/
theorem exists_of_exec_bind {x : Code ε σ α} {k : α → Code ε σ β} {s s' : σ} {b : β}
    (h : exec (x >>= k) s = (.ok b, s')) :
    ∃ a mid, exec x s = (.ok a, mid) ∧ exec (k a) mid = (.ok b, s') := by
  rw [exec_bind] at h
  rcases hx : exec x s with ⟨_ | a, mid⟩
  · rw [hx] at h
    cases h
  · rw [hx] at h
    exact ⟨a, mid, rfl, h⟩

/-- A handler goes on from the state in which the exception was raised. -/
theorem exec_tryCatch (x : Code ε σ α) (handler : ε → Code ε σ α) (s : σ) :
    exec (tryCatch x handler) s =
      match exec x s with
      | (.ok a, s') => (.ok a, s')
      | (.error e, s') => exec (handler e) s' := by
  have hrun : exec (tryCatch x handler) s =
      StateT.run (match (exec x s).1 with
        | .ok a => (pure (.ok a) : StateM σ (Except ε α))
        | .error e => handler e) (exec x s).2 := rfl
  rw [hrun]
  rcases exec x s with ⟨_ | a, s'⟩ <;> rfl

/-- A loop over two lists in a row is a loop over the first, and then one over the
second. -/
theorem exec_forM_append (f : α → Code ε σ PUnit) (l₁ l₂ : List α) (s : σ) :
    exec ((l₁ ++ l₂).forM f) s = exec (do l₁.forM f; l₂.forM f) s := by
  induction l₁ generalizing s with
  | nil => rfl
  | cons a l₁ ih =>
      change exec (f a >>= fun _ ↦ (l₁ ++ l₂).forM f) s =
        exec ((f a >>= fun _ ↦ l₁.forM f) >>= fun _ ↦ l₂.forM f) s
      rw [exec_bind, exec_bind (f a >>= _), exec_bind (f a)]
      rcases exec (f a) s with ⟨_ | _, s'⟩
      · rfl
      · exact (ih s').trans (exec_bind _ _ _)

/-- The last turn of a loop. -/
theorem exec_forM_snoc (f : α → Code ε σ PUnit) (l : List α) (a : α) (s : σ) :
    exec ((l ++ [a]).forM f) s = exec (do l.forM f; f a) s := by
  rw [exec_forM_append, exec_bind, exec_bind]
  rcases exec (l.forM f) s with ⟨_ | _, s'⟩
  · rfl
  · change exec (f a >>= fun _ ↦ pure ⟨⟩) s' = exec (f a) s'
    rw [exec_bind]
    rcases exec (f a) s' with ⟨_ | _, s''⟩ <;> rfl

/-- The same code, with its exceptions turned into others. -/
def mapError (f : ε → δ) (x : Code ε σ α) : Code δ σ α :=
  ExceptT.mk fun s ↦ ((exec x s).1.mapError f, (exec x s).2)

/-- A result that is there already. -/
def ofExcept (x : Except ε α) : Code ε σ α := ExceptT.mk (pure x)

/-- Code over the first component of a state. -/
def first (x : Code ε σ α) : Code ε (σ × τ) α :=
  ExceptT.mk fun s ↦ ((exec x s.1).1, ((exec x s.1).2, s.2))

/-- Code over the second component of a state. -/
def second (x : Code ε τ α) : Code ε (σ × τ) α :=
  ExceptT.mk fun s ↦ ((exec x s.2).1, (s.1, (exec x s.2).2))

@[simp] theorem exec_ofExcept (x : Except ε α) (s : σ) : exec (ofExcept x) s = (x, s) := rfl

theorem exec_mapError (f : ε → δ) (x : Code ε σ α) (s : σ) :
    exec (mapError f x) s = ((exec x s).1.mapError f, (exec x s).2) := rfl

theorem exec_first (x : Code ε σ α) (s : σ) (t : τ) :
    exec (first x) (s, t) = ((exec x s).1, ((exec x s).2, t)) := rfl

theorem exec_second (x : Code ε τ α) (s : σ) (t : τ) :
    exec (second x) (s, t) = ((exec x t).1, (s, (exec x t).2)) := rfl

end Code

end Lib
