import Mathlib.Logic.Function.Basic

/-!
# Threads that share a store

The state of a concurrent program whose threads `i : ι` share a store: the store,
and the program counter of each thread.  One step of one thread is a `move`: it
leaves a new store and a new program counter of its own, and no other thread is
moved by it.
-/

universe u v w x

namespace Lib

variable {σ : Type u} {ι : Type v} {PC : Type w}

/-- A store, and where each thread is. -/
structure Threads (σ : Type u) (ι : Type v) (PC : Type w) where
  store : σ
  pc : ι → PC

namespace Threads

variable [DecidableEq ι] (s : Threads σ ι PC) (store : σ) (i : ι) (pc : PC)

/-- Thread `i` moves to `pc`, leaving `store`. -/
def move : Threads σ ι PC := ⟨store, Function.update s.pc i pc⟩

@[simp] theorem move_store : (s.move store i pc).store = store := rfl

@[simp] theorem move_pc_self : (s.move store i pc).pc i = pc := by simp [move]

@[simp] theorem move_pc_of_ne {i j : ι} (h : j ≠ i) : (s.move store i pc).pc j = s.pc j := by
  simp [move, h]

variable {s store i pc}

/-- What holds of the place a thread moves to, and of the places of the others,
holds of every place after the move. -/
theorem forall_move {P : ι → PC → Prop} (hpc : P i pc) (hs : ∀ j, P j (s.pc j)) (j : ι) :
    P j ((s.move store i pc).pc j) := by
  by_cases hj : j = i
  · subst hj
    rwa [move_pc_self]
  · rw [move_pc_of_ne _ _ _ hj]
    exact hs j

/-- A family computed from the program counters changes at the thread that moved. -/
theorem family_move {α : Type x} (f : ι → PC → α) :
    (fun j ↦ f j ((s.move store i pc).pc j)) =
      Function.update (fun j ↦ f j (s.pc j)) i (f i pc) := by
  funext j
  by_cases hj : j = i
  · subst hj; simp
  · simp [hj]

/-- A family computed from the program counters does not change when the thread that
moved keeps its value. -/
theorem family_move_eq {α : Type x} (f : ι → PC → α) (h : f i pc = f i (s.pc i)) :
    (fun j ↦ f j ((s.move store i pc).pc j)) = fun j ↦ f j (s.pc j) := by
  rw [family_move, h, Function.update_eq_self]

/-- A thread that has left `idle` stays out of it when no thread moves there. -/
theorem move_ne_of_ne {idle : PC} {j : ι} (hpc : pc ≠ idle) (hj : s.pc j ≠ idle) :
    (s.move store i pc).pc j ≠ idle := by
  by_cases hji : j = i
  · subst hji
    rwa [move_pc_self]
  · rwa [move_pc_of_ne _ _ _ hji]

/-- A thread that leaves `idle` is not the cause that another thread leaves it. -/
theorem ne_of_move_ne {idle : PC} {j : ι} (hi : s.pc i ≠ idle)
    (hj : (s.move store i pc).pc j ≠ idle) : s.pc j ≠ idle := by
  by_cases hji : j = i
  · subst hji; exact hi
  · rwa [move_pc_of_ne _ _ _ hji] at hj

end Threads

end Lib
