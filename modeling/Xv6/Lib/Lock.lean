import Mathlib.Logic.Function.Basic

/-!
# Locks and critical sections

Threads are the entries of a table `t : ι → τ` of thread states. `inside` says which thread states
lie in the critical section of a lock whose holder is `o`. The lock works when the holder is exactly
the thread inside: at most one thread is ever there.
-/

namespace Lock

variable {ι τ : Type*}

/-- The holder of the lock is the one thread inside its critical section. -/
def HeldBy (inside : τ → Bool) (t : ι → τ) (o : Option ι) : Prop :=
  ∀ i, inside (t i) = true ↔ o = some i

variable {inside : τ → Bool} {t : ι → τ} {o : Option ι} {i j : ι}

lemma HeldBy.holder (h : HeldBy inside t o) (hi : inside (t i) = true) : o = some i :=
  (h i).mp hi

lemma HeldBy.unique (h : HeldBy inside t o) (hi : inside (t i) = true)
    (hj : inside (t j) = true) : i = j := by
  have hij := (h.holder hi).symm.trans (h.holder hj)
  simpa using hij

lemma HeldBy.outside (h : HeldBy inside t none) (i : ι) : inside (t i) = false := by
  by_contra hi
  rw [Bool.not_eq_false] at hi
  simpa using h.holder hi

/-- All threads move without entering or leaving the critical section. -/
lemma HeldBy.map (h : HeldBy inside t o) {t' : ι → τ} (ht : ∀ i, inside (t' i) = inside (t i)) :
    HeldBy inside t' o := by
  intro j
  rw [ht j]
  exact h j

variable [DecidableEq ι] {x : τ}

/-- A thread moves without entering or leaving the critical section. -/
lemma HeldBy.keep (h : HeldBy inside t o) (hx : inside x = inside (t i)) :
    HeldBy inside (Function.update t i x) o := by
  intro j
  by_cases hj : j = i
  · subst hj
    rw [Function.update_self, hx]
    exact h j
  · rw [Function.update_of_ne hj]
    exact h j

lemma HeldBy.acquire (h : HeldBy inside t none) (hx : inside x = true) :
    HeldBy inside (Function.update t i x) (some i) := by
  intro j
  by_cases hj : j = i
  · subst hj
    simp [hx]
  · rw [Function.update_of_ne hj, h.outside j]
    simp [Ne.symm hj]

lemma HeldBy.release (h : HeldBy inside t o) (hi : inside (t i) = true) (hx : inside x = false) :
    HeldBy inside (Function.update t i x) none := by
  intro j
  by_cases hj : j = i
  · subst hj
    simp [hx]
  · rw [Function.update_of_ne hj, h j, h.holder hi]
    simp [Ne.symm hj]

end Lock
