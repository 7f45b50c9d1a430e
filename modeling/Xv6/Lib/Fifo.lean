import Mathlib.Data.Nat.ModEq

/-!
# Bounded queues with free-running counters

A queue in a circular array of `N` cells. Two counters of `w` bits say how many elements were ever
taken out and put in; they are never reset and overflow modulo `2 ^ w`. A cell is found by reducing
a counter modulo `N`, which is consistent across the overflow because `N` divides `2 ^ w`.
-/

/-- The array and its two counters. -/
structure Fifo (α : Type*) (N w : Nat) where
  data : Fin N → α
  nread : BitVec w
  nwrite : BitVec w

namespace Fifo

variable {α : Type*} {N w : Nat} [NeZero N]

/-- The cell that a counter points at. -/
def cell (N : Nat) [NeZero N] (c : BitVec w) : Fin N := Fin.ofNat N c.toNat

def IsEmpty (f : Fifo α N w) : Prop := f.nread = f.nwrite

def IsFull (f : Fifo α N w) : Prop := f.nwrite = f.nread + BitVec.ofNat w N

instance (f : Fifo α N w) : Decidable f.IsEmpty := inferInstanceAs (Decidable (_ = _))

instance (f : Fifo α N w) : Decidable f.IsFull := inferInstanceAs (Decidable (_ = _))

/-- `data[nwrite++ % N] = a` -/
def push (f : Fifo α N w) (a : α) : Fifo α N w :=
  { f with data := Function.update f.data (cell N f.nwrite) a, nwrite := f.nwrite + 1#w }

/-- `data[nread % N]` -/
def front (f : Fifo α N w) : α := f.data (cell N f.nread)

/-- `nread++` -/
def pop (f : Fifo α N w) : Fifo α N w := { f with nread := f.nread + 1#w }

/-- `data[(nwrite - 1) % N]` -/
def back (f : Fifo α N w) : α := f.data (cell N (f.nwrite - 1#w))

/-- `nwrite--` -/
def unpush (f : Fifo α N w) : Fifo α N w := { f with nwrite := f.nwrite - 1#w }

/-- The array holds the queue `q`, oldest element first. -/
structure Holds (f : Fifo α N w) (q : List α) : Prop where
  count : f.nwrite = f.nread + BitVec.ofNat w q.length
  fits : q.length ≤ N
  cells : ∀ k (h : k < q.length), f.data (cell N (f.nread + BitVec.ofNat w k)) = q[k]

/-- The capacity is below the range of the counters and divides it. -/
class Counters (N w : Nat) : Prop where
  lt : N < 2 ^ w
  dvd : N ∣ 2 ^ w

variable [hN : Counters N w]

lemma cell_add (c : BitVec w) (k : Nat) :
    (cell N (c + BitVec.ofNat w k)).val = (c.toNat + k) % N := by
  simp only [cell, Fin.val_ofNat, BitVec.toNat_add, BitVec.toNat_ofNat, Nat.add_mod_mod]
  exact Nat.mod_mod_of_dvd _ hN.dvd

/-- Fewer than `N` steps apart, two counters point at different cells. -/
lemma cell_ne {c : BitVec w} {j k : Nat} (hjk : j < k) (hk : k < j + N) :
    cell N (c + BitVec.ofNat w j) ≠ cell N (c + BitVec.ofNat w k) := by
  intro h
  have hmod : c.toNat + j ≡ c.toNat + k [MOD N] := by
    rw [Nat.ModEq, ← cell_add, ← cell_add, h]
  have hdvd : N ∣ k - j := (Nat.modEq_iff_dvd' hjk.le).mp (Nat.ModEq.add_left_cancel' _ hmod)
  exact absurd (Nat.le_of_dvd (by omega) hdvd) (by omega)

variable {f : Fifo α N w} {q : List α} {a : α}

lemma Holds.toNat_sub (h : f.Holds q) : (f.nwrite - f.nread).toNat = q.length := by
  have hlt := hN.lt
  have hfit := h.fits
  rw [h.count, BitVec.add_comm, BitVec.add_sub_cancel, BitVec.toNat_ofNat]
  exact Nat.mod_eq_of_lt (by omega)

/-- The test `nread == nwrite` finds exactly the empty queue. -/
lemma Holds.isEmpty_iff (h : f.Holds q) : f.IsEmpty ↔ q = [] := by
  constructor
  · intro he
    have hsub := h.toNat_sub
    rw [he, BitVec.sub_self] at hsub
    exact List.length_eq_zero_iff.mp hsub.symm
  · rintro rfl
    simpa [IsEmpty] using h.count.symm

/-- The test `nwrite == nread + N` finds exactly the queue of `N` elements. -/
lemma Holds.isFull_iff (h : f.Holds q) : f.IsFull ↔ q.length = N := by
  have hlt := hN.lt
  constructor
  · intro hf
    have hsub := h.toNat_sub
    rw [hf, BitVec.add_comm, BitVec.add_sub_cancel, BitVec.toNat_ofNat,
      Nat.mod_eq_of_lt hlt] at hsub
    exact hsub.symm
  · intro hq
    rw [IsFull, h.count, hq]

/-- No queue is both full and empty. -/
lemma not_isEmpty_of_isFull (hf : f.IsFull) : ¬ f.IsEmpty := by
  intro he
  have hlt := hN.lt
  have h0 : f.nwrite - f.nread = BitVec.ofNat w N := by
    rw [hf, BitVec.add_comm, BitVec.add_sub_cancel]
  rw [he, BitVec.sub_self] at h0
  have hz := congrArg BitVec.toNat h0
  rw [BitVec.toNat_ofNat, BitVec.toNat_ofNat, Nat.mod_eq_of_lt hlt, Nat.zero_mod] at hz
  exact NeZero.ne N hz.symm

omit hN in
lemma holds_nil (hf : f.nread = f.nwrite) : f.Holds [] :=
  ⟨by simp [hf], Nat.zero_le _, by simp⟩

/-- A push into a queue that is not full appends the element. -/
lemma Holds.push (h : f.Holds q) (hf : ¬ f.IsFull) : (f.push a).Holds (q ++ [a]) := by
  have hlen : q.length < N := Nat.lt_of_le_of_ne h.fits fun he => hf (h.isFull_iff.mpr he)
  refine ⟨?_, by simpa using Nat.succ_le_of_lt hlen, fun k hk => ?_⟩
  · simp only [Fifo.push, h.count, List.length_append, List.length_singleton]
    rw [BitVec.add_assoc, BitVec.ofNat_add]
  · simp only [Fifo.push]
    by_cases hkq : k < q.length
    · have hne : cell N (f.nread + BitVec.ofNat w k) ≠ cell N f.nwrite := by
        rw [h.count]
        exact cell_ne hkq (by omega)
      rw [Function.update_of_ne hne, List.getElem_append_left hkq]
      exact h.cells k hkq
    · obtain rfl : k = q.length := by
        simp only [List.length_append, List.length_singleton] at hk
        omega
      rw [← h.count, Function.update_self]
      simp

omit hN in
/-- The front of a queue is its oldest element, and a pop takes it out. -/
lemma Holds.pop (h : f.Holds (a :: q)) : f.front = a ∧ f.pop.Holds q := by
  refine ⟨?_, ?_, ?_, fun k hk => ?_⟩
  · have hcell := h.cells 0 (by simp)
    simpa only [front, BitVec.add_zero, List.getElem_cons_zero] using hcell
  · simp only [Fifo.pop, h.count, List.length_cons]
    rw [BitVec.add_assoc, Nat.add_comm, BitVec.ofNat_add]
  · have := h.fits
    simp only [List.length_cons] at this
    omega
  · have hcell := h.cells (k + 1) (by simpa using hk)
    simp only [List.getElem_cons_succ] at hcell
    rw [← hcell]
    simp only [Fifo.pop]
    rw [BitVec.add_assoc, Nat.add_comm k 1, BitVec.ofNat_add]

omit hN in
/-- The back of a queue is its newest element, and `unpush` takes it out again. -/
lemma Holds.unpush (h : f.Holds (q ++ [a])) : f.back = a ∧ f.unpush.Holds q := by
  have hback : f.nwrite - 1#w = f.nread + BitVec.ofNat w q.length := by
    rw [h.count, List.length_append, List.length_singleton, BitVec.ofNat_add, ← BitVec.add_assoc,
      BitVec.add_sub_cancel]
  refine ⟨?_, hback, ?_, fun k hk => ?_⟩
  · have hcell := h.cells q.length (by simp)
    rw [back, hback, hcell, List.getElem_concat_length rfl]
  · have := h.fits
    simp only [List.length_append, List.length_singleton] at this
    omega
  · have hcell := h.cells k (by simp; omega)
    rw [List.getElem_append_left hk] at hcell
    exact hcell

lemma Holds.exists_front (h : f.Holds q) (he : ¬ f.IsEmpty) : ∃ q', q = f.front :: q' := by
  cases q with
  | nil => exact absurd (h.isEmpty_iff.mpr rfl) he
  | cons b q => exact ⟨q, by rw [h.pop.1]⟩

end Fifo
