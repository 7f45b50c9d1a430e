import Mathlib.Data.List.Nodup

/-!
# Ordered writes to a block device

A device is a map from block numbers to contents. A program issues writes one after the other, each
of them atomic, and a crash keeps a prefix of those issued.
-/

namespace BlockWrites

variable {β : Type*}

/-- The device after the listed writes, the first one applied first. -/
def perform (d : Nat → β) (ws : List (Nat × β)) : Nat → β :=
  ws.foldl (fun d w => Function.update d w.1 w.2) d

@[simp] lemma perform_nil (d : Nat → β) : perform d [] = d := rfl

@[simp] lemma perform_cons (d : Nat → β) (w : Nat × β) (ws : List (Nat × β)) :
    perform d (w :: ws) = perform (Function.update d w.1 w.2) ws := rfl

lemma perform_append (d : Nat → β) (ws vs : List (Nat × β)) :
    perform d (ws ++ vs) = perform (perform d ws) vs := by
  simp [perform, List.foldl_append]

/-- Blocks that are not written keep their contents. -/
lemma perform_of_forall_ne {d : Nat → β} {ws : List (Nat × β)} {b : Nat}
    (h : ∀ w ∈ ws, w.1 ≠ b) : perform d ws b = d b := by
  induction ws generalizing d with
  | nil => rfl
  | cons w ws ih =>
    rw [perform_cons, ih fun v hv => h v (List.mem_cons_of_mem w hv)]
    exact Function.update_of_ne (h w List.mem_cons_self).symm _ _

/-- A block written once holds what was written. -/
lemma perform_of_mem {d : Nat → β} {ws : List (Nat × β)} (hnodup : (ws.map Prod.fst).Nodup)
    {b : Nat} {v : β} (h : (b, v) ∈ ws) : perform d ws b = v := by
  induction ws generalizing d with
  | nil => simp at h
  | cons w ws ih =>
    rw [List.map_cons, List.nodup_cons] at hnodup
    rcases List.mem_cons.mp h with rfl | hmem
    · have hne : ∀ u ∈ ws, u.1 ≠ b := fun u hu hub =>
        hnodup.1 (List.mem_map.mpr ⟨u, hu, hub⟩)
      rw [perform_cons, perform_of_forall_ne hne, Function.update_self]
    · exact ih hnodup.2 hmem

/-- A prefix of the writes `ws ++ v :: vs` either stops inside `ws` or has performed all of `ws`
and the write `v`. -/
lemma perform_take_append_cons (d : Nat → β) (ws vs : List (Nat × β)) (v : Nat × β) (k : Nat) :
    (k ≤ ws.length ∧ perform d ((ws ++ v :: vs).take k) = perform d (ws.take k)) ∨
    (ws.length < k ∧ perform d ((ws ++ v :: vs).take k) =
      perform (Function.update (perform d ws) v.1 v.2) (vs.take (k - ws.length - 1))) := by
  rcases Nat.lt_or_ge ws.length k with hk | hk
  · right
    refine ⟨hk, ?_⟩
    have hsplit : (ws ++ v :: vs).take k = ws ++ v :: vs.take (k - ws.length - 1) := by
      rw [List.take_append, List.take_of_length_le (Nat.le_of_lt hk)]
      obtain ⟨m, hm⟩ : ∃ m, k - ws.length = m + 1 := ⟨k - ws.length - 1, by omega⟩
      rw [hm, List.take_succ_cons, Nat.add_sub_cancel]
    rw [hsplit, perform_append, perform_cons]
  · left
    exact ⟨hk, by rw [List.take_append_of_le_length hk]⟩

end BlockWrites
