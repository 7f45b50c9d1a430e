import Mathlib.Data.List.Basic

/-!
# Overwriting a part of a list

`splice l off src` is the list `l` with `src` written over it from the position `off` on; the list
grows when `src` reaches beyond its end.
-/

namespace Splice

variable {α : Type*}

/-- Write `src` over `l` from position `off` on. -/
def splice (l : List α) (off : Nat) (src : List α) : List α :=
  l.take off ++ src ++ l.drop (off + src.length)

variable {l src src' : List α} {off : Nat}

lemma splice_nil (l : List α) (off : Nat) : splice l off [] = l := by
  simp [splice]

lemma length_splice (h : off ≤ l.length) :
    (splice l off src).length = max l.length (off + src.length) := by
  simp only [splice, List.length_append, List.length_take, List.length_drop]
  omega

/-- Inside the part written, the new elements; outside, the old ones. -/
lemma getElem?_splice (h : off ≤ l.length) (k : Nat) :
    (splice l off src)[k]? =
      if off ≤ k ∧ k < off + src.length then src[k - off]? else l[k]? := by
  have htake : (l.take off).length = off := by
    rw [List.length_take]
    omega
  rw [splice, List.append_assoc]
  by_cases hlow : k < off
  · rw [if_neg (by omega), List.getElem?_append_left (by omega), List.getElem?_take_of_lt hlow]
  · rw [List.getElem?_append_right (by omega), htake]
    by_cases hin : k < off + src.length
    · rw [if_pos ⟨by omega, hin⟩, List.getElem?_append_left (by omega)]
    · rw [if_neg (by omega), List.getElem?_append_right (by omega), List.getElem?_drop]
      congr 1
      omega

/-- Writing in two pieces, one behind the other, is writing both at once. -/
lemma splice_splice (h : off ≤ l.length) :
    splice (splice l off src) (off + src.length) src' = splice l off (src ++ src') := by
  have hle : off + src.length ≤ (splice l off src).length := by
    rw [length_splice h]
    omega
  apply List.ext_getElem?
  intro k
  rw [getElem?_splice hle, getElem?_splice h, getElem?_splice h, List.length_append]
  by_cases hsrc' : off + src.length ≤ k ∧ k < off + src.length + src'.length
  · rw [if_pos hsrc', if_pos (by omega), List.getElem?_append_right (by omega)]
    congr 1
    omega
  · rw [if_neg hsrc']
    by_cases hsrc : off ≤ k ∧ k < off + src.length
    · rw [if_pos hsrc, if_pos (by omega), List.getElem?_append_left (by omega)]
    · rw [if_neg hsrc, if_neg (by omega)]

end Splice
