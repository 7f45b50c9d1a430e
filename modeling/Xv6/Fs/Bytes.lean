import Mathlib.Tactic.IntervalCases
import Xv6.Fs.Growth

/-!
# Bytes of blocks and files

The blocks of the disk are sequences of words; `memmove` copies bytes. A byte of a file is a byte of
the block that `bmap` finds for it.
-/

namespace Xv6.Fs

open Disk Fallible

/-! ### Blocks -/

/-- Replacing one of the four bytes of a word. -/
lemma byte_replace (w v : Nat) {x y : Nat} (hx : x < 4) (hy : y < 4) (hv : v < 256) :
    (w / (256 ^ x * 256) * (256 ^ x * 256) + v * 256 ^ x + w % 256 ^ x) / 256 ^ y % 256 =
      if y = x then v else w / 256 ^ y % 256 := by
  interval_cases x <;> interval_cases y <;> simp <;> omega

lemma byteAt_setByte (b : Block) {i : Nat} (j : Nat) (v : UInt8) (hi : i < BSIZE) :
    byteAt (setByte b i v) j = if j = i then v else byteAt b j := by
  have hword : i / 4 < BWORDS := by
    simp only [BSIZE, BWORDS] at *
    omega
  unfold byteAt setByte
  dsimp only
  by_cases hj : j / 4 = i / 4
  · have hiff : j = i ↔ j % 4 = i % 4 := by omega
    rw [hj, Block.get_set_self _ _ hword]
    simp only [hiff]
    apply UInt8.toNat_inj.mp
    rw [apply_ite UInt8.toNat, UInt8.toNat_ofNat', UInt8.toNat_ofNat']
    exact byte_replace _ _ (Nat.mod_lt _ (by decide)) (Nat.mod_lt _ (by decide)) v.toNat_lt
  · rw [Block.get_set_ne _ _ hj, if_neg (by rintro rfl; exact hj rfl)]

lemma putBytes_concat (b : Block) (o : Nat) (src : List UInt8) (v : UInt8) :
    putBytes b o (src ++ [v]) = setByte (putBytes b o src) (o + src.length) v := by
  simp [putBytes, List.range_succ, List.zip_append, List.foldl_append]

lemma byteAt_putBytes (b : Block) {o : Nat} (src : List UInt8) (k : Nat)
    (h : o + src.length ≤ BSIZE) :
    byteAt (putBytes b o src) k =
      if hk : o ≤ k ∧ k < o + src.length then src[k - o] else byteAt b k := by
  induction src using List.reverseRecOn with
  | nil => simp [putBytes]
  | append_singleton src v ih =>
    rw [List.length_append, List.length_singleton] at h
    rw [putBytes_concat, byteAt_setByte _ _ _ (by omega), ih (by omega)]
    simp only [List.length_append, List.length_singleton]
    grind

end Xv6.Fs
