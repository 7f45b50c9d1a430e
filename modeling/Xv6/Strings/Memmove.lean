import Mathlib.Algebra.GroupWithZero.Nat
import Mathlib.Logic.Function.Basic

/-!
# memmove and memset

The two functions `memmove`, of the kernel (`string.c`) and of the user library (`ulib.c`), and the
kernel's `memset`.
Addresses are 32 bits wide; a range of addresses is described by the distance from its start.
-/

namespace Xv6.Strings

/-- The bytes at all addresses. -/
abbrev Bytes := UInt32 → UInt8

/-- `while(n-- > 0) *d++ = *s++;` -/
def copyUp : Nat → Bytes → (d s : UInt32) → Bytes
  | 0, m, _, _ => m
  | n + 1, m, d, s => copyUp n (Function.update m d (m s)) (d + 1) (s + 1)

/-- `while(n-- > 0) *--d = *--s;` -/
def copyDown : Nat → Bytes → (d s : UInt32) → Bytes
  | 0, m, _, _ => m
  | n + 1, m, d, s => copyDown n (Function.update m (d - 1) (m (s - 1))) (d - 1) (s - 1)

/-- `memmove` of the kernel. -/
def memmove (m : Bytes) (dst src n : UInt32) : Bytes :=
  if src < dst ∧ src + n > dst then copyDown n.toNat m (dst + n) (src + n)
  else copyUp n.toNat m dst src

/-- `memmove` of the user library, for an `int n` that is not negative. -/
def ulibMemmove (m : Bytes) (dst src n : UInt32) : Bytes := copyUp n.toNat m dst src

variable {m : Bytes} {a d s i j dst src n : UInt32} {k : Nat}

/-! ### Upwards -/

/-- What is not within `k` bytes from `d` on stays. -/
lemma copyUp_outside (h : k ≤ (a - d).toNat) : copyUp k m d s a = m a := by
  induction k generalizing m d s with
  | zero => rfl
  | succ k ih =>
    have hne : a ≠ d := by
      rintro rfl
      rw [UInt32.sub_self] at h
      exact absurd h (Nat.not_succ_le_zero k)
    have hnext : k ≤ (a - (d + 1)).toNat := by
      have := a.toNat_lt
      have := d.toNat_lt
      simp only [UInt32.toNat_sub, UInt32.toNat_add, UInt32.toNat_one] at h ⊢
      omega
    rw [copyUp, ih hnext, Function.update_of_ne hne]

/-- The first `k` bytes first. -/
lemma copyUp_add (k l : Nat) :
    copyUp (k + l) m d s = copyUp l (copyUp k m d s) (d + .ofNat k) (s + .ofNat k) := by
  induction k generalizing m d s with
  | zero => simp [copyUp]
  | succ k ih =>
    have hk : UInt32.ofNat (k + 1) = 1 + .ofNat k := by rw [Nat.add_comm, UInt32.ofNat_add]; rfl
    rw [Nat.succ_add_eq_add_succ, Nat.add_succ, copyUp, ih, copyUp, hk, UInt32.add_assoc,
      UInt32.add_assoc]

/-- The byte at distance `i` is the one that the first `i` steps leave in the source. -/
lemma copyUp_at (hk : k ≤ 2 ^ 32) (hi : i.toNat < k) :
    copyUp k m d s (d + i) = copyUp i.toNat m d s (s + i) := by
  obtain ⟨l, rfl⟩ := Nat.exists_eq_add_of_lt hi
  have hlast : l ≤ (d + i - (d + i + 1)).toNat := by
    have := (d + i).toNat_lt
    simp only [UInt32.toNat_sub, UInt32.toNat_add, UInt32.toNat_one] at this ⊢
    omega
  rw [Nat.add_assoc, copyUp_add, UInt32.ofNat_toNat, copyUp, copyUp_outside hlast,
    Function.update_self]

/-- It stays during the rest. -/
lemma copyUp_kept (hk : k ≤ 2 ^ 32) (hi : i.toNat < k) (hj : j < i) :
    copyUp k m d s (d + j) = copyUp i.toNat m d s (d + j) := by
  obtain ⟨l, rfl⟩ := Nat.exists_eq_add_of_lt hi
  rw [Nat.add_assoc, copyUp_add, UInt32.ofNat_toNat]
  apply copyUp_outside
  have hsub : d + j - (d + i) = j - i := by grind
  have := i.toNat_lt
  rw [hsub, UInt32.toNat_sub]
  rw [UInt32.lt_iff_toNat_lt] at hj
  omega

/-- A byte that is read before the copy comes to it is the one the source held. -/
lemma copyUp_inside (hk : k ≤ 2 ^ 32) (h : d = s ∨ i.toNat < (d - s).toNat) (hi : i.toNat < k) :
    copyUp k m d s (d + i) = m (s + i) := by
  rw [copyUp_at hk hi]
  apply copyUp_outside
  have := i.toNat_lt
  rcases h with rfl | h
  · have hsub : d + i - d = i := by grind
    exact Nat.le_of_eq (by rw [hsub])
  · have hsub : s + i - d = i - (d - s) := by grind
    have := (d - s).toNat_lt
    rw [hsub, UInt32.toNat_sub]
    omega

/-- A destination behind the source repeats what stands before it. -/
lemma copyUp_repeats (hk : k ≤ 2 ^ 32) (hlt : s.toNat < d.toNat)
    (hi : d.toNat - s.toNat + i.toNat < k) :
    copyUp k m d s (d + (d - s + i)) = copyUp k m d s (d + i) := by
  have hdist : (d - s + i).toNat = d.toNat - s.toNat + i.toNat := by
    have := d.toNat_lt
    rw [UInt32.toNat_add, UInt32.toNat_sub]
    omega
  have hsrc : s + (d - s + i) = d + i := by grind
  rw [copyUp_at hk (by rwa [hdist]), hsrc]
  refine (copyUp_kept hk (by rwa [hdist]) ?_).symm
  rw [UInt32.lt_iff_toNat_lt, hdist]
  omega

/-! ### Downwards -/

/-- What is not within the `k` bytes before `d` stays. -/
lemma copyDown_outside (h : k ≤ (d - 1 - a).toNat) : copyDown k m d s a = m a := by
  induction k generalizing m d s with
  | zero => rfl
  | succ k ih =>
    have hne : a ≠ d - 1 := by
      rintro rfl
      rw [UInt32.sub_self] at h
      exact absurd h (Nat.not_succ_le_zero k)
    have hnext : k ≤ (d - 1 - 1 - a).toNat := by
      have := a.toNat_lt
      have := d.toNat_lt
      simp only [UInt32.toNat_sub, UInt32.toNat_one] at h ⊢
      omega
    rw [copyDown, ih hnext, Function.update_of_ne hne]

/-- Every byte is read before it is overwritten, unless the destination ends within the source
before its last byte. -/
lemma copyDown_inside (hk : k ≤ 2 ^ 32) (h : d = s ∨ k ≤ (s - d).toNat)
    (ha : (d - 1 - a).toNat < k) : copyDown k m d s a = m (s - (d - a)) := by
  induction k generalizing m d s with
  | zero => exact absurd ha (Nat.not_lt_zero _)
  | succ k ih =>
    rw [copyDown]
    by_cases had : a = d - 1
    · subst had
      have hlast : k ≤ (d - 1 - 1 - (d - 1)).toNat := by
        have := d.toNat_lt
        simp only [UInt32.toNat_sub, UInt32.toNat_one]
        omega
      have hone : d - (d - 1) = 1 := by grind
      rw [copyDown_outside hlast, Function.update_self, hone]
    · have hdist : s - 1 - (d - 1) = s - d := by grind
      have hnext : (d - 1 - 1 - a).toNat < k := by
        have hne : a.toNat ≠ (d - 1).toNat := fun e => had (UInt32.toNat_inj.mp e)
        have := a.toNat_lt
        have := d.toNat_lt
        simp only [UInt32.toNat_sub, UInt32.toNat_one] at ha hne ⊢
        omega
      have hread : s - (d - a) ≠ d - 1 := by
        intro e
        have hds : s - d = d - 1 - a := by grind
        rcases h with rfl | h
        · exact had (by grind)
        · rw [hds] at h
          omega
      have hfrom : s - 1 - (d - 1 - a) = s - (d - a) := by grind
      rw [ih (by omega) (h.imp (congrArg (· - 1)) fun h => by rw [hdist]; omega) hnext, hfrom,
        Function.update_of_ne hread]

/-! ### The kernel's function -/

lemma memmove_forward (h : ¬(src < dst ∧ src + n > dst)) :
    memmove m dst src n = ulibMemmove m dst src n :=
  if_neg h

/-- Where the kernel copies upwards, no byte is overwritten before it is read. -/
lemma forward_apart (hd : dst.toNat + n.toNat ≤ 2 ^ 32) (hs : src.toNat + n.toNat ≤ 2 ^ 32)
    (h : ¬(src < dst ∧ src + n > dst)) : dst = src ∨ n.toNat ≤ (dst - src).toNat := by
  rw [← UInt32.toNat_inj]
  simp only [gt_iff_lt, UInt32.lt_iff_toNat_lt, UInt32.toNat_add, UInt32.toNat_sub] at h ⊢
  have := dst.toNat_lt
  have := n.toNat_lt
  omega

/-- Where the kernel copies downwards, neither. -/
lemma backward_apart (hd : dst.toNat + n.toNat ≤ 2 ^ 32) (h : src < dst) :
    n.toNat ≤ (src + n - (dst + n)).toNat := by
  have hdist : src + n - (dst + n) = src - dst := by grind
  rw [hdist]
  simp only [UInt32.lt_iff_toNat_lt, UInt32.toNat_sub] at h ⊢
  omega

/-- An address lies within a range, or the distance from its start is too large. -/
lemma range_cases (dst n a : UInt32) :
    (∃ i < n, a = dst + i) ∨
      (a.toNat < dst.toNat ∨ dst.toNat + n.toNat ≤ a.toNat) ∧ n.toNat ≤ (a - dst).toNat := by
  have := a.toNat_lt
  have := dst.toNat_lt
  by_cases hin : (a - dst).toNat < n.toNat
  · exact .inl ⟨a - dst, hin, by grind⟩
  · rw [UInt32.toNat_sub] at hin ⊢
    right
    omega

lemma memmove_inside (hd : dst.toNat + n.toNat ≤ 2 ^ 32) (hs : src.toNat + n.toNat ≤ 2 ^ 32)
    (hi : i < n) : memmove m dst src n (dst + i) = m (src + i) := by
  have hn := (Nat.le_of_lt n.toNat_lt)
  by_cases h : src < dst ∧ src + n > dst
  · have hin : (dst + n - 1 - (dst + i)).toNat < n.toNat := by
      have hsub : dst + n - 1 - (dst + i) = n - 1 - i := by grind
      rw [hsub]
      simp only [UInt32.lt_iff_toNat_lt, UInt32.toNat_sub, UInt32.toNat_one] at hi ⊢
      omega
    have hfrom : src + n - (dst + n - (dst + i)) = src + i := by grind
    rw [memmove, if_pos h, copyDown_inside hn (.inr (backward_apart hd h.1)) hin, hfrom]
  · rw [memmove_forward h]
    exact copyUp_inside hn ((forward_apart hd hs h).imp_right (Nat.lt_of_lt_of_le hi)) hi

lemma memmove_outside (h : n.toNat ≤ (a - dst).toNat) : memmove m dst src n a = m a := by
  rw [memmove]
  split
  · apply copyDown_outside
    have := (a - dst).toNat_lt
    have hsub : dst + n - 1 - a = n - 1 - (a - dst) := by grind
    rw [hsub]
    generalize a - dst = b at *
    simp only [UInt32.toNat_sub, UInt32.toNat_one]
    omega
  · exact copyUp_outside h

/-- The range at `dst` gets the bytes that the range at `src` held before, also where the two
overlap, and nothing else changes. -/
theorem memmove_moves (m : Bytes) (dst src n : UInt32) (hd : dst.toNat + n.toNat ≤ 2 ^ 32)
    (hs : src.toNat + n.toNat ≤ 2 ^ 32) :
    (∀ i < n, memmove m dst src n (dst + i) = m (src + i)) ∧
      ∀ a, a.toNat < dst.toNat ∨ dst.toNat + n.toNat ≤ a.toNat →
        memmove m dst src n a = m a := by
  refine ⟨fun i hi => memmove_inside hd hs hi, fun a ha => ?_⟩
  rcases range_cases dst n a with ⟨i, hi, rfl⟩ | ⟨-, h⟩
  · have := dst.toNat_lt
    simp only [UInt32.lt_iff_toNat_lt, UInt32.toNat_add] at hi ha
    omega
  · exact memmove_outside h

theorem memmove_moves_overlapping :
    memmove (fun a => a.toUInt8) 3 1 4 (3 + 2) = 3 ∧ memmove (fun a => a.toUInt8) 3 1 4 7 = 7 :=
  have h := memmove_moves (fun a => a.toUInt8) 3 1 4 (by decide) (by decide)
  ⟨h.1 2 (by decide), h.2 7 (by decide)⟩

/-! ### The user library's function -/

/-- The user library's function moves its bytes too, if the bytes of the source repeat at the
distance of a destination behind it. -/
lemma ulibMemmove_inside (hlt : src.toNat < dst.toNat)
    (h : ∀ i : UInt32, dst.toNat - src.toNat + i.toNat < n.toNat → m (dst + i) = m (src + i))
    (hi : i < n) : ulibMemmove m dst src n (dst + i) = m (src + i) := by
  induction hk : i.toNat using Nat.strongRecOn generalizing i with
  | _ k ih =>
    subst hk
    have hdist : (dst - src).toNat = dst.toNat - src.toNat := by
      have := dst.toNat_lt
      rw [UInt32.toNat_sub]
      omega
    by_cases hnear : i.toNat < (dst - src).toNat
    · exact copyUp_inside (Nat.le_of_lt n.toNat_lt) (.inr hnear) hi
    · obtain ⟨j, rfl⟩ : ∃ j, i = dst - src + j := ⟨i - (dst - src), by grind⟩
      have hj : (dst - src + j).toNat = dst.toNat - src.toNat + j.toNat := by
        have := j.toNat_lt
        rw [UInt32.toNat_add, hdist] at hnear ⊢
        omega
      have hin : dst.toNat - src.toNat + j.toNat < n.toNat := hj ▸ hi
      have hsrc : src + (dst - src + j) = dst + j := by grind
      rw [ulibMemmove, copyUp_repeats (Nat.le_of_lt n.toNat_lt) hlt hin, hsrc, h j hin]
      exact ih j.toNat (by omega) (UInt32.lt_iff_toNat_lt.mpr (by omega)) rfl

/-- The user library's function, which always copies upwards, leaves the same memory as the
kernel's exactly if the destination does not start behind the source or the bytes of the source
repeat at that distance, which is so in particular if the two ranges do not overlap. -/
theorem ulibMemmove_eq_memmove_iff (m : Bytes) (dst src n : UInt32) (_hn : n.toNat < 2 ^ 31)
    (hd : dst.toNat + n.toNat ≤ 2 ^ 32) (hs : src.toNat + n.toNat ≤ 2 ^ 32) :
    ulibMemmove m dst src n = memmove m dst src n ↔
      (src.toNat < dst.toNat →
        ∀ i : UInt32, dst.toNat - src.toNat + i.toNat < n.toNat → m (dst + i) = m (src + i)) := by
  constructor
  · rintro h hlt i hi
    have hj : dst - src + i < n := by
      have := dst.toNat_lt
      rw [UInt32.lt_iff_toNat_lt, UInt32.toNat_add, UInt32.toNat_sub]
      omega
    have hsrc : src + (dst - src + i) = dst + i := by grind
    have hrep : ulibMemmove m dst src n (dst + (dst - src + i)) =
        ulibMemmove m dst src n (dst + i) :=
      copyUp_repeats (Nat.le_of_lt n.toNat_lt) hlt hi
    rwa [h, memmove_inside hd hs hj, hsrc,
      memmove_inside hd hs (UInt32.lt_iff_toNat_lt.mpr (by omega))] at hrep
  · intro h
    by_cases hback : src < dst ∧ src + n > dst
    · funext a
      rcases range_cases dst n a with ⟨i, hi, rfl⟩ | ⟨-, hout⟩
      · rw [memmove_inside hd hs hi, ulibMemmove_inside hback.1 (h hback.1) hi]
      · rw [memmove_outside hout, ulibMemmove, copyUp_outside hout]
    · exact (memmove_forward hback).symm

theorem ulibMemmove_eq_memmove_downwards :
    ulibMemmove (fun a => a.toUInt8) 1 3 4 = memmove (fun a => a.toUInt8) 1 3 4 :=
  (ulibMemmove_eq_memmove_iff _ 1 3 4 (by decide) (by decide) (by decide)).mpr
    fun h => absurd h (by decide)

/-- Two bytes, moved by one: the first is copied twice. -/
theorem ulibMemmove_ne_memmove :
    ulibMemmove (fun a => a.toUInt8) 1 0 2 ≠ memmove (fun a => a.toUInt8) 1 0 2 := fun h =>
  absurd (congrFun h 2) (by decide)

/-! ### memset -/

/-- `rep stosb` -/
def stosb : Nat → Bytes → UInt32 → UInt8 → Bytes
  | 0, m, _, _ => m
  | n + 1, m, d, c => stosb n (Function.update m d c) (d + 1) c

/-- A word, in little-endian order. -/
def store (m : Bytes) (d w : UInt32) : Bytes :=
  let m := Function.update m d w.toUInt8
  let m := Function.update m (d + 1) (w >>> 8).toUInt8
  let m := Function.update m (d + 2) (w >>> 16).toUInt8
  Function.update m (d + 3) (w >>> 24).toUInt8

/-- `rep stosl` -/
def stosl : Nat → Bytes → UInt32 → UInt32 → Bytes
  | 0, m, _, _ => m
  | n + 1, m, d, w => stosl n (store m d w) (d + 4) w

/-- `(c<<24)|(c<<16)|(c<<8)|c` -/
def spread (c : UInt8) : UInt32 :=
  c.toUInt32 <<< 24 ||| c.toUInt32 <<< 16 ||| c.toUInt32 <<< 8 ||| c.toUInt32

/-- `memset` of the kernel, with the low byte of its `int c`. -/
def memset (m : Bytes) (dst : UInt32) (c : UInt8) (n : UInt32) : Bytes :=
  if dst % 4 = 0 ∧ n % 4 = 0 then stosl (n / 4).toNat m dst (spread c) else stosb n.toNat m dst c

lemma stosb_apply {c : UInt8} (hk : k ≤ 2 ^ 32) :
    stosb k m d c a = if (a - d).toNat < k then c else m a := by
  induction k generalizing m d with
  | zero => rfl
  | succ k ih =>
    have := a.toNat_lt
    have := d.toNat_lt
    have hnext : (a - (d + 1)).toNat < k ↔ 0 < (a - d).toNat ∧ (a - d).toNat < k + 1 := by
      simp only [UInt32.toNat_sub, UInt32.toNat_add, UInt32.toNat_one]
      omega
    rw [stosb, ih (Nat.le_of_succ_le hk)]
    by_cases had : a = d
    · subst had
      simp
    · have hpos : 0 < (a - d).toNat := by
        apply Nat.pos_of_ne_zero
        intro e
        have hzero : a - d = 0 := UInt32.toNat_inj.mp e
        exact had (by grind)
      simp only [hnext, hpos, true_and, Function.update_of_ne had]

lemma spread_byte (c : UInt8) : (spread c).toUInt8 = c ∧ (spread c >>> 8).toUInt8 = c ∧
    (spread c >>> 16).toUInt8 = c ∧ (spread c >>> 24).toUInt8 = c := by
  have hall : ∀ n < 256, (spread (.ofNat n)).toUInt8 = .ofNat n ∧
      (spread (.ofNat n) >>> 8).toUInt8 = .ofNat n ∧
      (spread (.ofNat n) >>> 16).toUInt8 = .ofNat n ∧
      (spread (.ofNat n) >>> 24).toUInt8 = .ofNat n := by decide +kernel
  have hc := hall c.toNat c.toNat_lt
  rwa [UInt8.ofNat_toNat] at hc

/-- Words of four equal bytes. -/
lemma stosl_spread (c : UInt8) : stosl k m d (spread c) = stosb (4 * k) m d c := by
  induction k generalizing m d with
  | zero => rfl
  | succ k ih =>
    obtain ⟨h0, h1, h2, h3⟩ := spread_byte c
    have e2 : d + 2 = d + 1 + 1 := by grind
    have e3 : d + 3 = d + 1 + 1 + 1 := by grind
    have e4 : d + 4 = d + 1 + 1 + 1 + 1 := by grind
    rw [stosl, ih, store, h0, h1, h2, h3, e2, e3, e4]
    rfl

lemma memset_apply {c : UInt8} :
    memset m dst c n a = if (a - dst).toNat < n.toNat then c else m a := by
  have hn := Nat.le_of_lt n.toNat_lt
  rw [memset]
  split
  case isTrue h =>
    have hlen : 4 * (n / 4).toNat = n.toNat := by
      have := congrArg UInt32.toNat h.2
      simp only [UInt32.toNat_mod, UInt32.toNat_div, UInt32.reduceToNat, UInt32.toNat_zero] at *
      omega
    rw [stosl_spread, hlen, stosb_apply hn]
  case isFalse => exact stosb_apply hn

end Xv6.Strings
