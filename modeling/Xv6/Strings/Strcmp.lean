import Xv6.Fs.Names

/-!
# strcmp

The user library's `strcmp`, which compares plain chars, next to the kernel's `strncmp`, which
subtracts unsigned ones. A string is the list of the bytes before its NUL.
-/

namespace Xv6.Strings

open Fs

/-- A byte as a plain `char`, which is signed. -/
def char (p : UInt8) : Int := p.toInt8.toInt

/-- `strcmp` of the user library, without what it prints. -/
def strcmp : List UInt8 → List UInt8 → Int
  | [], [] => 0
  | [], _ :: _ => -1
  | _ :: _, [] => 1
  | p :: ps, q :: qs =>
    if char p < char q then -1 else if char p > char q then 1 else strcmp ps qs

/-- At their first difference one string has an ASCII character and the other has not. -/
def Straddle (s t : List UInt8) : Prop :=
  ∃ w a b u v, s = w ++ a :: u ∧ t = w ++ b :: v ∧ (a < 128 ↔ ¬b < 128)

variable {p q a b : UInt8} {s t u : List UInt8} {n : Nat}

lemma char_eq (p : UInt8) : char p = if p < 128 then (p.toNat : Int) else p.toNat - 256 := by
  have hbits : char p = p.toBitVec.toInt := rfl
  simp only [hbits, BitVec.toInt_eq_toNat_cond, UInt8.toNat_toBitVec, UInt8.lt_iff_toNat_lt,
    UInt8.reduceToNat]
  split_ifs <;> omega

lemma char_injective (h : char p = char q) : p = q := by
  have := p.toNat_lt
  have := q.toNat_lt
  rw [char_eq, char_eq] at h
  apply UInt8.toNat_inj.mp
  split_ifs at h <;> omega

lemma straddle_cons : Straddle (p :: s) (p :: t) ↔ Straddle s t := by
  constructor
  · rintro ⟨_ | ⟨c, w⟩, a, b, u, v, hs, ht, hab⟩
    · cases hs
      cases ht
      exact absurd hab (iff_not_self)
    · exact ⟨w, a, b, u, v, (List.cons.inj hs).2, (List.cons.inj ht).2, hab⟩
  · rintro ⟨w, a, b, u, v, rfl, rfl, hab⟩
    exact ⟨p :: w, a, b, u, v, rfl, rfl, hab⟩

lemma straddle_cons_of_ne (h : p ≠ q) : Straddle (p :: s) (q :: t) ↔ (p < 128 ↔ ¬q < 128) := by
  constructor
  · rintro ⟨_ | ⟨c, w⟩, a, b, u, v, hs, ht, hab⟩
    · cases hs
      cases ht
      exact hab
    · exact absurd ((List.cons.inj hs).1.trans (List.cons.inj ht).1.symm) h
  · exact fun hab => ⟨[], p, q, s, t, rfl, rfl, hab⟩

lemma strcmp_cons_self : strcmp (p :: s) (p :: t) = strcmp s t := by
  rw [strcmp, if_neg (Int.lt_irrefl _), if_neg (Int.lt_irrefl _)]

/-- Bytes on one side of 128 compare alike as chars and unsigned, others the other way round. -/
lemma sign_strcmp_cons (hpq : p ≠ q) : (strcmp (p :: s) (q :: t)).sign =
    ((p.toNat : Int) - q.toNat).sign ↔ ¬(p < 128 ↔ ¬q < 128) := by
  have hne : p.toNat ≠ q.toNat := fun e => hpq (UInt8.toNat_inj.mp e)
  have := p.toNat_lt
  have := q.toNat_lt
  simp only [strcmp, gt_iff_lt, char_eq, UInt8.lt_iff_toNat_lt, UInt8.reduceToNat]
  rcases Nat.lt_or_gt_of_ne hne with h | h
  · rw [Int.sign_eq_neg_one_of_neg (show (p.toNat : Int) - q.toNat < 0 by omega)]
    split_ifs <;> simp <;> omega
  · rw [Int.sign_eq_one_of_pos (show 0 < (p.toNat : Int) - q.toNat by omega)]
    split_ifs <;> simp <;> omega

lemma pos_of_not_mem (h : 0 ∉ p :: s) : 0 < p.toNat := by
  refine Nat.pos_of_ne_zero fun e => h ?_
  have hp : p = 0 := UInt8.toNat_inj.mp e
  exact hp ▸ List.mem_cons_self

/-- The signs are equal as long as no byte decides, and then as the deciding bytes say. -/
lemma sign_strcmp_iff (hs : 0 ∉ s) (ht : 0 ∉ t) (hsn : s.length < n) (htn : t.length < n) :
    (strcmp s t).sign = (strncmp n s t).sign ↔ ¬Straddle s t := by
  induction s generalizing t n with
  | nil =>
    obtain ⟨n, rfl⟩ := Nat.exists_eq_succ_of_ne_zero (Nat.ne_of_gt hsn)
    refine iff_of_true ?_ ?_
    · cases t with
      | nil => rfl
      | cons q t =>
        have hq := pos_of_not_mem ht
        refine (Int.sign_eq_neg_one_of_neg ?_).symm
        change ((0 : UInt8).toNat : Int) - q.toNat < 0
        rw [UInt8.toNat_zero]
        omega
    · rintro ⟨w, a, b, u, v, h, -⟩
      simp at h
  | cons p s ih =>
    obtain ⟨n, rfl⟩ := Nat.exists_eq_succ_of_ne_zero (Nat.ne_of_gt (Nat.zero_lt_of_lt hsn))
    cases t with
    | nil =>
      have hp := pos_of_not_mem hs
      refine iff_of_true (Int.sign_eq_one_of_pos ?_).symm ?_
      · change 0 < if p ≠ 0 ∧ p = 0 then _ else (p.toNat : Int) - (0 : UInt8).toNat
        rw [if_neg fun h => h.1 h.2, UInt8.toNat_zero]
        omega
      · rintro ⟨w, a, b, u, v, -, h, -⟩
        simp at h
    | cons q t =>
      have hp : p ≠ 0 := fun e => hs (e ▸ List.mem_cons_self)
      by_cases hpq : p = q
      · subst hpq
        rw [strcmp_cons_self, straddle_cons, strncmp, if_pos ⟨hp, rfl⟩]
        exact ih (fun h => hs (.tail _ h)) (fun h => ht (.tail _ h)) (Nat.lt_of_succ_lt_succ hsn)
          (Nat.lt_of_succ_lt_succ htn)
      · rw [straddle_cons_of_ne hpq, ← sign_strcmp_cons hpq, strncmp, if_neg fun h => hpq h.2]
        rfl

/-! ### The order of strcmp -/

lemma strcmp_swap (s t : List UInt8) : strcmp t s = -strcmp s t := by
  induction s generalizing t with
  | nil => cases t <;> rfl
  | cons p s ih =>
    cases t with
    | nil => rfl
    | cons q t =>
      simp only [strcmp, ih t]
      split_ifs <;> omega

lemma strcmp_eq_zero_iff : strcmp s t = 0 ↔ s = t := by
  induction s generalizing t with
  | nil => cases t <;> simp [strcmp]
  | cons p s ih =>
    cases t with
    | nil => simp [strcmp]
    | cons q t =>
      by_cases hpq : p = q
      · subst hpq
        rw [strcmp_cons_self, ih, List.cons.injEq, and_iff_right rfl]
      · have hne : char p ≠ char q := fun e => hpq (char_injective e)
        simp only [strcmp, List.cons.injEq, hpq, false_and, iff_false]
        split_ifs <;> simp
        omega

lemma strcmp_trans (hst : strcmp s t ≤ 0) (htu : strcmp t u ≤ 0) : strcmp s u ≤ 0 := by
  induction s generalizing t u with
  | nil => cases u <;> simp [strcmp]
  | cons p s ih =>
    match t, u with
    | [], _ => exact absurd hst (by simp [strcmp])
    | _ :: _, [] => exact absurd htu (by simp [strcmp])
    | q :: t, r :: u =>
      simp only [strcmp] at hst htu ⊢
      split_ifs at hst htu ⊢ <;> first | omega | exact ih hst htu

/-- The user's comparison has the sign of the kernel's exactly if the strings do not first differ
in an ASCII character of the one and another byte of the other. It is a total order of its own. -/
theorem strcmp_agrees_iff (s t : List UInt8) (n : Nat) (hs : 0 ∉ s) (ht : 0 ∉ t)
    (hsn : s.length < n) (htn : t.length < n) :
    ((strcmp s t).sign = (strncmp n s t).sign ↔ ¬Straddle s t) ∧
      (strcmp s t = 0 ↔ s = t) ∧ strcmp t s = -strcmp s t ∧
        ∀ u, strcmp s t ≤ 0 → strcmp t u ≤ 0 → strcmp s u ≤ 0 :=
  ⟨sign_strcmp_iff hs ht hsn htn, strcmp_eq_zero_iff, strcmp_swap s t, fun _ => strcmp_trans⟩

theorem strcmp_agrees_letters : (strcmp [97] [98]).sign = (strncmp 2 [97] [98]).sign := by
  refine (strcmp_agrees_iff [97] [98] 2 (by decide) (by decide) (by decide) (by decide)).1.mpr ?_
  exact (straddle_cons_of_ne (by decide)).not.mpr (by decide)

/-- For the user `"a"` comes after the string of the byte 128, for the kernel before it. -/
theorem strcmp_disagrees : strcmp [97] [128] = 1 ∧ strncmp 2 [97] [128] = -31 := by
  decide

end Xv6.Strings
