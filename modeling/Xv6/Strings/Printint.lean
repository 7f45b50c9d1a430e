import Mathlib.Algebra.GroupWithZero.Nat
import Mathlib.Data.List.GetD
import Mathlib.Data.List.Nodup

/-!
# Printing and reading numbers

The two functions `printint`, of the kernel (`console.c`) and of the user library (`printf.c`), and
the user library's `atoi`. The digits come from a loop that stores the last one first; they are
written in the reverse order, so the buffer is a list whose head is the character stored last.
-/

namespace Xv6.Strings

def ascii (c : Char) : UInt8 := c.toNat.toUInt8

/-- `static char digits[]` of the kernel. -/
def digits : List UInt8 :=
  ['0', '1', '2', '3', '4', '5', '6', '7', '8', '9', 'a', 'b', 'c', 'd', 'e', 'f'].map ascii

/-- `static char digits[]` of the user library. -/
def ulibDigits : List UInt8 :=
  ['0', '1', '2', '3', '4', '5', '6', '7', '8', '9', 'A', 'B', 'C', 'D', 'E', 'F'].map ascii

/-- `sizeof(buf)` -/
def BUFLEN : Nat := 16

/-- The loop of `printint` with `room` characters left in `buf`. It may not store more. -/
def fill (table : List UInt8) (base : UInt32) :
    (room : Nat) → (buf : List UInt8) → (x : UInt32) → Option (List UInt8)
  | 0, _, _ => none
  | room + 1, buf, x =>
    let buf := table.getD (x % base).toNat 0 :: buf
    if x / base ≠ 0 then fill table base room buf (x / base) else some buf

/-- The rest of `printint`: the characters written, the first one first. -/
def emit (table : List UInt8) (base : UInt32) (neg : Bool) (x : UInt32) : Option (List UInt8) := do
  let buf ← fill table base BUFLEN [] x
  if neg then
    if buf.length < BUFLEN then some (ascii '-' :: buf) else none
  else
    some buf

/-- `printint` of the kernel. -/
def printint (xx : Int32) (base : UInt32) (sign : Bool) : Option (List UInt8) :=
  -- `sign && (sign = xx < 0)`
  let sign := sign && decide (xx < 0)
  let x := if sign then (-xx).toUInt32 else xx.toUInt32
  emit digits base sign x

/-- `printint` of the user library. -/
def ulibPrintint (xx : Int32) (base : UInt32) (sgn : Bool) : Option (List UInt8) :=
  if sgn ∧ xx < 0 then emit ulibDigits base true (-xx).toUInt32
  else emit ulibDigits base false xx.toUInt32

/-- The loop of `atoi` on the bytes of a string before its NUL. A byte from 128 on, which is a
negative `char`, is no digit. -/
def atoiLoop (n : UInt32) : List UInt8 → UInt32
  | [] => n
  | c :: s =>
    if ascii '0' ≤ c ∧ c ≤ ascii '9' then
      atoiLoop (n * 10 + c.toUInt32 - (ascii '0').toUInt32) s
    else
      n

def atoi (s : List UInt8) : Int32 := (atoiLoop 0 s).toInt32

/-! ### Numerals -/

/-- The number that a string of digits denotes. -/
def denote (table : List UInt8) (base : Nat) (s : List UInt8) : Nat :=
  s.foldl (fun v c => v * base + table.idxOf c) 0

/-- `s` consists of digits, does not begin with a zero unless it is one, and denotes `v`. -/
structure Numeral (table : List UInt8) (base : Nat) (s : List UInt8) (v : Nat) : Prop where
  ne_nil : s ≠ []
  digit : ∀ c ∈ s, c ∈ table.take base
  lead : s.head? = some (ascii '0') → s = [ascii '0']
  value : denote table base s = v

/-- The canonical numeral of an integer, with a minus if it is negative. -/
def Canonical (table : List UInt8) (base : Nat) (s : List UInt8) (v : Int) : Prop :=
  ∃ d, Numeral table base d v.natAbs ∧ s = if v < 0 then ascii '-' :: d else d

/-- The two tables of digits. -/
structure Alphabet (table : List UInt8) : Prop where
  nodup : table.Nodup
  length : table.length = 16
  zero : table.idxOf (ascii '0') = 0
  minus : ascii '-' ∉ table
  decimal : ∀ c ∈ table.take 10, ascii '0' ≤ c ∧ c ≤ ascii '9' ∧ table.idxOf c + 48 = c.toNat

lemma alphabet_digits : Alphabet digits := by
  constructor <;> decide +kernel

lemma alphabet_ulibDigits : Alphabet ulibDigits := by
  constructor <;> decide +kernel

variable {table s : List UInt8} {base x : UInt32} {b room d v : Nat} {c : UInt8} {xx : Int32}

lemma Alphabet.idxOf_getD (h : Alphabet table) (hd : d < 16) :
    table.idxOf (table.getD d 0) = d := by
  have hlt : d < table.length := h.length ▸ hd
  rw [List.getD_eq_getElem _ _ hlt]
  exact h.nodup.idxOf_getElem d hlt

lemma Alphabet.getD_mem (h : Alphabet table) (hb : b ≤ 16) (hd : d < b) :
    table.getD d 0 ∈ table.take b := by
  have hlt : d < table.length := by rw [h.length]; omega
  rw [List.getD_eq_getElem _ _ hlt]
  exact List.mem_take_iff_getElem.mpr ⟨d, by omega, rfl⟩

lemma denote_snoc : denote table b (s ++ [c]) = denote table b s * b + table.idxOf c := by
  rw [denote, List.foldl_append, denote]
  rfl

/-- A number of one digit. -/
lemma Alphabet.numeral_digit (h : Alphabet table) (hb : b ≤ 16) (hd : d < b) :
    Numeral table b [table.getD d 0] d where
  ne_nil := by simp
  digit c hc := by
    rw [List.mem_singleton.mp hc]
    exact h.getD_mem hb hd
  lead hlead := by
    rw [List.head?_cons, Option.some.injEq] at hlead
    rw [hlead]
  value := by
    have hidx := h.idxOf_getD (Nat.lt_of_lt_of_le hd hb)
    simp only [denote, List.foldl_cons, List.foldl_nil, hidx]
    omega

/-- One more digit behind a number other than zero. -/
lemma Alphabet.numeral_snoc (h : Alphabet table) (hs : Numeral table b s v) (hv : v ≠ 0)
    (hb : b ≤ 16) (hd : d < b) : Numeral table b (s ++ [table.getD d 0]) (v * b + d) where
  ne_nil := by simp
  digit c hc := by
    rcases List.mem_append.mp hc with hc | hc
    · exact hs.digit c hc
    · rw [List.mem_singleton.mp hc]
      exact h.getD_mem hb hd
  lead hlead := by
    rw [List.head?_append_of_ne_nil _ hs.ne_nil] at hlead
    have hvalue := hs.value
    rw [hs.lead hlead] at hvalue
    simp only [denote, List.foldl_cons, List.foldl_nil, h.zero] at hvalue
    omega
  value := by rw [denote_snoc, hs.value, h.idxOf_getD (Nat.lt_of_lt_of_le hd hb)]

/-- The loop puts the numeral of `x` in front of the buffer. -/
lemma Alphabet.fill_eq {k : Nat} (h : Alphabet table) (hb : 1 < base.toNat)
    (hb' : base.toNat ≤ 16) (buf : List UInt8) (hk : 0 < k) (hroom : k ≤ room)
    (hx : x.toNat < base.toNat ^ k) :
    ∃ s, fill table base room buf x = some (s ++ buf) ∧ s.length ≤ k ∧
      Numeral table base.toNat s x.toNat := by
  induction k generalizing room buf x with
  | zero => exact absurd hk (Nat.lt_irrefl 0)
  | succ k ih =>
    obtain ⟨room, rfl⟩ := Nat.exists_eq_add_of_le' (Nat.lt_of_lt_of_le hk hroom)
    have hd : (x % base).toNat < base.toNat := by
      rw [UInt32.toNat_mod]
      exact Nat.mod_lt _ (Nat.zero_lt_of_lt hb)
    have hsplit : (x / base).toNat * base.toNat + (x % base).toNat = x.toNat := by
      rw [UInt32.toNat_div, UInt32.toNat_mod, Nat.mul_comm]
      exact Nat.div_add_mod _ _
    rw [fill]
    by_cases hzero : x / base = 0
    · have hnum := h.numeral_digit hb' hd
      rw [hzero, UInt32.toNat_zero, Nat.zero_mul, Nat.zero_add] at hsplit
      rw [if_neg (not_not_intro hzero)]
      exact ⟨[table.getD (x % base).toNat 0], rfl, Nat.le_add_left 1 k, hsplit ▸ hnum⟩
    · have hlt : (x / base).toNat < base.toNat ^ k := by
        rw [UInt32.toNat_div]
        apply Nat.div_lt_of_lt_mul
        rwa [Nat.mul_comm, ← Nat.pow_succ]
      have hne : (x / base).toNat ≠ 0 := fun e => hzero (UInt32.toNat_inj.mp e)
      have hk' : 0 < k := by
        apply Nat.pos_of_ne_zero
        rintro rfl
        exact hne (Nat.lt_one_iff.mp hlt)
      obtain ⟨s, hs, hlen, hnum⟩ :=
        ih (table.getD (x % base).toNat 0 :: buf) hk' (Nat.le_of_succ_le_succ hroom) hlt
      refine ⟨s ++ [table.getD (x % base).toNat 0], ?_, ?_, ?_⟩
      · rw [if_pos hzero, hs, List.append_assoc]
        rfl
      · rw [List.length_append]
        exact Nat.succ_le_succ hlen
      · exact hsplit ▸ h.numeral_snoc hnum hne hb' hd

/-! ### What is printed -/

/-- What `printint` writes for the value `v`: it does not store behind `buf`, and the characters are
the canonical numeral, so there is a minus exactly for a negative value. -/
def Prints (out : Option (List UInt8)) (table : List UInt8) (base : Nat) (v : Int) : Prop :=
  ∃ s, out = some s ∧ s.length ≤ BUFLEN ∧ Canonical table base s v ∧ (ascii '-' ∈ s ↔ v < 0)

lemma Alphabet.emit_prints {v : Int} {neg : Bool} (h : Alphabet table) (hb : 1 < base.toNat)
    (hb' : base.toNat ≤ 16) (hx : x.toNat < base.toNat ^ 15) (hneg : neg = true ↔ v < 0)
    (hv : v.natAbs = x.toNat) : Prints (emit table base neg x) table base.toNat v := by
  obtain ⟨s, hs, hlen, hnum⟩ := h.fill_eq hb hb' [] (by decide)
    (show 15 ≤ BUFLEN by decide) hx
  have hminus : ascii '-' ∉ s := fun hmem => h.minus (List.mem_of_mem_take (hnum.digit _ hmem))
  rw [List.append_nil] at hs
  rw [← hv] at hnum
  rw [emit, hs]
  by_cases hlt : v < 0
  · have hroom : s.length < BUFLEN := Nat.lt_succ_of_le hlen
    refine ⟨ascii '-' :: s, ?_, hroom, ⟨s, hnum, (if_pos hlt).symm⟩, ?_⟩
    · rw [hneg.mpr hlt]
      exact if_pos hroom
    · exact iff_of_true (List.mem_cons_self ..) hlt
  · refine ⟨s, ?_, Nat.le_succ_of_le hlen, ⟨s, hnum, (if_neg hlt).symm⟩, iff_of_false hminus hlt⟩
    exact if_neg fun hn => hlt (hneg.mp hn)

lemma toInt_eq (xx : Int32) : xx.toInt =
    if 2 * xx.toUInt32.toNat < 2 ^ 32 then (xx.toUInt32.toNat : Int)
    else xx.toUInt32.toNat - (2 ^ 32 : Nat) :=
  BitVec.toInt_eq_toNat_cond _

lemma neg_iff : xx < 0 ↔ xx.toInt < 0 := Int32.lt_iff_toInt_lt

/-- The negation of the least number overflows, and the result is right as a `uint`. -/
lemma natAbs_of_neg (h : xx < 0) : xx.toInt.natAbs = (-xx).toUInt32.toNat := by
  have hneg : (-xx).toUInt32.toNat = (2 ^ 32 - xx.toUInt32.toNat) % 2 ^ 32 := BitVec.toNat_neg _
  have := xx.toUInt32.toNat_lt
  rw [neg_iff, toInt_eq] at h
  rw [hneg, toInt_eq]
  split at h <;> omega

lemma natAbs_of_nonneg (h : ¬xx < 0) : xx.toInt.natAbs = xx.toUInt32.toNat := by
  have := xx.toUInt32.toNat_lt
  rw [neg_iff, toInt_eq] at h
  rw [toInt_eq]
  split at h <;> omega

lemma toNat_lt_pow (x : UInt32) : x.toNat < 10 ^ 15 ∧ x.toNat < 16 ^ 15 := by
  have := x.toNat_lt
  omega

/-- Signed and in base 10. -/
lemma Alphabet.decimal_prints (h : Alphabet table) :
    (xx < 0 → Prints (emit table 10 true (-xx).toUInt32) table 10 xx.toInt) ∧
      (¬xx < 0 → Prints (emit table 10 false xx.toUInt32) table 10 xx.toInt) := by
  constructor
  · intro hlt
    exact h.emit_prints (by decide) (by decide) (toNat_lt_pow _).1
      (iff_of_true rfl (neg_iff.mp hlt)) (natAbs_of_neg hlt)
  · intro hge
    exact h.emit_prints (by decide) (by decide) (toNat_lt_pow _).1
      (iff_of_false Bool.false_ne_true (neg_iff.not.mp hge)) (natAbs_of_nonneg hge)

/-- Unsigned and in base 16. -/
lemma Alphabet.hexadecimal_prints (h : Alphabet table) (x : UInt32) :
    Prints (emit table 16 false x) table 16 x.toNat :=
  h.emit_prints (by decide) (by decide) (toNat_lt_pow x).2
    (iff_of_false Bool.false_ne_true (Int.not_lt.mpr (Int.natCast_nonneg _)))
    (Int.natAbs_natCast _)

/-! ### What is read -/

lemma Alphabet.atoiLoop_eq (h : Alphabet table) (hs : ∀ c ∈ s, c ∈ table.take 10) (v : Nat) :
    atoiLoop (.ofNat v) s = .ofNat (s.foldl (fun v c => v * 10 + table.idxOf c) v) := by
  induction s generalizing v with
  | nil => rfl
  | cons c s ih =>
    obtain ⟨hle, hge, hidx⟩ := h.decimal c (hs c (List.mem_cons_self ..))
    have hnext : UInt32.ofNat v * 10 + c.toUInt32 - (ascii '0').toUInt32 =
        .ofNat (v * 10 + table.idxOf c) := by
      have hc : c.toUInt32 = .ofNat (table.idxOf c) + 48 := by
        rw [← UInt32.ofNat_toNat (x := c.toUInt32), UInt8.toNat_toUInt32, ← hidx,
          UInt32.ofNat_add]
        rfl
      have hzero : (ascii '0').toUInt32 = 48 := rfl
      rw [hc, hzero, UInt32.ofNat_add, UInt32.ofNat_mul]
      grind
    rw [atoiLoop, if_pos ⟨hle, hge⟩, hnext, List.foldl_cons]
    exact ih (fun c hc => hs c (List.mem_cons_of_mem _ hc)) _

/-- `atoi` reads a number that is not negative from its numeral. -/
lemma Alphabet.atoi_eq {out : Option (List UInt8)} (h : Alphabet table) (hge : ¬xx < 0)
    (hout : Prints out table 10 xx.toInt) : out.map atoi = some xx := by
  obtain ⟨s, rfl, -, ⟨d, hnum, hd⟩, -⟩ := hout
  rw [if_neg (neg_iff.not.mp hge)] at hd
  subst hd
  have hvalue := hnum.value
  rw [denote, natAbs_of_nonneg hge] at hvalue
  rw [Option.map_some, atoi]
  have hloop := h.atoiLoop_eq hnum.digit 0
  rw [hvalue, UInt32.ofNat_toNat] at hloop
  exact congrArg (fun x => some x.toInt32) hloop

/-- Both functions `printint` write the canonical numeral of every value, in base 10 with its sign
and in base 16 without, and store it in `buf`; `atoi` reads what is not negative from the former. -/
theorem printint_canonical (xx : Int32) :
    (Prints (printint xx 10 true) digits 10 xx.toInt ∧
      Prints (printint xx 16 false) digits 16 xx.toUInt32.toNat) ∧
    (Prints (ulibPrintint xx 10 true) ulibDigits 10 xx.toInt ∧
      Prints (ulibPrintint xx 16 false) ulibDigits 16 xx.toUInt32.toNat) ∧
    (0 ≤ xx → (printint xx 10 true).map atoi = some xx ∧
      (ulibPrintint xx 10 true).map atoi = some xx) := by
  have hk : Prints (printint xx 10 true) digits 10 xx.toInt := by
    by_cases hneg : xx < 0
    · rw [printint, decide_eq_true hneg]
      exact alphabet_digits.decimal_prints.1 hneg
    · rw [printint, decide_eq_false hneg]
      exact alphabet_digits.decimal_prints.2 hneg
  have hu : Prints (ulibPrintint xx 10 true) ulibDigits 10 xx.toInt := by
    by_cases hneg : xx < 0
    · rw [ulibPrintint, if_pos ⟨rfl, hneg⟩]
      exact alphabet_ulibDigits.decimal_prints.1 hneg
    · rw [ulibPrintint, if_neg fun h => hneg h.2]
      exact alphabet_ulibDigits.decimal_prints.2 hneg
  refine ⟨⟨hk, alphabet_digits.hexadecimal_prints _⟩, ⟨hu, ?_⟩, fun h => ?_⟩
  · exact alphabet_ulibDigits.hexadecimal_prints _
  · have hge : ¬xx < 0 := Int32.not_lt.mpr h
    exact ⟨alphabet_digits.atoi_eq hge hk, alphabet_ulibDigits.atoi_eq hge hu⟩

/-- The least number. -/
example : printint (-2147483648) 10 true =
    some (['-', '2', '1', '4', '7', '4', '8', '3', '6', '4', '8'].map ascii) := by
  decide +kernel

end Xv6.Strings
