import Mathlib.Order.Monotone.Basic

/-!
# The walk over the multiprocessor table

`mpinit` of `mp.c`. The table is the bytes from `conf` on, of which nothing is known but what
`mpconfig` checks; addresses are distances from `conf`. An iteration count stands for the time that
the loop is given. The switching of the interrupt mode at the end is left out.
-/

namespace Xv6.Boot

/-- The bytes from `conf` on. -/
abbrev Table := Nat → UInt8

def NCPU : Nat := 8
def MPPROC : UInt8 := 0x00
def MPBUS : UInt8 := 0x01
def MPIOAPIC : UInt8 := 0x02
def MPIOINTR : UInt8 := 0x03
def MPLINTR : UInt8 := 0x04

namespace Table

/-- `conf->length`. -/
def length (t : Table) : Nat := (t 4).toNat + 256 * (t 5).toNat

/-- `sum(addr, len)` -/
def sum (t : Table) (len : Nat) : UInt8 := ((List.range len).map t).foldl (· + ·) 0

/-- Whether `mpconfig` accepts the table. -/
def mpconfig (t : Table) : Bool :=
  (List.range 4).map t = [0x50, 0x43, 0x4D, 0x50] && (t 6 = 1 || t 6 = 4) && t.sum t.length = 0

end Table

/-- The variables of the loop, and the ones of the kernel that it sets. -/
structure Walk where
  p : Nat
  ismp : Bool
  apicid : Nat → UInt8
  ncpu : Nat
  ioapicid : UInt8

/-- The start of the loop, behind the 44 bytes of the header. -/
def Walk.start : Walk := ⟨44, true, fun _ => 0, 0, 0⟩

/-- One iteration. The `break` of the last case leaves the `switch`, not the loop. -/
def Walk.entry (t : Table) (w : Walk) : Walk :=
  if t w.p = MPPROC then
    if w.ncpu < NCPU then
      { w with
        apicid := Function.update w.apicid w.ncpu (t (w.p + 1)), ncpu := w.ncpu + 1, p := w.p + 20 }
    else { w with p := w.p + 20 }
  else if t w.p = MPIOAPIC then { w with ioapicid := t (w.p + 1), p := w.p + 8 }
  else if t w.p = MPBUS ∨ t w.p = MPIOINTR ∨ t w.p = MPLINTR then { w with p := w.p + 8 }
  else { w with ismp := false }

/-- The loop, for at most `n` iterations. -/
def Walk.entries (t : Table) : Nat → Walk → Walk
  | 0, w => w
  | n + 1, w => if w.p < t.length then entries t n (w.entry t) else w

/-- `mpinit`, if its loop ends within `n` iterations. -/
def mpinit (t : Table) (n : Nat) : Option (Except String Walk) :=
  if t.mpconfig then
    let w := Walk.start.entries t n
    if w.p < t.length then none
    else if w.ismp then some (.ok w)
    else some (.error "Didn't find a suitable machine")
  else some (.error "Expect to run on an SMP")

namespace Table

/-- The bytes of an entry of a known type. -/
def width (t : Table) (p : Nat) : Nat := if t p = MPPROC then 20 else if t p ≤ MPLINTR then 8 else 0

/-- Where the `k`-th entry starts; an entry of an unknown type has no length. -/
def entryAt (t : Table) : Nat → Nat
  | 0 => 44
  | k + 1 => t.entryAt k + t.width (t.entryAt k)

/-- All entries are of known types. -/
def Known (t : Table) : Prop := ∀ k, t.entryAt k < t.length → t (t.entryAt k) ≤ MPLINTR

end Table

variable {t : Table} {w : Walk} {k n : Nat}

/-! ### One iteration -/

lemma known_iff (b : UInt8) : b ≤ MPLINTR ↔
    b = MPPROC ∨ b = MPIOAPIC ∨ b = MPBUS ∨ b = MPIOINTR ∨ b = MPLINTR := by
  simp only [MPPROC, MPIOAPIC, MPBUS, MPIOINTR, MPLINTR, ← UInt8.toNat_inj, UInt8.le_iff_toNat_le,
    UInt8.reduceToNat]
  omega

lemma Walk.entry_p (t : Table) (w : Walk) : (w.entry t).p = w.p + t.width w.p := by
  have hle := known_iff (t w.p)
  rw [entry, Table.width]
  split_ifs <;> simp_all

lemma Walk.entry_ncpu (h : w.ncpu ≤ NCPU) : (w.entry t).ncpu ≤ NCPU := by
  rw [entry]
  split_ifs
  · assumption
  all_goals exact h

lemma Walk.entry_ismp (h : t w.p ≤ MPLINTR) : (w.entry t).ismp = w.ismp := by
  have hle := (known_iff _).mp h
  rw [entry]
  split_ifs <;> simp_all

namespace Table

lemma width_pos (h : t n ≤ MPLINTR) : 0 < t.width n := by
  rw [width]
  split_ifs
  all_goals omega

lemma width_unknown (h : ¬t n ≤ MPLINTR) : t.width n = 0 := by
  rw [width, if_neg fun e => h ((known_iff _).mpr (.inl e)), if_neg h]

lemma entryAt_mono (t : Table) : Monotone t.entryAt :=
  monotone_nat_of_le_succ fun _ => Nat.le_add_right _ _

/-- No entry lies behind one of an unknown type. -/
lemma entryAt_le_unknown (h : ¬t (t.entryAt k) ≤ MPLINTR) (n : Nat) :
    t.entryAt n ≤ t.entryAt k := by
  rcases Nat.le_total n k with hn | hn
  · exact t.entryAt_mono hn
  · induction n, hn using Nat.le_induction with
    | base => exact le_rfl
    | succ n hn ih =>
      have heq : t.entryAt n = t.entryAt k := le_antisymm ih (t.entryAt_mono hn)
      rw [entryAt, heq, width_unknown h, Nat.add_zero]

end Table

/-! ### The loop -/

/-- What holds of the variables after `k` iterations. -/
structure Walk.Passed (t : Table) (w : Walk) (k : Nat) : Prop where
  p : w.p = t.entryAt k
  inside : k = 0 ∨ t.entryAt (k - 1) < t.length
  ncpu : w.ncpu ≤ NCPU
  ismp : t.Known → w.ismp = true

lemma Walk.start_passed : start.Passed t 0 := ⟨rfl, .inl rfl, Nat.zero_le _, fun _ => rfl⟩

lemma Walk.Passed.entry (h : w.Passed t k) (hlt : w.p < t.length) :
    (w.entry t).Passed t (k + 1) where
  p := by rw [entry_p, h.p]; rfl
  inside := .inr (h.p ▸ hlt)
  ncpu := entry_ncpu h.ncpu
  ismp := fun hk => (entry_ismp (h.p ▸ hk k (h.p ▸ hlt))).trans (h.ismp hk)

lemma Walk.Passed.entries (h : w.Passed t k) (n : Nat) : ∃ k', (w.entries t n).Passed t k' := by
  induction n generalizing w k with
  | zero => exact ⟨k, h⟩
  | succ n ih =>
    rw [Walk.entries]
    split_ifs with hlt
    · exact ih (h.entry hlt)
    · exact ⟨k, h⟩

/-- With every entry of a known type the rest of the table shrinks. -/
lemma Walk.Passed.ends (h : w.Passed t k) (hk : t.Known) (hn : t.length ≤ w.p + n) :
    t.length ≤ (w.entries t n).p := by
  induction n generalizing w k with
  | zero => exact hn
  | succ n ih =>
    rw [Walk.entries]
    split_ifs with hlt
    · have hpos := Table.width_pos (h.p ▸ hk k (h.p ▸ hlt) : t w.p ≤ MPLINTR)
      refine ih (h.entry hlt) ?_
      rw [entry_p]
      omega
    · exact not_lt.mp hlt

lemma mpinit_of_known (h : t.mpconfig) (hk : t.Known) :
    ∃ n w, mpinit t n = some (.ok w) := by
  refine ⟨t.length, Walk.start.entries t t.length, ?_⟩
  obtain ⟨k, hp⟩ := Walk.start_passed (t := t).entries t.length
  have hend := Walk.start_passed.ends hk (Nat.le_add_left _ _)
  simp only [mpinit, h, if_true, if_neg (not_lt.mpr hend), hp.ismp hk]

/-- At an entry of an unknown type the loop stays. -/
lemma mpinit_of_unknown (h : t.mpconfig) (hk : ¬t.Known) (n : Nat) : mpinit t n = none := by
  simp only [Table.Known, not_forall] at hk
  obtain ⟨k, hin, hunknown⟩ := hk
  obtain ⟨k', hp⟩ := Walk.start_passed (t := t).entries n
  have hlt : (Walk.start.entries t n).p < t.length :=
    hp.p ▸ (Table.entryAt_le_unknown hunknown k').trans_lt hin
  simp only [mpinit, h, if_true, hlt]

/-- The loop over an accepted table ends, and reports an entry of an unknown type by the panic,
exactly if there is no such entry: at one it stays for ever. In any case it stops at an entry or
right behind the last, and counts no more than `NCPU` processors. -/
theorem mpinit_ends_iff (t : Table) (h : t.mpconfig) :
    ((∃ n r, mpinit t n = some r) ∧
        (¬t.Known → ∃ n, mpinit t n = some (.error "Didn't find a suitable machine")) ↔ t.Known) ∧
      ∀ n, (Walk.start.entries t n).ncpu ≤ NCPU ∧
        ((Walk.start.entries t n).p = 44 ∨ ∃ k, t.entryAt k < t.length ∧
          (Walk.start.entries t n).p = t.entryAt k + t.width (t.entryAt k)) := by
  constructor
  · constructor
    · rintro ⟨⟨n, r, hr⟩, -⟩
      by_contra hk
      rw [mpinit_of_unknown h hk] at hr
      cases hr
    · intro hk
      obtain ⟨n, w, hw⟩ := mpinit_of_known h hk
      exact ⟨⟨n, _, hw⟩, fun hn => absurd hk hn⟩
  · intro n
    obtain ⟨k, hp⟩ := Walk.start_passed (t := t).entries n
    refine ⟨hp.ncpu, ?_⟩
    cases k with
    | zero => exact .inl hp.p
    | succ k => exact .inr ⟨k, hp.inside.resolve_left k.succ_ne_zero, hp.p⟩

/-- A table of 64 bytes with one entry, of the given type. -/
def oneEntry (type : UInt8) : Table := fun i =>
  ([0x50, 0x43, 0x4D, 0x50, 64, 0, 1, 0x88 - type] ++ List.replicate 36 0 ++ [type, 7]).getD i 0

theorem mpinit_ends_oneEntry : ∃ n r, mpinit (oneEntry 0) n = some r := by
  refine (((mpinit_ends_iff (oneEntry 0) (by decide +kernel)).1).mpr ?_).1
  rintro (_ | k) hk
  · decide
  · have h64 : 64 ≤ (oneEntry 0).entryAt (k + 1) := (oneEntry 0).entryAt_mono (Nat.succ_pos k)
    exact absurd hk (not_lt.mpr h64)

/-- An entry of type 5 is neither passed nor reported. -/
theorem mpinit_hangs_oneEntry :
    (oneEntry 5).mpconfig = true ∧ ¬(oneEntry 5).Known ∧ ∀ n, mpinit (oneEntry 5) n = none := by
  have hconf : (oneEntry 5).mpconfig = true := by decide +kernel
  have hk : ¬(oneEntry 5).Known := fun h => absurd (h 0) (by decide)
  exact ⟨hconf, hk, mpinit_of_unknown hconf hk⟩

end Xv6.Boot
