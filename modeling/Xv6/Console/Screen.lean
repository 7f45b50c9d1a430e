import Xv6.Lib.Fallible
import Xv6.Strings.Memmove

/-!
# The screen

`cgaputc` writes a character to the text screen of the console and moves the cursor, whose position
two registers of the CRT controller hold. The screen has 25 rows of 80 cells; a cell is a character
and its colours. Only 24 rows are used: behind the last of them the screen scrolls.
-/

namespace Xv6.Console

open Fallible Strings

/-- `BACKSPACE` -/
def BACKSPACE : UInt32 := 0x100

/-- `P2V(0xb8000)`, the address of the first cell. -/
def crt : UInt32 := 0x800b8000

/-- The bytes at all addresses, and registers 14 and 15 of the controller. -/
structure Cga where
  mem : Bytes
  hi : UInt8
  lo : UInt8

/-- The position that `cgaputc` reads: column + 80 * row. -/
def Cga.pos (s : Cga) : Int := (s.hi.toNat <<< 8 ||| s.lo.toNat : Nat)

/-- `crt + pos` -/
def cellAt (pos : Int) : UInt32 := crt + UInt32.ofInt (2 * pos)

/-- `crt[pos] = v` -/
def setCell (m : Bytes) (pos : Int) (v : UInt16) : Bytes :=
  Function.update (Function.update m (cellAt pos) v.toUInt8) (cellAt pos + 1) (v >>> 8).toUInt8

/-- The first `if` of `cgaputc`, for the 32 bits of its `int c`. -/
def put (c : UInt32) (m : Bytes) (pos : Int) : Bytes × Int :=
  if c = 10 then (m, pos + (80 - pos.tmod 80))
  else if c = BACKSPACE then (m, if pos > 0 then pos - 1 else pos)
  else (setCell m pos ((c &&& 0xff) ||| 0x0700).toUInt16, pos + 1)

/-- `sizeof(crt[0])*(24*80 - pos)`, a `uint`. -/
def clearLen (pos : Int) : UInt32 := 2 * UInt32.ofInt (24 * 80 - pos)

def scroll (m : Bytes) (pos : Int) : Bytes × Int :=
  let m := memmove m crt (cellAt 80) (2 * 23 * 80)
  let pos := pos - 80
  (memset m (cellAt pos) 0 (clearLen pos), pos)

def cgaputc (c : UInt32) (s : Cga) : Except String Cga :=
  let (m, pos) := put c s.mem s.pos
  if pos < 0 ∨ pos > 25 * 80 then
    .error "pos under/overflow"
  else
    let (m, pos) := if pos.tdiv 80 ≥ 24 then scroll m pos else (m, pos)
    .ok ⟨setCell m pos 0x0720, UInt8.ofInt (pos >>> (8 : Nat)), UInt8.ofInt pos⟩

/-- The characters in turn. -/
def cgaputs : List UInt32 → Cga → Except String Cga
  | [], s => .ok s
  | c :: cs, s => cgaputc c s >>= cgaputs cs

/-- The character and the colours of the cell `i`. -/
def cell (m : Bytes) (i : Nat) : UInt8 × UInt8 :=
  (m (crt + .ofNat (2 * i)), m (crt + .ofNat (2 * i + 1)))

/-- What one character does to the screen. -/
structure Shown (c : UInt32) (s t : Cga) : Prop where
  pos_nonneg : 0 ≤ t.pos
  pos_lt : t.pos < 24 * 80
  /-- Nothing outside the first 24 rows is written. -/
  outside : ∀ o : UInt32, 2 * (24 * 80) ≤ o.toNat → t.mem (crt + o) = s.mem (crt + o)
  /-- The length for `memset` is the one meant. -/
  length : 24 ≤ (put c s.mem s.pos).2.tdiv 80 →
    ((clearLen ((put c s.mem s.pos).2 - 80)).toNat : Int) =
      2 * (24 * 80 - ((put c s.mem s.pos).2 - 80))
  /-- Every row but the first moves up. -/
  rows : 24 ≤ (put c s.mem s.pos).2.tdiv 80 → ∀ row < 23, ∀ col < 80,
    cell t.mem (80 * row + col) = cell (put c s.mem s.pos).1 (80 * (row + 1) + col)
  /-- The last row has no characters: the first cell is a space, the others are zero. -/
  blank : 24 ≤ (put c s.mem s.pos).2.tdiv 80 → ∀ col < 80,
    cell t.mem (80 * 23 + col) = if col = 0 then (0x20, 7) else (0, 0)

variable {c : UInt32} {s : Cga} {m : Bytes} {pos : Int} {v : UInt16} {i : Nat}

/-! ### Cells -/

lemma cellAt_natCast (i : Nat) : cellAt i = crt + .ofNat (2 * i) := by
  have hcast : UInt32.ofInt (2 * (i : Int)) = .ofNat (2 * i) := by
    apply UInt32.toNat_inj.mp
    rw [UInt32.ofInt, UInt32.toNat_ofNat', UInt32.toNat_ofNat']
    omega
  rw [cellAt, hcast]

lemma setCell_apply (hi : i < 24 * 80) (o : UInt32) : setCell m i v (crt + o) =
    if o.toNat = 2 * i + 1 then (v >>> 8).toUInt8
    else if o.toNat = 2 * i then v.toUInt8
    else m (crt + o) := by
  have hoffset : ∀ k < 2 ^ 32, crt + o = crt + .ofNat k ↔ o.toNat = k := by
    intro k hk
    rw [UInt32.add_right_inj, ← UInt32.toNat_inj, UInt32.toNat_ofNat', Nat.mod_eq_of_lt hk]
  have hnext : cellAt i + 1 = crt + .ofNat (2 * i + 1) := by
    rw [cellAt_natCast, UInt32.add_assoc, UInt32.ofNat_add]
    rfl
  rw [setCell, hnext, cellAt_natCast, Function.update_apply, Function.update_apply]
  simp only [hoffset _ (show 2 * i + 1 < 2 ^ 32 by omega), hoffset _ (show 2 * i < 2 ^ 32 by omega)]

lemma setCell_outside (hi : i < 24 * 80) {o : UInt32} (ho : 2 * (24 * 80) ≤ o.toNat) :
    setCell m i v (crt + o) = m (crt + o) := by
  rw [setCell_apply hi, if_neg (by omega), if_neg (by omega)]

/-! ### The cursor -/

lemma pos_nonneg (s : Cga) : 0 ≤ s.pos := Int.natCast_nonneg _

/-- The two registers hold a position. -/
lemma pos_registers (hi : i < 2 ^ 16) :
    Cga.pos ⟨m, UInt8.ofInt ((i : Int) >>> (8 : Nat)), UInt8.ofInt i⟩ = i := by
  have hhi : (UInt8.ofInt ((i : Int) >>> (8 : Nat))).toNat = i / 256 := by
    rw [UInt8.ofInt, UInt8.toNat_ofNat', Int.shiftRight_eq_div_pow]
    omega
  have hlo : (UInt8.ofInt i).toNat = i % 256 := by
    rw [UInt8.ofInt, UInt8.toNat_ofNat']
    omega
  rw [Cga.pos, hhi, hlo, ← Nat.shiftLeft_add_eq_or_of_lt (Nat.mod_lt _ (by decide)),
    Nat.shiftLeft_eq]
  omega

/-- Before it scrolls, the cursor is at most behind the last row. -/
lemma put_bounds (c : UInt32) (m : Bytes) (h0 : 0 ≤ pos) (hlt : pos < 24 * 80) :
    0 ≤ (put c m pos).2 ∧ (put c m pos).2 ≤ 24 * 80 := by
  rw [put]
  split
  case isTrue =>
    rw [Int.tmod_eq_emod_of_nonneg h0]
    dsimp only
    omega
  case isFalse =>
    split
    case isTrue =>
      dsimp only
      split <;> omega
    case isFalse =>
      dsimp only
      omega

lemma put_outside (c : UInt32) (m : Bytes) (h0 : 0 ≤ pos) (hlt : pos < 24 * 80) {o : UInt32}
    (ho : 2 * (24 * 80) ≤ o.toNat) : (put c m pos).1 (crt + o) = m (crt + o) := by
  obtain ⟨i, rfl⟩ := Int.eq_ofNat_of_zero_le h0
  rw [put]
  split
  case isTrue => rfl
  case isFalse =>
    split
    case isTrue => rfl
    case isFalse => exact setCell_outside (by omega) ho

/-! ### The scroll -/

/-- The screen scrolls only from the position behind the last row. -/
lemma scrolls_iff (h0 : 0 ≤ pos) (hle : pos ≤ 24 * 80) : 24 ≤ pos.tdiv 80 ↔ pos = 24 * 80 := by
  rw [Int.tdiv_eq_ediv_of_nonneg h0]
  omega

lemma scroll_eq (m : Bytes) : scroll m (24 * 80) =
    (memset (memmove m crt (crt + 160) 3680) (crt + 3680) 0 160, 23 * 80) := by
  have hrow : cellAt 80 = crt + 160 := by decide
  have hlast : cellAt (24 * 80 - 80) = crt + 3680 := by decide
  have hlen : clearLen (24 * 80 - 80) = 160 := by decide
  rw [scroll, hrow, hlast, hlen]
  rfl

/-- The bytes of the screen after the scroll. -/
lemma scroll_apply (m : Bytes) (o : UInt32) : (scroll m (24 * 80)).1 (crt + o) =
    if o.toNat < 3680 then m (crt + (160 + o)) else if o.toNat < 3840 then 0 else m (crt + o) := by
  have hdist : crt + o - (crt + 3680) = o - 3680 := by grind
  have hlast : (o - 3680).toNat < (160 : UInt32).toNat ↔ 3680 ≤ o.toNat ∧ o.toNat < 3840 := by
    have := o.toNat_lt
    rw [UInt32.toNat_sub]
    simp only [UInt32.reduceToNat]
    omega
  rw [scroll_eq]
  dsimp only
  rw [memset_apply, hdist]
  simp only [hlast]
  by_cases hup : o.toNat < 3680
  · rw [if_neg (by omega), if_pos hup, ← UInt32.add_assoc]
    exact memmove_inside (by decide) (by decide) hup
  · rw [if_neg hup]
    have hkept : memmove m crt (crt + 160) 3680 (crt + o) = m (crt + o) := by
      apply memmove_outside
      have hsub : crt + o - crt = o := by grind
      rw [hsub]
      exact Nat.le_of_not_lt hup
    rw [hkept]
    split <;> split <;> first | rfl | omega

/-- The memory after the scroll, with the cursor drawn. -/
def scrolled (m : Bytes) : Bytes := setCell (scroll m (24 * 80)).1 (23 * 80 : Nat) 0x0720

lemma scrolled_apply {k : Nat} (hk : k < 3840) : scrolled m (crt + .ofNat k) =
    if k < 3680 then m (crt + .ofNat (160 + k))
    else if k = 3681 then 7 else if k = 3680 then 0x20 else 0 := by
  have hnat : (UInt32.ofNat k).toNat = k :=
    UInt32.toNat_ofNat_of_lt' (Nat.lt_trans hk (by decide))
  rw [scrolled, setCell_apply (by decide), scroll_apply, hnat, if_pos hk]
  by_cases hup : k < 3680
  · rw [if_neg (by omega), if_neg (by omega), if_pos hup, if_pos hup, UInt32.ofNat_add]
    rfl
  · rw [if_neg hup, if_neg hup]
    rfl

lemma scrolled_rows {row col : Nat} (hrow : row < 23) (hcol : col < 80) :
    cell (scrolled m) (80 * row + col) = cell m (80 * (row + 1) + col) := by
  have hcell : 2 * (80 * (row + 1) + col) = 160 + 2 * (80 * row + col) := by omega
  rw [cell, cell, hcell, scrolled_apply (by omega), scrolled_apply (by omega),
    if_pos (by omega), if_pos (by omega), Nat.add_assoc]

lemma scrolled_blank {col : Nat} (hcol : col < 80) :
    cell (scrolled m) (80 * 23 + col) = if col = 0 then (0x20, 7) else (0, 0) := by
  rw [cell, scrolled_apply (by omega), scrolled_apply (by omega), if_neg (by omega),
    if_neg (by omega)]
  by_cases hfirst : col = 0
  · rw [hfirst]
    rfl
  · rw [if_neg (by omega), if_neg (by omega), if_neg (by omega), if_neg (by omega), if_neg hfirst]

lemma scrolled_outside {o : UInt32} (ho : 2 * (24 * 80) ≤ o.toNat) :
    scrolled m (crt + o) = m (crt + o) := by
  rw [scrolled, setCell_outside (by decide) ho, scroll_apply, if_neg (by omega), if_neg (by omega)]

/-! ### One character -/

lemma cgaputc_of_lt (hi : i < 24 * 80) (h : (put c s.mem s.pos).2 = i) : cgaputc c s =
    .ok ⟨setCell (put c s.mem s.pos).1 i 0x0720, UInt8.ofInt ((i : Int) >>> (8 : Nat)),
      UInt8.ofInt i⟩ := by
  have hnot : ¬24 ≤ (i : Int).tdiv 80 := by
    rw [scrolls_iff (by omega) (by omega)]
    omega
  rw [cgaputc]
  dsimp only
  rw [h, if_neg (by omega), if_neg hnot]

lemma cgaputc_of_eq (h : (put c s.mem s.pos).2 = 24 * 80) : cgaputc c s =
    .ok ⟨scrolled (put c s.mem s.pos).1, UInt8.ofInt (((23 * 80 : Nat) : Int) >>> (8 : Nat)),
      UInt8.ofInt (23 * 80 : Nat)⟩ := by
  rw [cgaputc]
  dsimp only
  rw [h, if_neg (by decide), if_pos (by decide), scrolled, scroll_eq]
  rfl

/-- From a position in the first 24 rows `cgaputc` returns to one. -/
lemma cgaputc_shown (c : UInt32) (h : s.pos < 24 * 80) :
    ∃ t, cgaputc c s = .ok t ∧ Shown c s t := by
  obtain ⟨h0, hle⟩ := put_bounds c s.mem (pos_nonneg s) h
  have hkept {o : UInt32} (ho : 2 * (24 * 80) ≤ o.toNat) :=
    put_outside c s.mem (pos_nonneg s) h ho
  by_cases hend : (put c s.mem s.pos).2 = 24 * 80
  · have hpos : Cga.pos ⟨scrolled (put c s.mem s.pos).1,
        UInt8.ofInt (((23 * 80 : Nat) : Int) >>> (8 : Nat)), UInt8.ofInt (23 * 80 : Nat)⟩ =
        (23 * 80 : Nat) := pos_registers (by decide)
    refine ⟨_, cgaputc_of_eq hend, pos_nonneg _, ?_, fun o ho => ?_, fun _ => ?_,
      fun _ row hrow col hcol => ?_, fun _ col hcol => ?_⟩
    · rw [hpos]
      decide
    · exact (scrolled_outside ho).trans (hkept ho)
    · rw [hend]
      decide
    · exact scrolled_rows hrow hcol
    · exact scrolled_blank hcol
  · obtain ⟨i, hi⟩ := Int.eq_ofNat_of_zero_le h0
    have hlt : i < 24 * 80 := by omega
    have hnot : ¬24 ≤ (put c s.mem s.pos).2.tdiv 80 := (scrolls_iff h0 hle).not.mpr hend
    have hpos : Cga.pos ⟨setCell (put c s.mem s.pos).1 i 0x0720,
        UInt8.ofInt ((i : Int) >>> (8 : Nat)), UInt8.ofInt i⟩ = i := pos_registers (by omega)
    refine ⟨_, cgaputc_of_lt hlt hi, pos_nonneg _, ?_, fun o ho => ?_, fun h' => absurd h' hnot,
      fun h' => absurd h' hnot, fun h' => absurd h' hnot⟩
    · rw [hpos]
      omega
    · exact (setCell_outside hlt ho).trans (hkept ho)

/-! ### All characters -/

lemma cgaputs_ok (cs : List UInt32) (h : s.pos < 24 * 80) :
    ∃ t, cgaputs cs s = .ok t ∧ t.pos < 24 * 80 := by
  induction cs generalizing s with
  | nil => exact ⟨s, rfl, h⟩
  | cons c cs ih =>
    obtain ⟨t, ht, hshown⟩ := cgaputc_shown c h
    obtain ⟨u, hu, hpos⟩ := ih hshown.pos_lt
    refine ⟨u, ?_, hpos⟩
    rw [cgaputs, ht, ok_bind, hu]

/-- Whatever characters come from a position in the first 24 rows, newlines and backspaces among
them, there is no panic, and each one leaves the cursor there, writes nothing outside these rows and
scrolls as it should. -/
theorem cgaputc_after_any (s : Cga) (h : s.pos < 24 * 80) (cs : List UInt32) (c : UInt32) :
    ∃ t u, cgaputs cs s = .ok t ∧ cgaputc c t = .ok u ∧ Shown c t u := by
  obtain ⟨t, ht, hpos⟩ := cgaputs_ok cs h
  obtain ⟨u, hu, hshown⟩ := cgaputc_shown c hpos
  exact ⟨t, u, ht, hu, hshown⟩

/-- A newline in the last row. -/
theorem cgaputc_after_last_row : ∃ t u, cgaputs [0x61] ⟨fun _ => 0, 7, 100⟩ = .ok t ∧
    cgaputc 10 t = .ok u ∧ Shown 10 t u :=
  cgaputc_after_any _ (by decide) [0x61] 10

end Xv6.Console
