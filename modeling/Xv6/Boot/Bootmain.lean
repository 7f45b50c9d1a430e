import Mathlib.Algebra.GroupWithZero.Nat
import Mathlib.Data.Nat.Find
import Mathlib.Order.Monotone.Basic

/-!
# The boot loader

`bootmain.c`: the first page of the kernel's image is read to scratch space, and the program headers
in it say where the segments go. A sector is read as a whole, so that a segment is followed by up to
511 more bytes of the file, which the zeroing of its end and the segments read later overwrite.

Addresses are 32 bits wide. A number of iterations stands for the time that the loops are given.
Waiting for the disk and the jump to the kernel are left out.
-/

namespace Xv6.Boot

def SECTSIZE : Nat := 512

def ELFMAGIC : UInt32 := 0x464C457F

/-- `elf`, the scratch space. -/
def ELF : UInt32 := 0x10000

/-- The bytes of physical memory. -/
abbrev Memory := UInt32 → UInt8

/-- The bytes of the disk. -/
abbrev Drive := Nat → UInt8

/-- `readsect(dst, offset)`: the disk takes 28 bits of the sector number. -/
def readsect (k : Drive) (m : Memory) (dst : UInt32) (offset : Nat) : Memory := fun a =>
  if (a - dst).toNat < SECTSIZE then k (SECTSIZE * (offset % 2 ^ 28) + (a - dst).toNat) else m a

/-- The loop of `readseg`, if it ends within `n` iterations. -/
def readsects (k : Drive) : Nat → Memory → (pa epa : UInt32) → Nat → Option Memory
  | 0, m, pa, epa, _ => if pa < epa then none else some m
  | n + 1, m, pa, epa, offset =>
    if pa < epa then readsects k n (readsect k m pa offset) (pa + 512) epa (offset + 1) else some m

def readseg (k : Drive) (n : Nat) (m : Memory) (pa count offset : UInt32) : Option Memory :=
  readsects k n m (pa - offset % 512) (pa + count) ((offset / 512).toNat + 1)

/-- `stosb(addr, 0, cnt)` -/
def stosb (m : Memory) (addr cnt : UInt32) : Memory := fun a =>
  if (a - addr).toNat < cnt.toNat then 0 else m a

/-- The `ushort` at an address. -/
def half (m : Memory) (a : UInt32) : UInt32 := .ofNat ((m a).toNat + 256 * (m (a + 1)).toNat)

/-- The `uint` at an address. -/
def word (m : Memory) (a : UInt32) : UInt32 :=
  half m a + 65536 * half m (a + 2)

/-- The fields of a `struct proghdr` that the loader uses. -/
structure Proghdr where
  off : UInt32
  paddr : UInt32
  filesz : UInt32
  memsz : UInt32

def proghdr (m : Memory) (ph : UInt32) : Proghdr :=
  ⟨word m (ph + 4), word m (ph + 12), word m (ph + 16), word m (ph + 20)⟩

/-- `stosb` of what the file has not, if there is any. -/
def zeroEnd (m : Memory) (pa : UInt32) (ph : Proghdr) : Memory :=
  if ph.memsz > ph.filesz then stosb m (pa + ph.filesz) (ph.memsz - ph.filesz) else m

/-- The body of the loop over the program headers. -/
def loadSegment (k : Drive) (n : Nat) (m : Memory) (ph : UInt32) : Option Memory := do
  let pa := (proghdr m ph).paddr
  let m ← readseg k n m pa (proghdr m ph).filesz (proghdr m ph).off
  pure (zeroEnd m pa (proghdr m ph))

/-- The loop over the program headers, if it ends within the given number of iterations. -/
def loadSegments (k : Drive) (n : Nat) : Nat → Memory → (ph eph : UInt32) → Option Memory
  | 0, m, ph, eph => if ph < eph then none else some m
  | i + 1, m, ph, eph =>
    if ph < eph then do
      let m ← loadSegment k n m ph
      loadSegments k n i m (ph + 32) eph
    else some m

def bootmain (k : Drive) (n : Nat) (m : Memory) : Option Memory := do
  let m ← readseg k n m ELF 4096 0
  if word m ELF ≠ ELFMAGIC then some m
  else
    let ph := ELF + word m (ELF + 28)
    loadSegments k n n m ph (ph + 32 * half m (ELF + 44))

/-! ### Images -/

/-- The kernel's image, which starts at sector 1, as if it lay at `ELF`. -/
def image (k : Drive) : Memory := fun a => k (SECTSIZE + (a - ELF).toNat)

def phnum (k : Drive) : Nat := (half (image k) (ELF + 44)).toNat

/-- The address of a program header. -/
def phAddr (k : Drive) (i : Nat) : UInt32 := ELF + word (image k) (ELF + 28) + 32 * .ofNat i

def segment (k : Drive) (i : Nat) : Proghdr := proghdr (image k) (phAddr k i)

/-- The file of a kernel: the headers lie in its first page, the segments above the scratch page, in
order, within the address space and at the start of a sector. -/
structure Image (k : Drive) : Prop where
  magic : word (image k) ELF = ELFMAGIC
  headers : (word (image k) (ELF + 28)).toNat + 32 * phnum k ≤ 4096
  above : ∀ i < phnum k, ELF.toNat + 4096 ≤ (segment k i).paddr.toNat
  inside : ∀ i < phnum k, (segment k i).paddr.toNat + (segment k i).memsz.toNat ≤ 2 ^ 32
  filesz : ∀ i < phnum k, (segment k i).filesz.toNat ≤ (segment k i).memsz.toNat
  sorted : ∀ i j, i < j → j < phnum k →
    (segment k i).paddr.toNat + (segment k i).memsz.toNat ≤ (segment k j).paddr.toNat
  aligned : ∀ i < phnum k, (segment k i).off.toNat % SECTSIZE = 0

/-- The segment's memory is its bytes of the file and zeros behind them. -/
def Loaded (k : Drive) (m : Memory) (ph : Proghdr) : Prop :=
  ∀ i : UInt32, i < ph.memsz → m (ph.paddr + i) =
    if i < ph.filesz then k (SECTSIZE + ph.off.toNat + i.toNat) else 0

namespace Proghdr

/-- The sectors of a segment. -/
def sectors (ph : Proghdr) : Nat := (ph.filesz.toNat + 511) / 512

/-- The sectors of the segment end below the end of the address space. -/
def Fits (ph : Proghdr) : Prop := ph.filesz = 0 ∨ ph.paddr.toNat + 512 * ph.sectors < 2 ^ 32

/-- Memory after the segment was loaded. -/
def load (k : Drive) (m : Memory) (ph : Proghdr) : Memory := fun a =>
  if ph.filesz.toNat ≤ (a - ph.paddr).toNat ∧ (a - ph.paddr).toNat < ph.memsz.toNat then 0
  else if (a - ph.paddr).toNat < 512 * ph.sectors then
    k (SECTSIZE + ph.off.toNat + (a - ph.paddr).toNat)
  else m a

end Proghdr

variable {k : Drive} {m : Memory} {pa epa a : UInt32} {ph : Proghdr} {i j n q offset : Nat}

/-! ### Sectors -/

lemma readsect_apply (k : Drive) (m : Memory) (dst : UInt32) (a : UInt32) (h : offset < 2 ^ 28) :
    readsect k m dst offset a =
      if (a - dst).toNat < 512 then k (512 * offset + (a - dst).toNat) else m a := by
  rw [readsect, Nat.mod_eq_of_lt h]
  rfl

lemma readsects_eq (hfit : pa.toNat + 512 * q < 2 ^ 32) (hle : epa.toNat ≤ pa.toNat + 512 * q)
    (hlast : q = 0 ∨ pa.toNat + 512 * (q - 1) < epa.toNat) (hoff : offset + q ≤ 2 ^ 28) :
    readsects k n m pa epa offset = if q ≤ n then some fun a =>
      if (a - pa).toNat < 512 * q then k (512 * offset + (a - pa).toNat) else m a else none := by
  have hlt : pa < epa ↔ pa.toNat < epa.toNat := UInt32.lt_iff_toNat_lt
  induction n generalizing m pa offset q with
  | zero =>
    rw [readsects]
    rcases Nat.eq_zero_or_pos q with rfl | hq
    · rw [if_neg fun h => absurd (hlt.mp h) (by omega), if_pos (Nat.le_refl _)]
      simp
    · rw [if_pos (hlt.mpr (by omega)), if_neg (by omega)]
  | succ n ih =>
    rw [readsects]
    rcases Nat.eq_zero_or_pos q with rfl | hq
    · rw [if_neg fun h => absurd (hlt.mp h) (by omega), if_pos (Nat.zero_le _)]
      simp
    · have hnext : (pa + 512).toNat = pa.toNat + 512 := by
        have h512 : (512 : UInt32).toNat = 512 := rfl
        rw [UInt32.toNat_add, h512]
        omega
      rw [if_pos (hlt.mpr (by omega)), @ih _ (pa + 512) (q - 1) (offset + 1) (by omega) (by omega)
        (by omega) (by omega) UInt32.lt_iff_toNat_lt]
      by_cases hn : q ≤ n + 1
      · rw [if_pos hn, if_pos (by omega)]
        refine congrArg some (funext fun a => ?_)
        have hsub : (a - (pa + 512)).toNat = ((a - pa).toNat + 2 ^ 32 - 512) % 2 ^ 32 := by
          have := a.toNat_lt
          have := pa.toNat_lt
          simp only [UInt32.toNat_sub, hnext]
          omega
        have := (a - pa).toNat_lt
        rw [readsect_apply k m pa a (by omega), hsub]
        by_cases h1 : (a - pa).toNat < 512
        · rw [if_neg (by omega), if_pos h1, if_pos (by omega)]
        · by_cases h2 : (a - pa).toNat < 512 * q
          · rw [if_pos (by omega), if_pos h2]
            exact congrArg k (by omega)
          · rw [if_neg (by omega), if_neg h1, if_neg h2]
      · rw [if_neg hn, if_neg (by omega)]

/-- If the last sector reaches the end of the address space, `pa` starts again at 0 and never comes
to `epa`. -/
lemma readsects_hangs (hlast : pa.toNat + 512 * (q - 1) < epa.toNat)
    (hwrap : 2 ^ 32 ≤ pa.toNat + 512 * q) : readsects k n m pa epa offset = none := by
  have hpos : 0 < q := by
    have := pa.toNat_lt
    omega
  -- all that matters of `pa` is its distance from a sector boundary
  have hlt : ∀ p : UInt32, p.toNat % 512 = pa.toNat % 512 → p < epa := fun p hp => by
    have := p.toNat_lt
    rw [UInt32.lt_iff_toNat_lt]
    omega
  suffices h : ∀ p : UInt32, p.toNat % 512 = pa.toNat % 512 →
      readsects k n m p epa offset = none from h pa rfl
  intro p hp
  induction n generalizing m p offset with
  | zero => rw [readsects, if_pos (hlt p hp)]
  | succ n ih =>
    rw [readsects, if_pos (hlt p hp)]
    apply ih
    have h512 : (512 : UInt32).toNat = 512 := rfl
    rw [UInt32.toNat_add, h512]
    omega

/-! ### One segment -/

namespace Proghdr

lemma sectors_spec (ph : Proghdr) : ph.filesz.toNat ≤ 512 * ph.sectors ∧
    (ph.sectors = 0 ∨ 512 * (ph.sectors - 1) < ph.filesz.toNat) ∧ ph.sectors ≤ 2 ^ 23 := by
  have := ph.filesz.toNat_lt
  rw [sectors]
  omega

lemma Fits.lt (h : ph.Fits) : ph.paddr.toNat + 512 * ph.sectors < 2 ^ 32 := by
  rcases h with h | h
  · have := ph.paddr.toNat_lt
    have hzero : ph.filesz.toNat = 0 := by rw [h]; rfl
    rw [sectors, hzero]
    omega
  · exact h

end Proghdr

lemma readseg_eq_readsects (hal : ph.off.toNat % 512 = 0) :
    readseg k n m ph.paddr ph.filesz ph.off =
      readsects k n m ph.paddr (ph.paddr + ph.filesz) (ph.off.toNat / 512 + 1) := by
  have hmod : ph.off % 512 = 0 := by
    rw [← UInt32.toNat_inj, UInt32.toNat_mod]
    exact hal
  rw [readseg, hmod, UInt32.sub_zero, UInt32.toNat_div]
  rfl

lemma readseg_eq (ph : Proghdr) (hal : ph.off.toNat % 512 = 0) (hfit : ph.Fits) :
    readseg k n m ph.paddr ph.filesz ph.off = if ph.sectors ≤ n then some fun a =>
      if (a - ph.paddr).toNat < 512 * ph.sectors then
        k (512 + ph.off.toNat + (a - ph.paddr).toNat) else m a else none := by
  have hlt := hfit.lt
  have := ph.off.toNat_lt
  obtain ⟨h1, h2, h3⟩ := ph.sectors_spec
  have hepa : (ph.paddr + ph.filesz).toNat = ph.paddr.toNat + ph.filesz.toNat := by
    rw [UInt32.toNat_add]
    omega
  have hoff : 512 * (ph.off.toNat / 512 + 1) = 512 + ph.off.toNat := by omega
  rw [readseg_eq_readsects hal, readsects_eq hlt (by omega) (by omega) (by omega), hoff]

lemma zeroEnd_apply (hle : ph.filesz.toNat ≤ ph.memsz.toNat) :
    zeroEnd m ph.paddr ph a =
      if ph.filesz.toNat ≤ (a - ph.paddr).toNat ∧ (a - ph.paddr).toNat < ph.memsz.toNat then 0
      else m a := by
  have hsub : a - (ph.paddr + ph.filesz) = a - ph.paddr - ph.filesz := by grind
  have := (a - ph.paddr).toNat_lt
  have := ph.memsz.toNat_lt
  have hcond : ph.memsz > ph.filesz ↔ ph.filesz.toNat < ph.memsz.toNat := UInt32.lt_iff_toNat_lt
  rw [zeroEnd]
  by_cases h : ph.memsz > ph.filesz
  · have hlt := hcond.mp h
    rw [if_pos h, stosb, hsub, UInt32.toNat_sub, UInt32.toNat_sub ph.memsz]
    exact if_congr (by omega) rfl rfl
  · rw [if_neg h, if_neg fun h' => h (hcond.mpr (by omega))]

/-- Reading a segment whose sectors fit, and zeroing its end. -/
lemma load_eq (hal : ph.off.toNat % 512 = 0) (hfit : ph.Fits)
    (hle : ph.filesz.toNat ≤ ph.memsz.toNat) :
    (readseg k n m ph.paddr ph.filesz ph.off).map (zeroEnd · ph.paddr ph) =
      if ph.sectors ≤ n then some (ph.load k m) else none := by
  rw [readseg_eq ph hal hfit]
  split_ifs
  · exact congrArg some (funext fun a => zeroEnd_apply hle)
  · rfl

lemma load_loaded (k : Drive) (m : Memory) (ph : Proghdr) : Loaded k (ph.load k m) ph := by
  intro i hi
  have hsub : ph.paddr + i - ph.paddr = i := by grind
  obtain ⟨h1, -, -⟩ := ph.sectors_spec
  rw [UInt32.lt_iff_toNat_lt] at hi
  have hcond : i < ph.filesz ↔ i.toNat < ph.filesz.toNat := UInt32.lt_iff_toNat_lt
  rw [Proghdr.load, hsub]
  by_cases hf : i < ph.filesz
  · have := hcond.mp hf
    rw [if_pos hf, if_neg (by omega), if_pos (by omega)]
  · rw [if_neg hf, if_pos ⟨Nat.not_lt.mp fun h => hf (hcond.mpr h), hi⟩]

lemma load_outside (hm : ph.memsz.toNat ≤ (a - ph.paddr).toNat)
    (hs : 512 * ph.sectors ≤ (a - ph.paddr).toNat) : ph.load k m a = m a := by
  rw [Proghdr.load, if_neg (by omega), if_neg (by omega)]

lemma below_apart (hfit : ph.Fits) (ha : a.toNat < ph.paddr.toNat) :
    512 * ph.sectors ≤ (a - ph.paddr).toNat := by
  have hlt := hfit.lt
  rw [UInt32.toNat_sub]
  omega

lemma load_below (hfit : ph.Fits) (hin : ph.paddr.toNat + ph.memsz.toNat ≤ 2 ^ 32)
    (ha : a.toNat < ph.paddr.toNat) : ph.load k m a = m a := by
  refine load_outside ?_ (below_apart hfit ha)
  rw [UInt32.toNat_sub]
  omega

/-! ### The headers -/

/-- The first page of the image is in the scratch space. -/
def Header (k : Drive) (m : Memory) : Prop := ∀ a, (a - ELF).toNat < 4096 → m a = image k a

lemma sub_ELF (a : UInt32) : (a - ELF).toNat = (2 ^ 32 - 65536 + a.toNat) % 2 ^ 32 :=
  UInt32.toNat_sub a ELF

lemma Header.half (h : Header k m) (ha : (a - ELF).toNat + 2 ≤ 4096) :
    half m a = half (image k) a := by
  have h1 : (a + 1 - ELF).toNat < 4096 := by
    have hsub : a + 1 - ELF = a - ELF + 1 := by grind
    rw [hsub, UInt32.toNat_add, UInt32.toNat_one]
    omega
  rw [Boot.half, h a (by omega), h (a + 1) h1, Boot.half]

lemma Header.word (h : Header k m) (ha : (a - ELF).toNat + 4 ≤ 4096) :
    word m a = word (image k) a := by
  have h2 : (a + 2 - ELF).toNat + 2 ≤ 4096 := by
    have hsub : a + 2 - ELF = a - ELF + 2 := by grind
    have htwo : (2 : UInt32).toNat = 2 := rfl
    rw [hsub, UInt32.toNat_add, htwo]
    omega
  rw [Boot.word, h.half (by omega), h.half h2, Boot.word]

lemma Image.phAddr_toNat (h : Image k) (hi : i ≤ phnum k) :
    (phAddr k i).toNat = 65536 + (word (image k) (ELF + 28)).toNat + 32 * i := by
  have := h.headers
  have helf : ELF.toNat = 65536 := rfl
  have h32 : (32 : UInt32).toNat = 32 := rfl
  rw [phAddr, UInt32.toNat_add, UInt32.toNat_add, UInt32.toNat_mul, helf, h32,
    UInt32.toNat_ofNat']
  omega

lemma Image.proghdr_eq (h : Image k) (hm : Header k m) (hi : i < phnum k) :
    proghdr m (phAddr k i) = segment k i := by
  have hword : ∀ o : UInt32, o.toNat + 4 ≤ 32 →
      word m (phAddr k i + o) = word (image k) (phAddr k i + o) := fun o ho => by
    have := h.headers
    apply hm.word
    rw [sub_ELF, UInt32.toNat_add, h.phAddr_toNat hi.le]
    omega
  rw [segment, proghdr, proghdr, hword 4 (by decide), hword 12 (by decide), hword 16 (by decide),
    hword 20 (by decide)]

/-- The scratch space lies below every segment. -/
lemma Image.below (h : Image k) (hi : i < phnum k) (ha : (a - ELF).toNat < 4096) :
    a.toNat < (segment k i).paddr.toNat := by
  have habove := h.above i hi
  have helf : ELF.toNat = 65536 := rfl
  have := a.toNat_lt
  rw [sub_ELF] at ha
  omega

/-! ### All segments -/

lemma Image.loadSegment_eq (h : Image k) (hm : Header k m) (hi : i < phnum k)
    (hfit : (segment k i).Fits) : loadSegment k n m (phAddr k i) =
      if (segment k i).sectors ≤ n then some ((segment k i).load k m) else none := by
  rw [← load_eq (h.aligned i hi) hfit (h.filesz i hi), loadSegment, h.proghdr_eq hm hi,
    readseg_eq _ (h.aligned i hi) hfit]
  split_ifs
  · have hread : Header k fun a => if (a - (segment k i).paddr).toNat < 512 * (segment k i).sectors
        then k (512 + (segment k i).off.toNat + (a - (segment k i).paddr).toNat) else m a :=
      fun a ha => (if_neg (Nat.not_lt.mpr (below_apart hfit (h.below hi ha)))).trans (hm a ha)
    exact congrArg (fun ph => some (zeroEnd _ _ ph)) (h.proghdr_eq hread hi)
  · rfl

/-- Memory after the first `i` segments were loaded. -/
def memAfter (k : Drive) (m : Memory) : Nat → Memory
  | 0 => m
  | i + 1 => (segment k i).load k (memAfter k m i)

lemma Image.memAfter_header (h : Image k) (hm : Header k m) (hi : i ≤ phnum k)
    (hfit : ∀ j < i, (segment k j).Fits) : Header k (memAfter k m i) := by
  induction i with
  | zero => exact hm
  | succ i ih =>
    intro a ha
    rw [memAfter, load_below (hfit i i.lt_succ_self) (h.inside i hi) (h.below hi ha)]
    exact ih (Nat.le_of_succ_le hi) (fun j hj => hfit j (hj.trans i.lt_succ_self)) a ha

/-- A segment stays loaded, since what is written later lies above it. -/
lemma Image.memAfter_loaded (h : Image k) (hi : i ≤ phnum k) (hfit : ∀ j < i, (segment k j).Fits)
    (hj : j < i) : Loaded k (memAfter k m i) (segment k j) := by
  induction i with
  | zero => exact absurd hj (Nat.not_lt_zero j)
  | succ i ih =>
    rcases Nat.lt_succ_iff_lt_or_eq.mp hj with hlt | rfl
    · intro o ho
      have hsorted := h.sorted j i hlt hi
      have hin := h.inside i hi
      rw [memAfter, load_below (hfit i i.lt_succ_self) hin]
      · exact ih (Nat.le_of_succ_le hi) (fun j hj => hfit j (hj.trans i.lt_succ_self)) hlt o ho
      · rw [UInt32.lt_iff_toNat_lt] at ho
        rw [UInt32.toNat_add]
        have := (segment k i).paddr.toNat_lt
        omega
    · exact load_loaded k _ _

/-- The last byte of the address space stays, as long as no segment reaches it. -/
lemma Image.memAfter_top (hfit : ∀ j < i, (segment k j).Fits)
    (hin : ∀ j < i, (segment k j).paddr.toNat + (segment k j).memsz.toNat < 2 ^ 32) :
    memAfter k m i 0xFFFFFFFF = m 0xFFFFFFFF := by
  induction i with
  | zero => rfl
  | succ i ih =>
    have hlt := (hfit i i.lt_succ_self).lt
    have hmem := hin i i.lt_succ_self
    have htop : (0xFFFFFFFF - (segment k i).paddr : UInt32).toNat =
        2 ^ 32 - 1 - (segment k i).paddr.toNat := by
      have hself : (0xFFFFFFFF : UInt32).toNat = 2 ^ 32 - 1 := rfl
      have := (segment k i).paddr.toNat_lt
      rw [UInt32.toNat_sub, hself]
      omega
    rw [memAfter, load_outside (by omega) (by omega)]
    exact ih (fun j hj => hfit j (hj.trans i.lt_succ_self))
      (fun j hj => hin j (hj.trans i.lt_succ_self))

lemma Image.phAddr_lt (h : Image k) (hi : i < phnum k) : phAddr k i < phAddr k (phnum k) := by
  rw [UInt32.lt_iff_toNat_lt, h.phAddr_toNat hi.le, h.phAddr_toNat le_rfl]
  omega

lemma phAddr_succ (k : Drive) (i : Nat) : phAddr k i + 32 = phAddr k (i + 1) := by
  rw [phAddr, phAddr, UInt32.ofNat_add]
  have hone : UInt32.ofNat 1 = 1 := rfl
  grind

/-- The loop over segments whose sectors fit, which ends if time suffices for each of them. -/
lemma Image.loadSegments_eq (h : Image k) (hm : Header k m) (hi : i ≤ phnum k)
    (hfit : ∀ j < i, (segment k j).Fits) (l : Nat) :
    loadSegments k n (i + l) m (phAddr k 0) (phAddr k (phnum k)) =
      if ∀ j < i, (segment k j).sectors ≤ n then
        loadSegments k n l (memAfter k m i) (phAddr k i) (phAddr k (phnum k)) else none := by
  induction i generalizing l with
  | zero => rw [if_pos nofun, Nat.zero_add, memAfter]
  | succ i ih =>
    have hfits := fun j (hj : j < i) => hfit j (hj.trans i.lt_succ_self)
    have hmi := h.memAfter_header hm (Nat.le_of_succ_le hi) hfits
    rw [Nat.succ_add_eq_add_succ, ih (Nat.le_of_succ_le hi) hfits, loadSegments,
      if_pos (h.phAddr_lt hi), h.loadSegment_eq hmi hi (hfit i i.lt_succ_self), phAddr_succ]
    by_cases hn : (segment k i).sectors ≤ n
    · rw [if_pos hn]
      refine if_congr ⟨fun hall j hj => ?_, fun hall j hj => hall j (hj.trans i.lt_succ_self)⟩
        rfl rfl
      rcases Nat.lt_succ_iff_lt_or_eq.mp hj with hlt | rfl
      · exact hall j hlt
      · exact hn
    · rw [if_neg hn]
      exact (ite_self _).trans (if_neg fun hall => hn (hall i i.lt_succ_self)).symm

/-- Memory after the headers were read. -/
def withHeader (k : Drive) (m : Memory) : Memory := fun a =>
  if (a - ELF).toNat < 4096 then image k a else m a

lemma withHeader_header (k : Drive) (m : Memory) : Header k (withHeader k m) :=
  fun _ ha => if_pos ha

lemma Image.bootmain_eq (h : Image k) (n : Nat) (m : Memory) : bootmain k n m =
    if 8 ≤ n then loadSegments k n n (withHeader k m) (phAddr k 0) (phAddr k (phnum k))
    else none := by
  have hread : readseg k n m ELF 4096 0 = if 8 ≤ n then some (withHeader k m) else none :=
    readseg_eq ⟨0, ELF, 4096, 4096⟩ rfl (.inr (by decide))
  have hm := withHeader_header k m
  rw [bootmain, hread]
  split_ifs
  · have hph0 : phAddr k 0 = ELF + word (image k) (ELF + 28) := by
      rw [phAddr]
      exact UInt32.add_zero _
    have heph : phAddr k (phnum k) = phAddr k 0 + 32 * half (image k) (ELF + 44) := by
      rw [hph0, phAddr, phnum, UInt32.ofNat_toNat]
    change (if word (withHeader k m) ELF ≠ ELFMAGIC then _ else _) = _
    rw [hm.word (by decide), h.magic, if_neg (not_not.mpr rfl), hm.word (by decide),
      hm.half (by decide), heph, hph0]
  · rfl

/-- Where the sectors of a segment do not fit, the loop does not end, or nothing is read. -/
lemma Image.loadSegment_of_not_fits (h : Image k) (hm : Header k m) (hi : i < phnum k)
    (hfit : ¬(segment k i).Fits) : loadSegment k n m (phAddr k i) = none ∨
      loadSegment k n m (phAddr k i) = some m ∧
        (segment k i).paddr.toNat + (segment k i).filesz.toNat = 2 ^ 32 := by
  have hin := h.inside i hi
  have hle := h.filesz i hi
  have hmem := h.proghdr_eq hm hi
  obtain ⟨h1, h2, -⟩ := (segment k i).sectors_spec
  simp only [Proghdr.Fits, not_or, Nat.not_lt] at hfit
  have hpos : (segment k i).filesz.toNat ≠ 0 := fun e => hfit.1 (UInt32.toNat_inj.mp e)
  rw [loadSegment, hmem, readseg_eq_readsects (h.aligned i hi)]
  generalize segment k i = ph at *
  by_cases htop : ph.paddr.toNat + ph.filesz.toNat = 2 ^ 32
  · have hepa : ph.paddr + ph.filesz = 0 := by
      rw [← UInt32.toNat_inj, UInt32.toNat_add, htop]
      rfl
    have hstop : readsects k n m ph.paddr 0 (ph.off.toNat / 512 + 1) = some m := by
      cases n <;> exact if_neg (by simp [UInt32.lt_iff_toNat_lt])
    refine .inr ⟨?_, htop⟩
    rw [hepa, hstop]
    change some (zeroEnd m ph.paddr (proghdr m (phAddr k i))) = some m
    rw [hmem, zeroEnd, if_neg]
    rw [gt_iff_lt, UInt32.lt_iff_toNat_lt]
    omega
  · have hepa : (ph.paddr + ph.filesz).toNat = ph.paddr.toNat + ph.filesz.toNat := by
      rw [UInt32.toNat_add]
      omega
    left
    rw [readsects_hangs (q := ph.sectors) (by omega) hfit.2]
    rfl

lemma Image.loadSegments_done (l : Nat) :
    loadSegments k n l m (phAddr k (phnum k)) (phAddr k (phnum k)) = some m := by
  cases l <;> exact if_neg (UInt32.lt_irrefl _)

/-- If the first segment that does not fit lets the loader end at all, it is the last one, and
nothing was read for it. -/
lemma Image.ends_at (h : Image k) (hm : Header k m) (hi : i < phnum k)
    (hbefore : ∀ j < i, (segment k j).Fits) (hfit : ¬(segment k i).Fits) {m' : Memory}
    (hrun : loadSegments k n n m (phAddr k 0) (phAddr k (phnum k)) = some m') :
    m' = memAfter k m i ∧ (segment k i).paddr.toNat + (segment k i).filesz.toNat = 2 ^ 32 := by
  rcases Nat.lt_or_ge i n with hn | hn
  · obtain ⟨l, rfl⟩ := Nat.exists_eq_add_of_lt hn
    have hmi := h.memAfter_header hm hi.le hbefore
    rw [Nat.add_assoc, h.loadSegments_eq hm hi.le hbefore, loadSegments,
      if_pos (h.phAddr_lt hi)] at hrun
    split_ifs at hrun
    rcases h.loadSegment_of_not_fits (n := i + (l + 1)) hmi hi hfit with hnone | ⟨hsome, htop⟩
    · rw [hnone] at hrun
      cases hrun
    · have hlast : i + 1 = phnum k := by
        by_contra hne
        have := h.sorted i (i + 1) i.lt_succ_self (by omega)
        have := h.filesz i hi
        have := (segment k (i + 1)).paddr.toNat_lt
        omega
      rw [hsome, phAddr_succ, hlast] at hrun
      exact ⟨Option.some.inj (hrun.symm.trans (Image.loadSegments_done l)), htop⟩
  · have hloop := h.loadSegments_eq (n := n) hm (hn.trans hi.le)
      (fun j hj => hbefore j (hj.trans_le hn)) 0
    rw [Nat.add_zero, hrun, loadSegments, if_pos (h.phAddr_lt (hn.trans_lt hi)), ite_self] at hloop
    cases hloop

/-- After the loop the memory of every segment is its bytes of the file followed by zeros, whatever
memory held before, exactly if the sectors of every segment end below the end of the address
space. -/
theorem bootmain_loads_iff (k : Drive) (h : Image k) :
    (∀ m, ∃ n m', bootmain k n m = some m' ∧ ∀ i < phnum k, Loaded k m' (segment k i)) ↔
      ∀ i < phnum k, (segment k i).Fits := by
  constructor
  · intro hload
    by_contra hnot
    simp only [not_forall] at hnot
    classical
    obtain ⟨hi, hfit⟩ := Nat.find_spec hnot
    have hbefore : ∀ j < Nat.find hnot, (segment k j).Fits := fun j hj => by
      by_contra hj'
      exact Nat.find_min hnot hj ⟨hj.trans hi, hj'⟩
    generalize Nat.find hnot = i at *
    -- a memory in which the last byte is not the one of the file
    let o := (segment k i).filesz - 1
    obtain ⟨n, m', hrun, hloaded⟩ :=
      hload fun _ => k (SECTSIZE + (segment k i).off.toNat + o.toNat) + 1
    rw [h.bootmain_eq] at hrun
    split_ifs at hrun
    obtain ⟨rfl, htop⟩ := h.ends_at (withHeader_header k _) hi hbefore hfit hrun
    have hpos : (segment k i).filesz.toNat ≠ 0 := fun e =>
      hfit (.inl (UInt32.toNat_inj.mp e))
    have ho : o.toNat = (segment k i).filesz.toNat - 1 := by
      have := (segment k i).filesz.toNat_lt
      rw [UInt32.toNat_sub, UInt32.toNat_one]
      omega
    have haddr : (segment k i).paddr + o = 0xFFFFFFFF := by
      have hself : (0xFFFFFFFF : UInt32).toNat = 2 ^ 32 - 1 := rfl
      rw [← UInt32.toNat_inj, UInt32.toNat_add, ho, hself]
      omega
    have hbyte := hloaded i hi o (UInt32.lt_iff_toNat_lt.mpr (by have := h.filesz i hi; omega))
    have hbelow : ∀ j < i, (segment k j).paddr.toNat + (segment k j).memsz.toNat < 2 ^ 32 :=
      fun j hj => (h.sorted j i hj hi).trans_lt (segment k i).paddr.toNat_lt
    rw [haddr, Image.memAfter_top hbefore hbelow, withHeader, if_neg (by decide),
      if_pos (UInt32.lt_iff_toNat_lt.mpr (by omega))] at hbyte
    exact absurd hbyte (by grind)
  · intro hfit m
    have hm := withHeader_header k m
    refine ⟨2 ^ 23, memAfter k (withHeader k m) (phnum k), ?_,
      fun i hi => h.memAfter_loaded le_rfl hfit hi⟩
    have hnum : phnum k ≤ 2 ^ 23 := by
      have := h.headers
      omega
    obtain ⟨l, hl⟩ := Nat.exists_eq_add_of_le hnum
    have hloop := h.loadSegments_eq (n := 2 ^ 23) hm le_rfl hfit l
    rw [← hl, if_pos fun j _ => (segment k j).sectors_spec.2.2, Image.loadSegments_done] at hloop
    rw [h.bootmain_eq, if_pos (by decide), hloop]

/-- A kernel with one segment, of five bytes of the file and four zeros, at the given address. -/
def oneSegment (paddr : List UInt8) : Drive := fun i =>
  if i < SECTSIZE then 0
  else ([0x7F, 0x45, 0x4C, 0x46] ++ List.replicate 24 0 ++ [52, 0, 0, 0] ++ List.replicate 12 0 ++
    [1, 0] ++ List.replicate 10 0 ++ [0, 0x10, 0, 0] ++ List.replicate 4 0 ++ paddr ++
    [5, 0, 0, 0] ++ [9, 0, 0, 0]).getD (i - SECTSIZE) 7

lemma image_of_one (hnum : phnum k = 1) (hmagic : word (image k) ELF = ELFMAGIC)
    (hheaders : (word (image k) (ELF + 28)).toNat + 32 ≤ 4096)
    (hseg : ELF.toNat + 4096 ≤ (segment k 0).paddr.toNat ∧
      (segment k 0).paddr.toNat + (segment k 0).memsz.toNat ≤ 2 ^ 32 ∧
        (segment k 0).filesz.toNat ≤ (segment k 0).memsz.toNat ∧
          (segment k 0).off.toNat % SECTSIZE = 0) : Image k := by
  have hzero : ∀ i < phnum k, i = 0 := fun i hi => by omega
  refine ⟨hmagic, hnum ▸ hheaders, ?_, ?_, ?_, fun i j hij hj => by omega, ?_⟩ <;> intro i hi <;>
    obtain rfl := hzero i hi
  exacts [hseg.1, hseg.2.1, hseg.2.2.1, hseg.2.2.2]

/-- A kernel at `0x100000`. -/
theorem bootmain_loads_low : Image (oneSegment [0, 0, 0x10, 0]) ∧
    ∀ m, ∃ n m', bootmain (oneSegment [0, 0, 0x10, 0]) n m = some m' ∧
      ∀ i < phnum (oneSegment [0, 0, 0x10, 0]),
        Loaded (oneSegment [0, 0, 0x10, 0]) m' (segment (oneSegment [0, 0, 0x10, 0]) i) := by
  have hnum : phnum (oneSegment [0, 0, 0x10, 0]) = 1 := by decide +kernel
  have himage : Image (oneSegment [0, 0, 0x10, 0]) :=
    image_of_one hnum (by decide +kernel) (by decide +kernel) (by decide +kernel)
  refine ⟨himage, (bootmain_loads_iff _ himage).mpr fun i hi => ?_⟩
  obtain rfl : i = 0 := by omega
  exact .inr (by decide +kernel)

/-- A kernel in the last sector of the address space, with which the loader never ends. -/
theorem bootmain_hangs_high : Image (oneSegment [0, 0xFE, 0xFF, 0xFF]) ∧
    ∀ n m, bootmain (oneSegment [0, 0xFE, 0xFF, 0xFF]) n m = none := by
  have hnum : phnum (oneSegment [0, 0xFE, 0xFF, 0xFF]) = 1 := by decide +kernel
  have himage : Image (oneSegment [0, 0xFE, 0xFF, 0xFF]) :=
    image_of_one hnum (by decide +kernel) (by decide +kernel) (by decide +kernel)
  have hfit : ¬(segment (oneSegment [0, 0xFE, 0xFF, 0xFF]) 0).Fits := by
    rintro (h | h) <;> exact absurd h (by decide +kernel)
  refine ⟨himage, fun n m => Option.eq_none_iff_forall_ne_some.mpr fun m' hrun => ?_⟩
  rw [himage.bootmain_eq] at hrun
  split_ifs at hrun
  have htop := (himage.ends_at (withHeader_header _ m) (by omega)
    (fun j hj => absurd hj (Nat.not_lt_zero j)) hfit hrun).2
  exact absurd htop (by decide +kernel)

end Xv6.Boot
