import Xv6.Mem.Segments

/-!
# exec is robust and atomic

For any file, `exec` reaches no panic while it loads the program; the segments of a program that has
been loaded are in the image, later ones over earlier ones; and when `exec` fails, the caller is as it
was, the inode and the transaction have been released once, and no page is lost.
-/

namespace Xv6.Program

open Fallible Recorded

variable {c : ShmField} {path bs data : List UInt8} {file : Option Reads} {reads : Reads}
  {argv : List (List UInt8)} {u u' : Caller} {d d' : PageDir} {m m' m₁ : Mem} {sz : Nat}

/-! ### No panic -/

section Avoids

variable {E : Fault → Prop} (hkfree : ¬ E (.panic "kfree")) (hnull : ¬ E .nullDeref)

include hkfree hnull

lemma bad_avoids {ip : Bool} : Avoids (bad c (some d) ip u m).result E := by
  rw [result_bad]
  exact (freevm_avoids hkfree hnull).bind fun _ _ => .ok

omit hkfree hnull in
lemma bad_none_avoids : Avoids (bad c none true u m).result E := Avoids.ok

/-- The only faults of `exec` are those of freeing a directory and of `uva2ka`. -/
lemma exec_avoids (hfree : m.FreeOk) : Avoids (exec c path file argv u m).result E := by
  refine avoids_tell ?_
  cases file with
  | none => exact Avoids.ok
  | some reads =>
    refine avoids_tell (avoids_tell ?_)
    dsimp only
    split
    · exact bad_none_avoids
    · split
      · exact bad_none_avoids
      · refine avoids_lift (setupkvm_avoids hkfree hnull) ?_
        rintro ⟨_ | d₀, m₀⟩ setup
        · exact bad_none_avoids
        · have hstart := loading_setupkvm hfree setup
          refine avoids_lift (loadSegments_avoids hkfree hnull hfree hstart 0) ?_
          rintro ⟨_ | sz₁, d₁, m₁⟩ segments
          · exact bad_avoids hkfree hnull
          · have hload := (loadSegments_loading hfree hstart 0 _ segments).2 sz₁ rfl
            refine avoids_tell (avoids_tell (avoids_lift (allocStack_avoids hkfree hnull hload) ?_))
            rintro ⟨_ | sz, d, m₂⟩ -
            · exact bad_avoids hkfree hnull
            · refine avoids_lift (pushStack_avoids hnull) ?_
              rintro ⟨_ | esp, m₃⟩ -
              · exact bad_avoids hkfree hnull
              · exact avoids_lift (freevm_avoids hkfree hnull) fun _ _ => Avoids.ok

end Avoids

/-! ### The segments -/

lemma foldr_littleEndian_lt (l : List UInt8) :
    l.foldr (fun b a => b.toNat + 256 * a) 0 < 256 ^ l.length := by
  induction l with
  | nil => decide
  | cons b l ih =>
    have hb := b.toNat_lt
    rw [List.foldr_cons, List.length_cons, Nat.pow_succ]
    omega

lemma littleEndian_lt (bs : List UInt8) (off n : Nat) : littleEndian bs off n < 256 ^ n :=
  (foldr_littleEndian_lt _).trans_le
    (Nat.pow_le_pow_right (by decide) (List.length_take_le n (bs.drop off)))

/-- The segments that a program header asks to load are in the image: inside it, and each byte that no
later segment covers is the byte of the file. -/
def SegmentsLoaded (data : List UInt8) (elf : ElfHdr) (sz : Nat) (d : PageDir) (m : Mem) : Prop :=
  ∀ i < elf.phnum, (progHdr data elf.phoff i).type = ELF_PROG_LOAD →
    (progHdr data elf.phoff i).vaddr + (progHdr data elf.phoff i).filesz ≤ sz ∧
      ∀ o < (progHdr data elf.phoff i).filesz,
        (∀ j, i < j → j < elf.phnum →
          ¬ (progHdr data elf.phoff j).Covers ((progHdr data elf.phoff i).vaddr + o)) →
        ∃ b, data[((progHdr data elf.phoff i).off + o) % 2 ^ 32]? = some b ∧
          byteAt d m ((progHdr data elf.phoff i).vaddr + o) = some b

lemma Loads.segmentsLoaded (h : Loads c (ofFile data) m bs sz d m₁) (hfree : m.FreeOk) :
    SegmentsLoaded data (ElfHdr.parse bs) sz d m₁ := by
  obtain ⟨-, -, -, setup, segments, stack⟩ := h
  rename_i d₀ d₂ m₀ m₂ sz₂
  have hoff : (ElfHdr.parse bs).phoff < 2 ^ 32 := littleEndian_lt bs 28 4
  obtain ⟨hload, hseg⟩ :=
    loadSegments_segments hfree (loading_setupkvm hfree setup) _ hoff _ segments sz₂ rfl
  obtain ⟨⟨sz₁, d₁, m₃⟩, halloc, hstack⟩ := bind_eq_ok.mp stack
  dsimp only at hload hseg hstack
  by_cases hzero : sz₁ = 0
  · rw [if_pos hzero] at hstack
    cases hstack
  · obtain ⟨hsz₁, hlt, hall, hclear⟩ := allocuvm_stack halloc hzero
    rw [if_neg hzero, hclear] at hstack
    cases hstack
    have hsize : sz₂ ≤ sz := by
      rw [hsz₁, Nat.add_mul]
      have := le_pgUp_mul sz₂
      omega
    refine fun i hi htype => ⟨?_, fun o ho hlast => ?_⟩
    · obtain ⟨h1, h2⟩ := hseg.size i hi htype
      omega
    · have hcov : (progHdr data (ElfHdr.parse bs).phoff i).Covers
          ((progHdr data (ElfHdr.parse bs).phoff i).vaddr + o) := ⟨htype, by omega, by omega⟩
      have ha := div_lt_pgUp (hseg.lt_size hi hcov)
      have hbyte := hseg.bytes i hi _ hcov hlast
      rw [Nat.add_sub_cancel_left] at hbyte
      refine ⟨_, hbyte, ?_⟩
      have hmapped : ∀ w < pgUp (pgUp sz₂ * PGSIZE), (d₂.entry w).present = true := by
        rw [pgUp_mul]
        exact hload.image.mapped
      have hK : pgUp (pgUp sz₂ * PGSIZE) ≤ KERNBASE := by
        rw [pgUp_mul]
        exact pgUp_le_KERNBASE hload.image.lt
      rw [← hload.imageByte_allocuvm hfree hmapped hK halloc hzero (by rw [pgUp_mul]; exact ha)]
      have hentry := hall.outside _ (Or.inl ha)
      rw [byteAt, loadByte, PageDir.entry_set_ne ha.ne, hentry, hload.image.mapped _ ha,
        hload.user _ ha, imageByte, hentry]
      rfl

/-! ### Failing -/

/-- The shared page of a process is above physical memory. -/
def SharedAbove (c : ShmField) : Prop := c.idx ≠ none → PHYSTOP ≤ c.va

/-- Wherever `exec` gives up, freeing the new directory gives all pages back. -/
lemma Unfinished.freevm_free (h : Unfinished m d m₁) (hfree : m.FreeOk) (hshm : SharedAbove c) :
    Ensures (freevm c d m₁) fun m' => ∀ x, m'.free x = m.free x := by
  intro m' hm' x
  have hs := h.sharedOk hfree
  have hfreed := (freevm_ensures hs _ hm').free x
  have hkept : kept c d x = 0 := by
    unfold kept
    split_ifs with hc
    · rw [Pte.maps, h.below _ (hshm hc.1) hc.2, if_neg Bool.false_ne_true]
    · rfl
  rw [hkept, (h.unshared hfree).dropped h.ok hs le_rfl, ite_self] at hfreed
  have := h.refs x
  omega

/-- When `exec` returns -1, the caller is unchanged, every lock and reference that was taken has been
released once, and the free pages are those that were free before. -/
lemma exec_fails (hfree : m.FreeOk) (hshm : SharedAbove c) :
    Returns (exec c path file argv u m) fun l r => r.1 = -1 →
      r.2.1 = u ∧ (l = [.beginOp, .endOp] ∨ l = opened) ∧ ∀ x, r.2.2.free x = m.free x := by
  intro r hr hfail
  have hended := exec_returns hfree r hr
  generalize (exec c path file argv u m).log = l at hended
  cases hended with
  | missing hfile => exact ⟨rfl, Or.inl rfl, fun _ => rfl⟩
  | unread => exact ⟨rfl, Or.inr rfl, fun _ => rfl⟩
  | noDirectory hsetup =>
    exact ⟨rfl, Or.inr rfl, (setupkvm_ensures hfree.sharedOk _ hsetup).2.2.1 rfl⟩
  | abandoned hun hfreed => exact ⟨rfl, Or.inr rfl, hun.freevm_free hfree hshm _ hfreed⟩
  | done hfile hload hpush hfreed => exact absurd (show (0 : Int) = -1 from hfail) (by decide)

/-! ### The result -/

/-- What `exec` guarantees for any file. -/
structure Robust (c : ShmField) (path : List UInt8) (file : Option Reads)
    (argv : List (List UInt8)) (u : Caller) (m : Mem) : Prop where
  avoids : Avoids (exec c path file argv u m).result LoadPanic
  loaded : ∀ data bs sz d m₁, file = some (ofFile data) →
    Loads c (ofFile data) m bs sz d m₁ → SegmentsLoaded data (ElfHdr.parse bs) sz d m₁
  failed : ∀ u' m', (exec c path file argv u m).result = .ok (-1, u', m') →
    u' = u ∧ ((exec c path file argv u m).log = [.beginOp, .endOp] ∨
      (exec c path file argv u m).log = opened) ∧ ∀ x, m'.free x = m.free x

/-- For any file, arguments and amount of memory: no panic of `mappages`, `loaduvm` or `clearpteu`,
the segments are loaded one over the other, and a call that fails has no effect. -/
theorem exec_robust (hfree : m.FreeOk) (hshm : SharedAbove c) :
    Robust c path file argv u m where
  avoids := exec_avoids (by decide) (by decide) hfree
  loaded _ _ _ _ _ _ hload := hload.segmentsLoaded hfree
  failed _ _ hres := exec_fails hfree hshm _ hres rfl

/-- The header of an ELF file with two program headers behind it. -/
def twoSegments : List UInt8 :=
  wordBytes ELF_MAGIC ++ List.replicate 24 0 ++ wordBytes 52 ++ List.replicate 12 0 ++ [2, 0] ++
    List.replicate 6 0

/-- The program header of a segment of one byte at address 0. -/
def oneByte (off : Nat) : List UInt8 :=
  wordBytes ELF_PROG_LOAD ++ wordBytes off ++ wordBytes 0 ++ wordBytes 0 ++ wordBytes 1 ++
    wordBytes 1 ++ List.replicate 8 0

/-- A file with two segments of one byte, both at address 0. -/
def overlapping : List UInt8 := twoSegments ++ oneByte 116 ++ oneByte 117 ++ [1, 2]

/-- `exec` of a file whose segments overlap. -/
theorem exec_robust_overlapping :
    Robust ⟨none, 0⟩ [101] (some (ofFile overlapping)) [] bareCaller hundredPages :=
  exec_robust ready_hundredPages.toFreeOk fun h => absurd rfl h

/-- Reading a segment of one byte. -/
lemma loadSegments_oneByte {n i off o : Nat} {hdr : List UInt8} {b : UInt8} (ho : o < 2 ^ 32)
    (hhdr : readi data off ProgHdr.size = some hdr) (hlen : hdr.length = ProgHdr.size)
    (hparse : ProgHdr.parse hdr = ⟨ELF_PROG_LOAD, o, 0, 1, 1⟩) (hbyte : readi data o 1 = some [b])
    (hgrow : allocuvm c d sz 1 m = .ok (1, d', m')) (ht : d'.HasTable 0) :
    loadSegments c (ofFile data) (n + 1) i off sz d m =
      loadSegments c (ofFile data) n (i + 1) ((off + ProgHdr.size) % 2 ^ 32) 1 d'
        (m'.write (d'.entry 0).ppn 0 [b]) := by
  have hload : loaduvm (fun _ => readi data) d' 0 o 1 m' =
      .ok (true, m'.write (d'.entry 0).ppn 0 [b]) := by
    have hwalk : d'.walk (0 / PGSIZE + 0) = some (d'.entry 0) :=
      PageDir.walk_eq_some_iff.mpr ⟨ht, rfl⟩
    have hmod : (o + 0 * PGSIZE) % 2 ^ 32 = o := by
      rw [Nat.zero_mul, Nat.add_zero, Nat.mod_eq_of_lt ho]
    have hmin : min PGSIZE (1 - 0 * PGSIZE) = 1 := by decide
    have hup : pgUp 1 = 0 + 1 := by decide
    rw [loaduvm, if_neg (by decide), hup, loadPages, hwalk]
    dsimp only
    rw [hmod, hmin, hbyte]
    rfl
  rw [loadSegments.eq_def]
  dsimp only [ofFile]
  rw [hhdr]
  dsimp only
  rw [hparse]
  dsimp only
  rw [if_neg (not_not.mpr hlen), if_neg (by decide), if_neg (by decide), if_neg (by decide),
    Nat.zero_add, hgrow, ok_bind]
  dsimp only
  rw [if_neg (by decide), if_neg (by decide), hload]
  rfl

lemma loadSegments_overlapping (hd : d.Bare) (hpages : 10 ≤ m.pages) :
    ∃ d' m', loadSegments c (ofFile overlapping) 2 0 52 0 d m = .ok (some 1, d', m') ∧
      m.pages ≤ m'.pages + 2 := by
  have hK : 0 + 1 ≤ KERNBASE := by
    rw [KERNBASE_eq]
    decide
  have hbig : ¬ KERNBASE * PGSIZE ≤ 1 := by
    rw [KERNBASE_eq]
    decide
  have hneeds : needs d 0 (0 + 1) ≤ 2 := by
    have hcard := missing_le (tablesFor 0 (0 + 1)) d
    have himage : (tablesFor 0 (0 + 1)).card ≤ (Finset.Ico 0 (0 + 1)).card := Finset.card_image_le
    rw [Nat.card_Ico] at himage
    unfold needs
    omega
  obtain ⟨d₁, m₁, halloc, hleft⟩ := allocPages_succeeds (c := c) (m := m) 0 1 hK
    (fun w _ hw => by rw [hd.entry (by omega)]; rfl) (by omega)
  have hgrow : allocuvm c d 0 1 m = .ok (1, d₁, m₁) := by
    rw [allocuvm, if_neg hbig, if_neg (by decide)]
    exact halloc
  have hsame : ∀ m', allocuvm c d₁ 1 1 m' = .ok (1, d₁, m') := by
    intro m'
    rw [allocuvm, if_neg hbig, if_neg (by decide)]
    rfl
  have ht : d₁.HasTable 0 := by
    obtain ⟨-, -, hall⟩ := (allocuvm_allocated _ hgrow).resolve_right fun h =>
      absurd h.1 Nat.one_ne_zero
    exact PageDir.hasTable_of_present (hall.inside rfl 0 le_rfl (by decide)).1
  refine ⟨d₁, (m₁.write (d₁.entry 0).ppn 0 [1]).write (d₁.entry 0).ppn 0 [2], ?_, ?_⟩
  · have hread₀ : readi overlapping 52 ProgHdr.size = some (oneByte 116) := by decide +kernel
    have hread₁ : readi overlapping 84 ProgHdr.size = some (oneByte 117) := by decide +kernel
    have hbyte₀ : readi overlapping 116 1 = some [1] := by decide +kernel
    have hbyte₁ : readi overlapping 117 1 = some [2] := by decide +kernel
    have hnext : (52 + ProgHdr.size) % 2 ^ 32 = 84 := rfl
    rw [loadSegments_oneByte (by decide) hread₀ (by decide) rfl hbyte₀ hgrow ht, hnext,
      loadSegments_oneByte (by decide) hread₁ (by decide) rfl hbyte₁ (hsame _) ht]
    rfl
  · show m.pages ≤ m₁.pages + 2
    omega

/-- Both segments are loaded to address 0, and the byte of the first one is gone. -/
theorem first_segment_overwritten :
    ∃ d m, Loads ⟨none, 0⟩ (ofFile overlapping) hundredPages twoSegments (3 * PGSIZE) d m ∧
      (progHdr overlapping 52 0).Covers 0 ∧ (progHdr overlapping 52 0).off = 116 ∧
      overlapping[116]? = some 1 ∧ byteAt d m 0 = some 2 := by
  obtain ⟨d₀, m₀, hsetup, hleft⟩ :=
    setupkvm_succeeds (c := ⟨none, 0⟩) (m := hundredPages) (by decide)
  have hbare := setupkvm_bare _ hsetup d₀ rfl
  have hpages : hundredPages.pages = 100 := by decide
  obtain ⟨d₁, m₁, hsegments, hleft₁⟩ :=
    loadSegments_overlapping (c := ⟨none, 0⟩) (m := m₀) hbare (by omega)
  have himage := loadSegments_image (.of_bare hbare) _ hsegments 1 rfl
  have hK : pgUp 1 + 2 < KERNBASE := by
    rw [KERNBASE_eq]
    decide
  obtain ⟨d, m, hstack, -⟩ :=
    allocStack_succeeds (c := ⟨none, 0⟩) (m := m₁) himage hK (by omega)
  have hload : Loads ⟨none, 0⟩ (ofFile overlapping) hundredPages twoSegments
      (3 * PGSIZE) d m :=
    ⟨by decide +kernel, by decide, by decide, hsetup, hsegments, hstack⟩
  refine ⟨d, m, hload, by decide +kernel, by decide +kernel, by decide +kernel, ?_⟩
  obtain ⟨b, hb, hbyte⟩ := (hload.segmentsLoaded ready_hundredPages.toFreeOk 1 (by decide)
    (by decide +kernel)).2 0 (by decide +kernel) fun j h1 h2 => absurd h2 (Nat.not_lt.mpr h1)
  obtain rfl : b = 2 := Option.some.inj (hb.symm.trans (by decide +kernel))
  exact hbyte

end Xv6.Program
