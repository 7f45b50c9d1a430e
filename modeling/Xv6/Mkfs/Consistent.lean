import Xv6.Mkfs.Files

/-!
# Consistency of the image

When is what `mkfs` leaves a disk that the kernel accepts? Three things can go wrong: inode numbers
are handed out without a look at `NINODES`, the size of the root directory is rounded up past a
block that is full, and names are put into the directory without a look at the ones there.
-/

namespace Xv6.Mkfs

open Fs Disk Fallible
open Icache (ROOTINO)

variable {s s' : State} {files : List Input}

/-- The inode numbers that were used exist, the bitmap accounts for the blocks that are referred to,
all blocks below the size of a file are allocated, and the names of the root directory differ. -/
structure Consistent (s : State) : Prop where
  inodes : ∀ inum, 1 ≤ inum → inum < s.freeinode → inum < sb.ninodes
  sound : Sound sb s.img
  names : ((dirents (contents s.img (dinode sb s.img ROOTINO))).filter
    fun de => de.inum ≠ 0).Pairwise fun de de' => namecmp de.name de'.name ≠ 0

/-! ### Blocks -/

lemma Image.root_size (h : Image s (archive files)) :
    (dinode sb s.disk ROOTINO).size.toNat = (files.length + 2) * Dirent.SIZE := by
  have hsize := (h.inode 0 _ (archive_root files)).size
  rw [length_encodeDir, length_rootEntries] at hsize
  exact hsize

lemma Image.root_type (h : Image s (archive files)) : (dinode sb s.disk ROOTINO).type = T_DIR :=
  (h.inode 0 _ (archive_root files)).type

lemma Image.root_used (h : Image s (archive files)) : (dinode sb s.disk ROOTINO).type ≠ 0 := by
  rw [h.root_type]
  decide

lemma Image.length_lt (h : Image s (archive files)) : files.length + 1 < NINODES := by
  have hlt := h.lt
  rwa [length_archive] at hlt

/-- The size of the root directory when it has been rounded up. -/
lemma Image.rounded_size (h : Image s (archive files)) :
    (rounded (dinode sb s.disk ROOTINO)).size.toNat =
      ((files.length + 2) * Dirent.SIZE / BSIZE + 1) * BSIZE := by
  have hlt := h.length_lt
  rw [rounded, UInt32.toNat_ofNat', h.root_size]
  refine Nat.mod_eq_of_lt ?_
  simp only [NINODES, Dirent.SIZE, BSIZE] at *
  omega

/-- The image is sound unless the last block of the root directory is full. -/
lemma Image.sound_rounded_iff (h : Image s (archive files)) :
    Sound sb (iupdate sb s.disk ROOTINO (rounded (dinode sb s.disk ROOTINO))) ↔
      (files.length + 2) % (BSIZE / Dirent.SIZE) ≠ 0 := by
  have hroot : ROOTINO < sb.ninodes := by decide
  have htype := h.root_used
  have hsize := h.root_size
  have hrounded := h.rounded_size
  have hlt := h.length_lt
  constructor
  · intro hsound hfull
    have hself : dinode sb (iupdate sb s.disk ROOTINO (rounded (dinode sb s.disk ROOTINO)))
        ROOTINO = rounded (dinode sb s.disk ROOTINO) := by
      rw [iupdate, dinode_putDinode, if_pos rfl]
    have hmapped := hsound.noHoles ROOTINO hroot
      (by rw [hself]; exact htype) ((files.length + 2) * Dirent.SIZE / BSIZE)
      (by rw [hself, hrounded]; simp only [BSIZE]; omega)
    have hdirect : (files.length + 2) * Dirent.SIZE / BSIZE < NDIRECT := by
      simp only [NINODES, Dirent.SIZE, BSIZE, NDIRECT] at *
      omega
    rw [hself, mapped_direct hdirect] at hmapped
    -- the block behind the last entry was never allocated
    have htrim := (h.inode 0 _ (archive_root files)).trimmed ((files.length + 2) * Dirent.SIZE)
      hsize.le hdirect ((mapped_direct hdirect).mpr hmapped)
    have hstart := htrim.1.trans_eq hsize
    simp only [Dirent.SIZE, BSIZE] at hfull hstart
    omega
  · intro hpart
    refine h.sound.replace hroot (fun c _ => ?_) fun _ bn hbn => ?_
    · have hround : (rounded (dinode sb s.disk ROOTINO)).type ≠ 0 := htype
      rw [refsOf_of_type _ htype, refsOf_of_type _ hround]
      exact refs_fields rfl c
    · refine (mapped_fields rfl).mpr (h.sound.noHoles ROOTINO hroot htype bn ?_)
      rw [hrounded] at hbn
      rw [hsize]
      simp only [Dirent.SIZE, BSIZE] at *
      omega

/-! ### Names -/

/-- The names of the root directory in the order of its entries. -/
def names (files : List Input) : List (List UInt8) := DOT :: DOTDOT :: files.map Input.stored

lemma rootEntries_names (files : List Input) :
    (rootEntries files).map Dirent.name = (names files).map (strncpy DIRSIZ) := by
  apply List.ext_getElem?
  rintro (_ | _ | k)
  · rfl
  · rfl
  · simp only [rootEntries, names, List.map_cons, List.getElem?_cons_succ, List.getElem?_map,
      List.getElem?_mapIdx, Option.map_map]
    rfl

lemma rootEntries_inum (hlt : files.length + 1 < NINODES) :
    ∀ de ∈ rootEntries files, de.inum ≠ 0 := by
  have hinum : ∀ k, k < NINODES → 0 < k → UInt16.ofNat k ≠ 0 := by
    intro k hk hpos h0
    have hnat := congrArg UInt16.toNat h0
    rw [UInt16.toNat_ofNat', UInt16.toNat_zero] at hnat
    simp only [NINODES] at hk
    omega
  intro de hde
  simp only [rootEntries, List.mem_cons, List.mem_mapIdx] at hde
  rcases hde with rfl | rfl | ⟨k, hk, rfl⟩
  · exact hinum _ (by decide) (by decide)
  · exact hinum _ (by decide) (by decide)
  · exact hinum _ (by omega) (by omega)

/-- The entries in use, when only zeros follow the ones that were written. -/
lemma dirents_encodeDir {l : List Dirent} (hl : ∀ de ∈ l, de.inum ≠ 0) (m : Nat) :
    (dirents (encodeDir l ++ List.replicate m 0)).filter (fun de => de.inum ≠ 0) = l := by
  have hlen : (encodeDir l ++ List.replicate m 0).length / Dirent.SIZE =
      l.length + m / Dirent.SIZE := by
    rw [List.length_append, length_encodeDir, List.length_replicate]
    simp only [Dirent.SIZE]
    omega
  have hfirst : (List.range l.length).map (fun k => Dirent.decode
      (((encodeDir l ++ List.replicate m 0).drop (k * Dirent.SIZE)).take Dirent.SIZE)) = l := by
    refine List.ext_getElem (by simp) fun k hk hk' => ?_
    rw [List.getElem_map, List.getElem_range, encodeDir_entry l hk', Dirent.decode_encode]
  rw [dirents, hlen, List.range_add, List.map_append, hfirst, List.filter_append,
    List.filter_eq_self.mpr (fun de hde => decide_eq_true (hl de hde)), List.filter_eq_nil_iff.mpr,
    List.append_nil]
  intro de hde
  simp only [List.map_map, List.mem_map, List.mem_range, Function.comp_apply] at hde
  obtain ⟨k, -, rfl⟩ := hde
  rw [decide_eq_true_eq, not_not]
  refine Dirent.decode_zeros fun c hc => ?_
  have hmem := List.mem_of_mem_take hc
  have hle : (encodeDir l).length ≤ (l.length + k) * Dirent.SIZE := by
    rw [length_encodeDir]
    exact Nat.mul_le_mul_right _ (Nat.le_add_right _ _)
  rw [List.drop_append, List.drop_of_length_le hle, List.nil_append] at hmem
  exact List.eq_of_mem_replicate (List.mem_of_mem_drop hmem)

/-- The root directory, when its last block is not full: the entries, and zeros up to the end of
the block. -/
lemma Image.root_contents (h : Image s (archive files))
    (hpart : (files.length + 2) % (BSIZE / Dirent.SIZE) ≠ 0) :
    ∃ m, contents (iupdate sb s.disk ROOTINO (rounded (dinode sb s.disk ROOTINO)))
      (rounded (dinode sb s.disk ROOTINO)) =
      encodeDir (rootEntries files) ++ List.replicate m 0 := by
  have hroot : ROOTINO < sb.ninodes := by decide
  have htype := h.root_used
  have hsize := h.root_size
  have hlt := h.length_lt
  have hholds := h.inode 0 _ (archive_root files)
  have hkept := h.sound.accounts.kept_iupdate hroot hroot htype
    (rounded (dinode sb s.disk ROOTINO))
  have hholes := h.sound.noHoles ROOTINO hroot htype
  have hbytes : ∀ k, k < (rounded (dinode sb s.disk ROOTINO)).size.toNat →
      byteOf (iupdate sb s.disk ROOTINO (rounded (dinode sb s.disk ROOTINO)))
        (rounded (dinode sb s.disk ROOTINO)) k = byteOf s.disk (dinode sb s.disk ROOTINO) k := by
    intro k hk
    have haddrs : (rounded (dinode sb s.disk ROOTINO)).addrs =
        (dinode sb s.disk ROOTINO).addrs := rfl
    rw [byteOf_fields haddrs]
    refine hkept.byteOf (hholes _ ?_)
    rw [h.rounded_size] at hk
    rw [hsize]
    simp only [Dirent.SIZE, BSIZE] at *
    omega
  refine ⟨(rounded (dinode sb s.disk ROOTINO)).size.toNat - (files.length + 2) * Dirent.SIZE, ?_⟩
  apply List.ext_getElem?
  intro k
  have hcontents := getElem?_contents s.disk (dinode sb s.disk ROOTINO) k
  have hold : contents s.disk (dinode sb s.disk ROOTINO) = encodeDir (rootEntries files) :=
    hholds.contents
  have hlen : (encodeDir (rootEntries files)).length = (files.length + 2) * Dirent.SIZE := by
    rw [length_encodeDir, length_rootEntries]
  rw [hold, hsize] at hcontents
  have hle : (files.length + 2) * Dirent.SIZE ≤
      (rounded (dinode sb s.disk ROOTINO)).size.toNat := by
    rw [h.rounded_size]
    simp only [Dirent.SIZE, BSIZE]
    omega
  rw [getElem?_contents]
  by_cases hk : k < (files.length + 2) * Dirent.SIZE
  · rw [if_pos (hk.trans_le hle), hbytes k (hk.trans_le hle),
      List.getElem?_append_left (by rwa [hlen]), hcontents, if_pos hk]
  · rw [List.getElem?_append_right (by rw [hlen]; omega), List.getElem?_replicate, hlen]
    by_cases hk' : k < (rounded (dinode sb s.disk ROOTINO)).size.toNat
    · have hrange := hk'
      rw [h.rounded_size] at hrange
      have hblock : k / BSIZE < NDIRECT ∧ k / BSIZE * BSIZE < (files.length + 2) * Dirent.SIZE := by
        simp only [NINODES, Dirent.SIZE, BSIZE, NDIRECT] at *
        omega
      have hzero := hholds.trimmed k (hsize.le.trans (Nat.le_of_not_lt hk)) hblock.1
        (hholes _ (by rw [hsize]; exact hblock.2))
      rw [if_pos hk', if_pos (by omega), hbytes k hk']
      exact congrArg some hzero.2
    · rw [if_neg hk', if_neg (by omega)]

/-- The entries in use are distinct when the names of the files are. -/
lemma Image.names_iff (h : Image s (archive files))
    (hpart : (files.length + 2) % (BSIZE / Dirent.SIZE) ≠ 0) :
    ((dirents (contents (iupdate sb s.disk ROOTINO (rounded (dinode sb s.disk ROOTINO)))
      (rounded (dinode sb s.disk ROOTINO)))).filter fun de => de.inum ≠ 0).Pairwise
        (fun de de' => namecmp de.name de'.name ≠ 0) ↔
      (names files).Pairwise fun a b => namecmp a b ≠ 0 := by
  obtain ⟨m, hm⟩ := h.root_contents hpart
  rw [hm, dirents_encodeDir (rootEntries_inum h.length_lt),
    ← List.pairwise_map (f := Dirent.name) (R := fun a b => namecmp a b ≠ 0), rootEntries_names,
    List.pairwise_map]
  simp only [ne_eq, namecmp_eq_zero_iff, cut_strncpy]

/-! ### The result -/

theorem mkfs_consistent_iff (files : List Input) (s : State) (hok : main files = .ok s) :
    Consistent s ↔ files.length + 2 ≤ NINODES ∧ (files.length + 2) % (BSIZE / Dirent.SIZE) ≠ 0 ∧
      (names files).Pairwise fun a b => namecmp a b ≠ 0 := by
  have hfree := freeinode_main hok
  have hninodes : sb.ninodes = NINODES := rfl
  by_cases hlt : files.length + 2 ≤ NINODES
  · obtain ⟨s₁, h, himg⟩ := main_image (by omega) hok
    have hself : dinode sb s.img ROOTINO = rounded (dinode sb s₁.disk ROOTINO) := by
      rw [himg, iupdate, dinode_putDinode, if_pos rfl]
    constructor
    · rintro ⟨-, hsound, hnames⟩
      rw [himg, h.sound_rounded_iff] at hsound
      rw [hself, himg, h.names_iff hsound] at hnames
      exact ⟨hlt, hsound, hnames⟩
    · rintro ⟨-, hpart, hnames⟩
      refine ⟨fun inum _ hinum => ?_, ?_, ?_⟩
      · omega
      · rw [himg]
        exact h.sound_rounded_iff.mpr hpart
      · rw [hself, himg]
        exact (h.names_iff hpart).mpr hnames
  · refine iff_of_false (fun h => ?_) fun h => hlt h.1
    have := h.inodes NINODES (by decide) (by omega)
    omega

/-- A file `_cat` that is read in two parts. -/
def catFile : Input where
  name := [95, 99, 97, 116]
  reads := [[104, 105], [10]]
  name_ne := by decide
  name_str := by decide
  reads_len := by decide

lemma fits_catFile : Fits [catFile] := ⟨by decide, by decide, by decide, by decide⟩

theorem mkfs_consistent_iff_cat : ∃ s, main [catFile] = .ok s ∧ Consistent s := by
  obtain ⟨s, hs⟩ := main_succeeds fits_catFile
  exact ⟨s, hs, (mkfs_consistent_iff _ s hs).mpr (by decide)⟩

/-- An empty file with a name of one letter. -/
def letterFile (k : Fin 30) : Input where
  name := [UInt8.ofNat (k.val + 97)]
  reads := []
  name_ne := List.cons_ne_nil _ _
  name_str := by
    revert k
    decide
  reads_len := by simp

def thirtyFiles : List Input := (List.finRange 30).map letterFile

lemma fits_thirtyFiles : Fits thirtyFiles := by
  refine ⟨by decide, by decide, by decide, ?_⟩
  simp only [archive, Archive.blocks, List.map_cons, List.sum_cons, length_encodeDir,
    length_rootEntries, List.map_map]
  decide

/-- Thirty files fill the first block of the root directory, and the second one is missing. -/
theorem mkfs_thirty_files : ∃ s, main thirtyFiles = .ok s ∧ ¬ Consistent s := by
  obtain ⟨s, hs⟩ := main_succeeds fits_thirtyFiles
  obtain ⟨s₁, h, himg⟩ := main_image (by decide) hs
  refine ⟨s, hs, fun hcons => ?_⟩
  have hsound := hcons.sound
  rw [himg, h.sound_rounded_iff] at hsound
  exact hsound (by decide)

end Xv6.Mkfs
