import Xv6.Mkfs.Image

/-!
# Files in the image

Every input file becomes an inode and an entry of the root directory. As long as there are inodes,
the image holds exactly these when the loop over the files ends.
-/

namespace Xv6.Mkfs

open Fs Disk Fallible
open Icache (ROOTINO)

variable {s s' : State} {done files : List Input} {f : Input}

/-- The entries of the root directory: file number `k` gets inode `k + 2`. -/
def rootEntries (files : List Input) : List Dirent :=
  dirent ROOTINO DOT :: dirent ROOTINO DOTDOT :: files.mapIdx fun k f => dirent (k + 2) f.stored

/-- What the image holds after the given files. -/
def archive (files : List Input) : Archive :=
  (T_DIR, encodeDir (rootEntries files)) :: files.map fun f => (T_FILE, f.bytes)

@[simp]
lemma length_rootEntries (files : List Input) : (rootEntries files).length = files.length + 2 := by
  simp [rootEntries]

@[simp]
lemma length_archive (files : List Input) : (archive files).length = files.length + 1 := by
  simp [archive]

lemma rootEntries_concat (done : List Input) (f : Input) :
    rootEntries (done ++ [f]) = rootEntries done ++ [dirent (done.length + 2) f.stored] := by
  simp [rootEntries, List.mapIdx_append]

/-- The bytes of the entry for the next file are added to the root directory. -/
lemma archive_concat (done : List Input) (f : Input) :
    archive (done ++ [f]) = (archive done).append 0
      (dirent (done.length + 2) f.stored).encode ++ [(T_FILE, f.bytes)] := by
  simp [archive, Archive.append, rootEntries_concat, encodeDir]

lemma archive_root (files : List Input) :
    (archive files)[0]? = some (T_DIR, encodeDir (rootEntries files)) := rfl

lemma archive_file {k : Nat} (hk : files[k]? = some f) :
    (archive files)[k + 1]? = some (T_FILE, f.bytes) := by
  rw [archive, List.getElem?_cons_succ, List.getElem?_map, hk]
  rfl

lemma blocks_archive_le (done rest : List Input) :
    (archive done).blocks ≤ (archive (done ++ rest)).blocks := by
  have hroot : blocksFor (encodeDir (rootEntries done)).length ≤
      blocksFor (encodeDir (rootEntries (done ++ rest))).length := by
    refine blocksFor_mono ?_
    simp only [length_encodeDir, length_rootEntries, List.length_append, Dirent.SIZE]
    omega
  simp only [Archive.blocks, archive, List.map_cons, List.sum_cons, List.map_append,
    List.sum_append]
  omega

lemma encode_ne_nil (de : Dirent) : de.encode ≠ [] := List.cons_ne_nil _ _

lemma Input.reads_ne (f : Input) : ∀ c ∈ f.reads, c ≠ [] :=
  fun c hc => List.length_pos_iff.mp (f.reads_len c hc).1

/-! ### One file -/

/-- The archive in which the next file has its inode and its entry, but no contents. -/
def entered (done : List Input) (f : Input) : Archive :=
  (archive done).append 0 (dirent (done.length + 2) f.stored).encode ++ [(T_FILE, [])]

lemma entered_file (done : List Input) (f : Input) :
    (entered done f)[done.length + 1]? = some (T_FILE, []) := by
  rw [entered, List.getElem?_append_right (by simp)]
  simp

lemma entered_append (done : List Input) (f : Input) :
    (entered done f).append (done.length + 1) f.bytes = archive (done ++ [f]) := by
  have hlen : done.length + 1 = ((archive done).append 0
      (dirent (done.length + 2) f.stored).encode).length := by simp
  rw [archive_concat, entered, hlen, Archive.append_concat_last]
  rfl

/-- The inode of the next file is allocated. -/
lemma Image.ialloc_file (h : Image s (archive done)) (hlt : done.length + 2 < NINODES) :
    ∃ s', s.ialloc T_FILE = .ok (done.length + 2, s') ∧
      Image s' (archive done ++ [(T_FILE, [])]) := by
  obtain ⟨s', halloc, h'⟩ := h.ialloc (t := T_FILE) (by simpa using hlt) (by decide) (by decide)
  rw [length_archive] at halloc
  exact ⟨s', halloc, h'⟩

/-- Its entry is added to the root directory. -/
lemma Image.enter (h : Image s (archive done ++ [(T_FILE, [])]))
    (hok : s.iappend ROOTINO (dirent (done.length + 2) f.stored).encode = .ok s') :
    Image s' (entered done f) := by
  have h' := h.iappend (k := 0) rfl (encode_ne_nil _) hok
  rwa [Archive.append_concat_of_lt (by simp)] at h'

lemma Image.addFile (h : Image s (archive done)) (hlt : done.length + 2 < NINODES)
    (hok : Mkfs.addFile s f = .ok s') : Image s' (archive (done ++ [f])) := by
  unfold Mkfs.addFile at hok
  split_ifs at hok
  obtain ⟨⟨inum, s₁⟩, halloc, hok⟩ := bind_eq_ok.mp hok
  obtain ⟨s₂, halloc', h₁⟩ := h.ialloc_file hlt
  rw [halloc'] at halloc
  cases halloc
  obtain ⟨s₃, happend, hok⟩ := bind_eq_ok.mp hok
  have h₃ := (h₁.enter happend).foldlM (entered_file done f) f.reads_ne hok
  rw [← entered_append]
  exact h₃

lemma Image.addFile_succeeds (h : Image s (archive done)) (hlt : done.length + 2 < NINODES)
    (hslash : SLASH ∉ f.name) (hmax : f.bytes.length ≤ MAXFILE * BSIZE)
    (hfit : nmeta + (archive (done ++ [f])).blocks ≤ FSSIZE) :
    ∃ s', Mkfs.addFile s f = .ok s' := by
  obtain ⟨s₁, halloc, h₁⟩ := h.ialloc_file hlt
  have hroot : (encodeDir (rootEntries done)).length +
      (dirent (done.length + 2) f.stored).encode.length ≤ MAXFILE * BSIZE := by
    simp only [length_encodeDir, length_rootEntries, Dirent.length_encode, Dirent.SIZE, MAXFILE,
      NDIRECT, NINDIRECT, BWORDS, BSIZE]
    simp only [NINODES] at hlt
    omega
  have hblocks : nmeta + (Archive.append (archive done ++ [(T_FILE, [])]) 0
      (dirent (done.length + 2) f.stored).encode).blocks ≤ FSSIZE := by
    rw [archive_concat, Archive.blocks_concat] at hfit
    rw [Archive.append_concat_of_lt (by simp), Archive.blocks_concat]
    have hnil : blocksFor (List.length ([] : List UInt8)) = 0 := rfl
    omega
  obtain ⟨s₂, hs₂⟩ := h₁.iappend_succeeds (k := 0) rfl hroot hblocks
  have henter : s₁.iappend ROOTINO (dirent (done.length + 2) f.stored).encode = .ok s₂ := hs₂
  obtain ⟨s₃, hs₃⟩ := (h₁.enter henter).foldlM_succeeds (entered_file done f) f.reads_ne
    (by rw [List.length_nil, Nat.zero_add]; exact hmax)
    (by rw [← entered_append] at hfit; exact hfit)
  refine ⟨s₃, ?_⟩
  rw [Mkfs.addFile, if_neg hslash, halloc]
  dsimp only [bind, Except.bind]
  rw [henter]
  exact hs₃

/-! ### All files -/

lemma Image.addFiles {rest : List Input} (h : Image s (archive done))
    (hlt : done.length + rest.length + 1 < NINODES)
    (hok : rest.foldlM Mkfs.addFile s = .ok s') : Image s' (archive (done ++ rest)) := by
  induction rest generalizing s done with
  | nil =>
    cases hok
    rwa [List.append_nil]
  | cons f rest ih =>
    rw [List.foldlM_cons] at hok
    obtain ⟨s₁, hf, hok⟩ := bind_eq_ok.mp hok
    rw [List.length_cons] at hlt
    have hrest := ih (h.addFile (by omega) hf)
      (by rw [List.length_append, List.length_singleton]; omega) hok
    rwa [List.append_assoc] at hrest

/-- What the input files need. -/
structure Fits (files : List Input) : Prop where
  names : ∀ f ∈ files, SLASH ∉ f.name
  sizes : ∀ f ∈ files, f.bytes.length ≤ MAXFILE * BSIZE
  inodes : files.length + 2 ≤ NINODES
  blocks : nmeta + (archive files).blocks ≤ FSSIZE

lemma Image.addFiles_succeeds {rest : List Input} (h : Image s (archive done))
    (hfits : Fits (done ++ rest)) : ∃ s', rest.foldlM Mkfs.addFile s = .ok s' := by
  induction rest generalizing s done with
  | nil => exact ⟨s, rfl⟩
  | cons f rest ih =>
    have hmem : f ∈ done ++ f :: rest := List.mem_append_right _ List.mem_cons_self
    have hlt := hfits.inodes
    have hblocks := hfits.blocks
    rw [List.length_append, List.length_cons] at hlt
    rw [List.append_cons] at hblocks
    have hle := blocks_archive_le (done ++ [f]) rest
    obtain ⟨s₁, hs₁⟩ := h.addFile_succeeds (by omega) (hfits.names f hmem) (hfits.sizes f hmem)
      (by omega)
    obtain ⟨s', hs'⟩ := ih (h.addFile (by omega) hs₁) (by rwa [← List.append_cons])
    refine ⟨s', ?_⟩
    rw [List.foldlM_cons, hs₁]
    exact hs'

/-! ### The start -/

lemma zeroed_eq : zeroed = ⟨fun _ => zeroBlock, FSSIZE, 1, nmeta⟩ := by
  have hloop : ∀ n, (List.range n).foldl (fun (s : State) i => s.wsect i zeroBlock)
      ⟨fun _ => zeroBlock, 0, 1, nmeta⟩ = ⟨fun _ => zeroBlock, n, 1, nmeta⟩ := by
    intro n
    induction n with
    | zero => rfl
    | succ n ih =>
      rw [List.range_succ, List.foldl_append, ih]
      simp only [List.foldl_cons, List.foldl_nil, State.wsect, State.mk.injEq, and_true]
      exact ⟨Function.update_eq_self _ _, Nat.max_eq_right (Nat.le_succ n)⟩
  exact hloop FSSIZE

/-- The image with nothing but the superblock. -/
def start : State := zeroed.wsect 1 superblock

lemma start_eq : start = ⟨Function.update (fun _ => zeroBlock) 1 superblock, FSSIZE, 1, nmeta⟩ := by
  rw [start, zeroed_eq]
  rfl

lemma shape_start : Shape start := by
  rw [start_eq]
  refine ⟨rfl, ?_, le_rfl, by decide, fun b hb => ?_⟩
  · exact Function.update_self 1 superblock fun _ => zeroBlock
  · have hne : b ≠ 1 := ((show 1 < nmeta by decide).trans_le hb).ne'
    change Function.update (fun _ => zeroBlock) 1 superblock b = zeroBlock
    rw [Function.update_of_ne hne]

lemma type_start {i : Nat} (hi : i < NINODES) : (dinode sb start.disk i).type = 0 := by
  have hlt := iblock_lt hi
  have h1 : 1 < sb.iblock i := (show 1 < sb.inodestart by decide).trans_le (Nat.le_add_left _ _)
  have hblock : start.disk (sb.iblock i) = zeroBlock := by
    rw [start_eq, State.disk, Function.update_of_ne hlt.ne]
    exact Function.update_of_ne h1.ne' superblock _
  have hget : ∀ k, zeroBlock.get k = 0 := by
    intro k
    simp [Block.get, zeroBlock]
  unfold dinode
  simp only [hblock, hget]
  rfl

lemma image_start : Image start [] := by
  have hrefs : ∀ b, allRefs sb start.disk (dinode sb start.disk) b = 0 := by
    intro b
    refine Finset.sum_eq_zero fun j hj => ?_
    rw [refsOf, if_pos (type_start (Finset.mem_range.mp hj))]
  have hfree : start.freeblock = nmeta := by rw [start_eq]
  refine ⟨shape_start, ⟨⟨fun b hb hlt => ?_, fun b _ => ?_, fun b _ hne => absurd (hrefs b) hne,
    fun b hb => ?_⟩, fun j hj ht => absurd (type_start hj) ht⟩, ?_, by decide, by simp, by simp,
    fun i hi _ => type_start hi, ?_⟩
  · rw [hrefs, shape_start.marked_disk hlt, hfree, decide_eq_true_eq]
    rw [dataStart_eq] at hb
    omega
  · rw [hrefs]
    exact Nat.zero_le 1
  · rw [dataStart_eq] at hb
    rw [shape_start.marked_disk (hb.trans (by decide)), hfree, decide_eq_true_eq]
    exact hb
  · rw [start_eq]
    rfl
  · rw [hfree]
    exact Nat.le_add_right _ _

/-- The root directory with its two entries. -/
lemma image_root : ∃ s₁ s₂ s₃, start.ialloc T_DIR = .ok (ROOTINO, s₁) ∧
    s₁.iappend ROOTINO (dirent ROOTINO DOT).encode = .ok s₂ ∧
    s₂.iappend ROOTINO (dirent ROOTINO DOTDOT).encode = .ok s₃ ∧ Image s₃ (archive []) := by
  obtain ⟨s₁, halloc, h₁⟩ := image_start.ialloc (t := T_DIR) (by decide) (by decide) (by decide)
  obtain ⟨s₂, hs₂⟩ := h₁.iappend_succeeds (k := 0) rfl (p := (dirent ROOTINO DOT).encode)
    (by decide) (by decide)
  have h₂ := h₁.iappend (k := 0) rfl (encode_ne_nil _) hs₂
  obtain ⟨s₃, hs₃⟩ := h₂.iappend_succeeds (k := 0) rfl (p := (dirent ROOTINO DOTDOT).encode)
    (by decide) (by decide)
  exact ⟨s₁, s₂, s₃, halloc, hs₂, hs₃, h₂.iappend (k := 0) rfl (encode_ne_nil _) hs₃⟩

/-- The program up to the end of the loop over the files. -/
lemma main_eq (files : List Input) : ∃ s₃, Image s₃ (archive []) ∧
    main files = (do
      let s ← files.foldlM addFile s₃
      let s ← fixRoot s
      s.balloc s.freeblock) := by
  obtain ⟨s₁, s₂, s₃, halloc, hs₂, hs₃, h₃⟩ := image_root
  refine ⟨s₃, h₃, ?_⟩
  change (start.ialloc T_DIR >>= _) = _
  rw [halloc]
  dsimp only [bind, Except.bind]
  rw [if_pos rfl, hs₂]
  dsimp only
  rw [hs₃]

/-! ### The end -/

/-- The inode of the root directory with its size rounded up. -/
def rounded (ip : Dinode) : Dinode :=
  { ip with size := UInt32.ofNat ((ip.size.toNat / BSIZE + 1) * BSIZE) }

/-- The size of the root directory is fixed and the bitmap is written. -/
lemma Image.finish (h : Image s (archive files)) :
    ∃ s', (do
      let s ← fixRoot s
      s.balloc s.freeblock) = .ok s' ∧ s'.freeinode = s.freeinode ∧
      s'.img = iupdate sb s.disk ROOTINO (rounded (dinode sb s.disk ROOTINO)) := by
  obtain ⟨s₁, hs₁, hshape, hdisk, hfreeinode, -⟩ :=
    h.shape.winode_eq (i := ROOTINO) (by decide) (rounded (dinode sb s.disk ROOTINO))
  have hfix : fixRoot s = .ok s₁ := by
    rw [fixRoot, h.shape.rinode_eq (by decide)]
    exact hs₁
  refine ⟨s₁.wsect sb.bmapstart (bitmap s₁.freeblock), ?_, hfreeinode, hdisk⟩
  rw [hfix]
  exact if_pos (hshape.ge.trans_lt (by decide))

/-- The image that `mkfs` leaves when there are inodes for all files. -/
lemma main_image {s' : State} (hlt : files.length + 1 < NINODES) (hok : main files = .ok s') :
    ∃ s, Image s (archive files) ∧
      s'.img = iupdate sb s.disk ROOTINO (rounded (dinode sb s.disk ROOTINO)) := by
  obtain ⟨s₃, h₃, hmain⟩ := main_eq files
  rw [hmain] at hok
  obtain ⟨s, hs, hok⟩ := bind_eq_ok.mp hok
  have h := h₃.addFiles (by rw [List.length_nil, Nat.zero_add]; exact hlt) hs
  rw [List.nil_append] at h
  obtain ⟨s₄, hs₄, -, himg⟩ := h.finish
  rw [hs₄] at hok
  cases hok
  exact ⟨s, h, himg⟩

/-- Files that fit are put into the image. -/
lemma main_succeeds (h : Fits files) : ∃ s, main files = .ok s := by
  obtain ⟨s₃, h₃, hmain⟩ := main_eq files
  obtain ⟨s, hs⟩ := h₃.addFiles_succeeds (show Fits ([] ++ files) from h)
  have hlt : ([] : List Input).length + files.length + 1 < NINODES := by
    have := h.inodes
    rw [List.length_nil]
    omega
  have himage := h₃.addFiles hlt hs
  rw [List.nil_append] at himage
  obtain ⟨s₄, hs₄, -⟩ := himage.finish
  refine ⟨s₄, ?_⟩
  rw [hmain, hs]
  exact hs₄

lemma freeinode_foldlM {i : Nat} {l : List (List UInt8)}
    (hok : l.foldlM (fun s c => s.iappend i c) s = .ok s') : s'.freeinode = s.freeinode := by
  induction l generalizing s with
  | nil =>
    cases hok
    rfl
  | cons c l ih =>
    rw [List.foldlM_cons] at hok
    obtain ⟨s₁, hc, hok⟩ := bind_eq_ok.mp hok
    rw [ih hok, freeinode_iappend hc]

lemma freeinode_addFiles (hok : files.foldlM addFile s = .ok s') :
    s'.freeinode = s.freeinode + files.length := by
  induction files generalizing s with
  | nil =>
    cases hok
    rfl
  | cons f files ih =>
    rw [List.foldlM_cons] at hok
    obtain ⟨s₁, hf, hok⟩ := bind_eq_ok.mp hok
    unfold addFile at hf
    split_ifs at hf
    obtain ⟨⟨inum, s₂⟩, halloc, hf⟩ := bind_eq_ok.mp hf
    obtain ⟨s₃, happend, hf⟩ := bind_eq_ok.mp hf
    obtain ⟨s₄, hwinode, halloc⟩ := bind_eq_ok.mp halloc
    cases halloc
    rw [ih hok, freeinode_foldlM hf, freeinode_iappend happend, freeinode_winode hwinode,
      List.length_cons]
    dsimp only
    omega

/-- However many files there are, each got an inode number. -/
lemma freeinode_main (hok : main files = .ok s) : s.freeinode = files.length + 2 := by
  obtain ⟨s₃, h₃, hmain⟩ := main_eq files
  rw [hmain] at hok
  obtain ⟨s₄, hs₄, hok⟩ := bind_eq_ok.mp hok
  obtain ⟨s₅, hs₅, hok⟩ := bind_eq_ok.mp hok
  obtain ⟨din, -, hwinode⟩ := bind_eq_ok.mp hs₅
  unfold State.balloc at hok
  split_ifs at hok
  cases hok
  have hroot := h₃.freeinode
  rw [length_archive, List.length_nil] at hroot
  have hfiles := freeinode_addFiles hs₄
  have hfix : s₅.freeinode = s₄.freeinode := freeinode_winode hwinode
  change s₅.freeinode = _
  omega

end Xv6.Mkfs
