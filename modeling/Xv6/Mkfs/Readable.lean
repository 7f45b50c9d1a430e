import Xv6.Fs.Directory
import Xv6.Fs.Resolution
import Xv6.Mkfs.Consistent

/-!
# Reading the image

What the kernel finds in the image under the name of a file is the inode that `mkfs` made for it,
however the contents came in when they were copied.
-/

namespace Xv6.Mkfs

open Fs Disk Fallible
open Icache (ROOTINO)

variable {s s' : State} {files : List Input} {f : Input} {k : Nat}

/-- `readsb` reads the given superblock. -/
def OnDisk (sb : Superblock) (d : Disk) : Prop :=
  [(d 1).get 0, (d 1).get 1, (d 1).get 2, (d 1).get 5, (d 1).get 6] =
    [sb.size, sb.nblocks, sb.ninodes, sb.inodestart, sb.bmapstart]

/-- The image at the end, when what was put into it is `s`. -/
def finished (s : State) : Disk :=
  iupdate sb s.disk ROOTINO (rounded (dinode sb s.disk ROOTINO))

lemma dinode_finished (s : State) (i : Nat) : dinode sb (finished s) i =
    if i = ROOTINO then rounded (dinode sb s.disk ROOTINO) else dinode sb s.disk i := by
  rw [finished, iupdate, dinode_putDinode]

lemma Image.onDisk (h : Image s (archive files)) : OnDisk sb (finished s) := by
  have hblock : finished s 1 = superblock := by
    rw [finished, iupdate, putDinode, Function.update_of_ne (by decide), State.disk,
      Function.update_of_ne (by decide), h.shape.super]
  rw [OnDisk, hblock]
  decide

/-! ### The root directory -/

lemma Image.root_byte (h : Image s (archive files)) {n : Nat}
    (hn : n < (files.length + 2) * Dirent.SIZE) :
    (encodeDir (rootEntries files))[n]? =
      some (byteOf (finished s) (rounded (dinode sb s.disk ROOTINO)) n) := by
  have hroot : ROOTINO < sb.ninodes := by decide
  have htype := h.root_used
  have hsize := h.root_size
  have haddrs : (rounded (dinode sb s.disk ROOTINO)).addrs = (dinode sb s.disk ROOTINO).addrs := rfl
  have hmapped : Mapped s.disk (dinode sb s.disk ROOTINO) (n / BSIZE) := by
    refine h.sound.noHoles ROOTINO hroot htype _ ?_
    have := Nat.div_mul_le_self n BSIZE
    omega
  have hold : contents s.disk (dinode sb s.disk ROOTINO) = encodeDir (rootEntries files) :=
    (h.inode 0 _ (archive_root files)).contents
  have hkept := h.sound.accounts.kept_iupdate hroot hroot htype
    (rounded (dinode sb s.disk ROOTINO))
  rw [byteOf_fields haddrs, finished, hkept.byteOf hmapped, ← hold, getElem?_contents,
    if_pos (by omega)]

/-- The entries of the root directory are readable, also when its size was rounded up past its last
block. -/
lemma Image.entries (h : Image s (archive files)) :
    Entries (finished s) (rounded (dinode sb s.disk ROOTINO)) 0 (rootEntries files) := by
  have hroot : ROOTINO < sb.ninodes := by decide
  have htype := h.root_used
  have hkept := h.sound.accounts.kept_iupdate hroot hroot htype
    (rounded (dinode sb s.disk ROOTINO))
  refine ⟨?_, fun bn hbn => ?_, fun k de hk => ?_⟩
  · rw [h.rounded_size, length_rootEntries]
    simp only [Dirent.SIZE, BSIZE]
    omega
  · refine (mapped_fields rfl).mpr (hkept bn (h.sound.noHoles ROOTINO hroot htype bn ?_)).1
    rw [length_rootEntries, Nat.zero_add] at hbn
    rwa [h.root_size]
  · obtain ⟨hlt, hget⟩ := List.getElem?_eq_some_iff.mp hk
    have hbytes : (List.range Dirent.SIZE).map (fun j => byteOf (finished s)
        (rounded (dinode sb s.disk ROOTINO)) (0 + k * Dirent.SIZE + j)) = de.encode := by
      apply List.ext_getElem?
      intro j
      have hentry := encodeDir_entry (rootEntries files) hlt []
      rw [List.append_nil, hget] at hentry
      rw [← hentry, List.getElem?_take, List.getElem?_drop, List.getElem?_map]
      by_cases hj : j < Dirent.SIZE
      · have hpos : k * Dirent.SIZE + j < (files.length + 2) * Dirent.SIZE := by
          rw [length_rootEntries] at hlt
          simp only [Dirent.SIZE] at hj ⊢
          omega
        rw [List.getElem?_range hj, Option.map_some, if_pos hj, h.root_byte hpos, Nat.zero_add]
      · rw [List.getElem?_eq_none (by rw [List.length_range]; omega), if_neg hj]
        rfl
    rw [direntAt, hbytes, Dirent.decode_encode]

/-! ### Names -/

lemma Input.stored_str (f : Input) : 0 ∉ f.stored := by
  unfold Input.stored
  split_ifs
  · exact fun h => f.name_str (List.mem_of_mem_tail h)
  · exact f.name_str

lemma Input.stored_slash (hf : SLASH ∉ f.name) : SLASH ∉ f.stored := by
  unfold Input.stored
  split_ifs
  · exact fun h => hf (List.mem_of_mem_tail h)
  · exact hf

/-- The entry of a file. -/
lemma rootEntries_file (hk : files[k]? = some f) :
    (rootEntries files)[k + 2]? = some (dirent (k + 2) f.stored) := by
  simp only [rootEntries, List.getElem?_cons_succ, List.getElem?_mapIdx, hk, Option.map_some]

/-- A name that differs from those before it is found at its own entry. -/
lemma lookup_rootEntries (hlt : files.length + 1 < NINODES) (hk : files[k]? = some f)
    (hnames : (names files).Pairwise fun a b => namecmp a b ≠ 0) :
    lookup (f.stored.take DIRSIZ) (rootEntries files) 0 =
      some (k + 2, (k + 2) * Dirent.SIZE) := by
  have hlen := (List.getElem?_eq_some_iff.mp hk).1
  have hcut : ∀ l, namecmp (f.stored.take DIRSIZ) (strncpy DIRSIZ l) = 0 ↔
      namecmp l f.stored = 0 := by
    intro l
    rw [namecmp_eq_zero_iff, namecmp_eq_zero_iff, cut_take f.stored_str, cut_strncpy]
    exact eq_comm
  have hnat : (UInt16.ofNat (k + 2)).toNat = k + 2 := by
    rw [UInt16.toNat_ofNat']
    simp only [NINODES] at hlt
    exact Nat.mod_eq_of_lt (by omega)
  have hfile : (names files)[k + 2]? = some f.stored := by
    simp only [names, List.getElem?_cons_succ, List.getElem?_map, hk, Option.map_some]
  have hentry := lookup_eq_some (f.stored.take DIRSIZ) 0 (rootEntries_file hk)
    (rootEntries_inum hlt _ (List.mem_of_getElem? (rootEntries_file hk)))
    ((hcut _).mpr (namecmp_eq_zero_iff.mpr rfl)) ?_
  · rw [hentry, Nat.zero_add]
    exact congrArg (fun n => some (n, (k + 2) * Dirent.SIZE)) hnat
  · intro j hj de hde
    have hname : ∃ l, (names files)[j]? = some l ∧ de.name = strncpy DIRSIZ l := by
      have hmap := congrArg (fun l => l[j]?) (rootEntries_names files)
      simp only [List.getElem?_map, hde, Option.map_some] at hmap
      obtain ⟨l, hl, hstr⟩ := Option.map_eq_some_iff.mp hmap.symm
      exact ⟨l, hl, hstr.symm⟩
    obtain ⟨l, hl, hstr⟩ := hname
    rw [hstr, ne_eq, hcut]
    obtain ⟨hj', hlj⟩ := List.getElem?_eq_some_iff.mp hl
    obtain ⟨hk', hfk⟩ := List.getElem?_eq_some_iff.mp hfile
    have hpair := List.pairwise_iff_getElem.mp hnames j (k + 2) hj' hk' hj
    rwa [hlj, hfk] at hpair

/-! ### Booting -/

/-- Giving up a reference to an inode that has links. -/
lemma iput_linked {t : Core} {i : Nat} {ip : Dinode} (hmem : t.mem i = some ip)
    (hlink : ip.nlink ≠ 0) : t.iput sb i = .ok ⟨t.toState, t.refs.erase i⟩ := by
  unfold Core.iput State.iput
  rw [hmem]
  dsimp only
  rw [if_neg (fun h => hlink h.1)]
  rfl

/-- A name of the root directory is looked up on a machine that has just booted. -/
lemma namei_boot (dev : Devsw) (cwd : Nat) {d : Disk} {name : List UInt8} {inum off : Nat}
    (hdir : (dinode sb d ROOTINO).type = T_DIR) (hlink : (dinode sb d ROOTINO).nlink ≠ 0)
    (hname : name ≠ []) (hslash : SLASH ∉ name) (hinum : inum ≠ ROOTINO)
    (hlookup : Fs.dirlookup sb dev d (dinode sb d ROOTINO) (name.take DIRSIZ) =
      .ok (some (inum, off), dinode sb d ROOTINO, d)) :
    ∃ t, (Core.boot d).namei sb dev cwd (SLASH :: name) = .ok (some inum, t) ∧ t.disk = d ∧
      t.mem inum = none := by
  have hcs : components (SLASH :: name) = [name] := by
    rw [components_cons, components_elem hname hslash]
  -- the root directory enters the cache and is read
  obtain ⟨s₁, hstart, hdisk₁, hmem₁, hrefs₁⟩ : ∃ t : Core,
      (Core.boot d).startDir cwd (SLASH :: name) = .ok (ROOTINO, t) ∧ t.disk = d ∧
        t.mem ROOTINO = none ∧ t.refs = {ROOTINO} := by
    refine ⟨_, rfl, rfl, ?_, rfl⟩
    dsimp only
    rw [Function.update_self]
  obtain ⟨s₂, hlock, hdisk₂, hrefs₂⟩ : ∃ t : Core,
      s₁.ilock sb ROOTINO = .ok (dinode sb d ROOTINO, t) ∧ t.disk = d ∧ t.refs = {ROOTINO} := by
    unfold Core.ilock State.ilock
    rw [hmem₁, hdisk₁]
    dsimp only
    rw [if_neg (by rw [hdir]; decide)]
    exact ⟨_, rfl, rfl, hrefs₁⟩
  -- the inode of the file enters the cache, but is not read yet
  obtain ⟨s₃, hfound, hdisk₃, hmem₃, hroot₃⟩ : ∃ t : Core,
      s₂.dirlookup sb dev ROOTINO (dinode sb d ROOTINO) (name.take DIRSIZ) =
        .ok (some (inum, off), t) ∧ t.disk = d ∧ t.mem inum = none ∧
        t.mem ROOTINO = some (dinode sb d ROOTINO) := by
    unfold Core.dirlookup Core.iget
    rw [hdisk₂, hlookup]
    dsimp only [bind, Except.bind]
    rw [hrefs₂, if_neg (by rwa [Multiset.mem_singleton]), if_pos (by decide)]
    refine ⟨_, rfl, rfl, ?_, ?_⟩
    · dsimp only
      rw [Function.update_self]
    · dsimp only
      rw [Function.update_of_ne hinum.symm, Function.update_self]
  refine ⟨⟨s₃.toState, s₃.refs.erase ROOTINO⟩, ?_, hdisk₃, hmem₃⟩
  rw [Core.namei, Core.namex_eq_walk, hstart, hcs]
  dsimp only [bind, Except.bind]
  rw [Core.walk, hlock]
  dsimp only [bind, Except.bind]
  rw [if_neg (by simp [hdir]), if_neg (fun h => Bool.noConfusion h.1), hfound]
  dsimp only
  rw [iput_linked hroot₃ hlink]
  rfl

/-- Without a name, the path is that of the root directory. -/
lemma namei_root {dev : Devsw} {cwd inum : Nat} {d : Disk} {t : Core}
    (h : (Core.boot d).namei sb dev cwd [SLASH] = .ok (some inum, t)) :
    inum = ROOTINO ∧ t.disk = d ∧ t.mem ROOTINO = none := by
  have hcs : components [SLASH] = [] := by
    rw [components_cons, components_nil]
  rw [Core.namei, Core.namex_eq_walk, hcs] at h
  cases h
  refine ⟨rfl, rfl, ?_⟩
  dsimp only
  rw [Function.update_self]

/-! ### The result -/

/-- The image contains the file: the kernel finds it under its name, and reads what was read when
the image was made. -/
def Readable (dev : Devsw) (cwd : Nat) (d : Disk) (f : Input) : Prop :=
  ∃ inum t ip t', (Core.boot d).namei sb dev cwd (SLASH :: f.stored) = .ok (some inum, t) ∧
    t.ilock sb inum = .ok (ip, t') ∧ ip.type = T_FILE ∧ ip.nlink = 1 ∧
    ip.size.toNat = f.bytes.length ∧
    ∀ off n, Fs.readi sb dev t'.disk ip off n =
      .ok (readFile f.bytes off.toNat n.toNat, ip, t'.disk)

lemma Image.readable (h : Image s (archive files)) (hfits : Fits files) (dev : Devsw) (cwd : Nat)
    (hnames : (names files).Pairwise fun a b => namecmp a b ≠ 0) (hk : files[k]? = some f)
    (hne : f.stored ≠ []) : Readable dev cwd (finished s) f := by
  have hlt := h.length_lt
  have hlen := (List.getElem?_eq_some_iff.mp hk).1
  have hroot : dinode sb (finished s) ROOTINO = rounded (dinode sb s.disk ROOTINO) := by
    rw [dinode_finished, if_pos rfl]
  have hdir : (rounded (dinode sb s.disk ROOTINO)).type = T_DIR := h.root_type
  have hlookup : Fs.dirlookup sb dev (finished s) (rounded (dinode sb s.disk ROOTINO))
      (f.stored.take DIRSIZ) = .ok (some (k + 2, (k + 2) * Dirent.SIZE),
        rounded (dinode sb s.disk ROOTINO), finished s) := by
    have hentries := h.entries
    obtain ⟨m, hm⟩ := Nat.exists_eq_add_of_le (show (rootEntries files).length ≤
        (rounded (dinode sb s.disk ROOTINO)).size.toNat by
      have := hentries.le
      simp only [Dirent.SIZE] at this
      omega)
    rw [Fs.dirlookup, if_neg (by simp [hdir]), hm,
      dirlookupLoop_entries (by rw [hdir]; decide) hentries, lookup_rootEntries hlt hk hnames]
  obtain ⟨t, hnamei, hdisk, hmem⟩ := namei_boot dev cwd (by rw [hroot]; exact hdir)
    (by rw [hroot]; exact (h.inode 0 _ (archive_root files)).nlink ▸ by decide) hne
    (Input.stored_slash (hfits.names f (List.mem_of_getElem? hk)))
    (show k + 2 ≠ ROOTINO by simp only [ROOTINO]; omega) (by rw [hroot]; exact hlookup)
  have hfile : Holds s.disk (k + 1 + 1) (T_FILE, f.bytes) := h.inode _ _ (archive_file hk)
  have hdinode : dinode sb (finished s) (k + 2) = dinode sb s.disk (k + 2) := by
    rw [dinode_finished, if_neg (by simp only [ROOTINO]; omega)]
  have hlt' : k + 2 < sb.ninodes := by
    change k + 2 < NINODES
    omega
  have hfileType : (dinode sb s.disk (k + 2)).type = T_FILE := hfile.type
  have htype : (dinode sb s.disk (k + 2)).type ≠ 0 := by
    rw [hfileType]
    decide
  have hholes := h.sound.noHoles _ hlt' htype
  have hkept := h.sound.accounts.kept_iupdate (i := ROOTINO) (by decide) hlt' htype
    (rounded (dinode sb s.disk ROOTINO))
  obtain ⟨t', hlock, hdisk'⟩ : ∃ t' : Core,
      t.ilock sb (k + 2) = .ok (dinode sb s.disk (k + 2), t') ∧ t'.disk = finished s := by
    unfold Core.ilock State.ilock
    rw [hmem, hdisk, hdinode]
    dsimp only
    rw [if_neg htype]
    exact ⟨_, rfl, rfl⟩
  refine ⟨k + 2, t, _, t', hnamei, hlock, hfile.type, hfile.nlink, hfile.size, fun off n => ?_⟩
  have hcontents : contents (finished s) (dinode sb s.disk (k + 2)) = f.bytes := by
    rw [finished, kept_contents hkept rfl hholes]
    exact hfile.contents
  have hholes' : NoHoles (finished s) (dinode sb s.disk (k + 2)) :=
    fun bn hbn => (hkept bn (hholes bn hbn)).1
  rw [hdisk', readi_eq sb dev hholes' (by rw [hfileType]; decide), hcontents]

/-- Names that differ in their first `DIRSIZ` bytes, also from `.` and `..`. -/
lemma names_pairwise
    (hdist : files.Pairwise fun f g => f.stored.take DIRSIZ ≠ g.stored.take DIRSIZ)
    (hdots : ∀ f ∈ files, f.stored ≠ DOT ∧ f.stored ≠ DOTDOT) :
    (names files).Pairwise fun a b => namecmp a b ≠ 0 := by
  have hfile : ∀ f : Input, cut DIRSIZ f.stored = f.stored.take DIRSIZ :=
    fun f => cut_of_notMem f.stored_str
  have hshort : ∀ f : Input, ∀ l : List UInt8, l.length < DIRSIZ → 0 ∉ l → f.stored ≠ l →
      namecmp l f.stored ≠ 0 := by
    intro f l hl h0 hne
    rw [ne_eq, namecmp_eq_zero_iff, hfile, cut_of_notMem h0, List.take_of_length_le hl.le]
    intro heq
    have hlen := congrArg List.length heq
    rw [List.length_take] at hlen
    rw [List.take_of_length_le (by omega)] at heq
    exact hne heq.symm
  refine List.Pairwise.cons ?_ (List.Pairwise.cons ?_ ?_)
  · intro l hl
    rcases List.mem_cons.mp hl with rfl | hl
    · decide
    · obtain ⟨f, hf, rfl⟩ := List.mem_map.mp hl
      exact hshort f DOT (by decide) (by decide) (hdots f hf).1
  · intro l hl
    obtain ⟨f, hf, rfl⟩ := List.mem_map.mp hl
    exact hshort f DOTDOT (by decide) (by decide) (hdots f hf).2
  · rw [List.pairwise_map]
    refine hdist.imp fun {f g} hne => ?_
    rw [ne_eq, namecmp_eq_zero_iff, hfile, hfile]
    exact hne

theorem mkfs_readable (files : List Input) (hfits : Fits files)
    (hdist : files.Pairwise fun f g => f.stored.take DIRSIZ ≠ g.stored.take DIRSIZ)
    (hnames : ∀ f ∈ files, f.stored ≠ [] ∧ f.stored ≠ DOT ∧ f.stored ≠ DOTDOT)
    (dev : Devsw) (cwd : Nat) :
    ∃ s, main files = .ok s ∧ OnDisk sb s.img ∧ ∀ f ∈ files, Readable dev cwd s.img f := by
  obtain ⟨s, hs⟩ := main_succeeds hfits
  have hinodes := hfits.inodes
  obtain ⟨s₁, h, himg⟩ := main_image (by omega) hs
  have himg' : s.img = finished s₁ := himg
  refine ⟨s, hs, ?_, fun f hf => ?_⟩
  · rw [himg']
    exact h.onDisk
  · obtain ⟨k, hk⟩ := List.getElem?_of_mem hf
    rw [himg']
    exact h.readable hfits dev cwd (names_pairwise hdist fun f hf => (hnames f hf).2) hk
      (hnames f hf).1

theorem mkfs_readable_cat : ∃ s, main [catFile] = .ok s ∧ OnDisk sb s.img ∧
    ∀ f ∈ [catFile], Readable ⟨fun _ _ => none, fun _ _ => none⟩ ROOTINO s.img f :=
  mkfs_readable [catFile] fits_catFile (by decide) (by decide) _ _

/-- A file `_`, whose name becomes empty. -/
def barFile : Input where
  name := [95]
  reads := [[104, 105]]
  name_ne := by decide
  name_str := by decide
  reads_len := by decide

lemma fits_barFile : Fits [barFile] := ⟨by decide, by decide, by decide, by decide⟩

/-- Under the empty name there is the root directory. -/
theorem mkfs_bar_unreadable : ∃ s, main [barFile] = .ok s ∧
    ¬ Readable ⟨fun _ _ => none, fun _ _ => none⟩ ROOTINO s.img barFile := by
  obtain ⟨s, hs⟩ := main_succeeds fits_barFile
  obtain ⟨s₁, h, himg⟩ := main_image (by decide) hs
  have himg' : s.img = finished s₁ := himg
  refine ⟨s, hs, ?_⟩
  rintro ⟨inum, t, ip, t', hnamei, hlock, htype, -⟩
  rw [himg'] at hnamei
  obtain ⟨rfl, hdisk, hmem⟩ := namei_root hnamei
  have hroot : (dinode sb (finished s₁) ROOTINO).type = T_DIR := by
    rw [dinode_finished, if_pos rfl]
    exact h.root_type
  unfold Core.ilock State.ilock at hlock
  rw [hmem, hdisk] at hlock
  dsimp only at hlock
  rw [if_neg (by rw [hroot]; decide)] at hlock
  cases hlock
  exact absurd (hroot.symm.trans htype) (by decide)

end Xv6.Mkfs
