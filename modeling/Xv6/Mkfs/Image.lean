import Xv6.Fs.ByteFiles
import Xv6.Mkfs.Simulation

/-!
# What is in the image

An image is seen as the list of its inodes, each with its type and its contents, the first being the
root directory. The functions of `mkfs` add an inode to the list or bytes to one of them.
-/

namespace Xv6.Mkfs

open Fs Disk Fallible
open Icache (ROOTINO)

/-- The types and contents of the inodes, from inode 1 on. -/
abbrev Archive := List (UInt16 × List UInt8)

namespace Archive

variable {A : Archive} {k : Nat} {p q : List UInt8}

/-- Bytes are added to the file at position `k`. -/
def append (A : Archive) (k : Nat) (p : List UInt8) : Archive :=
  A.modify k fun x => (x.1, x.2 ++ p)

/-- The data blocks that the files need. -/
def blocks (A : Archive) : Nat := (A.map fun x => blocksFor x.2.length).sum

@[simp]
lemma length_append (A : Archive) (k : Nat) (p : List UInt8) :
    (A.append k p).length = A.length := List.length_modify _ _ _

lemma append_nil (A : Archive) (k : Nat) : A.append k [] = A := by
  unfold append
  simp only [List.append_nil]
  exact List.modify_id _ _

lemma append_append (A : Archive) (k : Nat) (p q : List UInt8) :
    (A.append k p).append k q = A.append k (p ++ q) := by
  simp only [append, List.modify_modify_eq, Function.comp_def, List.append_assoc]

lemma getElem?_append (A : Archive) (k j : Nat) (p : List UInt8) :
    (A.append k p)[j]? = if k = j then A[j]?.map fun x => (x.1, x.2 ++ p) else A[j]? := by
  rw [append, List.getElem?_modify]
  split_ifs <;> simp

lemma blocks_append {x : UInt16 × List UInt8} (hk : A[k]? = some x) :
    (A.append k p).blocks + blocksFor x.2.length =
      A.blocks + blocksFor (x.2.length + p.length) := by
  induction A generalizing k with
  | nil => cases hk
  | cons y A ih =>
    cases k with
    | zero =>
      cases hk
      simp only [append, blocks, List.modify_zero_cons, List.map_cons, List.sum_cons,
        List.length_append]
      omega
    | succ k =>
      have hrest := ih hk
      simp only [append, blocks, List.modify_succ_cons, List.map_cons, List.sum_cons] at hrest ⊢
      omega

lemma blocks_concat (A : Archive) (t : UInt16) (f : List UInt8) :
    blocks (A ++ [(t, f)]) = A.blocks + blocksFor f.length := by
  simp [blocks]

/-- Adding to a file of a longer archive. -/
lemma append_concat_of_lt (hk : k < A.length) (x : UInt16 × List UInt8) :
    append (A ++ [x]) k p = A.append k p ++ [x] := by
  apply List.ext_getElem?
  intro j
  rw [getElem?_append, List.getElem?_append, List.getElem?_append, getElem?_append, length_append]
  by_cases hj : j < A.length
  · rw [if_pos hj, if_pos hj]
  · rw [if_neg hj, if_neg hj, if_neg (by omega)]

lemma append_concat_last (A : Archive) (t : UInt16) (f p : List UInt8) :
    append (A ++ [(t, f)]) A.length p = A ++ [(t, f ++ p)] := by
  apply List.ext_getElem?
  intro j
  rw [getElem?_append, List.getElem?_append, List.getElem?_append]
  rcases Nat.lt_trichotomy j A.length with hlt | rfl | hgt
  · rw [if_neg (by omega), if_pos hlt, if_pos hlt]
  · simp
  · rw [if_neg (by omega), if_neg (by omega), if_neg (by omega),
      List.getElem?_eq_none (by simp; omega), List.getElem?_eq_none (by simp; omega)]

end Archive

/-! ### Images -/

/-- Inode `i` has the given type and contents. -/
structure Holds (d : Disk) (i : Nat) (x : UInt16 × List UInt8) : Prop where
  type : (dinode sb d i).type = x.1
  nlink : (dinode sb d i).nlink = 1
  contents : contents d (dinode sb d i) = x.2
  trimmed : Trimmed d (dinode sb d i) (dinode sb d i).size.toNat

/-- The state of `mkfs` when it has put `A` into the image. -/
structure Image (s : State) (A : Archive) : Prop where
  shape : Shape s
  sound : Sound sb s.disk
  freeinode : s.freeinode = A.length + 1
  lt : A.length < NINODES
  types : ∀ x ∈ A, x.1 ≠ 0 ∧ x.1 ≠ T_DEV
  inode : ∀ k x, A[k]? = some x → Holds s.disk (k + 1) x
  unused : ∀ i, i < NINODES → A.length < i → (dinode sb s.disk i).type = 0
  paid : s.freeblock ≤ nmeta + A.blocks

variable {s s' : State} {A : Archive} {i k : Nat} {x : UInt16 × List UInt8} {p : List UInt8}
  {d d' : Disk}

lemma Holds.size (h : Holds d i x) : (dinode sb d i).size.toNat = x.2.length := by
  rw [← h.contents, length_contents]

/-- An inode whose blocks are left alone. -/
lemma Holds.keep (h : Holds d i x) (hdi : dinode sb d' i = dinode sb d i)
    (hk : Kept d (dinode sb d i) d' (dinode sb d i)) (hholes : NoHoles d (dinode sb d i)) :
    Holds d' i x := by
  refine ⟨?_, ?_, ?_, ?_⟩
  · rw [hdi, h.type]
  · rw [hdi, h.nlink]
  · rw [hdi, kept_contents hk rfl hholes, h.contents]
  · rw [hdi]
    exact h.trimmed.kept hk

section

variable (h : Image s A)

include h

lemma Image.inode_lt (hk : A[k]? = some x) : k + 1 < NINODES := by
  have hlt := (List.getElem?_eq_some_iff.mp hk).1
  have := h.lt
  omega

lemma Image.type_ne (hk : A[k]? = some x) : (dinode sb s.disk (k + 1)).type ≠ 0 ∧
    (dinode sb s.disk (k + 1)).type ≠ T_DEV := by
  rw [(h.inode k x hk).type]
  exact h.types x (List.mem_of_getElem? hk)

/-- The blocks that a file takes when it grows. -/
lemma Image.missing_le (hk : A[k]? = some x) (p : List UInt8) :
    Fs.missing s.disk (dinode sb s.disk (k + 1)) (fileBlocks (x.2.length + p.length)) + A.blocks ≤
      (A.append k p).blocks := by
  have hblocks := Archive.blocks_append (p := p) hk
  have hsize := (h.inode k x hk).size
  have hle : (dinode sb s.disk (k + 1)).size.toNat ≤ x.2.length + p.length := by omega
  have hmissing := (h.sound.noHoles _ (h.inode_lt hk) (h.type_ne hk).1).missing_le hle
  rw [hsize] at hmissing
  omega

lemma Image.iappend (hk : A[k]? = some x) (hp : p ≠ []) (hok : s.iappend (k + 1) p = .ok s') :
    Image s' (A.append k p) := by
  obtain ⟨ht, hdev⟩ := h.type_ne hk
  have hi := h.inode_lt hk
  have hx := h.inode k x hk
  have happ := iappend_appended h.shape h.sound hi ht hdev hp hok
  have hfile : Fs.contents s'.disk (dinode sb s'.disk (k + 1)) = x.2 ++ p := by
    rw [happ.wrote.file, hx.contents]
  refine ⟨happ.shape, happ.sound, ?_, ?_, fun y hy => ?_, fun j y hj => ?_, fun j hj hlt => ?_, ?_⟩
  · rw [freeinode_iappend hok, h.freeinode, Archive.length_append]
  · rw [Archive.length_append]
    exact h.lt
  · obtain ⟨j, hj⟩ := List.getElem?_of_mem hy
    rw [Archive.getElem?_append] at hj
    split_ifs at hj
    · obtain ⟨z, hz, rfl⟩ := Option.map_eq_some_iff.mp hj
      exact h.types z (List.mem_of_getElem? hz)
    · exact h.types y (List.mem_of_getElem? hj)
  · rw [Archive.getElem?_append] at hj
    split_ifs at hj with hjk
    · subst hjk
      rw [hk] at hj
      cases hj
      refine ⟨?_, ?_, hfile, happ.trimmed hx.trimmed⟩
      · rw [happ.wrote.types _ hi, hx.type]
      · rw [happ.nlink, hx.nlink]
    · have hj' := h.inode_lt hj
      have hne : j + 1 ≠ k + 1 := by omega
      have htj := (h.type_ne hj).1
      exact (h.inode j y hj).keep (happ.others _ hj' hne) (happ.kept _ hj' hne htj)
        (h.sound.noHoles _ hj' htj)
  · rw [Archive.length_append] at hlt
    have hne : j ≠ k + 1 := by
      have := (List.getElem?_eq_some_iff.mp hk).1
      omega
    rw [happ.others j hj hne]
    exact h.unused j hj hlt
  · have hfree := happ.wrote.free happ.sound ⟨hi, ht, hdev⟩
    have hmissing := h.missing_le hk p
    rw [hx.contents, List.length_append] at hfree
    have := h.shape.freeBlocks_disk
    have := happ.shape.freeBlocks_disk
    have := h.paid
    omega

/-- An `iappend` for which there is room succeeds. -/
lemma Image.iappend_succeeds (hk : A[k]? = some x)
    (hmax : x.2.length + p.length ≤ MAXFILE * BSIZE)
    (hfit : nmeta + (A.append k p).blocks ≤ FSSIZE) : ∃ s', s.iappend (k + 1) p = .ok s' := by
  have hsize := (h.inode k x hk).size
  have hmissing := h.missing_le hk p
  have := h.paid
  refine Mkfs.iappend_succeeds h.shape h.sound (h.inode_lt hk) (h.type_ne hk).1 ?_ ?_
  · omega
  · rw [hsize]
    omega

end

/-! ### New inodes -/

/-- The inode that `ialloc` writes. -/
def newInode (t : UInt16) : Dinode := { zeroDinode with type := t, nlink := 1 }

lemma refsOf_newInode (d : Disk) (t : UInt16) {c : Nat} (hc : c ≠ 0) :
    refsOf d (newInode t) c = 0 := by
  unfold refsOf
  split_ifs
  · rfl
  · exact refs_emptied d (newInode t) hc

lemma trimmed_newInode (d : Disk) (t : UInt16) : Trimmed d (newInode t) 0 := by
  intro k _ hdirect hmapped
  rw [mapped_direct hdirect] at hmapped
  exact absurd rfl hmapped

lemma Image.ialloc (h : Image s A) (hlt : A.length + 1 < NINODES) {t : UInt16} (ht : t ≠ 0)
    (hdev : t ≠ T_DEV) :
    ∃ s', s.ialloc t = .ok (A.length + 1, s') ∧ Image s' (A ++ [(t, [])]) := by
  have hshape : Shape { s with freeinode := s.freeinode + 1 } :=
    ⟨h.shape.nsect, h.shape.super, h.shape.le, h.shape.ge, h.shape.zero⟩
  obtain ⟨s', hs', hshape', hdisk, hfreeinode, hfreeblock⟩ :=
    hshape.winode_eq hlt (newInode t)
  have hold : ({ s with freeinode := s.freeinode + 1 } : State).disk = s.disk := rfl
  rw [hold] at hdisk
  have hunused := h.unused _ hlt (Nat.lt_succ_self _)
  have hdinode : ∀ j, dinode sb s'.disk j =
      if j = A.length + 1 then newInode t else dinode sb s.disk j := by
    intro j
    rw [hdisk, iupdate, dinode_putDinode]
  have hsound : Sound sb s'.disk := by
    rw [hdisk]
    refine h.sound.replace hlt (fun c hc => ?_) fun _ => noHoles_of_size_zero rfl
    rw [refsOf_newInode _ _ hc, refsOf, if_pos hunused]
  refine ⟨s', ?_, hshape', hsound, ?_, ?_, ?_, fun k x hk => ?_, fun i hi hli => ?_, ?_⟩
  · unfold State.ialloc
    dsimp only
    rw [h.freeinode]
    rw [h.freeinode] at hs'
    change State.winode _ _ (newInode t) >>= _ = _
    rw [hs']
    rfl
  · rw [hfreeinode, List.length_append, List.length_singleton, ← h.freeinode]
  · rwa [List.length_append, List.length_singleton]
  · intro x hx
    rw [List.mem_append, List.mem_singleton] at hx
    rcases hx with hx | rfl
    · exact h.types x hx
    · exact ⟨ht, hdev⟩
  · by_cases hkA : k < A.length
    · rw [List.getElem?_append_left hkA] at hk
      have hk1 := h.inode_lt hk
      have htk := (h.type_ne hk).1
      refine (h.inode k x hk).keep ?_ ?_ (h.sound.noHoles _ hk1 htk)
      · rw [hdinode, if_neg (by omega)]
      · rw [hdisk]
        exact h.sound.accounts.kept_iupdate hlt hk1 htk _
    · obtain ⟨hkl, hx⟩ := List.getElem?_eq_some_iff.mp hk
      obtain rfl : k = A.length := by
        rw [List.length_append, List.length_singleton] at hkl
        omega
      rw [List.getElem_append_right (le_refl _)] at hx
      simp only [Nat.sub_self, List.getElem_cons_zero] at hx
      subst hx
      have hself : dinode sb s'.disk (A.length + 1) = newInode t := by rw [hdinode, if_pos rfl]
      refine ⟨?_, ?_, ?_, ?_⟩
      · rw [hself]
        rfl
      · rw [hself]
        rfl
      · rw [hself]
        rfl
      · rw [hself]
        exact trimmed_newInode _ t
  · rw [List.length_append, List.length_singleton] at hli
    rw [hdinode, if_neg (by omega)]
    exact h.unused i hi (by omega)
  · rw [hfreeblock, Archive.blocks_concat]
    exact h.paid

/-! ### Copying a file -/

lemma Image.foldlM (h : Image s A) (hk : A[k]? = some x) {l : List (List UInt8)}
    (hl : ∀ c ∈ l, c ≠ []) (hok : l.foldlM (fun s c => s.iappend (k + 1) c) s = .ok s') :
    Image s' (A.append k l.flatten) := by
  induction l generalizing s A x with
  | nil =>
    cases hok
    rwa [List.flatten_nil, Archive.append_nil]
  | cons c l ih =>
    rw [List.foldlM_cons] at hok
    obtain ⟨s₁, hc, hok⟩ := bind_eq_ok.mp hok
    have hk' : (A.append k c)[k]? = some (x.1, x.2 ++ c) := by
      rw [Archive.getElem?_append, if_pos rfl, hk]
      rfl
    have hrest := ih (h.iappend hk (hl c List.mem_cons_self) hc) hk'
      (fun c' hc' => hl c' (List.mem_cons_of_mem _ hc')) hok
    rwa [Archive.append_append] at hrest

lemma Image.foldlM_succeeds (h : Image s A) (hk : A[k]? = some x) {l : List (List UInt8)}
    (hl : ∀ c ∈ l, c ≠ []) (hmax : x.2.length + l.flatten.length ≤ MAXFILE * BSIZE)
    (hfit : nmeta + (A.append k l.flatten).blocks ≤ FSSIZE) :
    ∃ s', l.foldlM (fun s c => s.iappend (k + 1) c) s = .ok s' := by
  induction l generalizing s A x with
  | nil => exact ⟨s, rfl⟩
  | cons c l ih =>
    have hk' : (A.append k c)[k]? = some (x.1, x.2 ++ c) := by
      rw [Archive.getElem?_append, if_pos rfl, hk]
      rfl
    rw [List.flatten_cons, List.length_append] at hmax
    rw [List.flatten_cons, ← Archive.append_append] at hfit
    have hle : (A.append k c).blocks ≤ ((A.append k c).append k l.flatten).blocks := by
      have hblocks := Archive.blocks_append (p := l.flatten) hk'
      have hmono : blocksFor (x.2 ++ c).length ≤ blocksFor ((x.2 ++ c).length + l.flatten.length) :=
        blocksFor_mono (Nat.le_add_right _ _)
      dsimp only at hblocks
      omega
    obtain ⟨s₁, hs₁⟩ := h.iappend_succeeds hk (p := c) (by omega) (by omega)
    obtain ⟨s', hs'⟩ := ih (h.iappend hk (hl c List.mem_cons_self) hs₁) hk'
      (fun c' hc' => hl c' (List.mem_cons_of_mem _ hc'))
      (by rw [List.length_append]; omega) hfit
    refine ⟨s', ?_⟩
    rw [List.foldlM_cons, hs₁]
    exact hs'

end Xv6.Mkfs
