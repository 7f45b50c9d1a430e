import Mathlib.Algebra.BigOperators.Fin
import Xv6.Fs.Inode
import Xv6.Lib.Count

/-!
# Counting references to blocks

A block is referenced by a direct slot, by the indirect slot or by an entry of the indirect block of
an allocated inode. `Accounts sb d r` relates the bitmap to any function `r` that counts references;
blocks that are allocated but not yet entered anywhere are counted in `r` by whoever holds them.
-/

namespace Xv6.Fs

open Disk

/-- How often the inode refers to block `b`. -/
def refs (d : Disk) (ip : Dinode) (b : Nat) : Nat :=
  ∑ k, Count.one (ip.addrs k).toNat b +
    if ip.addrs indirect = 0 then 0
    else ∑ j ∈ Finset.range NINDIRECT, Count.one ((d (ip.addrs indirect).toNat).get j) b

/-- A free inode refers to nothing. -/
def refsOf (d : Disk) (ip : Dinode) (b : Nat) : Nat := if ip.type = 0 then 0 else refs d ip b

/-- How often the allocated inodes of the table `t` refer to block `b`. -/
def allRefs (sb : Superblock) (d : Disk) (t : Nat → Dinode) (b : Nat) : Nat :=
  ∑ i ∈ Finset.range sb.ninodes, refsOf d (t i) b

/-- The bitmap marks the metadata and exactly the data blocks that `r` counts, each of them once. -/
structure Accounts (sb : Superblock) (d : Disk) (r : Nat → Nat) : Prop where
  exact : ∀ b, sb.dataStart ≤ b → b < sb.size → (marked sb d b = true ↔ r b = 1)
  once : ∀ b, b ≠ 0 → r b ≤ 1
  data : ∀ b, b ≠ 0 → r b ≠ 0 → sb.dataStart ≤ b ∧ b < sb.size
  metadata : ∀ b, b < sb.dataStart → marked sb d b = true

variable {sb : Superblock} {d d' : Disk} {r r' : Nat → Nat}

lemma one_zero {b : Nat} (h : b ≠ 0) : Count.one 0 b = 0 := if_neg h.symm

/-- Only the counts of real blocks matter. -/
lemma Accounts.congr (h : Accounts sb d r) (hr : ∀ b, b ≠ 0 → r' b = r b) :
    Accounts sb d r' where
  exact b hb hlt := by
    have hb0 : b ≠ 0 := (sb.dataStart_pos.trans_le hb).ne'
    rw [hr b hb0]
    exact h.exact b hb hlt
  once b hb := by
    rw [hr b hb]
    exact h.once b hb
  data b hb hne := h.data b hb (by rwa [hr b hb] at hne)
  metadata := h.metadata

/-- The bitmap alone decides which disks have the given accounts. -/
lemma Accounts.of_marked (h : Accounts sb d r)
    (hm : ∀ b, b < sb.size → marked sb d' b = marked sb d b) : Accounts sb d' r where
  exact b hb hlt := by
    rw [hm b hlt]
    exact h.exact b hb hlt
  once := h.once
  data := h.data
  metadata b hb := by
    rw [hm b (hb.trans_le (Nat.sub_le _ _))]
    exact h.metadata b hb

lemma Accounts.marked_of_ref (h : Accounts sb d r) {b : Nat} (hb : b ≠ 0) (hr : r b ≠ 0) :
    marked sb d b = true := by
  obtain ⟨hle, hlt⟩ := h.data b hb hr
  have := h.once b hb
  exact (h.exact b hle hlt).mpr (by omega)

/-! ### Allocating and freeing -/

/-- What `balloc` does: an unmarked data block is marked and zeroed. -/
structure Allocated (sb : Superblock) (d : Disk) (b : Nat) (d' : Disk) : Prop where
  lt : b < sb.size
  le : sb.dataStart ≤ b
  free : marked sb d b = false
  eq : d' = bzero (mark sb d b) b

lemma Accounts.balloc (h : Accounts sb d r) {b : Nat} (ha : balloc sb d = .ok (b, d')) :
    Allocated sb d b d' := by
  unfold Fs.balloc at ha
  split at ha
  · rename_i k hk
    cases ha
    have hfree : marked sb d b = false := by simpa using List.find?_some hk
    refine ⟨List.mem_range.mp (List.mem_of_find?_eq_some hk), ?_, hfree, rfl⟩
    by_contra hlt
    rw [h.metadata b (by omega)] at hfree
    cases hfree
  · cases ha

namespace Allocated

variable {b : Nat} (ha : Allocated sb d b d')

include ha

lemma ne_zero : b ≠ 0 := (sb.dataStart_pos.trans_le ha.le).ne'

lemma toNat_ofNat : (UInt32.ofNat b).toNat = b := by
  rw [UInt32.toNat_ofNat']
  exact Nat.mod_eq_of_lt (ha.lt.trans sb.size_lt)

lemma ofNat_ne_zero : UInt32.ofNat b ≠ 0 := by
  intro h
  have := ha.toNat_ofNat
  rw [h] at this
  exact ha.ne_zero this.symm

lemma marked_eq {c : Nat} (hc : c < sb.size) :
    marked sb d' c = (marked sb d c || decide (c = b)) := by
  rw [ha.eq, bzero, marked_data sb _ _ hc ha.le, marked_mark]

lemma dinode_eq {i : Nat} (hi : i < sb.ninodes) : dinode sb d' i = dinode sb d i := by
  rw [ha.eq, bzero, dinode_data sb _ _ hi ha.le, dinode_mark sb d hi]

lemma data_eq {x : Nat} (hx : sb.dataStart ≤ x) (hne : x ≠ b) : d' x = d x := by
  rw [ha.eq, bzero, Function.update_of_ne hne, data_mark sb d ha.lt hx]

lemma get_self (j : Nat) : (d' b).get j = 0 := by
  rw [ha.eq, bzero, Function.update_self]
  simp [Block.get, zeroBlock]

/-- Nobody referred to the block before. -/
lemma unreferenced (h : Accounts sb d r) : r b = 0 := by
  by_contra hne
  have := h.marked_of_ref ha.ne_zero hne
  rw [ha.free] at this
  cases this

/-- The new block is in the hands of the caller. -/
lemma accounts (h : Accounts sb d r) : Accounts sb d' fun c => r c + Count.one b c where
  exact c hc hlt := by
    rw [ha.marked_eq hlt]
    by_cases hcb : c = b
    · subst hcb
      simp [Count.one, ha.unreferenced h]
    · simp [Count.one, hcb, Ne.symm hcb, h.exact c hc hlt]
  once c hc := by
    by_cases hcb : c = b
    · subst hcb
      simp [Count.one, ha.unreferenced h]
    · simpa [Count.one, Ne.symm hcb] using h.once c hc
  data c hc hne := by
    by_cases hcb : c = b
    · subst hcb
      exact ⟨ha.le, ha.lt⟩
    · exact h.data c hc (by simpa [Count.one, Ne.symm hcb] using hne)
  metadata c hc := by
    rw [ha.marked_eq (hc.trans_le (Nat.sub_le _ _)), h.metadata c hc, Bool.true_or]

end Allocated

/-- Freeing a block that is counted takes it off the accounts. -/
lemma Accounts.unmark {b : Nat} (h : Accounts sb d fun c => r c + Count.one b c) (hb : b ≠ 0) :
    Accounts sb (unmark sb d b) r := by
  have hrb : r b = 0 := by
    have := h.once b hb
    simp only [Count.one, if_true] at this
    omega
  have hdata := h.data b hb (by simp [Count.one])
  refine ⟨fun c hc hlt => ?_, fun c hc => ?_, fun c hc hne => ?_, fun c hc => ?_⟩
  · rw [marked_unmark]
    by_cases hcb : c = b
    · subst hcb
      simp [hrb]
    · have := h.exact c hc hlt
      simpa [Count.one, hcb, Ne.symm hcb] using this
  · exact (Nat.le_add_right _ _).trans (h.once c hc)
  · exact h.data c hc (by omega)
  · rw [marked_unmark, h.metadata c hc]
    have hne : c ≠ b := by
      rintro rfl
      exact absurd hdata.1 (by omega)
    simp [hne]

/-! ### References of one inode -/

variable {ip : Dinode} {b : Nat}

lemma refs_congr (h : ip.addrs indirect ≠ 0 →
    d' (ip.addrs indirect).toNat = d (ip.addrs indirect).toNat) (b : Nat) :
    refs d' ip b = refs d ip b := by
  unfold refs
  split_ifs with hi
  · rfl
  · rw [h hi]

/-- A slot of the inode refers to its block. -/
lemma one_le_refs (d : Disk) (ip : Dinode) (k : Fin (NDIRECT + 1)) : 1 ≤ refs d ip (ip.addrs k).toNat := by
  have h := Finset.single_le_sum (f := fun k' => Count.one (ip.addrs k').toNat (ip.addrs k).toNat)
    (fun _ _ => Nat.zero_le _) (Finset.mem_univ k)
  simp only [Count.one, if_true] at h
  exact h.trans (Nat.le_add_right _ _)

/-- An entry of the indirect block refers to its block. -/
lemma one_le_refs_entry (hi : ip.addrs indirect ≠ 0) {j : Nat} (hj : j < NINDIRECT) :
    1 ≤ refs d ip ((d (ip.addrs indirect).toNat).get j) := by
  unfold refs
  rw [if_neg hi]
  have h := Finset.single_le_sum
    (f := fun j' => Count.one ((d (ip.addrs indirect).toNat).get j')
      ((d (ip.addrs indirect).toNat).get j))
    (fun _ _ => Nat.zero_le _) (Finset.mem_range.mpr hj)
  simp only [Count.one, if_true] at h
  exact h.trans (Nat.le_add_left _ _)

/-- The block is named by a direct slot or by an entry of the indirect block. -/
def FileBlock (d : Disk) (ip : Dinode) (b : Nat) : Prop :=
  b ≠ 0 ∧ ((∃ k, k ≠ indirect ∧ (ip.addrs k).toNat = b) ∨
    ip.addrs indirect ≠ 0 ∧ ∃ j < NINDIRECT, (d (ip.addrs indirect).toNat).get j = b)

lemma FileBlock.one_le_refs (h : FileBlock d ip b) : 1 ≤ refs d ip b := by
  obtain ⟨-, ⟨k, -, rfl⟩ | ⟨hi, j, hj, rfl⟩⟩ := h
  · exact Fs.one_le_refs d ip k
  · exact one_le_refs_entry hi hj

/-- A block of the file that is also its indirect block is referred to twice. -/
lemma FileBlock.two_le_refs (h : FileBlock d ip b) (hb : (ip.addrs indirect).toNat = b) :
    2 ≤ refs d ip b := by
  obtain ⟨hb0, ⟨k, hk, hkb⟩ | ⟨hi, j, hj, hjb⟩⟩ := h
  · have hpair := Count.add_le_sum (f := fun k' => Count.one (ip.addrs k').toNat b) hk
    simp only [Count.one, hkb, hb, if_true] at hpair
    exact hpair.trans (Nat.le_add_right _ _)
  · have hslot := Finset.single_le_sum (f := fun k' => Count.one (ip.addrs k').toNat b)
      (fun _ _ => Nat.zero_le _) (Finset.mem_univ indirect)
    have hentry := Finset.single_le_sum
      (f := fun j' => Count.one ((d (ip.addrs indirect).toNat).get j') b)
      (fun _ _ => Nat.zero_le _) (Finset.mem_range.mpr hj)
    rw [hjb] at hentry
    simp only [Count.one, hb, if_true] at hslot hentry
    unfold refs
    rw [if_neg hi]
    simp only [Count.one, hb]
    exact Nat.add_le_add hslot hentry

lemma addrs_ne_zero_iff (k : Fin (NDIRECT + 1)) : ip.addrs k ≠ 0 ↔ (ip.addrs k).toNat ≠ 0 := by
  rw [not_iff_not]
  constructor
  · intro h
    rw [h]
    rfl
  · intro h
    exact UInt32.toNat_inj.mp h

@[simp] lemma setAddr_self (ip : Dinode) (k : Fin (NDIRECT + 1)) (b : Nat) :
    (ip.setAddr k b).addrs k = UInt32.ofNat b := by
  simp only [Dinode.setAddr, Function.update_self]

lemma setAddr_of_ne (ip : Dinode) {k k' : Fin (NDIRECT + 1)} (b : Nat) (h : k' ≠ k) :
    (ip.setAddr k b).addrs k' = ip.addrs k' := by
  simp only [Dinode.setAddr, Function.update_of_ne h]

/-- A free slot that gets a block adds one reference: a new indirect block has no entries yet. -/
lemma refs_setAddr {k : Fin (NDIRECT + 1)} (hk : ip.addrs k = 0) (hb : (UInt32.ofNat b).toNat = b)
    (hb0 : UInt32.ofNat b ≠ 0) (hd : k = indirect → ∀ j, (d b).get j = 0) {c : Nat} (hc : c ≠ 0) :
    refs d (ip.setAddr k b) c = refs d ip c + Count.one b c := by
  have hslots : ∑ k', Count.one ((ip.setAddr k b).addrs k').toNat c =
      ∑ k', Count.one (ip.addrs k').toNat c + Count.one b c := by
    have haddrs : (ip.setAddr k b).addrs = Function.update ip.addrs k (UInt32.ofNat b) := rfl
    have h := Count.sum_update (fun _ x => Count.one (UInt32.toNat x) c) ip.addrs k (UInt32.ofNat b)
    rw [hk, UInt32.toNat_zero, one_zero hc, Nat.add_zero, hb] at h
    rw [haddrs, h]
  unfold refs
  rw [hslots]
  by_cases hki : k = indirect
  · subst hki
    have hsum : ∑ j ∈ Finset.range NINDIRECT, Count.one ((d b).get j) c = 0 := by
      refine Finset.sum_eq_zero fun j _ => ?_
      rw [hd rfl j, one_zero hc]
    rw [setAddr_self, if_neg hb0, hb, hk, if_pos rfl, hsum]
    omega
  · rw [setAddr_of_ne ip b (Ne.symm hki)]
    omega

/-- A free entry of the indirect block that gets a block adds one reference. -/
lemma refs_setEntry {x j : Nat} (hi : ip.addrs indirect ≠ 0)
    (hx : (ip.addrs indirect).toNat = x) (hj : j < NINDIRECT) (hj0 : (d x).get j = 0) {c : Nat}
    (hc : c ≠ 0) :
    refs (Function.update d x ((d x).set j b)) ip c = refs d ip c + Count.one b c := by
  unfold refs
  rw [if_neg hi, if_neg hi, hx, Function.update_self]
  have h := Count.sum_range_of_eq_off (f := fun j' => Count.one ((d x).get j') c)
    (g := fun j' => Count.one (((d x).set j b).get j') c) hj fun j' _ hne => by
      simp only [Block.get_set_ne _ _ hne]
  simp only [Block.get_set_self (d x) b hj, hj0, one_zero hc] at h
  omega

/-! ### References of all inodes -/

variable {t : Nat → Dinode} {i : Nat}

lemma refsOf_of_type (ip : Dinode) (h : ip.type ≠ 0) (b : Nat) : refsOf d ip b = refs d ip b :=
  if_neg h

lemma refs_le_allRefs (d : Disk) (t : Nat → Dinode) (hi : i < sb.ninodes) (ht : (t i).type ≠ 0) (b : Nat) :
    refs d (t i) b ≤ allRefs sb d t b := by
  have h := Finset.single_le_sum (f := fun i => refsOf d (t i) b)
    (fun _ _ => Nat.zero_le _) (Finset.mem_range.mpr hi)
  rw [refsOf_of_type _ ht] at h
  exact h

/-- Two allocated inodes refer to a block no more often than all of them together. -/
lemma refs_add_le_allRefs (d : Disk) (t : Nat → Dinode) {j : Nat} (hij : i ≠ j)
    (hi : i < sb.ninodes) (hj : j < sb.ninodes) (hti : (t i).type ≠ 0) (htj : (t j).type ≠ 0) (b : Nat) :
    refs d (t i) b + refs d (t j) b ≤ allRefs sb d t b := by
  have h := Count.add_le_sum_range (f := fun i => refsOf d (t i) b) hij hi hj
  rwa [refsOf_of_type _ hti, refsOf_of_type _ htj] at h

lemma allRefs_congr {t' : Nat → Dinode} (h : ∀ i, i < sb.ninodes → t' i = t i) (b : Nat) :
    allRefs sb d t' b = allRefs sb d t b :=
  Finset.sum_congr rfl fun i hi => by rw [h i (Finset.mem_range.mp hi)]

/-- The indirect block of an allocated inode is a data block. -/
lemma Accounts.indirect_data (h : Accounts sb d (allRefs sb d t)) (hi : i < sb.ninodes)
    (ht : (t i).type ≠ 0) (hind : (t i).addrs indirect ≠ 0) :
    sb.dataStart ≤ ((t i).addrs indirect).toNat := by
  have hle := (one_le_refs d (t i) indirect).trans (refs_le_allRefs d t hi ht _)
  exact (h.data _ ((addrs_ne_zero_iff indirect).mp hind) (by omega)).1

/-- One inode changes, and the indirect blocks of the others are left alone. -/
lemma allRefs_update (d d' : Disk) (t : Nat → Dinode) (ip' : Dinode) (hi : i < sb.ninodes)
    (hothers : ∀ j, j < sb.ninodes → j ≠ i → (t j).type ≠ 0 → (t j).addrs indirect ≠ 0 →
      d' ((t j).addrs indirect).toNat = d ((t j).addrs indirect).toNat) (b : Nat) :
    allRefs sb d' (Function.update t i ip') b + refsOf d (t i) b =
      allRefs sb d t b + refsOf d' ip' b := by
  have h := Count.sum_range_of_eq_off (f := fun j => refsOf d (t j) b)
    (g := fun j => refsOf d' (Function.update t i ip' j) b) hi fun j hj hne => by
      simp only [Function.update_of_ne hne, refsOf]
      split_ifs with htype
      · rfl
      · exact refs_congr (fun hind => hothers j hj hne htype hind) b
  simp only [Function.update_self] at h
  exact h

end Xv6.Fs
