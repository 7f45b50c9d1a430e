import Xv6.Fs.Bytes

/-!
# The contents of a file

`bmap` may allocate blocks, and a block that it allocates is nobody's: the blocks that the files had
keep their place and their contents. Its cost is the number of blocks that the file is missing, so
the free blocks and the missing ones go down together.
-/

namespace Xv6.Fs

open Disk Fallible

/-! ### Blocks of a file -/

/-- The disk block of the `bn`-th block of the file. -/
def blockOf (d : Disk) (ip : Dinode) (bn : Nat) : Nat :=
  if h : bn < NDIRECT then (ip.addrs ⟨bn, Nat.lt_succ_of_lt h⟩).toNat
  else (d (ip.addrs indirect).toNat).get (bn - NDIRECT)

/-- Byte `k` of the file. -/
def byteOf (d : Disk) (ip : Dinode) (k : Nat) : UInt8 :=
  byteAt (d (blockOf d ip (k / BSIZE))) (k % BSIZE)

/-- The file as a sequence of bytes. -/
def contents (d : Disk) (ip : Dinode) : List UInt8 :=
  (List.range ip.size.toNat).map (byteOf d ip)

instance (d : Disk) (ip : Dinode) (bn : Nat) : Decidable (Mapped d ip bn) := by
  unfold Mapped
  infer_instance

variable {sb : Superblock} {d d' d'' : Disk} {ip ip' ip'' jp : Dinode} {i j b bn K : Nat}

lemma mapped_direct (h : bn < NDIRECT) :
    Mapped d ip bn ↔ ip.addrs ⟨bn, Nat.lt_succ_of_lt h⟩ ≠ 0 := by
  rw [Mapped, dif_pos h]

lemma mapped_indirect (h : ¬ bn < NDIRECT) :
    Mapped d ip bn ↔ bn - NDIRECT < NINDIRECT ∧ ip.addrs indirect ≠ 0 ∧
      (d (ip.addrs indirect).toNat).get (bn - NDIRECT) ≠ 0 := by
  rw [Mapped, dif_neg h]

lemma blockOf_direct (h : bn < NDIRECT) :
    blockOf d ip bn = (ip.addrs ⟨bn, Nat.lt_succ_of_lt h⟩).toNat := dif_pos h

lemma blockOf_indirect (h : ¬ bn < NDIRECT) :
    blockOf d ip bn = (d (ip.addrs indirect).toNat).get (bn - NDIRECT) := dif_neg h

lemma direct_ne_indirect (h : bn < NDIRECT) :
    (⟨bn, Nat.lt_succ_of_lt h⟩ : Fin (NDIRECT + 1)) ≠ indirect := by
  simp only [indirect, ne_eq, Fin.ext_iff, Fin.val_last]
  exact h.ne

lemma Mapped.lt_MAXFILE (h : Mapped d ip bn) : bn < MAXFILE := by
  by_cases hlt : bn < NDIRECT
  · exact hlt.trans_le (Nat.le_add_right _ _)
  · have := ((mapped_indirect hlt).mp h).1
    simp only [MAXFILE]
    omega

lemma Mapped.fileBlock (h : Mapped d ip bn) : FileBlock d ip (blockOf d ip bn) := by
  unfold blockOf
  split_ifs with hlt
  · have hne := (mapped_direct hlt).mp h
    exact ⟨(addrs_ne_zero_iff _).mp hne, Or.inl ⟨_, direct_ne_indirect hlt, rfl⟩⟩
  · obtain ⟨hj, hind, hne⟩ := (mapped_indirect hlt).mp h
    exact ⟨hne, Or.inr ⟨hind, _, hj, rfl⟩⟩

/-- `bmap` finds a block that is allocated and changes nothing. -/
lemma bmap_of_mapped (sb : Superblock) (h : Mapped d ip bn) :
    bmap sb d ip bn = .ok (blockOf d ip bn, ip, d) := by
  unfold bmap blockOf
  split_ifs with hlt hj
  · rw [slot, if_neg ((mapped_direct hlt).mp h)]
    rfl
  · obtain ⟨-, hind, hne⟩ := (mapped_indirect hlt).mp h
    simp only [slot, if_neg hind, entry, if_neg hne, pure, Except.pure, bind, Except.bind]
  · exact absurd ((mapped_indirect hlt).mp h).1 hj

/-- The references of an inode, block by block of the file. -/
lemma refs_eq_sum (d : Disk) (ip : Dinode) {c : Nat} (hc : c ≠ 0) :
    refs d ip c = ∑ bn ∈ Finset.range MAXFILE,
      (if Mapped d ip bn then Count.one (blockOf d ip bn) c else 0) +
        Count.one (ip.addrs indirect).toNat c := by
  have hdirect : ∑ bn ∈ Finset.range NDIRECT,
      (if Mapped d ip bn then Count.one (blockOf d ip bn) c else 0) =
        ∑ k : Fin NDIRECT, Count.one (ip.addrs k.castSucc).toNat c := by
    rw [Finset.sum_range]
    refine Finset.sum_congr rfl fun k _ => ?_
    have hcast : (⟨k.val, Nat.lt_succ_of_lt k.isLt⟩ : Fin (NDIRECT + 1)) = k.castSucc := rfl
    rw [blockOf_direct k.isLt, hcast]
    split_ifs with h
    · rfl
    · rw [mapped_direct k.isLt, hcast, not_not] at h
      rw [h, UInt32.toNat_zero, one_zero hc]
  have hentries : ∑ j ∈ Finset.range NINDIRECT,
      (if Mapped d ip (NDIRECT + j) then Count.one (blockOf d ip (NDIRECT + j)) c else 0) =
        if ip.addrs indirect = 0 then 0
        else ∑ j ∈ Finset.range NINDIRECT, Count.one ((d (ip.addrs indirect).toNat).get j) c := by
    split_ifs with hind
    · refine Finset.sum_eq_zero fun j _ => ?_
      rw [if_neg]
      rw [mapped_indirect (by omega)]
      exact fun h => h.2.1 hind
    · refine Finset.sum_congr rfl fun j hj => ?_
      rw [blockOf_indirect (by omega), Nat.add_sub_cancel_left]
      split_ifs with h
      · rfl
      · rw [mapped_indirect (by omega), Nat.add_sub_cancel_left] at h
        have h0 : (d (ip.addrs indirect).toNat).get j = 0 := by
          by_contra h0
          exact h ⟨Finset.mem_range.mp hj, hind, h0⟩
        rw [h0, one_zero hc]
  have hlast : ip.addrs (Fin.last NDIRECT) = ip.addrs indirect := rfl
  rw [MAXFILE, Finset.sum_range_add, hdirect, hentries, refs, Fin.sum_univ_castSucc, hlast]
  omega

/-- Two blocks of a file that are the same block of the disk are referred to twice. -/
lemma two_le_refs {bn' : Nat} (h : Mapped d ip bn) (h' : Mapped d ip bn') (hne : bn ≠ bn')
    (heq : blockOf d ip bn' = blockOf d ip bn) : 2 ≤ refs d ip (blockOf d ip bn) := by
  have hsum := Count.add_le_sum_range
    (f := fun l => if Mapped d ip l then Count.one (blockOf d ip l) (blockOf d ip bn) else 0)
    hne h.lt_MAXFILE h'.lt_MAXFILE
  simp only [if_pos h, if_pos h', heq, Count.one, if_true] at hsum
  rw [refs_eq_sum d ip h.fileBlock.1]
  exact hsum.trans (Nat.le_add_right _ _)

/-! ### What a file keeps -/

/-- The blocks that the file had are where they were and hold what they held. -/
def Kept (d : Disk) (ip : Dinode) (d' : Disk) (ip' : Dinode) : Prop :=
  ∀ bn, Mapped d ip bn → Mapped d' ip' bn ∧ blockOf d' ip' bn = blockOf d ip bn ∧
    d' (blockOf d ip bn) = d (blockOf d ip bn)

lemma Kept.refl : Kept d ip d ip := fun _ h => ⟨h, rfl, rfl⟩

lemma Kept.trans (h : Kept d ip d' ip') (h' : Kept d' ip' d'' ip'') : Kept d ip d'' ip'' := by
  intro bn hbn
  obtain ⟨hm, hblock, hdata⟩ := h bn hbn
  obtain ⟨hm', hblock', hdata'⟩ := h' bn hm
  rw [hblock] at hblock' hdata'
  exact ⟨hm', hblock', hdata'.trans hdata⟩

lemma Kept.byteOf {k : Nat} (h : Kept d ip d' ip') (hk : Mapped d ip (k / BSIZE)) :
    Fs.byteOf d' ip' k = Fs.byteOf d ip k := by
  obtain ⟨-, hblock, hdata⟩ := h _ hk
  rw [Fs.byteOf, hblock, hdata, Fs.byteOf]

/-- A file keeps its blocks when neither they nor the indirect block are written. -/
lemma kept_of_data (hind : ip.addrs indirect ≠ 0 →
    d' (ip.addrs indirect).toNat = d (ip.addrs indirect).toNat)
    (hdata : ∀ bn, Mapped d ip bn → d' (blockOf d ip bn) = d (blockOf d ip bn)) :
    Kept d ip d' ip := by
  intro bn hbn
  refine ⟨(mapped_congr hind bn).mpr hbn, ?_, hdata bn hbn⟩
  unfold blockOf
  split_ifs with hlt
  · rfl
  · rw [hind ((mapped_indirect hlt).mp hbn).2.1]

/-- A block of an allocated inode is a data block that is marked. -/
lemma Accounts.block_data {t : Nat → Dinode} (h : Accounts sb d (allRefs sb d t))
    (hj : j < sb.ninodes) (ht : (t j).type ≠ 0) (hb : 1 ≤ refs d (t j) b) (hb0 : b ≠ 0) :
    sb.dataStart ≤ b ∧ b < sb.size ∧ marked sb d b = true := by
  have hne : allRefs sb d t b ≠ 0 := by
    have := refs_le_allRefs d t hj ht b
    omega
  obtain ⟨hle, hlt⟩ := h.data b hb0 hne
  exact ⟨hle, hlt, h.marked_of_ref hb0 hne⟩

/-- An allocation writes to no block of a file. -/
lemma Working.kept_alloc (h : Working sb d i ip) (ha : Allocated sb d b d') (hj : j < sb.ninodes)
    (ht : (tableWith sb d i ip j).type ≠ 0) :
    Kept d (tableWith sb d i ip j) d' (tableWith sb d i ip j) := by
  refine kept_of_data (h.alloc_others ha hj ht) fun bn hbn => ?_
  obtain ⟨hle, -, hmarked⟩ :=
    h.accounts.block_data hj ht hbn.fileBlock.one_le_refs hbn.fileBlock.1
  refine ha.data_eq hle ?_
  intro heq
  rw [heq, ha.free] at hmarked
  cases hmarked

/-- The other inodes keep their blocks. -/
def OthersKept (sb : Superblock) (d : Disk) (i : Nat) (d' : Disk) : Prop :=
  ∀ j, j < sb.ninodes → j ≠ i → (dinode sb d j).type ≠ 0 →
    Kept d (dinode sb d j) d' (dinode sb d j)

lemma OthersKept.refl : OthersKept sb d i d := fun _ _ _ _ => Kept.refl

lemma OthersKept.trans (h : OthersKept sb d i d')
    (hinodes : ∀ j, j < sb.ninodes → dinode sb d' j = dinode sb d j)
    (h' : OthersKept sb d' i d'') : OthersKept sb d i d'' := by
  intro j hj hji ht
  have := h' j hj hji (by rwa [hinodes j hj])
  rw [hinodes j hj] at this
  exact (h j hj hji ht).trans this

lemma Working.othersKept_alloc (h : Working sb d i ip) (ha : Allocated sb d b d') :
    OthersKept sb d i d' := by
  intro j hj hji ht
  have := h.kept_alloc ha hj (by rwa [tableWith_of_ne _ _ _ hji])
  rwa [tableWith_of_ne _ _ _ hji] at this

lemma Working.kept_alloc_self (h : Working sb d i ip) (ha : Allocated sb d b d') :
    Kept d ip d' ip := by
  have := h.kept_alloc ha h.lt (by rw [tableWith_self]; exact h.type)
  rwa [tableWith_self] at this

/-- A block that the file refers to is no block of another inode. -/
lemma Working.block_ne (h : Working sb d i ip) (hj : j < sb.ninodes) (hji : j ≠ i)
    (ht : (dinode sb d j).type ≠ 0) {c : Nat} (hc : 1 ≤ refs d (dinode sb d j) c) (hb0 : b ≠ 0)
    (hb : 1 ≤ refs d ip b) : c ≠ b := by
  rintro rfl
  have hsum := refs_add_le_allRefs d (tableWith sb d i ip) hji hj h.lt
    (by rwa [tableWith_of_ne _ _ _ hji]) (by rw [tableWith_self]; exact h.type) c
  rw [tableWith_self, tableWith_of_ne _ _ _ hji] at hsum
  have := h.accounts.once _ hb0
  omega

/-- Writing to a block that the file refers to. -/
lemma Working.othersKept_write (h : Working sb d i ip) (hb0 : b ≠ 0) (hb : 1 ≤ refs d ip b)
    (v : Block) : OthersKept sb d i (Function.update d b v) := by
  intro j hj hji ht
  refine kept_of_data (fun hind => ?_) fun bn hbn => ?_
  · exact Function.update_of_ne
      (h.block_ne hj hji ht (one_le_refs d _ indirect) hb0 hb) _ _
  · exact Function.update_of_ne
      (h.block_ne hj hji ht hbn.fileBlock.one_le_refs hb0 hb) _ _

/-- The file refers to each of its blocks once. -/
lemma Working.refs_le_one (h : Working sb d i ip) (hb0 : b ≠ 0) : refs d ip b ≤ 1 := by
  have hle := refs_le_allRefs d (tableWith sb d i ip) h.lt
    (by rw [tableWith_self]; exact h.type) b
  rw [tableWith_self] at hle
  exact hle.trans (h.accounts.once b hb0)

/-- The blocks of a file are different from one another. -/
lemma Working.blockOf_inj (h : Working sb d i ip) {bn' : Nat} (hbn : Mapped d ip bn)
    (hbn' : Mapped d ip bn') (heq : blockOf d ip bn' = blockOf d ip bn) : bn = bn' := by
  by_contra hne
  have := two_le_refs hbn hbn' hne heq
  have := h.refs_le_one hbn.fileBlock.1
  omega

lemma Working.blockOf_ne_indirect (h : Working sb d i ip) (hbn : Mapped d ip bn) :
    (ip.addrs indirect).toNat ≠ blockOf d ip bn := by
  intro heq
  have := hbn.fileBlock.two_le_refs heq
  have := h.refs_le_one hbn.fileBlock.1
  omega

/-! ### Free and missing blocks -/

/-- The number of blocks that are not marked. -/
def freeBlocks (sb : Superblock) (d : Disk) : Nat :=
  ∑ b ∈ Finset.range sb.size, if marked sb d b then 0 else 1

/-- The blocks that a file needs so that its first `K` blocks are allocated. -/
def missing (d : Disk) (ip : Dinode) (K : Nat) : Nat :=
  ∑ bn ∈ Finset.range K, (if Mapped d ip bn then 0 else 1) +
    if NDIRECT < K ∧ ip.addrs indirect = 0 then 1 else 0

lemma freeBlocks_congr (h : ∀ b, b < sb.size → marked sb d' b = marked sb d b) :
    freeBlocks sb d' = freeBlocks sb d :=
  Finset.sum_congr rfl fun b hb => by rw [h b (Finset.mem_range.mp hb)]

lemma Allocated.freeBlocks_eq (ha : Allocated sb d b d') : freeBlocks sb d' + 1 = freeBlocks sb d := by
  have h := Count.sum_range_of_eq_off
    (f := fun c => if marked sb d c then 0 else 1)
    (g := fun c => if marked sb d' c then 0 else 1) ha.lt fun c hc hne => by
      simp [ha.marked_eq hc, hne]
  simp only [ha.free, ha.marked_eq ha.lt, decide_true, Bool.or_true, Bool.false_eq_true, if_true,
    if_false] at h
  exact h

lemma balloc_succeeds (h : freeBlocks sb d ≠ 0) : ∃ b d', balloc sb d = .ok (b, d') := by
  unfold balloc
  split
  · exact ⟨_, _, rfl⟩
  · rename_i hnone
    refine absurd (Finset.sum_eq_zero fun b hb => ?_) h
    have hmarked := List.find?_eq_none.mp hnone b (List.mem_range.mpr (Finset.mem_range.mp hb))
    rw [Bool.not_eq_true, Bool.not_eq_false'] at hmarked
    rw [if_pos hmarked]

/-- One block of the file is allocated. -/
lemma missing_alloc (hbn : bn < K) (hno : ¬ Mapped d ip bn) (hyes : Mapped d' ip' bn)
    (hrest : ∀ c, c ≠ bn → (Mapped d' ip' c ↔ Mapped d ip c))
    (hind : ip'.addrs indirect = 0 ↔ ip.addrs indirect = 0) :
    missing d' ip' K + 1 = missing d ip K := by
  have h := Count.sum_range_of_eq_off (f := fun c => if Mapped d ip c then 0 else 1)
    (g := fun c => if Mapped d' ip' c then 0 else 1) hbn fun c _ hne => by
      simp only [hrest c hne]
  simp only [if_neg hno, if_pos hyes] at h
  simp only [missing, hind]
  omega

/-- The indirect block of the file is allocated. -/
lemma missing_alloc_indirect (hK : NDIRECT < K) (h0 : ip.addrs indirect = 0)
    (hind : ip'.addrs indirect ≠ 0) (hrest : ∀ c, Mapped d' ip' c ↔ Mapped d ip c) :
    missing d' ip' K + 1 = missing d ip K := by
  simp only [missing, hrest, h0, hind, hK, and_false, and_true, if_true, if_false]

lemma one_le_missing (hbn : bn < K) (h : ¬ Mapped d ip bn) : 1 ≤ missing d ip K := by
  have hle := Finset.single_le_sum (f := fun c => if Mapped d ip c then 0 else 1)
    (fun _ _ => Nat.zero_le _) (Finset.mem_range.mpr hbn)
  simp only [if_neg h] at hle
  exact hle.trans (Nat.le_add_right _ _)

lemma one_le_missing_indirect (hK : NDIRECT < K) (h : ip.addrs indirect = 0) :
    1 ≤ missing d ip K := by
  simp [missing, hK, h]

/-- Free blocks are used for missing ones only. -/
def Paid (sb : Superblock) (K : Nat) (d : Disk) (ip : Dinode) (d' : Disk) (ip' : Dinode) : Prop :=
  freeBlocks sb d' + missing d ip K = freeBlocks sb d + missing d' ip' K

lemma Paid.refl : Paid sb K d ip d ip := rfl

lemma Paid.trans (h : Paid sb K d ip d' ip') (h' : Paid sb K d' ip' d'' ip'') :
    Paid sb K d ip d'' ip'' := by
  unfold Paid at *
  omega

/-! ### `bmap` -/

lemma kept_setAddr {k : Fin (NDIRECT + 1)} (hk : ip.addrs k = 0) (b : Nat) :
    Kept d ip d (ip.setAddr k b) := by
  intro bn hbn
  by_cases hlt : bn < NDIRECT
  · have hne : (⟨bn, Nat.lt_succ_of_lt hlt⟩ : Fin (NDIRECT + 1)) ≠ k := by
      rintro rfl
      exact (mapped_direct hlt).mp hbn hk
    refine ⟨?_, ?_, rfl⟩
    · rw [mapped_direct hlt] at hbn ⊢
      rwa [setAddr_of_ne ip b hne]
    · rw [blockOf_direct hlt, blockOf_direct hlt, setAddr_of_ne ip b hne]
  · have hne : indirect ≠ k := by
      rintro rfl
      exact ((mapped_indirect hlt).mp hbn).2.1 hk
    refine ⟨?_, ?_, rfl⟩
    · rw [mapped_indirect hlt] at hbn ⊢
      rwa [setAddr_of_ne ip b hne]
    · rw [blockOf_indirect hlt, blockOf_indirect hlt, setAddr_of_ne ip b hne]

/-- Whether a block is allocated depends on the slot that leads to it. -/
lemma mapped_slot_congr (k : Fin (NDIRECT + 1)) {c : Nat}
    (hslot : ∀ k', k' ≠ k → ip'.addrs k' = ip.addrs k')
    (hind : k ≠ indirect → ip.addrs indirect ≠ 0 →
      d' (ip.addrs indirect).toNat = d (ip.addrs indirect).toNat)
    (hc : c ≠ k.val) (hk : k = indirect → c < NDIRECT) : Mapped d' ip' c ↔ Mapped d ip c := by
  by_cases hlt : c < NDIRECT
  · rw [mapped_direct hlt, mapped_direct hlt, hslot]
    rintro rfl
    exact hc rfl
  · have hki : k ≠ indirect := fun heq => hlt (hk heq)
    rw [mapped_indirect hlt, mapped_indirect hlt, hslot _ hki.symm]
    by_cases h0 : ip.addrs indirect = 0
    · simp [h0]
    · rw [hind hki h0]

lemma Working.paid_slot {k : Fin (NDIRECT + 1)} (h : Working sb d i ip) (ha : Allocated sb d b d')
    (hk : ip.addrs k = 0) (hK : k.val < K) : Paid sb K d ip d' (ip.setAddr k b) := by
  have hfree := ha.freeBlocks_eq
  have hslot : ∀ k', k' ≠ k → (ip.setAddr k b).addrs k' = ip.addrs k' :=
    fun k' hne => setAddr_of_ne ip b hne
  have hmissing : missing d' (ip.setAddr k b) K + 1 = missing d ip K := by
    by_cases hki : k = indirect
    · subst hki
      refine missing_alloc_indirect hK hk (by rw [setAddr_self]; exact ha.ofNat_ne_zero)
        fun c => ?_
      by_cases hlt : c < NDIRECT
      · exact mapped_slot_congr indirect hslot (fun hne => absurd rfl hne) hlt.ne fun _ => hlt
      · rw [mapped_indirect hlt, mapped_indirect hlt, setAddr_self, ha.toNat_ofNat, ha.get_self]
        simp [hk]
    · have hlt : k.val < NDIRECT :=
        Nat.lt_of_le_of_ne (Nat.lt_succ_iff.mp k.isLt) fun heq => hki (Fin.ext heq)
      refine missing_alloc hK ?_ ?_ (fun c hc => ?_) ?_
      · rw [mapped_direct hlt]
        exact not_not.mpr hk
      · rw [mapped_direct hlt, setAddr_self]
        exact ha.ofNat_ne_zero
      · exact mapped_slot_congr k hslot (fun _ => h.alloc_self ha) hc fun heq => absurd heq hki
      · rw [hslot _ (Ne.symm hki)]
  unfold Paid
  omega

/-- What `slot` does to the blocks of files. -/
lemma Working.slot_kept (h : Working sb d i ip) {k : Fin (NDIRECT + 1)} (hK : k.val < K) :
    Ensures (slot sb d ip k) fun x =>
      Kept d ip x.2.2 x.2.1 ∧ OthersKept sb d i x.2.2 ∧ Paid sb K d ip x.2.2 x.2.1 := by
  unfold slot
  split_ifs with hk
  · refine Ensures.bind (fun _ hx => h.accounts.balloc hx) fun x ha => ?_
    exact Ensures.pure ⟨(h.kept_alloc_self ha).trans (kept_setAddr hk x.1),
      h.othersKept_alloc ha, h.paid_slot ha hk hK⟩
  · exact Ensures.pure ⟨Kept.refl, OthersKept.refl, Paid.refl⟩

lemma Working.kept_entry (h : Working sb d i ip) (ha : Allocated sb d b d')
    (hind : ip.addrs indirect ≠ 0) {j : Nat} (hj0 : (d (ip.addrs indirect).toNat).get j = 0) :
    Kept d ip (Function.update d' (ip.addrs indirect).toNat
      ((d' (ip.addrs indirect).toNat).set j b)) ip := by
  intro bn hbn
  have hself := h.alloc_self ha hind
  obtain ⟨-, -, hdata⟩ := h.kept_alloc_self ha bn hbn
  rw [Function.update_of_ne (h.blockOf_ne_indirect hbn).symm]
  refine ⟨?_, ?_, hdata⟩
  · by_cases hlt : bn < NDIRECT
    · exact (mapped_direct hlt).mpr ((mapped_direct hlt).mp hbn)
    · rw [mapped_indirect hlt] at hbn ⊢
      rw [Function.update_self, Block.get_set_ne, hself]
      · exact hbn
      · rintro rfl
        exact hbn.2.2 hj0
  · unfold blockOf
    split_ifs with hlt
    · rfl
    · rw [Function.update_self, Block.get_set_ne, hself]
      rintro rfl
      exact ((mapped_indirect hlt).mp hbn).2.2 hj0

lemma Working.othersKept_entry (h : Working sb d i ip) (ha : Allocated sb d b d')
    (hind : ip.addrs indirect ≠ 0) (v : Block) :
    OthersKept sb d i (Function.update d' (ip.addrs indirect).toNat v) := by
  intro j hj hji ht
  have hx0 := (addrs_ne_zero_iff indirect).mp hind
  have hx := one_le_refs d ip indirect
  refine kept_of_data (fun hjind => ?_) fun bn hbn => ?_
  · have hsame := h.alloc_others ha hj (by rwa [tableWith_of_ne _ _ _ hji])
      (by rwa [tableWith_of_ne _ _ _ hji])
    rw [tableWith_of_ne _ _ _ hji] at hsame
    rw [Function.update_of_ne (h.block_ne hj hji ht (one_le_refs d _ indirect) hx0 hx), hsame]
  · rw [Function.update_of_ne (h.block_ne hj hji ht hbn.fileBlock.one_le_refs hx0 hx)]
    exact (h.othersKept_alloc ha j hj hji ht bn hbn).2.2

lemma Working.paid_entry (h : Working sb d i ip) (ha : Allocated sb d b d')
    (hind : ip.addrs indirect ≠ 0) {j : Nat} (hj : j < NINDIRECT)
    (hj0 : (d (ip.addrs indirect).toNat).get j = 0) (hK : NDIRECT + j < K) :
    Paid sb K d ip (Function.update d' (ip.addrs indirect).toNat
      ((d' (ip.addrs indirect).toNat).set j b)) ip := by
  have hself := h.alloc_self ha hind
  have hfree := ha.freeBlocks_eq
  have hfree' : freeBlocks sb (Function.update d' (ip.addrs indirect).toNat
      ((d' (ip.addrs indirect).toNat).set j b)) = freeBlocks sb d' :=
    freeBlocks_congr fun c hc => marked_data sb d' _ hc (h.indirect_data hind)
  have hmissing : missing (Function.update d' (ip.addrs indirect).toNat
      ((d' (ip.addrs indirect).toNat).set j b)) ip K + 1 = missing d ip K := by
    refine missing_alloc hK ?_ ?_ (fun c hc => ?_) Iff.rfl
    · rw [mapped_indirect (by omega), Nat.add_sub_cancel_left]
      exact fun hm => hm.2.2 hj0
    · rw [mapped_indirect (by omega), Nat.add_sub_cancel_left, Function.update_self,
        Block.get_set_self _ _ hj]
      exact ⟨hj, hind, ha.ne_zero⟩
    · by_cases hlt : c < NDIRECT
      · rw [mapped_direct hlt, mapped_direct hlt]
      · rw [mapped_indirect hlt, mapped_indirect hlt, Function.update_self,
          Block.get_set_ne _ _ (by omega), hself]
  unfold Paid
  omega

lemma Working.entry_kept (h : Working sb d i ip) (hind : ip.addrs indirect ≠ 0) {j : Nat}
    (hj : j < NINDIRECT) (hK : NDIRECT + j < K) :
    Ensures (entry sb d (ip.addrs indirect).toNat j) fun x =>
      Kept d ip x.2 ip ∧ OthersKept sb d i x.2 ∧ Paid sb K d ip x.2 ip := by
  unfold entry
  split_ifs with hj0
  · refine Ensures.bind (fun _ hx => h.accounts.balloc hx) fun x ha => ?_
    exact Ensures.pure ⟨h.kept_entry ha hind hj0, h.othersKept_entry ha hind _,
      h.paid_entry ha hind hj hj0 hK⟩
  · exact Ensures.pure ⟨Kept.refl, OthersKept.refl, Paid.refl⟩

/-- `bmap` leaves the blocks that the files had alone and pays for the one that it adds. -/
lemma Working.bmap_kept (h : Working sb d i ip) (hK : bn < K) :
    Ensures (bmap sb d ip bn) fun x =>
      Kept d ip x.2.2 x.2.1 ∧ OthersKept sb d i x.2.2 ∧ Paid sb K d ip x.2.2 x.2.1 ∧
      x.1 = blockOf x.2.2 x.2.1 bn := by
  unfold bmap
  split_ifs with hlt hj
  · refine ((h.slot_ensures _).and (h.slot_kept (K := K) hK)).mono ?_
    rintro x ⟨⟨-, -, -, heq, -⟩, hkept, hothers, hpaid⟩
    refine ⟨hkept, hothers, hpaid, ?_⟩
    rw [blockOf_direct hlt]
    exact heq
  · have hind : (indirect : Fin (NDIRECT + 1)).val < K := (Nat.le_of_not_lt hlt).trans_lt hK
    refine Ensures.bind ((h.slot_ensures indirect).and (h.slot_kept hind)) ?_
    rintro ⟨x, ip₁, d₁⟩ ⟨⟨hwork₁, hgrown₁, hne, heq, -⟩, hkept₁, hothers₁, hpaid₁⟩
    dsimp only at hwork₁ hgrown₁ hne heq hkept₁ hothers₁ hpaid₁ ⊢
    rw [heq]
    refine Ensures.bind ((hwork₁.entry_ensures hne hj).and
      (hwork₁.entry_kept hne hj (K := K) (by omega))) ?_
    rintro ⟨b, d₂⟩ ⟨⟨-, -, -, hget, -⟩, hkept₂, hothers₂, hpaid₂⟩
    dsimp only at hget hkept₂ hothers₂ hpaid₂ ⊢
    refine Ensures.pure ⟨hkept₁.trans hkept₂, hothers₁.trans hgrown₁.inodes hothers₂,
      hpaid₁.trans hpaid₂, ?_⟩
    rw [blockOf_indirect hlt]
    exact hget.symm
  · exact Ensures.error

lemma slot_succeeds (sb : Superblock) (k : Fin (NDIRECT + 1))
    (h : ip.addrs k = 0 → freeBlocks sb d ≠ 0) : ∃ x, slot sb d ip k = .ok x := by
  unfold slot
  split_ifs with hk
  · obtain ⟨b, d', hb⟩ := balloc_succeeds (h hk)
    rw [hb]
    exact ⟨_, rfl⟩
  · exact ⟨_, rfl⟩

lemma entry_succeeds (sb : Superblock) (x j : Nat)
    (h : (d x).get j = 0 → freeBlocks sb d ≠ 0) : ∃ y, entry sb d x j = .ok y := by
  unfold entry
  split_ifs with hj
  · obtain ⟨b, d', hb⟩ := balloc_succeeds (h hj)
    rw [hb]
    exact ⟨_, rfl⟩
  · exact ⟨_, rfl⟩

/-- With enough free blocks `bmap` finds or allocates the block. -/
lemma Working.bmap_succeeds (h : Working sb d i ip) (hK : bn < K) (hmax : bn < MAXFILE)
    (hfree : missing d ip K ≤ freeBlocks sb d) : ∃ x, bmap sb d ip bn = .ok x := by
  unfold bmap
  split_ifs with hlt hj
  · refine slot_succeeds sb _ fun hk => ?_
    have : ¬ Mapped d ip bn := by
      rw [mapped_direct hlt]
      exact not_not.mpr hk
    have := one_le_missing hK this
    omega
  · have hind : (indirect : Fin (NDIRECT + 1)).val < K := (Nat.le_of_not_lt hlt).trans_lt hK
    obtain ⟨⟨x, ip₁, d₁⟩, hslot⟩ : ∃ x, slot sb d ip indirect = .ok x := by
      refine slot_succeeds sb indirect fun h0 => ?_
      have := one_le_missing_indirect (d := d) hind h0
      omega
    obtain ⟨-, -, hne, heq, -⟩ := h.slot_ensures indirect _ hslot
    obtain ⟨-, -, hpaid⟩ := h.slot_kept hind _ hslot
    dsimp only at hne heq hpaid
    obtain ⟨y, hentry⟩ := entry_succeeds (d := d₁) sb x (bn - NDIRECT) fun h0 => by
      have : ¬ Mapped d₁ ip₁ bn := by
        rw [mapped_indirect hlt, ← heq]
        exact fun hm => hm.2.2 h0
      have := one_le_missing hK this
      unfold Paid at hpaid
      omega
    rw [hslot]
    change ∃ z, (entry sb d₁ x (bn - NDIRECT) >>= _) = Except.ok z
    rw [hentry]
    exact ⟨_, rfl⟩
  · simp only [MAXFILE] at hmax
    omega

end Xv6.Fs
