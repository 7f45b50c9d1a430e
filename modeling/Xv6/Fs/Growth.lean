import Xv6.Fs.Refs
import Xv6.Lib.Fallible

/-!
# Growing a file

`bmap` and the loop of `writei` work on the in-memory copy of an inode. While they do, the accounts
are right for the table in which this copy stands in for the inode on disk.
-/

namespace Xv6.Fs

open Disk Fallible

/-- The `bn`-th block of the file is allocated. -/
def Mapped (d : Disk) (ip : Dinode) (bn : Nat) : Prop :=
  if h : bn < NDIRECT then ip.addrs ⟨bn, Nat.lt_succ_of_lt h⟩ ≠ 0
  else bn - NDIRECT < NINDIRECT ∧ ip.addrs indirect ≠ 0 ∧
    (d (ip.addrs indirect).toNat).get (bn - NDIRECT) ≠ 0

/-- Every block below the size of the file is allocated. -/
def NoHoles (d : Disk) (ip : Dinode) : Prop :=
  ∀ bn, bn * BSIZE < ip.size.toNat → Mapped d ip bn

lemma noHoles_of_size_zero {d : Disk} {ip : Dinode} (h : ip.size = 0) : NoHoles d ip := by
  intro bn hbn
  rw [h] at hbn
  exact absurd hbn (Nat.not_lt_zero _)

/-- The inode table in which the in-memory copy `ip` replaces inode `i`. -/
def tableWith (sb : Superblock) (d : Disk) (i : Nat) (ip : Dinode) : Nat → Dinode :=
  Function.update (dinode sb d) i ip

/-- The disk while the holder of the lock of inode `i` works on its copy `ip`. -/
structure Working (sb : Superblock) (d : Disk) (i : Nat) (ip : Dinode) : Prop where
  lt : i < sb.ninodes
  type : ip.type ≠ 0
  accounts : Accounts sb d (allRefs sb d (tableWith sb d i ip))
  others : ∀ j, j < sb.ninodes → j ≠ i → (dinode sb d j).type ≠ 0 → NoHoles d (dinode sb d j)

/-- From `d`, `ip` to `d'`, `ip'` the file only grew; the inodes on disk are the same. -/
structure Grown (sb : Superblock) (d : Disk) (ip : Dinode) (d' : Disk) (ip' : Dinode) : Prop where
  inodes : ∀ j, j < sb.ninodes → dinode sb d' j = dinode sb d j
  fields : ip' = { ip with addrs := ip'.addrs }
  mapped : ∀ bn, Mapped d ip bn → Mapped d' ip' bn

variable {sb : Superblock} {d d' d'' : Disk} {ip ip' ip'' : Dinode} {i : Nat}

lemma Grown.refl : Grown sb d ip d ip := ⟨fun _ _ => rfl, rfl, fun _ h => h⟩

lemma Grown.trans (h : Grown sb d ip d' ip') (h' : Grown sb d' ip' d'' ip'') :
    Grown sb d ip d'' ip'' where
  inodes j hj := (h'.inodes j hj).trans (h.inodes j hj)
  fields := by
    rw [h'.fields, h.fields]
  mapped bn hbn := h'.mapped bn (h.mapped bn hbn)

lemma mapped_congr (h : ip.addrs indirect ≠ 0 →
    d' (ip.addrs indirect).toNat = d (ip.addrs indirect).toNat) (bn : Nat) :
    Mapped d' ip bn ↔ Mapped d ip bn := by
  unfold Mapped
  split_ifs
  · exact Iff.rfl
  · by_cases hi : ip.addrs indirect = 0
    · simp [hi]
    · rw [h hi]

lemma NoHoles.congr (h : NoHoles d ip) (hd : ip.addrs indirect ≠ 0 →
    d' (ip.addrs indirect).toNat = d (ip.addrs indirect).toNat) : NoHoles d' ip :=
  fun bn hbn => (mapped_congr hd bn).mpr (h bn hbn)

/-! ### Steps of the work -/

lemma tableWith_self (sb : Superblock) (d : Disk) (i : Nat) (ip : Dinode) :
    tableWith sb d i ip i = ip := Function.update_self ..

lemma tableWith_of_ne (sb : Superblock) (d : Disk) {i j : Nat} (ip : Dinode) (h : j ≠ i) :
    tableWith sb d i ip j = dinode sb d j := Function.update_of_ne h _ _

/-- The indirect block of the file is a data block. -/
lemma Working.indirect_data (h : Working sb d i ip) (hind : ip.addrs indirect ≠ 0) :
    sb.dataStart ≤ (ip.addrs indirect).toNat := by
  have := h.accounts.indirect_data h.lt (by rw [tableWith_self]; exact h.type)
    (by rwa [tableWith_self])
  rwa [tableWith_self] at this

/-- A block that the file refers to is the indirect block of no other inode. -/
lemma Working.not_indirect (h : Working sb d i ip) {j b : Nat} (hj : j < sb.ninodes) (hji : j ≠ i)
    (ht : (dinode sb d j).type ≠ 0) (hb0 : b ≠ 0) (hb : 1 ≤ refs d ip b) :
    ((dinode sb d j).addrs indirect).toNat ≠ b := by
  rintro rfl
  have hsum := refs_add_le_allRefs d (tableWith sb d i ip) hji hj h.lt
    (by rwa [tableWith_of_ne _ _ _ hji]) (by rw [tableWith_self]; exact h.type)
    ((dinode sb d j).addrs indirect).toNat
  rw [tableWith_self, tableWith_of_ne _ _ _ hji] at hsum
  have hone := one_le_refs d (dinode sb d j) indirect
  have := h.accounts.once _ hb0
  omega

/-- The work goes on after the disk changed where no other inode keeps its indirect block, and the
references to blocks changed by `e`. -/
lemma Working.change {e : Nat → Nat} (h : Working sb d i ip)
    (hinodes : ∀ j, j < sb.ninodes → dinode sb d' j = dinode sb d j) (htype : ip'.type ≠ 0)
    (hothers : ∀ j, j < sb.ninodes → j ≠ i → (dinode sb d j).type ≠ 0 →
      (dinode sb d j).addrs indirect ≠ 0 →
      d' ((dinode sb d j).addrs indirect).toNat = d ((dinode sb d j).addrs indirect).toNat)
    (hrefs : ∀ c, c ≠ 0 → refs d' ip' c = refs d ip c + e c)
    (haccounts : Accounts sb d' fun c => allRefs sb d (tableWith sb d i ip) c + e c) :
    Working sb d' i ip' where
  lt := h.lt
  type := htype
  accounts := by
    refine haccounts.congr fun c hc => ?_
    have hup := allRefs_update d d' (tableWith sb d i ip) ip'
      h.lt (fun j hj hji ht hind => by
        rw [tableWith_of_ne _ _ _ hji] at ht hind ⊢
        exact hothers j hj hji ht hind) c
    have htable : allRefs sb d' (tableWith sb d' i ip') c =
        allRefs sb d' (Function.update (tableWith sb d i ip) i ip') c := by
      refine allRefs_congr (fun j hj => ?_) c
      by_cases hji : j = i
      · subst hji
        rw [tableWith_self, Function.update_self]
      · rw [tableWith_of_ne _ _ _ hji, Function.update_of_ne hji, tableWith_of_ne _ _ _ hji,
          hinodes j hj]
    rw [tableWith_self, refsOf_of_type _ h.type, refsOf_of_type _ htype, hrefs c hc] at hup
    omega
  others j hj hji ht := by
    rw [hinodes j hj] at ht ⊢
    exact (h.others j hj hji ht).congr fun hind => hothers j hj hji ht hind

/-- A freshly allocated block is the indirect block of no inode. -/
lemma Working.alloc_others {b : Nat} (h : Working sb d i ip) (ha : Allocated sb d b d') {j : Nat}
    (hj : j < sb.ninodes) (ht : (tableWith sb d i ip j).type ≠ 0)
    (hind : (tableWith sb d i ip j).addrs indirect ≠ 0) :
    d' ((tableWith sb d i ip j).addrs indirect).toNat =
      d ((tableWith sb d i ip j).addrs indirect).toNat := by
  refine ha.data_eq (h.accounts.indirect_data hj ht hind) ?_
  rintro rfl
  have hle := (one_le_refs d (tableWith sb d i ip j) indirect).trans
    (refs_le_allRefs _ (tableWith sb d i ip) hj ht _)
  have := ha.unreferenced h.accounts
  omega

/-- The indirect block of the file itself is not touched by an allocation. -/
lemma Working.alloc_self {b : Nat} (h : Working sb d i ip) (ha : Allocated sb d b d')
    (hind : ip.addrs indirect ≠ 0) :
    d' (ip.addrs indirect).toNat = d (ip.addrs indirect).toNat := by
  have := h.alloc_others ha h.lt (by rw [tableWith_self]; exact h.type)
    (by rwa [tableWith_self])
  rwa [tableWith_self] at this

/-- A free slot gets a new block. -/
lemma Working.alloc_slot {b : Nat} {k : Fin (NDIRECT + 1)} (h : Working sb d i ip)
    (ha : Allocated sb d b d') (hk : ip.addrs k = 0) : Working sb d' i (ip.setAddr k b) := by
  refine h.change (e := Count.one b) (fun j hj => ha.dinode_eq hj) h.type
    (fun j hj hji ht hind => ?_) (fun c hc => ?_) (ha.accounts h.accounts)
  · have := h.alloc_others ha hj (by rwa [tableWith_of_ne _ _ _ hji])
      (by rwa [tableWith_of_ne _ _ _ hji])
    rwa [tableWith_of_ne _ _ _ hji] at this
  · rw [refs_setAddr hk ha.toNat_ofNat ha.ofNat_ne_zero (fun _ => ha.get_self) hc,
      refs_congr (h.alloc_self ha)]

/-- A free entry of the indirect block gets a new block. -/
lemma Working.alloc_entry {b j : Nat} (h : Working sb d i ip) (ha : Allocated sb d b d')
    (hind : ip.addrs indirect ≠ 0) (hj : j < NINDIRECT)
    (hj0 : (d (ip.addrs indirect).toNat).get j = 0) :
    Working sb (Function.update d' (ip.addrs indirect).toNat
      ((d' (ip.addrs indirect).toNat).set j b)) i ip := by
  have hself := h.alloc_self ha hind
  have hdata := h.indirect_data hind
  refine h.change (e := Count.one b) (fun l hl => ?_) h.type (fun l hl hli ht hlind => ?_)
    (fun c hc => ?_) ((ha.accounts h.accounts).of_marked fun c hc => marked_data sb d' _ hc hdata)
  · rw [dinode_data sb d' _ hl hdata, ha.dinode_eq hl]
  · have hne := h.not_indirect hl hli ht ((addrs_ne_zero_iff indirect).mp hind)
      (one_le_refs d _ indirect)
    rw [Function.update_of_ne hne]
    have := h.alloc_others ha hl (by rwa [tableWith_of_ne _ _ _ hli])
      (by rwa [tableWith_of_ne _ _ _ hli])
    rwa [tableWith_of_ne _ _ _ hli] at this
  · rw [refs_setEntry hind rfl hj (by rw [hself]; exact hj0) hc, refs_congr (h.alloc_self ha)]

/-- Bytes are written to a block of the file. -/
lemma Working.write {b : Nat} (h : Working sb d i ip) (hb : FileBlock d ip b) (v : Block) :
    Working sb (Function.update d b v) i ip ∧ Grown sb d ip (Function.update d b v) ip := by
  have hle := hb.one_le_refs.trans (refs_le_allRefs _ (tableWith sb d i ip) h.lt
    (by rw [tableWith_self]; exact h.type) b |>.trans_eq' (by rw [tableWith_self]))
  have hdata : sb.dataStart ≤ b := (h.accounts.data b hb.1 (by omega)).1
  have hself : ip.addrs indirect ≠ 0 →
      Function.update d b v (ip.addrs indirect).toNat = d (ip.addrs indirect).toNat := by
    intro hind
    refine Function.update_of_ne (fun heq => ?_) _ _
    -- the block would be referred to twice
    have htwo := hb.two_le_refs heq
    have htotal := refs_le_allRefs d (tableWith sb d i ip) h.lt
      (by rw [tableWith_self]; exact h.type) b
    rw [tableWith_self] at htotal
    have := h.accounts.once b hb.1
    omega
  have hinodes : ∀ j, j < sb.ninodes → dinode sb (Function.update d b v) j = dinode sb d j :=
    fun j hj => dinode_data sb d v hj hdata
  constructor
  · refine h.change (e := fun _ => 0) hinodes h.type (fun j hj hji ht hind => ?_)
      (fun c _ => ?_) (h.accounts.of_marked fun c hc => marked_data sb d v hc hdata)
    · exact Function.update_of_ne (h.not_indirect hj hji ht hb.1 hb.one_le_refs) _ _
    · exact (refs_congr hself c).trans (Nat.add_zero _).symm
  · exact ⟨hinodes, rfl, fun bn hbn => (mapped_congr hself bn).mpr hbn⟩

/-! ### `bmap` -/

lemma Working.slot_ensures (h : Working sb d i ip) (k : Fin (NDIRECT + 1)) :
    Ensures (slot sb d ip k) fun x =>
      Working sb x.2.2 i x.2.1 ∧ Grown sb d ip x.2.2 x.2.1 ∧ x.2.1.addrs k ≠ 0 ∧
      x.1 = (x.2.1.addrs k).toNat ∧ (ip.addrs k ≠ 0 → x.2.1 = ip ∧ x.2.2 = d) := by
  unfold slot
  split_ifs with hk
  · refine Ensures.bind (fun _ hx => h.accounts.balloc hx) fun x ha => ?_
    refine Ensures.pure ⟨h.alloc_slot ha hk, ⟨fun j hj => ha.dinode_eq hj, rfl, fun bn hbn => ?_⟩,
      ?_, ?_, fun hne => absurd hk hne⟩
    · unfold Mapped at hbn ⊢
      split_ifs at hbn ⊢ with hlt
      · have hne : (⟨bn, Nat.lt_succ_of_lt hlt⟩ : Fin (NDIRECT + 1)) ≠ k := by
          rintro rfl
          exact hbn hk
        rwa [setAddr_of_ne ip _ hne]
      · have hne : indirect ≠ k := by
          rintro rfl
          exact hbn.2.1 hk
        rwa [setAddr_of_ne ip _ hne, h.alloc_self ha hbn.2.1]
    · rw [setAddr_self]
      exact ha.ofNat_ne_zero
    · rw [setAddr_self, ha.toNat_ofNat]
  · exact Ensures.pure ⟨h, Grown.refl, hk, rfl, fun _ => ⟨rfl, rfl⟩⟩

lemma Working.entry_ensures (h : Working sb d i ip) (hind : ip.addrs indirect ≠ 0) {j : Nat}
    (hj : j < NINDIRECT) :
    Ensures (entry sb d (ip.addrs indirect).toNat j) fun x =>
      Working sb x.2 i ip ∧ Grown sb d ip x.2 ip ∧ x.1 ≠ 0 ∧
      (x.2 (ip.addrs indirect).toNat).get j = x.1 ∧
      ((d (ip.addrs indirect).toNat).get j ≠ 0 → x.2 = d) := by
  unfold entry
  split_ifs with hj0
  · refine Ensures.bind (fun _ hx => h.accounts.balloc hx) fun x ha => ?_
    have hwork := h.alloc_entry ha hind hj hj0
    have hdata := h.indirect_data hind
    refine Ensures.pure ⟨hwork, ⟨fun l hl => ?_, rfl, fun bn hbn => ?_⟩, ha.ne_zero, ?_,
      fun hne => absurd hj0 hne⟩
    · rw [dinode_data sb x.2 _ hl hdata, ha.dinode_eq hl]
    · unfold Mapped at hbn ⊢
      split_ifs at hbn ⊢ with hlt
      · exact hbn
      · refine ⟨hbn.1, hbn.2.1, ?_⟩
        dsimp only
        rw [Function.update_self]
        by_cases hbj : bn - NDIRECT = j
        · rw [hbj, Block.get_set_self _ _ hj]
          exact ha.ne_zero
        · rw [Block.get_set_ne _ _ hbj, h.alloc_self ha hind]
          exact hbn.2.2
    · dsimp only
      rw [Function.update_self, Block.get_set_self _ _ hj]
  · exact Ensures.pure ⟨h, Grown.refl, hj0, rfl, fun _ => rfl⟩

/-- `bmap` returns a block of the file. It changes nothing when the block was allocated. -/
lemma Working.bmap_ensures (h : Working sb d i ip) (bn : Nat) :
    Ensures (bmap sb d ip bn) fun x =>
      Working sb x.2.2 i x.2.1 ∧ Grown sb d ip x.2.2 x.2.1 ∧ FileBlock x.2.2 x.2.1 x.1 ∧
      Mapped x.2.2 x.2.1 bn ∧ (Mapped d ip bn → x.2.1 = ip ∧ x.2.2 = d) := by
  unfold bmap
  split_ifs with hlt hj
  · refine (h.slot_ensures _).mono fun x ⟨hwork, hgrown, hne, heq, hsame⟩ => ?_
    have hdirect : (⟨bn, Nat.lt_succ_of_lt hlt⟩ : Fin (NDIRECT + 1)) ≠ indirect := by
      simp only [indirect, ne_eq, Fin.ext_iff, Fin.val_last]
      exact hlt.ne
    refine ⟨hwork, hgrown, ⟨?_, Or.inl ⟨_, hdirect, heq.symm⟩⟩, ?_, fun hm => hsame ?_⟩
    · rw [heq]
      exact (addrs_ne_zero_iff _).mp hne
    · rw [Mapped, dif_pos hlt]
      exact hne
    · rwa [Mapped, dif_pos hlt] at hm
  · refine Ensures.bind (h.slot_ensures indirect) ?_
    rintro ⟨x, ip₁, d₁⟩ ⟨hwork₁, hgrown₁, hne, heq, hsame₁⟩
    dsimp only at hwork₁ hgrown₁ hne heq hsame₁ ⊢
    rw [heq]
    refine Ensures.bind (hwork₁.entry_ensures hne hj) ?_
    rintro ⟨b, d₂⟩ ⟨hwork₂, hgrown₂, hb, hget, hsame₂⟩
    dsimp only at hwork₂ hgrown₂ hb hget hsame₂ ⊢
    refine Ensures.pure ⟨hwork₂, hgrown₁.trans hgrown₂, ⟨hb, Or.inr ⟨hne, _, hj, hget⟩⟩, ?_,
      fun hm => ?_⟩
    · rw [Mapped, dif_neg hlt]
      exact ⟨hj, hne, by rwa [hget]⟩
    · rw [Mapped, dif_neg hlt] at hm
      obtain ⟨rfl, rfl⟩ := hsame₁ hm.2.1
      exact ⟨rfl, hsame₂ hm.2.2⟩
  · exact Ensures.error

/-! ### Reading and writing -/

/-- Reading below the size of a file without holes changes nothing. -/
lemma readLoop_ensures (h : Working sb d i ip) (fuel off rem : Nat)
    (hm : ∀ bn, bn * BSIZE < off + rem → Mapped d ip bn) :
    Ensures (readLoop sb fuel d ip off rem) fun x => x.2.1 = ip ∧ x.2.2 = d := by
  induction fuel generalizing off rem with
  | zero => exact Ensures.ok ⟨rfl, rfl⟩
  | succ fuel ih =>
    unfold readLoop
    split_ifs with hrem
    · exact Ensures.ok ⟨rfl, rfl⟩
    · refine Ensures.bind (h.bmap_ensures (off / BSIZE)) ?_
      rintro ⟨b, ip₁, d₁⟩ ⟨-, -, -, -, hsame⟩
      have hoff : off / BSIZE * BSIZE ≤ off := Nat.div_mul_le_self _ _
      obtain ⟨rfl, rfl⟩ := hsame (hm _ (by omega))
      dsimp only
      refine Ensures.bind (ih _ _ fun bn hbn => hm bn ?_) fun y hy => Ensures.pure hy
      have : min rem (BSIZE - off % BSIZE) ≤ rem := Nat.min_le_left _ _
      omega

/-- The `bn`-th block of a file holds some of the `len` bytes from `off`. -/
def Touches (off len bn : Nat) : Prop :=
  0 < len ∧ bn * BSIZE < off + len ∧ off < (bn + 1) * BSIZE

/-- Writing `len` bytes from `off` starts with the block of `off`; the rest starts in the next
block. -/
lemma Touches.cases {off len bn : Nat} (h : Touches off len bn) :
    bn = off / BSIZE ∨ Touches (off + min len (BSIZE - off % BSIZE))
      (len - min len (BSIZE - off % BSIZE)) bn := by
  simp only [Touches, BSIZE] at *
  omega

lemma touches_first {off len : Nat} (h : 0 < len) : Touches off len (off / BSIZE) := by
  simp only [Touches, BSIZE]
  omega

lemma Touches.rest {off len bn : Nat} (h : Touches (off + min len (BSIZE - off % BSIZE))
    (len - min len (BSIZE - off % BSIZE)) bn) : Touches off len bn := by
  simp only [Touches, BSIZE] at *
  omega

/-- The loop of `writei` maps the blocks it writes to. It leaves the inode alone when all of them
were mapped. -/
lemma writeLoop_ensures (fuel : Nat) (h : Working sb d i ip) (off : Nat) (src : List UInt8)
    (hfuel : src.length ≤ fuel) :
    Ensures (writeLoop sb fuel d ip off src) fun x =>
      Working sb x.2 i x.1 ∧ Grown sb d ip x.2 x.1 ∧
      (∀ bn, Touches off src.length bn → Mapped x.2 x.1 bn) ∧
      ((∀ bn, Touches off src.length bn → Mapped d ip bn) → x.1 = ip) := by
  induction fuel generalizing d ip off src with
  | zero =>
    have hnil : src.length = 0 := Nat.le_zero.mp hfuel
    refine Ensures.ok ⟨h, Grown.refl, fun bn ht => ?_, fun _ => rfl⟩
    rw [hnil] at ht
    exact absurd ht.1 (Nat.lt_irrefl 0)
  | succ fuel ih =>
    unfold writeLoop
    split_ifs with hnil
    · refine Ensures.ok ⟨h, Grown.refl, fun bn ht => ?_, fun _ => rfl⟩
      rw [hnil] at ht
      exact absurd ht.1 (Nat.lt_irrefl 0)
    · have hpos : 0 < src.length := List.length_pos_iff.mpr hnil
      refine Ensures.bind (h.bmap_ensures (off / BSIZE)) ?_
      rintro ⟨b, ip₁, d₁⟩ ⟨hwork, hgrown, hfile, hmapped, hsame⟩
      dsimp only at hwork hgrown hfile hmapped hsame ⊢
      set m := min src.length (BSIZE - off % BSIZE) with hm
      have hm1 : 1 ≤ m := by
        simp only [hm, BSIZE]
        omega
      obtain ⟨hwork₂, hgrown₂⟩ := hwork.write hfile (putBytes (d₁ b) (off % BSIZE) (src.take m))
      have hlen : (src.drop m).length = src.length - m := List.length_drop
      refine (ih hwork₂ (off + m) (src.drop m) (by omega)).mono ?_
      rintro ⟨ip₃, d₃⟩ ⟨hwork₃, hgrown₃, hmapped₃, hsame₃⟩
      dsimp only at hwork₃ hgrown₃ hmapped₃ hsame₃ ⊢
      refine ⟨hwork₃, (hgrown.trans hgrown₂).trans hgrown₃, fun bn ht => ?_, fun hall => ?_⟩
      · rcases ht.cases with rfl | hrest
        · exact hgrown₃.mapped _ (hgrown₂.mapped _ hmapped)
        · exact hmapped₃ bn (by rwa [hlen])
      · obtain ⟨rfl, rfl⟩ := hsame (hall _ (touches_first hpos))
        refine hsame₃ fun bn ht => hgrown₂.mapped bn (hall bn ?_)
        rw [hlen] at ht
        exact ht.rest

end Xv6.Fs
