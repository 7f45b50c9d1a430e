import Xv6.Fs.Append
import Xv6.Mkfs.Program

/-!
# `mkfs` and the kernel's file system

While `mkfs` runs there is no bitmap in the image. On the disk that has, in addition, a bitmap in
which the blocks below `freeblock` are marked, the kernel's code does what `mkfs` does: `balloc`
takes the block `freeblock`, and `iappend` is a `writei` at the end of the file.
-/

namespace Xv6.Mkfs

open Fs Disk Fallible

variable {s s' : State} {din din' : Dinode} {d' : Disk} {i j k x n off fuel : Nat}
  {p : List UInt8}

/-! ### The bitmap -/

lemma bitmap_succ (n : Nat) :
    bitmap (n + 1) = (bitmap n).set (n / 32) ((bitmap n).get (n / 32) ||| 2 ^ (n % 32)) := by
  rw [bitmap, List.range_succ, List.foldl_append]
  rfl

lemma bblock_eq (h : n < BPB) : sb.bblock n = sb.bmapstart := by
  rw [Superblock.bblock, Nat.div_eq_of_lt h, Nat.zero_add]

/-- Setting the next bit. -/
lemma mark_bitmap (d : Disk) (h : n < BPB) :
    mark sb (Function.update d sb.bmapstart (bitmap n)) n =
      Function.update d sb.bmapstart (bitmap (n + 1)) := by
  rw [mark, bblock_eq h, Function.update_self, Function.update_idem, Nat.mod_eq_of_lt h,
    bitmap_succ]

lemma marked_bitmap (d : Disk) (hn : n ≤ BPB) (hk : k < BPB) :
    marked sb (Function.update d sb.bmapstart (bitmap n)) k = decide (k < n) := by
  induction n with
  | zero =>
    have hzero : ∀ j, (bitmap 0).get j = 0 := by
      intro j
      simp [bitmap, Block.get, zeroBlock]
    rw [marked, bblock_eq hk, Function.update_self, hzero, Nat.zero_testBit]
    rfl
  | succ n ih =>
    rw [← mark_bitmap d hn, marked_mark, ih (Nat.le_of_succ_le hn), ← Bool.decide_or]
    exact decide_eq_decide.mpr (by omega)

/-! ### The disk -/

/-- The disk as it is when the bitmap has been written. -/
def State.disk (s : State) : Disk := Function.update s.img sb.bmapstart (bitmap s.freeblock)

/-- All sectors are there, the superblock is in its place, and the blocks that are not handed out
yet are zero. -/
structure Shape (s : State) : Prop where
  nsect : s.nsect = FSSIZE
  super : s.img 1 = superblock
  le : nmeta ≤ s.freeblock
  ge : s.freeblock ≤ FSSIZE
  zero : ∀ b, s.freeblock ≤ b → s.img b = zeroBlock

lemma dataStart_eq : sb.dataStart = nmeta := rfl

lemma bmapstart_lt : sb.bmapstart < nmeta := sb.bmapstart_lt

namespace Shape

variable (h : Shape s)

include h

lemma lt_BPB : s.freeblock < BPB := h.ge.trans_lt (by decide)

lemma marked_disk (hk : k < FSSIZE) : marked sb s.disk k = decide (k < s.freeblock) :=
  marked_bitmap _ h.lt_BPB.le (hk.trans (by decide))

lemma disk_bump : s.bump.disk = bzero (mark sb s.disk s.freeblock) s.freeblock := by
  have hne : s.freeblock ≠ sb.bmapstart := (bmapstart_lt.trans_le h.le).ne'
  rw [State.disk, State.disk, mark_bitmap _ h.lt_BPB, bzero, eq_comm,
    Function.update_eq_self_iff.mpr ?_]
  · rfl
  · rw [Function.update_of_ne hne, h.zero _ le_rfl]

/-- The kernel's `balloc` takes the next block. -/
lemma balloc_disk : Fs.balloc sb s.disk =
    if s.freeblock < FSSIZE then .ok (s.freeblock, s.bump.disk)
    else .error (.panic "balloc: out of blocks") := by
  have hsize : sb.size = FSSIZE := rfl
  unfold Fs.balloc
  split_ifs with hlt
  · have hfind : (List.range sb.size).find? (fun b => !marked sb s.disk b) = some s.freeblock := by
      rw [hsize, List.find?_range_eq_some]
      refine ⟨by simp [h.marked_disk hlt], List.mem_range.mpr hlt, fun b hb => ?_⟩
      simp [h.marked_disk (hb.trans hlt), hb]
    rw [hfind, h.disk_bump]
  · have hfind : (List.range sb.size).find? (fun b => !marked sb s.disk b) = none := by
      rw [hsize, List.find?_eq_none]
      intro b hb
      have hb' := List.mem_range.mp hb
      simp only [h.marked_disk hb', Bool.not_eq_true', decide_eq_false_iff_not, not_not]
      omega
    rw [hfind]

lemma bump (hlt : s.freeblock < FSSIZE) : Shape s.bump where
  nsect := h.nsect
  super := h.super
  le := h.le.trans (Nat.le_succ _)
  ge := hlt
  zero b hb := h.zero b (Nat.le_of_succ_le hb)

/-- A block other than the bitmap is read. -/
lemma rsect_of_ne (hx : x ≠ sb.bmapstart) (hlt : x < FSSIZE) : s.rsect x = .ok (s.disk x) := by
  rw [State.rsect, h.nsect, if_pos hlt, State.disk, Function.update_of_ne hx]

lemma rsect_eq (hx : nmeta ≤ x) (hlt : x < FSSIZE) : s.rsect x = .ok (s.disk x) :=
  h.rsect_of_ne (bmapstart_lt.trans_le hx).ne' hlt

lemma wsect_of_ne (hx : x ≠ sb.bmapstart) (h1 : 1 < x) (hlt : x < s.freeblock) (b : Block) :
    Shape (s.wsect x b) ∧ (s.wsect x b).disk = Function.update s.disk x b := by
  have hx' := hlt.trans_le h.ge
  refine ⟨⟨?_, ?_, h.le, h.ge, fun c hc => ?_⟩, ?_⟩
  · rw [State.wsect, h.nsect]
    exact max_eq_left hx'
  · simp only [State.wsect, Function.update_of_ne h1.ne, h.super]
  · have hne : c ≠ x := by
      rintro rfl
      exact Nat.not_lt_of_le hc hlt
    simp only [State.wsect, Function.update_of_ne hne]
    exact h.zero c hc
  · rw [State.disk, State.disk]
    exact Function.update_comm hx _ _ _

/-- A block that was handed out is written. -/
lemma wsect (hx : nmeta ≤ x) (hlt : x < s.freeblock) (b : Block) :
    Shape (s.wsect x b) ∧ (s.wsect x b).disk = Function.update s.disk x b :=
  h.wsect_of_ne (bmapstart_lt.trans_le hx).ne' ((show 1 < nmeta by decide).trans_le hx) hlt b

end Shape

/-! ### Handing out blocks -/

lemma toNat_freeblock (h : Shape s) : (UInt32.ofNat s.freeblock).toNat = s.freeblock := by
  rw [UInt32.toNat_ofNat']
  exact Nat.mod_eq_of_lt (h.ge.trans_lt (by decide))

/-- The kernel finds a slot filled, or fills it, exactly when `mkfs` stays within the disk. -/
lemma slot_iff (h : Shape s) {k : Fin (NDIRECT + 1)} :
    Fs.slot sb s.disk din k = .ok (x, din', d') ↔
      ∃ s', s.slot din k = (din', s') ∧ Shape s' ∧ x = (din'.addrs k).toNat ∧ d' = s'.disk := by
  unfold Fs.slot State.slot
  by_cases hk : din.addrs k = 0
  · rw [if_pos hk, if_pos hk, h.balloc_disk]
    have haddr : ((din.setAddr k s.freeblock).addrs k).toNat = s.freeblock := by
      rw [setAddr_self, toNat_freeblock h]
    split_ifs with hlt
    · constructor
      · rintro ⟨⟩
        exact ⟨_, rfl, h.bump hlt, haddr.symm, rfl⟩
      · rintro ⟨s', ⟨⟩, -, rfl, rfl⟩
        rw [haddr]
        rfl
    · constructor
      · rintro ⟨⟩
      · rintro ⟨s', ⟨⟩, hs', -, -⟩
        exact absurd hs'.ge hlt
  · rw [if_neg hk, if_neg hk]
    constructor
    · rintro ⟨⟩
      exact ⟨_, rfl, h, rfl, rfl⟩
    · rintro ⟨s', ⟨⟩, -, rfl, rfl⟩
      rfl

lemma entry_iff (h : Shape s) (hx : nmeta ≤ x) (hlt : x < s.freeblock) (hj : j < NINDIRECT) :
    Fs.entry sb s.disk x j = .ok (k, d') ↔
      ∃ s', s.entry x j = .ok (k, s') ∧ Shape s' ∧ d' = s'.disk := by
  unfold Fs.entry State.entry
  rw [h.rsect_eq hx (hlt.trans_le h.ge)]
  dsimp only [bind, Except.bind]
  by_cases hj0 : (s.disk x).get j = 0
  · have hget : ((s.disk x).set j s.freeblock).get j = s.freeblock := Block.get_set_self _ _ hj
    have hsame : s.bump.disk x = s.disk x := by
      have hne : x ≠ sb.bmapstart := (bmapstart_lt.trans_le hx).ne'
      rw [State.disk, State.disk, Function.update_of_ne hne, Function.update_of_ne hne]
      rfl
    rw [if_pos hj0, if_pos hj0, h.balloc_disk, hget]
    by_cases hfree : s.freeblock < FSSIZE
    · obtain ⟨hshape, hdisk⟩ := (h.bump hfree).wsect hx (hlt.trans (Nat.lt_succ_self _))
        ((s.disk x).set j s.freeblock)
      rw [if_pos hfree]
      dsimp only
      rw [hsame, ← hdisk]
      constructor
      · rintro ⟨⟩
        exact ⟨_, rfl, hshape, rfl⟩
      · rintro ⟨s', ⟨⟩, -, rfl⟩
        rfl
    · rw [if_neg hfree]
      constructor
      · rintro ⟨⟩
      · rintro ⟨s', ⟨⟩, hs', -⟩
        exact absurd hs'.ge hfree
  · rw [if_neg hj0, if_neg hj0]
    constructor
    · rintro ⟨⟩
      exact ⟨_, rfl, h, rfl⟩
    · rintro ⟨s', ⟨⟩, -, rfl⟩
      rfl

/-- A slot whose block can be read is on the disk. -/
lemma slot_shape (h : Shape s) {k : Fin (NDIRECT + 1)} (hslot : s.slot din k = (din', s'))
    {b : Block} (hread : s'.rsect (din'.addrs k).toNat = .ok b) : Shape s' := by
  unfold State.slot at hslot
  split_ifs at hslot with hk
  · cases hslot
    refine h.bump ?_
    rw [setAddr_self, toNat_freeblock h, State.rsect] at hread
    by_contra hge
    rw [if_neg (by rw [State.bump, h.nsect]; exact hge)] at hread
    cases hread
  · cases hslot
    exact h

lemma entry_shape (h : Shape s) (hx : nmeta ≤ x) (hlt : x < s.freeblock) (hj : j < NINDIRECT)
    (hentry : s.entry x j = .ok (k, s')) {b : Block} (hread : s'.rsect k = .ok b) : Shape s' := by
  unfold State.entry at hentry
  rw [h.rsect_eq hx (hlt.trans_le h.ge)] at hentry
  dsimp only [bind, Except.bind] at hentry
  split_ifs at hentry with hj0
  · cases hentry
    rw [Block.get_set_self _ _ hj] at hread
    by_cases hfree : s.freeblock < FSSIZE
    · exact ((h.bump hfree).wsect hx (hlt.trans (Nat.lt_succ_self _)) _).1
    · rw [State.rsect, if_neg] at hread
      · cases hread
      · simp only [State.wsect, State.bump, h.nsect]
        have := h.ge
        omega
  · cases hentry
    exact h

/-- The blocks of a file were handed out. -/
lemma Shape.file_block (h : Shape s) (hw : Working sb s.disk i din) {b : Nat} (hb : b ≠ 0)
    (hrefs : 1 ≤ refs s.disk din b) : nmeta ≤ b ∧ b < s.freeblock := by
  have hself : 1 ≤ refs s.disk (tableWith sb s.disk i din i) b := by rwa [tableWith_self]
  have htype : (tableWith sb s.disk i din i).type ≠ 0 := by
    rw [tableWith_self]
    exact hw.type
  obtain ⟨hdata, hlt, hmarked⟩ := hw.accounts.block_data hw.lt htype hself hb
  rw [h.marked_disk hlt, decide_eq_true_eq] at hmarked
  exact ⟨hdata, hmarked⟩

/-! ### One block of `iappend` -/

lemma indirect_lt (hk : k < MAXFILE) (hd : ¬ k < NDIRECT) : k - NDIRECT < NINDIRECT := by
  simp only [MAXFILE] at hk
  omega

lemma block_iff (h : Shape s) (hw : Working sb s.disk i din) (hk : k < MAXFILE) :
    bmap sb s.disk din k = .ok (x, din', d') ↔
      ∃ s', s.block din k = .ok (x, din', s') ∧ Shape s' ∧ d' = s'.disk := by
  unfold bmap State.block
  by_cases hd : k < NDIRECT
  · rw [dif_pos hd, dif_pos hd, slot_iff h]
    constructor
    · rintro ⟨s', hslot, hs', rfl, rfl⟩
      exact ⟨s', by rw [hslot], hs', rfl⟩
    · rintro ⟨s', hok, hs', rfl⟩
      rcases hslot : s.slot din ⟨k, Nat.lt_succ_of_lt hd⟩ with ⟨din₁, s₁⟩
      rw [hslot] at hok
      cases hok
      exact ⟨_, rfl, hs', rfl, rfl⟩
  · rw [dif_neg hd, dif_neg hd, if_pos (indirect_lt hk hd)]
    have hblock : ∀ {din₁ : Dinode} {s₁ : State}, Working sb s₁.disk i din₁ → Shape s₁ →
        din₁.addrs indirect ≠ 0 → nmeta ≤ (din₁.addrs indirect).toNat ∧
          (din₁.addrs indirect).toNat < s₁.freeblock := fun hw₁ hs₁ hne =>
      hs₁.file_block hw₁ ((addrs_ne_zero_iff _).mp hne) (one_le_refs _ _ _)
    constructor
    · intro hok
      obtain ⟨⟨x₁, din₁, d₁⟩, hslot, hok⟩ := bind_eq_ok.mp hok
      obtain ⟨⟨y, d₂⟩, hentry, hok⟩ := bind_eq_ok.mp hok
      obtain ⟨hw₁, -, hne, -⟩ := hw.slot_ensures indirect _ hslot
      obtain ⟨s₁, hslot', hs₁, rfl, rfl⟩ := (slot_iff h).mp hslot
      obtain ⟨hle, hlt⟩ := hblock hw₁ hs₁ hne
      obtain ⟨s₂, hentry', hs₂, rfl⟩ := (entry_iff hs₁ hle hlt (indirect_lt hk hd)).mp hentry
      cases hok
      refine ⟨s₂, ?_, hs₂, rfl⟩
      rw [hslot']
      dsimp only
      rw [hentry']
      rfl
    · rintro ⟨s₂, hok, hs₂, rfl⟩
      rcases hslot : s.slot din indirect with ⟨din₁, s₁⟩
      rw [hslot] at hok
      obtain ⟨⟨y, s₃⟩, hentry, hok⟩ := bind_eq_ok.mp hok
      cases hok
      have hread : ∃ b, s₁.rsect (din'.addrs indirect).toNat = .ok b := by
        obtain ⟨b, hb, -⟩ := bind_eq_ok.mp hentry
        exact ⟨b, hb⟩
      obtain ⟨b, hb⟩ := hread
      have hs₁ := slot_shape h hslot hb
      have hslot' := (slot_iff h).mpr ⟨s₁, hslot, hs₁, rfl, rfl⟩
      obtain ⟨hw₁, -, hne, -⟩ := hw.slot_ensures indirect _ hslot'
      obtain ⟨hle, hlt⟩ := hblock hw₁ hs₁ hne
      have hentry' := (entry_iff hs₁ hle hlt (indirect_lt hk hd)).mpr ⟨s₂, hentry, hs₂, rfl⟩
      rw [hslot']
      dsimp only [bind, Except.bind]
      rw [hentry']
      rfl

/-- A block that can be read is on the disk. -/
lemma block_shape (h : Shape s) (hw : Working sb s.disk i din) (hk : k < MAXFILE)
    (hok : s.block din k = .ok (x, din', s')) {b : Block} (hread : s'.rsect x = .ok b) :
    Shape s' := by
  unfold State.block at hok
  by_cases hd : k < NDIRECT
  · rw [dif_pos hd] at hok
    rcases hslot : s.slot din ⟨k, Nat.lt_succ_of_lt hd⟩ with ⟨din₁, s₁⟩
    rw [hslot] at hok
    cases hok
    exact slot_shape h hslot hread
  · rw [dif_neg hd] at hok
    rcases hslot : s.slot din indirect with ⟨din₁, s₁⟩
    rw [hslot] at hok
    obtain ⟨⟨y, s₂⟩, hentry, hok⟩ := bind_eq_ok.mp hok
    cases hok
    obtain ⟨c, hc, -⟩ := bind_eq_ok.mp hentry
    have hs₁ := slot_shape h hslot hc
    obtain ⟨hw₁, -, hne, -⟩ :=
      hw.slot_ensures indirect _ ((slot_iff h).mpr ⟨s₁, hslot, hs₁, rfl, rfl⟩)
    obtain ⟨hle, hlt⟩ :=
      hs₁.file_block hw₁ ((addrs_ne_zero_iff _).mp hne) (one_le_refs _ _ _)
    exact entry_shape hs₁ hle hlt (indirect_lt hk hd) hentry hread

/-- A block of the file is read and written. -/
lemma Shape.rewrite (h : Shape s) (hw : Working sb s.disk i din) (hx : FileBlock s.disk din x)
    (b : Block) : s.rsect x = .ok (s.disk x) ∧ Shape (s.wsect x b) ∧
      (s.wsect x b).disk = Function.update s.disk x b ∧ Working sb (s.wsect x b).disk i din := by
  obtain ⟨hle, hlt⟩ := h.file_block hw hx.1 hx.one_le_refs
  obtain ⟨hshape, hdisk⟩ := h.wsect hle hlt b
  refine ⟨h.rsect_eq hle (hlt.trans_le h.ge), hshape, hdisk, ?_⟩
  rw [hdisk]
  exact (hw.write hx b).1

/-! ### `iappend` -/

/-- The piece of `p` that a round of `iappend` writes is the one that a round of `writei` does. -/
lemma piece_eq (off : Nat) : (off / BSIZE + 1) * BSIZE - off = BSIZE - off % BSIZE ∧
    off - off / BSIZE * BSIZE = off % BSIZE := by
  simp only [BSIZE]
  omega

/-- What the loop of `iappend` does, the loop of `writei` does. -/
lemma iappendLoop_ok (h : Shape s) (hw : Working sb s.disk i din) (hfuel : p.length ≤ fuel)
    (hok : iappendLoop fuel s din off p = .ok (n, din', s')) :
    n = off + p.length ∧ (p ≠ [] → n ≤ MAXFILE * BSIZE) ∧ Shape s' ∧
      writeLoop sb fuel s.disk din off p = .ok (din', s'.disk) := by
  induction fuel generalizing s din off p with
  | zero =>
    rw [List.length_eq_zero_iff.mp (Nat.le_zero.mp hfuel)] at hok ⊢
    cases hok
    exact ⟨rfl, fun hne => absurd rfl hne, h, rfl⟩
  | succ fuel ih =>
    unfold iappendLoop at hok
    unfold writeLoop
    by_cases hp : p = []
    · rw [if_pos hp] at hok
      cases hok
      rw [if_pos hp, hp]
      exact ⟨rfl, fun hne => absurd rfl hne, h, rfl⟩
    · obtain ⟨hpiece, hoff⟩ := piece_eq off
      dsimp only at hok
      rw [if_neg hp, hpiece, hoff] at hok
      rw [if_neg hp]
      dsimp only
      generalize hmin : min p.length (BSIZE - off % BSIZE) = m at hok ⊢
      have hm : 1 ≤ m ∧ m ≤ p.length ∧ m ≤ BSIZE - off % BSIZE := by
        have := List.length_pos_iff.mpr hp
        simp only [BSIZE] at hmin ⊢
        omega
      have hdrop : (p.drop m).length = p.length - m := List.length_drop
      split_ifs at hok with hfbn
      obtain ⟨⟨x, din₁, s₁⟩, hblock, hok⟩ := bind_eq_ok.mp hok
      obtain ⟨b, hread, hok⟩ := bind_eq_ok.mp hok
      have hs₁ := block_shape h hw hfbn hblock hread
      have hbmap := (block_iff h hw hfbn).mpr ⟨s₁, hblock, hs₁, rfl⟩
      obtain ⟨hw₁, -, hfile, -⟩ := hw.bmap_ensures _ _ hbmap
      obtain ⟨hread', hs₂, hdisk, hw₂⟩ := hs₁.rewrite hw₁ hfile
        (putBytes (s₁.disk x) (off % BSIZE) (p.take m))
      dsimp only at hread hok
      rw [hread'] at hread
      cases hread
      obtain ⟨hn, hmax, hs', hloop⟩ := ih hs₂ hw₂ (by omega) hok
      refine ⟨by omega, fun _ => ?_, hs', ?_⟩
      · -- either this round was the last, or the next one checks its block
        by_cases hrest : p.drop m = []
        · rw [hrest, List.length_nil] at hn
          simp only [BSIZE, MAXFILE, NDIRECT, NINDIRECT, BWORDS] at *
          omega
        · exact hmax hrest
      · rw [hbmap]
        dsimp only [bind, Except.bind]
        rw [← hdisk]
        exact hloop

/-- Where `writei` gets through, `iappend` does. -/
lemma iappendLoop_of_writeLoop (h : Shape s) (hw : Working sb s.disk i din)
    (hend : off + p.length ≤ MAXFILE * BSIZE)
    (hok : writeLoop sb fuel s.disk din off p = .ok (din', d')) :
    ∃ r, iappendLoop fuel s din off p = .ok r := by
  induction fuel generalizing s din off p with
  | zero => exact ⟨_, rfl⟩
  | succ fuel ih =>
    unfold writeLoop at hok
    unfold iappendLoop
    by_cases hp : p = []
    · exact ⟨_, if_pos hp⟩
    · have hpos : 0 < p.length := List.length_pos_iff.mpr hp
      have hfbn : off / BSIZE < MAXFILE := by
        rw [Nat.div_lt_iff_lt_mul (by decide)]
        omega
      obtain ⟨hpiece, hoff⟩ := piece_eq off
      dsimp only
      rw [if_neg hp] at hok
      rw [if_neg hp, if_pos hfbn, hpiece, hoff]
      obtain ⟨⟨x, din₁, d₁⟩, hbmap, hok⟩ := bind_eq_ok.mp hok
      obtain ⟨s₁, hblock, hs₁, rfl⟩ := (block_iff h hw hfbn).mp hbmap
      obtain ⟨hw₁, -, hfile, -⟩ := hw.bmap_ensures _ _ hbmap
      dsimp only at hok
      generalize hmin : min p.length (BSIZE - off % BSIZE) = m at hok ⊢
      obtain ⟨hread, hs₂, hdisk, hw₂⟩ := hs₁.rewrite hw₁ hfile
        (putBytes (s₁.disk x) (off % BSIZE) (p.take m))
      have hdrop : (p.drop m).length = p.length - m := List.length_drop
      rw [← hdisk] at hok
      rw [hblock]
      dsimp only [bind, Except.bind]
      rw [hread]
      exact ih hs₂ hw₂ (by omega) hok

/-! ### Inodes -/

lemma iblock_lt (hi : i < NINODES) : sb.iblock i < sb.bmapstart := sb.iblock_lt hi

lemma Shape.rinode_eq (h : Shape s) (hi : i < NINODES) : s.rinode i = .ok (dinode sb s.disk i) := by
  rw [State.rinode, h.rsect_of_ne (iblock_lt hi).ne ((iblock_lt hi).trans (by decide))]
  rfl

lemma Shape.winode_eq (h : Shape s) (hi : i < NINODES) (di : Dinode) :
    ∃ s', s.winode i di = .ok s' ∧ Shape s' ∧ s'.disk = iupdate sb s.disk i di ∧
      s'.freeinode = s.freeinode ∧ s'.freeblock = s.freeblock := by
  have hlt := iblock_lt hi
  have h1 : 1 < sb.iblock i := (show 1 < sb.inodestart by decide).trans_le (Nat.le_add_left _ _)
  obtain ⟨hshape, hdisk⟩ := h.wsect_of_ne hlt.ne h1 ((hlt.trans bmapstart_lt).trans_le h.le)
    (di.writeTo (i % IPB) (s.disk (sb.iblock i)))
  refine ⟨_, ?_, hshape, hdisk, rfl, rfl⟩
  rw [State.winode, h.rsect_of_ne hlt.ne (hlt.trans (by decide))]
  rfl

/-- A successful `iappend` is the loop of `writei` followed by `iupdate`. -/
lemma iappend_ok (h : Shape s) (hs : Sound sb s.disk) (hi : i < NINODES)
    (ht : (dinode sb s.disk i).type ≠ 0) (hp : p ≠ []) (hok : s.iappend i p = .ok s') :
    Shape s' ∧ (dinode sb s.disk i).size.toNat + p.length ≤ MAXFILE * BSIZE ∧ ∃ din' d₁,
      writeLoop sb p.length s.disk (dinode sb s.disk i) (dinode sb s.disk i).size.toNat p =
        .ok (din', d₁) ∧
      s'.disk = iupdate sb d₁ i
        { din' with size := UInt32.ofNat ((dinode sb s.disk i).size.toNat + p.length) } := by
  obtain ⟨din, hdin, hok⟩ := bind_eq_ok.mp hok
  rw [h.rinode_eq hi] at hdin
  cases hdin
  obtain ⟨⟨n, din', s₁⟩, hloop, hok⟩ := bind_eq_ok.mp hok
  obtain ⟨rfl, hmax, hs₁, hwrite⟩ := iappendLoop_ok h (hs.working hi ht) le_rfl hloop
  obtain ⟨s₂, hs₂, hshape, hdisk, -⟩ := hs₁.winode_eq hi
    { din' with size := UInt32.ofNat ((dinode sb s.disk i).size.toNat + p.length) }
  dsimp only at hok
  rw [hs₂] at hok
  cases hok
  exact ⟨hshape, hmax hp, din', s₁.disk, hwrite, hdisk⟩

section Append

variable (hp : p ≠ []) (hmax : din.size.toNat + p.length ≤ MAXFILE * BSIZE)

include hp hmax

/-- A `writei` at the end of a file writes the inode back. -/
lemma writei_append (dev : Devsw) {d d₁ : Disk} (hdev : din.type ≠ T_DEV)
    (hsize : din'.size = din.size)
    (hloop : writeLoop sb p.length d din din.size.toNat p = .ok (din', d₁)) :
    writei sb dev d i din din.size p = .ok (some p.length,
      { din' with size := UInt32.ofNat (din.size.toNat + p.length) },
      iupdate sb d₁ i { din' with size := UInt32.ofNat (din.size.toNat + p.length) }) := by
  have hpos : 0 < p.length := List.length_pos_iff.mpr hp
  have hbound : MAXFILE * BSIZE < 2 ^ 32 := by decide
  have hlen : (UInt32.ofNat p.length).toNat = p.length := by
    rw [UInt32.toNat_ofNat']
    exact Nat.mod_eq_of_lt (by omega)
  have hadd : (din.size + UInt32.ofNat p.length).toNat = din.size.toNat + p.length := by
    rw [UInt32.toNat_add, hlen]
    exact Nat.mod_eq_of_lt (by omega)
  have hend : din.size + UInt32.ofNat p.length = UInt32.ofNat (din.size.toNat + p.length) := by
    apply UInt32.toNat_inj.mp
    rw [hadd, UInt32.toNat_ofNat']
    exact (Nat.mod_eq_of_lt (by omega)).symm
  have hmaxNat : (UInt32.ofNat (MAXFILE * BSIZE)).toNat = MAXFILE * BSIZE := rfl
  unfold writei
  dsimp only
  rw [if_neg hdev, if_neg, if_neg, hloop]
  · dsimp only [bind, Except.bind]
    rw [if_pos, hend]
    · rfl
    · rw [UInt32.lt_iff_toNat_lt, UInt32.lt_iff_toNat_lt, hadd, hlen, hsize]
      exact ⟨hpos, by omega⟩
  · rw [UInt32.lt_iff_toNat_lt, hadd, hmaxNat]
    omega
  · rw [UInt32.lt_iff_toNat_lt, UInt32.lt_iff_toNat_lt, hadd]
    omega

end Append

lemma writeFile_end {f : List UInt8} (hmax : f.length + p.length ≤ MAXFILE * BSIZE) :
    writeFile f f.length p = some (f ++ p) := by
  have hbound : MAXFILE * BSIZE < 2 ^ 32 := by decide
  rw [writeFile, if_neg (by omega), Splice.splice, List.take_length,
    List.drop_of_length_le (by omega), List.append_nil]

/-- What an `iappend` leaves behind. -/
structure Appended (s : State) (i : Nat) (p : List UInt8) (s' : State) : Prop where
  shape : Shape s'
  sound : Sound sb s'.disk
  wrote : Wrote sb s.disk i (contents s.disk (dinode sb s.disk i) ++ p) s'.disk
  others : ∀ j, j < NINODES → j ≠ i → dinode sb s'.disk j = dinode sb s.disk j
  kept : OthersKept sb s.disk i s'.disk
  nlink : (dinode sb s'.disk i).nlink = (dinode sb s.disk i).nlink
  trimmed : Trimmed s.disk (dinode sb s.disk i) (dinode sb s.disk i).size.toNat →
    Trimmed s'.disk (dinode sb s'.disk i) (dinode sb s'.disk i).size.toNat

lemma iappend_appended (h : Shape s) (hs : Sound sb s.disk) (hi : i < NINODES)
    (ht : (dinode sb s.disk i).type ≠ 0) (hdev : (dinode sb s.disk i).type ≠ T_DEV) (hp : p ≠ [])
    (hok : s.iappend i p = .ok s') : Appended s i p s' := by
  obtain ⟨hshape, hmax, din', d₁, hloop, hdisk⟩ := iappend_ok h hs hi ht hp hok
  have hbound : MAXFILE * BSIZE < 2 ^ 32 := by decide
  have hlt : p.length < 2 ^ 32 := by omega
  obtain ⟨hwork, hgrown, -⟩ := writeLoop_ensures _ (hs.working hi ht) _ p le_rfl _ hloop
  dsimp only at hwork hgrown
  have hwritei := writei_append (i := i) hp hmax ⟨fun _ _ => none, fun _ _ => none⟩ hdev
    (by rw [hgrown.fields]) hloop
  rw [← hdisk] at hwritei
  obtain ⟨hsound, hself, -, hothers⟩ := hs.writei_ensures _ hi ht _ p hlt _ hwritei
  have hfile : writeFile (contents s.disk (dinode sb s.disk i))
      (dinode sb s.disk i).size.toNat p = some (contents s.disk (dinode sb s.disk i) ++ p) := by
    have hlen := length_contents s.disk (dinode sb s.disk i)
    rw [← hlen] at hmax ⊢
    exact writeFile_end hmax
  obtain ⟨-, hwrote⟩ := hs.writei_wrote _ hi ht hdev hlt hfile _ hwritei
  have hwritten := writeLoop_written (K := (dinode sb s.disk i).size.toNat + p.length) _
    (hs.working hi ht) _ p le_rfl (Nat.le_mul_of_pos_right _ (by decide)) _ hloop
  refine ⟨hshape, hsound, hwrote, hothers, ?_, ?_, fun htrim => ?_⟩
  · rw [hdisk]
    exact hwritten.others.trans hgrown.inodes (hwork.othersKept_iupdate _)
  · rw [← hself, hgrown.fields]
  · have htrim' := writeLoop_trimmed _ (hs.working hi ht) htrim le_rfl _ hloop
    have hkept := hwork.kept_iupdate
      { din' with size := UInt32.ofNat ((dinode sb s.disk i).size.toNat + p.length) }
    rw [← hdisk] at hkept
    rw [← hself]
    dsimp only at htrim' ⊢
    rw [UInt32.toNat_ofNat', Nat.mod_eq_of_lt (by omega)]
    exact (htrim'.kept hkept).fields rfl

lemma Shape.freeBlocks_disk (h : Shape s) : freeBlocks sb s.disk + s.freeblock = FSSIZE := by
  obtain ⟨t, ht⟩ := Nat.exists_eq_add_of_le h.ge
  have hsum : freeBlocks sb s.disk =
      ∑ b ∈ Finset.range (s.freeblock + t), if b < s.freeblock then 0 else 1 := by
    rw [freeBlocks, ← ht]
    refine Finset.sum_congr rfl fun b hb => ?_
    rw [h.marked_disk (Finset.mem_range.mp hb)]
    simp only [decide_eq_true_eq]
  have hlow : ∑ b ∈ Finset.range s.freeblock, (if b < s.freeblock then 0 else 1) = 0 :=
    Finset.sum_eq_zero fun b hb => if_pos (Finset.mem_range.mp hb)
  have hhigh : ∑ b ∈ Finset.range t, (if s.freeblock + b < s.freeblock then 0 else 1) = t := by
    simp
  rw [hsum, Finset.sum_range_add, hlow, hhigh]
  omega

/-- Where there are blocks left and the file is not too large, `iappend` succeeds. -/
lemma iappend_succeeds (h : Shape s) (hs : Sound sb s.disk) (hi : i < NINODES)
    (ht : (dinode sb s.disk i).type ≠ 0)
    (hmax : (dinode sb s.disk i).size.toNat + p.length ≤ MAXFILE * BSIZE)
    (hfree : s.freeblock + Fs.missing s.disk (dinode sb s.disk i)
      (fileBlocks ((dinode sb s.disk i).size.toNat + p.length)) ≤ FSSIZE) :
    ∃ s', s.iappend i p = .ok s' := by
  have hblocks := h.freeBlocks_disk
  obtain ⟨⟨din', d₁⟩, hloop⟩ := writeLoop_succeeds p.length (hs.working hi ht)
    (dinode sb s.disk i).size.toNat p le_rfl
    (K := fileBlocks ((dinode sb s.disk i).size.toNat + p.length))
    (by simp only [fileBlocks, BSIZE]; omega)
    (by simp only [fileBlocks, BSIZE, MAXFILE, NDIRECT, NINDIRECT, BWORDS] at *; omega) (by omega)
  obtain ⟨⟨n, din₂, s₁⟩, hloop'⟩ := iappendLoop_of_writeLoop h (hs.working hi ht) hmax hloop
  obtain ⟨-, -, hs₁, -⟩ := iappendLoop_ok h (hs.working hi ht) le_rfl hloop'
  obtain ⟨s₂, hs₂, -⟩ := hs₁.winode_eq hi { din₂ with size := UInt32.ofNat n }
  refine ⟨s₂, ?_⟩
  rw [State.iappend, h.rinode_eq hi]
  dsimp only [bind, Except.bind]
  rw [hloop']
  exact hs₂

/-! ### The counter of inodes -/

lemma freeinode_slot (s : State) (din : Dinode) (k : Fin (NDIRECT + 1)) :
    (s.slot din k).2.freeinode = s.freeinode := by
  unfold State.slot
  split_ifs <;> rfl

lemma freeinode_entry (hok : s.entry x j = .ok (k, s')) : s'.freeinode = s.freeinode := by
  obtain ⟨b, -, hok⟩ := bind_eq_ok.mp hok
  dsimp only at hok
  split_ifs at hok <;> cases hok <;> rfl

lemma freeinode_block (hok : s.block din k = .ok (x, din', s')) : s'.freeinode = s.freeinode := by
  unfold State.block at hok
  split_ifs at hok with hd
  · cases hok
    exact freeinode_slot s din _
  · obtain ⟨⟨y, s₂⟩, hentry, hok⟩ := bind_eq_ok.mp hok
    cases hok
    rw [freeinode_entry hentry]
    exact freeinode_slot s din indirect

lemma freeinode_iappendLoop (hok : iappendLoop fuel s din off p = .ok (n, din', s')) :
    s'.freeinode = s.freeinode := by
  induction fuel generalizing s din off p with
  | zero =>
    cases hok
    rfl
  | succ fuel ih =>
    unfold iappendLoop at hok
    dsimp only at hok
    split_ifs at hok
    · cases hok
      rfl
    · obtain ⟨⟨x, din₁, s₁⟩, hblock, hok⟩ := bind_eq_ok.mp hok
      obtain ⟨b, -, hok⟩ := bind_eq_ok.mp hok
      have hfree : s₁.freeinode = s.freeinode := freeinode_block hblock
      exact (ih hok).trans hfree

lemma freeinode_winode {di : Dinode} (hok : s.winode i di = .ok s') :
    s'.freeinode = s.freeinode := by
  obtain ⟨b, -, hok⟩ := bind_eq_ok.mp hok
  cases hok
  rfl

lemma freeinode_iappend (hok : s.iappend i p = .ok s') : s'.freeinode = s.freeinode := by
  obtain ⟨din, -, hok⟩ := bind_eq_ok.mp hok
  obtain ⟨⟨n, din', s₁⟩, hloop, hok⟩ := bind_eq_ok.mp hok
  rw [freeinode_winode hok, freeinode_iappendLoop hloop]

end Xv6.Mkfs
