import Mathlib.Data.Fintype.Pi
import Mathlib.Data.Nat.Bitwise
import Xv6.Log.Header

/-!
# The file system on disk

Where `fs.h` puts the inodes and the bitmap of free blocks, and how they are read from and written
to their blocks. A disk is seen through the log: the contents of a block are those of the last
`log_write`.

Every region has its own accessor, with a lemma for what each kind of write does to it. The rest of
the development uses these lemmas only.
-/

namespace Xv6.Fs

/-- Block size in bytes. -/
def BSIZE : Nat := 512

/-- Inodes per block. -/
def IPB : Nat := 8

/-- Bitmap bits per block. -/
def BPB : Nat := 4096

def NDIRECT : Nat := 12

/-- Block numbers in an indirect block. -/
def NINDIRECT : Nat := BWORDS

/-- The largest file, in blocks. -/
def MAXFILE : Nat := NDIRECT + NINDIRECT

/-- `struct superblock`, for a disk whose inode blocks, bitmap and data blocks follow one another. -/
structure Superblock where
  size : Nat
  nblocks : Nat
  ninodes : Nat
  inodestart : Nat
  bmapstart : Nat
  inodes_lt : inodestart + ninodes / IPB < bmapstart
  bitmap_lt : bmapstart + size / BPB < size - nblocks
  size_lt : size < 2 ^ 32

namespace Superblock

variable (sb : Superblock)

/-- The first data block. -/
def dataStart : Nat := sb.size - sb.nblocks

/-- `IBLOCK(i, sb)` -/
def iblock (i : Nat) : Nat := i / IPB + sb.inodestart

/-- `BBLOCK(b, sb)` -/
def bblock (b : Nat) : Nat := b / BPB + sb.bmapstart

lemma iblock_lt {i : Nat} (h : i < sb.ninodes) : sb.iblock i < sb.bmapstart := by
  have hdiv : i / IPB ≤ sb.ninodes / IPB := Nat.div_le_div_right h.le
  have := sb.inodes_lt
  simp only [iblock]
  omega

lemma bmapstart_le (b : Nat) : sb.bmapstart ≤ sb.bblock b := Nat.le_add_left _ _

lemma bblock_lt {b : Nat} (h : b < sb.size) : sb.bblock b < sb.dataStart := by
  have hdiv : b / BPB ≤ sb.size / BPB := Nat.div_le_div_right h.le
  have := sb.bitmap_lt
  simp only [bblock, dataStart]
  omega

lemma bmapstart_lt : sb.bmapstart < sb.dataStart :=
  (Nat.le_add_right _ _).trans_lt sb.bitmap_lt

lemma dataStart_pos : 0 < sb.dataStart := (Nat.zero_le _).trans_lt sb.bmapstart_lt

lemma iblock_ne_bblock {i b : Nat} (hi : i < sb.ninodes) : sb.iblock i ≠ sb.bblock b := by
  have := sb.iblock_lt hi
  have := sb.bmapstart_le b
  omega

lemma iblock_lt_dataStart {i : Nat} (h : i < sb.ninodes) : sb.iblock i < sb.dataStart :=
  (sb.iblock_lt h).trans sb.bmapstart_lt

end Superblock

/-- The disk that `mkfs` lays out. -/
def mkfsSuperblock : Superblock where
  size := 1000
  nblocks := 941
  ninodes := 200
  inodestart := 32
  bmapstart := 58
  inodes_lt := by decide
  bitmap_lt := by decide
  size_lt := by decide

/-- The blocks of a device. -/
abbrev Disk := Nat → Block

/-! ### The bitmap -/

namespace Disk

variable (sb : Superblock) (d : Disk)

/-- The bit of block `b` is set. -/
def marked (b : Nat) : Bool :=
  ((d (sb.bblock b)).get (b % BPB / 32)).testBit (b % 32)

/-- `bp->data[bi/8] |= m` -/
def mark (b : Nat) : Disk :=
  Function.update d (sb.bblock b) ((d (sb.bblock b)).set (b % BPB / 32)
    ((d (sb.bblock b)).get (b % BPB / 32) ||| 2 ^ (b % 32)))

/-- `bp->data[bi/8] &= ~m` -/
def unmark (b : Nat) : Disk :=
  Function.update d (sb.bblock b) ((d (sb.bblock b)).set (b % BPB / 32)
    ((d (sb.bblock b)).get (b % BPB / 32) ^^^
      ((d (sb.bblock b)).get (b % BPB / 32) &&& 2 ^ (b % 32))))

/-- Blocks with the same bit in the same word of the same bitmap block are the same. -/
lemma same_bit_iff {b c : Nat} (hblock : sb.bblock c = sb.bblock b)
    (hword : c % BPB / 32 = b % BPB / 32) : b % 32 = c % 32 ↔ c = b := by
  simp only [Superblock.bblock, BPB] at *
  omega

/-- Writing one word of the bitmap block of `b` changes the bits of that word only. -/
lemma marked_set (b c v : Nat) :
    marked sb (Function.update d (sb.bblock b)
      ((d (sb.bblock b)).set (b % BPB / 32) v)) c =
      if sb.bblock c = sb.bblock b ∧ c % BPB / 32 = b % BPB / 32 then v.testBit (c % 32)
      else marked sb d c := by
  have hlt : b % BPB / 32 < BWORDS := by
    simp only [BPB, BWORDS]
    omega
  unfold marked
  by_cases hblock : sb.bblock c = sb.bblock b
  · rw [hblock, Function.update_self]
    by_cases hword : c % BPB / 32 = b % BPB / 32
    · rw [hword, Block.get_set_self _ _ hlt, if_pos ⟨rfl, rfl⟩]
    · rw [Block.get_set_ne _ _ hword, if_neg (fun h => hword h.2)]
  · rw [Function.update_of_ne hblock, if_neg (fun h => hblock h.1)]

lemma marked_mark (b c : Nat) :
    marked sb (mark sb d b) c = (marked sb d c || decide (c = b)) := by
  rw [mark, marked_set]
  split_ifs with h
  · rw [Nat.testBit_or, Nat.testBit_two_pow]
    have hiff := same_bit_iff sb h.1 h.2
    simp only [hiff, marked, h.1, h.2]
  · have hne : c ≠ b := by
      rintro rfl
      exact h ⟨rfl, rfl⟩
    simp [hne]

lemma marked_unmark (b c : Nat) :
    marked sb (unmark sb d b) c = (marked sb d c && decide (c ≠ b)) := by
  rw [unmark, marked_set]
  split_ifs with h
  · rw [Nat.testBit_xor, Nat.testBit_and, Nat.testBit_two_pow]
    have hiff := same_bit_iff sb h.1 h.2
    by_cases hcb : c = b
    · simp [hcb]
    · simp [hiff, hcb, marked, h.1, h.2]
  · have hne : c ≠ b := by
      rintro rfl
      exact h ⟨rfl, rfl⟩
    simp [hne]

lemma marked_update {x : Nat} (v : Block) {b : Nat} (h : sb.bblock b ≠ x) :
    marked sb (Function.update d x v) b = marked sb d b := by
  rw [marked, Function.update_of_ne h, marked]

end Disk

/-! ### Inodes -/

/-- `struct dinode`; the in-memory copy of an inode has the same fields. -/
structure Dinode where
  type : UInt16
  major : UInt16
  minor : UInt16
  nlink : UInt16
  size : UInt32
  addrs : Fin (NDIRECT + 1) → UInt32
  deriving DecidableEq

namespace Dinode

/-- The sixteen words of an inode on disk. -/
def word (di : Dinode) (k : Nat) : Nat :=
  if k = 0 then di.type.toNat + 2 ^ 16 * di.major.toNat
  else if k = 1 then di.minor.toNat + 2 ^ 16 * di.nlink.toNat
  else if k = 2 then di.size.toNat
  else if h : k - 3 < NDIRECT + 1 then (di.addrs ⟨k - 3, h⟩).toNat
  else 0

/-- The inode laid out in the given words. -/
def ofWords (w : Nat → Nat) : Dinode where
  type := UInt16.ofNat (w 0)
  major := UInt16.ofNat (w 0 / 2 ^ 16)
  minor := UInt16.ofNat (w 1)
  nlink := UInt16.ofNat (w 1 / 2 ^ 16)
  size := UInt32.ofNat (w 2)
  addrs k := UInt32.ofNat (w (k.val + 3))

/-- The low half of a word made of two shorts. -/
lemma ofNat_low (a b : UInt16) : UInt16.ofNat (a.toNat + 2 ^ 16 * b.toNat) = a := by
  apply UInt16.toNat_inj.mp
  rw [UInt16.toNat_ofNat']
  have := a.toNat_lt
  omega

lemma ofNat_high (a b : UInt16) : UInt16.ofNat ((a.toNat + 2 ^ 16 * b.toNat) / 2 ^ 16) = b := by
  apply UInt16.toNat_inj.mp
  rw [UInt16.toNat_ofNat']
  have := a.toNat_lt
  have := b.toNat_lt
  omega

lemma ofWords_word (di : Dinode) : ofWords di.word = di := by
  obtain ⟨type, major, minor, nlink, size, addrs⟩ := di
  have haddrs : ∀ k : Fin (NDIRECT + 1),
      word ⟨type, major, minor, nlink, size, addrs⟩ (k.val + 3) = (addrs k).toNat := by
    intro k
    have hk : k.val + 3 - 3 < NDIRECT + 1 := by
      rw [Nat.add_sub_cancel]
      exact k.isLt
    simp only [word, Nat.add_eq_zero_iff, OfNat.ofNat_ne_zero, and_false, if_false]
    rw [if_neg (by omega), if_neg (by omega), dif_pos hk]
    exact congrArg (fun j => (addrs j).toNat) (Fin.ext (Nat.add_sub_cancel ..))
  simp only [ofWords, haddrs]
  simp only [word, if_true, if_false, Nat.one_ne_zero, OfNat.ofNat_ne_zero, OfNat.ofNat_ne_one,
    ofNat_low, ofNat_high, UInt32.ofNat_toNat]

lemma ofWords_congr {w v : Nat → Nat} (h : ∀ k < 16, w k = v k) : ofWords w = ofWords v := by
  simp only [ofWords, h 0 (by decide), h 1 (by decide), h 2 (by decide), Dinode.mk.injEq, true_and]
  funext k
  have hk := k.isLt
  simp only [NDIRECT] at hk
  rw [h (k.val + 3) (by omega)]

/-- The block in which the inode occupies the given slot: its sixteen words change, and nothing
else. -/
def writeTo (di : Dinode) (slot : Nat) (b : Block) : Block := fun k =>
  if k.val / 16 = slot then di.word (k.val % 16) else b.get k.val

lemma get_writeTo (di : Dinode) (b : Block) {slot slot' k : Nat} (hs : slot' < IPB) (hk : k < 16) :
    (di.writeTo slot b).get (16 * slot' + k) =
      if slot' = slot then di.word k else b.get (16 * slot' + k) := by
  have hlt : 16 * slot' + k < BWORDS := by
    simp only [BWORDS, IPB] at *
    omega
  have hdiv : (16 * slot' + k) / 16 = slot' := by omega
  have hmod : (16 * slot' + k) % 16 = k := by omega
  rw [Block.get, dif_pos hlt, writeTo]
  simp only [hdiv, hmod]

end Dinode

namespace Disk

variable (sb : Superblock) (d : Disk)

/-- `(struct dinode*)bp->data + inum%IPB` in the block of the inode. -/
def dinode (i : Nat) : Dinode :=
  Dinode.ofWords fun k => (d (sb.iblock i)).get (16 * (i % IPB) + k)

/-- Write inode `i` into its block. -/
def putDinode (i : Nat) (di : Dinode) : Disk :=
  Function.update d (sb.iblock i) (di.writeTo (i % IPB) (d (sb.iblock i)))

lemma get_putDinode {i j : Nat} (di : Dinode) {k : Nat} (hk : k < 16)
    (hblock : sb.iblock j = sb.iblock i) :
    (putDinode sb d i di (sb.iblock j)).get (16 * (j % IPB) + k) =
      if j = i then di.word k else (d (sb.iblock j)).get (16 * (j % IPB) + k) := by
  have hiff : j % IPB = i % IPB ↔ j = i := by
    simp only [Superblock.iblock, IPB] at hblock ⊢
    omega
  rw [hblock, putDinode, Function.update_self,
    Dinode.get_writeTo di _ (Nat.mod_lt _ (by decide)) hk]
  simp only [hiff]

/-- An inode that is written reads back, and the others are as before. -/
lemma dinode_putDinode (i j : Nat) (di : Dinode) :
    dinode sb (putDinode sb d i di) j = if j = i then di else dinode sb d j := by
  by_cases hblock : sb.iblock j = sb.iblock i
  · rw [dinode, Dinode.ofWords_congr fun k hk => get_putDinode sb d di hk hblock]
    split_ifs with h
    · exact di.ofWords_word
    · rfl
  · have hne : j ≠ i := by
      rintro rfl
      exact hblock rfl
    rw [if_neg hne, dinode, dinode, putDinode, Function.update_of_ne hblock]

lemma dinode_update {x : Nat} (v : Block) {i : Nat} (h : sb.iblock i ≠ x) :
    dinode sb (Function.update d x v) i = dinode sb d i := by
  rw [dinode, Function.update_of_ne h, dinode]

/-! ### What a write to one region does to the others -/

variable {i b c : Nat}

lemma dinode_mark (hi : i < sb.ninodes) : dinode sb (mark sb d b) i = dinode sb d i :=
  dinode_update sb d _ (sb.iblock_ne_bblock hi)

lemma dinode_unmark (hi : i < sb.ninodes) : dinode sb (unmark sb d b) i = dinode sb d i :=
  dinode_update sb d _ (sb.iblock_ne_bblock hi)

lemma marked_putDinode (di : Dinode) (hi : i < sb.ninodes) :
    marked sb (putDinode sb d i di) b = marked sb d b :=
  marked_update sb d _ (sb.iblock_ne_bblock hi).symm

lemma marked_data (v : Block) (hc : c < sb.size) (hb : sb.dataStart ≤ b) :
    marked sb (Function.update d b v) c = marked sb d c :=
  marked_update sb d v ((sb.bblock_lt hc).trans_le hb).ne

lemma dinode_data (v : Block) (hi : i < sb.ninodes) (hb : sb.dataStart ≤ b) :
    dinode sb (Function.update d b v) i = dinode sb d i :=
  dinode_update sb d v ((sb.iblock_lt_dataStart hi).trans_le hb).ne

lemma data_mark (hb : b < sb.size) (hc : sb.dataStart ≤ c) : mark sb d b c = d c :=
  Function.update_of_ne ((sb.bblock_lt hb).trans_le hc).ne' _ _

lemma data_unmark (hb : b < sb.size) (hc : sb.dataStart ≤ c) : unmark sb d b c = d c :=
  Function.update_of_ne ((sb.bblock_lt hb).trans_le hc).ne' _ _

lemma data_putDinode (di : Dinode) (hi : i < sb.ninodes) (hc : sb.dataStart ≤ c) :
    putDinode sb d i di c = d c :=
  Function.update_of_ne ((sb.iblock_lt_dataStart hi).trans_le hc).ne' _ _

end Disk

end Xv6.Fs
