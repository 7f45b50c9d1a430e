import Mathlib.Data.List.Nodup

/-!
# The log header

`struct logheader`, in memory and as the first words of its disk block.
-/

namespace Xv6

/-- Maximum number of blocks any file-system operation writes. -/
def MAXOPBLOCKS : Nat := 10

/-- Maximum number of data blocks in the on-disk log. -/
def LOGSIZE : Nat := MAXOPBLOCKS * 3

/-- Number of 32-bit words in a disk block of `BSIZE` bytes. -/
def BWORDS : Nat := 512 / 4

/-- The contents of a disk block, as words. -/
def Block := Fin BWORDS → Nat

namespace Block

def get (b : Block) (i : Nat) : Nat := if h : i < BWORDS then b ⟨i, h⟩ else 0

def set (b : Block) (i v : Nat) : Block := fun k => if k.val = i then v else b k

@[simp] lemma get_set_self (b : Block) {i : Nat} (v : Nat) (h : i < BWORDS) :
    (b.set i v).get i = v := by simp [get, set, h]

@[simp] lemma get_set_ne (b : Block) {i j : Nat} (v : Nat) (h : j ≠ i) :
    (b.set i v).get j = b.get j := by simp [get, set, h]

end Block

/-- The first `n` entries of `block` are in use. -/
structure LogHeader where
  n : Nat
  block : Nat → Nat

namespace LogHeader

/-- The block numbers recorded in the header. -/
def blocks (lh : LogHeader) : List Nat := (List.range lh.n).map lh.block

@[simp] lemma length_blocks (lh : LogHeader) : lh.blocks.length = lh.n := by simp [blocks]

lemma mem_blocks {lh : LogHeader} {b : Nat} : b ∈ lh.blocks ↔ ∃ i < lh.n, lh.block i = b := by
  simp [blocks]

lemma block_mem_blocks {lh : LogHeader} {i : Nat} (h : i < lh.n) : lh.block i ∈ lh.blocks :=
  mem_blocks.mpr ⟨i, h, rfl⟩

/-- Entries copied one by one into the words after the first. -/
def copyEntries (lh : LogHeader) (m : Nat) (hb : Block) : Block :=
  (List.range m).foldl (fun hb i => hb.set (i + 1) (lh.block i)) hb

lemma copyEntries_succ (lh : LogHeader) (m : Nat) (hb : Block) :
    lh.copyEntries (m + 1) hb = (lh.copyEntries m hb).set (m + 1) (lh.block m) := by
  simp [copyEntries, List.range_succ, List.foldl_append]

lemma get_copyEntries (lh : LogHeader) (m : Nat) (hb : Block) (hm : m < BWORDS) (j : Nat) :
    (lh.copyEntries m hb).get j =
      if 0 < j ∧ j ≤ m then lh.block (j - 1) else hb.get j := by
  induction m with
  | zero =>
    have hj : ¬ (0 < j ∧ j ≤ 0) := by omega
    rw [if_neg hj]
    rfl
  | succ m ih =>
    rw [copyEntries_succ]
    by_cases hj : j = m + 1
    · subst hj
      simp [Block.get_set_self _ _ hm]
    · rw [Block.get_set_ne _ _ hj, ih (by omega)]
      congr 1
      exact propext ⟨fun h => by omega, fun h => by omega⟩

/-- The header as `write_head` lays it over the old contents `hb` of its block. -/
def encode (lh : LogHeader) (hb : Block) : Block := lh.copyEntries lh.n (hb.set 0 lh.n)

/-- The header as `read_head` finds it in its block. -/
def decode (hb : Block) : LogHeader := ⟨hb.get 0, fun i => hb.get (i + 1)⟩

lemma decode_encode_n (lh : LogHeader) (h : lh.n ≤ LOGSIZE) (hb : Block) :
    (decode (lh.encode hb)).n = lh.n := by
  have hlt : lh.n < BWORDS := by simp only [LOGSIZE, MAXOPBLOCKS, BWORDS] at *; omega
  simp [decode, encode, get_copyEntries lh lh.n _ hlt, Block.get_set_self hb lh.n (i := 0) (by decide)]

lemma decode_encode_block {lh : LogHeader} (h : lh.n ≤ LOGSIZE) (hb : Block) {i : Nat}
    (hi : i < lh.n) : (decode (lh.encode hb)).block i = lh.block i := by
  have hlt : lh.n < BWORDS := by simp only [LOGSIZE, MAXOPBLOCKS, BWORDS] at *; omega
  have hin : 0 < i + 1 ∧ i + 1 ≤ lh.n := by omega
  show (lh.copyEntries lh.n _).get (i + 1) = lh.block i
  rw [get_copyEntries lh lh.n _ hlt, if_pos hin, Nat.add_sub_cancel]

/-! ### Recording a block -/

/-- The loop of `log_write`: the first entry equal to `b`, or `n`. -/
def search (lh : LogHeader) (b : Nat) : Nat :=
  ((List.range lh.n).find? (fun i => lh.block i = b)).getD lh.n

/-- `log_write` on the header, under `log.lock`: a block already logged is absorbed. -/
def record (lh : LogHeader) (b : Nat) : LogHeader :=
  let i := lh.search b
  ⟨if i = lh.n then lh.n + 1 else lh.n, Function.update lh.block i b⟩

lemma blocks_record (lh : LogHeader) (b : Nat) :
    (lh.record b).blocks = if b ∈ lh.blocks then lh.blocks else lh.blocks ++ [b] := by
  unfold record search
  cases hf : (List.range lh.n).find? (fun i => lh.block i = b) with
  | none =>
    have hb : b ∉ lh.blocks := by
      rw [mem_blocks]
      rintro ⟨i, hi, rfl⟩
      simpa using List.find?_eq_none.mp hf i (List.mem_range.mpr hi)
    have hmap : (List.range lh.n).map (Function.update lh.block lh.n b) =
        (List.range lh.n).map lh.block :=
      List.map_congr_left fun i hi =>
        Function.update_of_ne (Nat.ne_of_lt (List.mem_range.mp hi)) _ _
    rw [if_neg hb]
    simp [blocks, List.range_succ, hmap]
  | some i =>
    have hib : lh.block i = b := by simpa using List.find?_some hf
    have hin : i < lh.n := List.mem_range.mp (List.mem_of_find?_eq_some hf)
    have hb : b ∈ lh.blocks := mem_blocks.mpr ⟨i, hin, hib⟩
    have hup : Function.update lh.block i b = lh.block := by
      rw [← hib]
      exact Function.update_eq_self i lh.block
    rw [if_pos hb]
    simp [Nat.ne_of_lt hin, hup, blocks]

lemma nodup_record {lh : LogHeader} (h : lh.blocks.Nodup) (b : Nat) :
    (lh.record b).blocks.Nodup := by
  rw [blocks_record]
  split_ifs with hb
  · exact h
  · exact List.nodup_append.mpr
      ⟨h, List.nodup_singleton b, fun x hx y hy hxy => hb (by simp_all)⟩

lemma n_record (lh : LogHeader) (b : Nat) :
    (lh.record b).n = if b ∈ lh.blocks then lh.n else lh.n + 1 := by
  rw [← length_blocks, blocks_record]
  split_ifs <;> simp

end LogHeader

end Xv6
