import Xv6.Fs.Accounting
import Xv6.Fs.Contents
import Xv6.Lib.Splice

/-!
# Reading and writing bytes

The loops of `readi` and `writei` go through a file in pieces that end at block boundaries. What
they read and write is, byte by byte, a range of the file.
-/

namespace Xv6.Fs

open Disk Fallible Splice

variable {sb : Superblock} {d d' d'' : Disk} {ip ip' ip'' : Dinode} {i j b bn K off : Nat}
  {src : List UInt8}

/-! ### The loop of `readi` -/

/-- The piece of a file up to the next block boundary. -/
lemma piece_bytes {m k : Nat} (hm : m ≤ BSIZE - off % BSIZE) (hk : k < m) :
    (off + k) / BSIZE = off / BSIZE ∧ (off + k) % BSIZE = off % BSIZE + k := by
  simp only [BSIZE] at *
  omega

/-- Reading where all blocks are allocated. -/
lemma readLoop_eq (sb : Superblock) (fuel off rem : Nat) (hfuel : rem ≤ fuel)
    (hm : ∀ bn, bn * BSIZE < off + rem → Mapped d ip bn) :
    readLoop sb fuel d ip off rem =
      .ok ((List.range rem).map fun k => byteOf d ip (off + k), ip, d) := by
  induction fuel generalizing off rem with
  | zero =>
    rw [Nat.le_zero.mp hfuel]
    rfl
  | succ fuel ih =>
    unfold readLoop
    split_ifs with hrem
    · rw [hrem]
      rfl
    · have hfirst : off / BSIZE * BSIZE < off + rem := by
        have := Nat.div_mul_le_self off BSIZE
        omega
      rw [bmap_of_mapped sb (hm _ hfirst)]
      change (readLoop sb fuel d ip (off + min rem (BSIZE - off % BSIZE))
        (rem - min rem (BSIZE - off % BSIZE)) >>= _) = _
      generalize hmin : min rem (BSIZE - off % BSIZE) = m
      have hm1 : 1 ≤ m := by
        simp only [BSIZE] at hmin
        omega
      have hrange : List.range rem = List.range m ++ (List.range (rem - m)).map (m + ·) := by
        rw [← List.range_add]
        congr 1
        omega
      rw [ih (off + m) (rem - m) (by omega) fun bn hbn => hm bn (by omega), hrange,
        List.map_append, List.map_map]
      have hbytes : (List.range m).map
          (fun k => byteAt (d (blockOf d ip (off / BSIZE))) (off % BSIZE + k)) =
          (List.range m).map fun k => byteOf d ip (off + k) := by
        refine List.map_congr_left fun k hk => ?_
        obtain ⟨hdiv, hmod⟩ := piece_bytes (show m ≤ BSIZE - off % BSIZE by omega) (List.mem_range.mp hk)
        rw [byteOf, hdiv, hmod]
      change Except.ok (_ ++ _, ip, d) = _
      rw [hbytes]
      congr 3
      refine List.map_congr_left fun k _ => ?_
      rw [Function.comp_apply, Nat.add_assoc]

/-! ### The loop of `writei` -/

lemma Working.blockOf_write (h : Working sb d i ip) (hbn : Mapped d ip bn) (v : Block) (c : Nat) :
    blockOf (Function.update d (blockOf d ip bn) v) ip c = blockOf d ip c := by
  by_cases hlt : c < NDIRECT
  · rw [blockOf_direct hlt, blockOf_direct hlt]
  · rw [blockOf_indirect hlt, blockOf_indirect hlt,
      Function.update_of_ne (h.blockOf_ne_indirect hbn)]

/-- A block of the file is written. -/
lemma Working.byteOf_write (h : Working sb d i ip) (hbn : Mapped d ip bn) (v : Block) {k : Nat}
    (hk : Mapped d ip (k / BSIZE)) :
    byteOf (Function.update d (blockOf d ip bn) v) ip k =
      if k / BSIZE = bn then byteAt v (k % BSIZE) else byteOf d ip k := by
  rw [byteOf, h.blockOf_write hbn]
  split_ifs with heq
  · rw [heq, Function.update_self]
  · rw [Function.update_of_ne, byteOf]
    exact fun hsame => heq (h.blockOf_inj hbn hk hsame).symm

lemma Working.paid_write (h : Working sb d i ip) (hbn : Mapped d ip bn) (v : Block) (K : Nat) :
    Paid sb K d ip (Function.update d (blockOf d ip bn) v) ip := by
  have hdata : sb.dataStart ≤ blockOf d ip bn := by
    have hle := h.accounts.block_data h.lt (by rw [tableWith_self]; exact h.type)
      (by rw [tableWith_self]; exact hbn.fileBlock.one_le_refs) hbn.fileBlock.1
    exact hle.1
  have hfree : freeBlocks sb (Function.update d (blockOf d ip bn) v) = freeBlocks sb d :=
    freeBlocks_congr fun c hc => marked_data sb d v hc hdata
  have hmissing : missing (Function.update d (blockOf d ip bn) v) ip K = missing d ip K := by
    have hiff : ∀ c, Mapped (Function.update d (blockOf d ip bn) v) ip c ↔ Mapped d ip c :=
      mapped_congr fun _ => Function.update_of_ne (h.blockOf_ne_indirect hbn) _ _
    simp only [missing, hiff]
  unfold Paid
  rw [hfree, hmissing]

/-- The bytes `src` were written to the file from `off` on. -/
structure Written (sb : Superblock) (i K off : Nat) (src : List UInt8) (d : Disk) (ip : Dinode)
    (d' : Disk) (ip' : Dinode) : Prop where
  new : ∀ k, off ≤ k → k < off + src.length → src[k - off]? = some (byteOf d' ip' k)
  old : ∀ k, ¬ (off ≤ k ∧ k < off + src.length) → Mapped d ip (k / BSIZE) →
    byteOf d' ip' k = byteOf d ip k
  others : OthersKept sb d i d'
  paid : Paid sb K d ip d' ip'

lemma written_nil : Written sb i K off [] d ip d ip where
  new k hle hlt := by
    rw [List.length_nil] at hlt
    omega
  old _ _ _ := rfl
  others := OthersKept.refl
  paid := Paid.refl

/-- The piece that one round of the loop writes. -/
lemma Working.written_piece (h : Working sb d i ip) (hbn : Mapped d ip (off / BSIZE)) {m : Nat}
    (hm : src.length = m) (hle : m ≤ BSIZE - off % BSIZE) :
    Written sb i K off src d ip (Function.update d (blockOf d ip (off / BSIZE))
      (putBytes (d (blockOf d ip (off / BSIZE))) (off % BSIZE) src)) ip := by
  have hfit : off % BSIZE + src.length ≤ BSIZE := by
    simp only [BSIZE] at *
    omega
  refine ⟨fun k hk hlt => ?_, fun k hk hmapped => ?_,
    h.othersKept_write hbn.fileBlock.1 hbn.fileBlock.one_le_refs _, h.paid_write hbn _ K⟩
  · obtain ⟨x, rfl⟩ := Nat.exists_eq_add_of_le hk
    obtain ⟨hdiv, hmod⟩ := piece_bytes hle (show x < m by omega)
    rw [h.byteOf_write hbn _ (by rwa [hdiv]), if_pos hdiv, hmod, byteAt_putBytes _ _ _ hfit,
      dif_pos (by omega), Nat.add_sub_cancel_left, List.getElem?_eq_getElem (by omega)]
    congr 2
    omega
  · rw [h.byteOf_write hbn _ hmapped]
    split_ifs with heq
    · rw [byteAt_putBytes _ _ _ hfit, dif_neg, byteOf, heq]
      simp only [BSIZE] at *
      omega
    · rfl

/-- Writing one part behind the other, the second on a file that has grown. -/
lemma Written.append {src' : List UInt8} (h : Written sb i K off src d ip d' ip')
    (hgrown : Grown sb d ip d' ip') (hmapped : ∀ bn, Touches off src.length bn → Mapped d' ip' bn)
    (h' : Written sb i K (off + src.length) src' d' ip' d'' ip'') :
    Written sb i K off (src ++ src') d ip d'' ip'' where
  new k hle hlt := by
    rw [List.length_append] at hlt
    by_cases hk : k < off + src.length
    · rw [List.getElem?_append_left (by omega), h'.old k (by omega), h.new k hle hk]
      refine hmapped _ ?_
      simp only [Touches, BSIZE]
      omega
    · rw [List.getElem?_append_right (by omega), ← h'.new k (by omega) (by omega)]
      congr 1
      omega
  old k hk hm := by
    rw [List.length_append] at hk
    rw [h'.old k (by omega) (hgrown.mapped _ hm), h.old k (by omega) hm]
  others := h.others.trans hgrown.inodes h'.others
  paid := h.paid.trans h'.paid

lemma writeLoop_written (fuel : Nat) (h : Working sb d i ip) (off : Nat) (src : List UInt8)
    (hfuel : src.length ≤ fuel) (hK : off + src.length ≤ K * BSIZE) :
    Ensures (writeLoop sb fuel d ip off src) fun x => Written sb i K off src d ip x.2 x.1 := by
  induction fuel generalizing d ip off src with
  | zero =>
    rw [List.length_eq_zero_iff.mp (Nat.le_zero.mp hfuel)]
    exact Ensures.ok written_nil
  | succ fuel ih =>
    unfold writeLoop
    split_ifs with hnil
    · rw [hnil]
      exact Ensures.ok written_nil
    · have hpos : 0 < src.length := List.length_pos_iff.mpr hnil
      have hfirst : off / BSIZE < K := by
        rw [Nat.div_lt_iff_lt_mul (by decide)]
        omega
      refine Ensures.bind ((h.bmap_ensures (off / BSIZE)).and (h.bmap_kept hfirst)) ?_
      rintro ⟨b, ip₁, d₁⟩ ⟨⟨hwork, hgrown, hfile, hmapped, -⟩, hkept, hothers, hpaid, hb⟩
      dsimp only at hwork hgrown hfile hmapped hkept hothers hpaid hb ⊢
      subst hb
      generalize hmin : min src.length (BSIZE - off % BSIZE) = m
      have hm1 : 1 ≤ m := by
        simp only [BSIZE] at hmin
        omega
      have htake : (src.take m).length = m := by
        rw [List.length_take]
        omega
      have hdrop : (src.drop m).length = src.length - m := List.length_drop
      obtain ⟨hwork₂, hgrown₂⟩ := hwork.write hfile
        (putBytes (d₁ (blockOf d₁ ip₁ (off / BSIZE))) (off % BSIZE) (src.take m))
      have hpiece := hwork.written_piece (K := K) hmapped htake (by omega)
      -- the blocks of the file are as `bmap` left them, and then the piece is written
      have hone : Written sb i K off (src.take m) d ip _ ip₁ :=
        ⟨hpiece.new, fun k hk hm => (hpiece.old k hk (hkept _ hm).1).trans (hkept.byteOf hm),
          hothers.trans hgrown.inodes hpiece.others, hpaid.trans hpiece.paid⟩
      refine (ih hwork₂ (off + m) (src.drop m) (by omega) (by omega)).mono ?_
      rintro ⟨ip₃, d₃⟩ hrest
      have hall := hone.append (hgrown.trans hgrown₂) (fun bn ht => ?_) (by rwa [htake])
      · rwa [List.take_append_drop] at hall
      · obtain rfl : bn = off / BSIZE := by
          simp only [Touches, htake, BSIZE] at ht hmin ⊢
          omega
        exact hgrown₂.mapped _ hmapped

/-- With enough free blocks the loop goes through. -/
lemma writeLoop_succeeds (fuel : Nat) (h : Working sb d i ip) (off : Nat) (src : List UInt8)
    (hfuel : src.length ≤ fuel) (hK : off + src.length ≤ K * BSIZE) (hmax : K ≤ MAXFILE)
    (hfree : missing d ip K ≤ freeBlocks sb d) : ∃ x, writeLoop sb fuel d ip off src = .ok x := by
  induction fuel generalizing d ip off src with
  | zero => exact ⟨_, rfl⟩
  | succ fuel ih =>
    unfold writeLoop
    split_ifs with hnil
    · exact ⟨_, rfl⟩
    · have hpos : 0 < src.length := List.length_pos_iff.mpr hnil
      have hfirst : off / BSIZE < K := by
        rw [Nat.div_lt_iff_lt_mul (by decide)]
        omega
      obtain ⟨⟨b, ip₁, d₁⟩, hbmap⟩ := h.bmap_succeeds hfirst (by omega) hfree
      obtain ⟨hwork, -, hfile, hmapped, -⟩ := h.bmap_ensures _ _ hbmap
      obtain ⟨-, -, hpaid, hb⟩ := h.bmap_kept hfirst _ hbmap
      dsimp only at hwork hfile hmapped hpaid hb
      subst hb
      rw [hbmap]
      change ∃ x, writeLoop sb fuel _ ip₁ (off + min src.length (BSIZE - off % BSIZE))
        (src.drop (min src.length (BSIZE - off % BSIZE))) = .ok x
      generalize hmin : min src.length (BSIZE - off % BSIZE) = m
      have hm1 : 1 ≤ m := by
        simp only [BSIZE] at hmin
        omega
      have hdrop : (src.drop m).length = src.length - m := List.length_drop
      have hpaid₂ := hpaid.trans (hwork.paid_write hmapped
        (putBytes (d₁ (blockOf d₁ ip₁ (off / BSIZE))) (off % BSIZE) (src.take m)) K)
      unfold Paid at hpaid₂
      exact ih (hwork.write hfile _).1 (off + m) (src.drop m) (by omega) (by omega) (by omega)

/-! ### Whole calls -/

/-- The number of blocks of a file of `len` bytes. -/
def fileBlocks (len : Nat) : Nat := (len + BSIZE - 1) / BSIZE

/-- The same with its indirect block. -/
def blocksFor (len : Nat) : Nat := fileBlocks len + if NDIRECT < fileBlocks len then 1 else 0

lemma lt_fileBlocks {len : Nat} : bn < fileBlocks len ↔ bn * BSIZE < len := by
  simp only [fileBlocks, BSIZE]
  omega

lemma fileBlocks_mono {len len' : Nat} (h : len ≤ len') : fileBlocks len ≤ fileBlocks len' := by
  simp only [fileBlocks, BSIZE]
  omega

lemma blocksFor_mono {len len' : Nat} (h : len ≤ len') : blocksFor len ≤ blocksFor len' := by
  have := fileBlocks_mono h
  unfold blocksFor
  split_ifs <;> omega

lemma missing_eq_zero (h : ∀ bn < K, Mapped d ip bn) : missing d ip K = 0 := by
  have hsum : ∑ bn ∈ Finset.range K, (if Mapped d ip bn then 0 else 1) = 0 :=
    Finset.sum_eq_zero fun bn hbn => if_pos (h bn (Finset.mem_range.mp hbn))
  have hind : ¬ (NDIRECT < K ∧ ip.addrs indirect = 0) := by
    rintro ⟨hK, h0⟩
    exact ((mapped_indirect (Nat.lt_irrefl _)).mp (h NDIRECT hK)).2.1 h0
  rw [missing, hsum, if_neg hind]

lemma missing_mono {K' : Nat} (h : K ≤ K') : missing d ip K ≤ missing d ip K' := by
  have hsum : ∑ bn ∈ Finset.range K, (if Mapped d ip bn then 0 else 1) ≤
      ∑ bn ∈ Finset.range K', (if Mapped d ip bn then 0 else 1) :=
    Finset.sum_le_sum_of_subset (Finset.range_mono h)
  have hind : NDIRECT < K ∧ ip.addrs indirect = 0 → NDIRECT < K' ∧ ip.addrs indirect = 0 :=
    fun hc => ⟨hc.1.trans_le h, hc.2⟩
  unfold missing
  split_ifs with hc hc'
  · omega
  · exact absurd (hind hc) hc'
  · omega
  · omega

/-- A file without holes that grows is missing the blocks by which it grows. -/
lemma NoHoles.missing_le {len : Nat} (h : NoHoles d ip) (hle : ip.size.toNat ≤ len) :
    missing d ip (fileBlocks len) + blocksFor ip.size.toNat ≤ blocksFor len := by
  obtain ⟨t, ht⟩ := Nat.exists_eq_add_of_le (fileBlocks_mono hle)
  have hmapped : ∀ bn < fileBlocks ip.size.toNat, Mapped d ip bn :=
    fun bn hbn => h bn (lt_fileBlocks.mp hbn)
  have hnew : ∑ x ∈ Finset.range t,
      (if Mapped d ip (fileBlocks ip.size.toNat + x) then 0 else 1) ≤ t := by
    have := Finset.sum_le_card_nsmul (Finset.range t)
      (fun x => if Mapped d ip (fileBlocks ip.size.toNat + x) then 0 else 1) 1
      fun x _ => by split_ifs <;> decide
    rwa [Finset.card_range, smul_eq_mul, Nat.mul_one] at this
  have hold := missing_eq_zero hmapped
  have hlow : ∑ bn ∈ Finset.range (fileBlocks ip.size.toNat), (if Mapped d ip bn then 0 else 1) = 0 :=
    Nat.eq_zero_of_add_eq_zero_right hold
  have hind : NDIRECT < fileBlocks ip.size.toNat → ip.addrs indirect ≠ 0 := by
    intro hlt
    exact ((mapped_indirect (Nat.lt_irrefl _)).mp (hmapped NDIRECT hlt)).2.1
  unfold missing blocksFor
  rw [ht, Finset.sum_range_add, hlow]
  by_cases hlt : NDIRECT < fileBlocks ip.size.toNat
  · have hno : ¬ (NDIRECT < fileBlocks ip.size.toNat + t ∧ ip.addrs indirect = 0) :=
      fun hc => hind hlt hc.2
    rw [if_neg hno, if_pos hlt, if_pos (by omega)]
    omega
  · rw [if_neg hlt]
    split_ifs <;> omega

@[simp]
lemma length_contents (d : Disk) (ip : Dinode) : (contents d ip).length = ip.size.toNat := by
  simp [contents]

lemma getElem?_contents (d : Disk) (ip : Dinode) (k : Nat) :
    (contents d ip)[k]? = if k < ip.size.toNat then some (byteOf d ip k) else none := by
  rw [contents, List.getElem?_map]
  split_ifs with hk
  · rw [List.getElem?_range hk, Option.map_some]
  · rw [List.getElem?_eq_none (by simpa using hk), Option.map_none]

/-- Reading from a file as a byte string; `none` is -1. -/
def readFile (f : List UInt8) (off n : Nat) : Option (List UInt8) :=
  if f.length < off ∨ 2 ^ 32 ≤ off + n then none else some ((f.drop off).take n)

/-- Writing to a file as a byte string; `none` is -1. -/
def writeFile (f : List UInt8) (off : Nat) (src : List UInt8) : Option (List UInt8) :=
  if f.length < off ∨ 2 ^ 32 ≤ off + src.length ∨ MAXFILE * BSIZE < off + src.length then none
  else some (splice f off src)

lemma lt_of_add_lt {x y : UInt32} : x + y < x ↔ 2 ^ 32 ≤ x.toNat + y.toNat := by
  have hx := x.toNat_lt
  have hy := y.toNat_lt
  rw [UInt32.lt_iff_toNat_lt, UInt32.toNat_add]
  omega

lemma toNat_add_of_not_lt {x y : UInt32} (h : ¬ x + y < x) : (x + y).toNat = x.toNat + y.toNat := by
  rw [lt_of_add_lt] at h
  rw [UInt32.toNat_add]
  exact Nat.mod_eq_of_lt (by omega)

lemma contents_range (d : Disk) (ip : Dinode) {o n : Nat} (h : o + n ≤ ip.size.toNat) :
    (List.range n).map (fun k => byteOf d ip (o + k)) = ((contents d ip).drop o).take n := by
  apply List.ext_getElem?
  intro k
  rw [List.getElem?_take, List.getElem?_drop, getElem?_contents, List.getElem?_map]
  by_cases hk : k < n
  · rw [List.getElem?_range hk, Option.map_some, if_pos hk, if_pos (by omega)]
  · rw [List.getElem?_eq_none (by simpa using hk), if_neg hk, Option.map_none]

/-- `readi` reads from the byte string and changes nothing. -/
lemma readi_eq (sb : Superblock) (dev : Devsw) (h : NoHoles d ip) (hdev : ip.type ≠ T_DEV)
    (off n : UInt32) :
    readi sb dev d ip off n = .ok (readFile (contents d ip) off.toNat n.toNat, ip, d) := by
  have hloop : ∀ m : UInt32, off.toNat + m.toNat ≤ ip.size.toNat →
      readLoop sb m.toNat d ip off.toNat m.toNat =
        .ok (((contents d ip).drop off.toNat).take m.toNat, ip, d) := by
    intro m hm
    rw [readLoop_eq sb _ _ _ le_rfl fun bn hbn => h bn (hbn.trans_le hm), contents_range d ip hm]
  unfold readi readFile
  rw [if_neg hdev, length_contents]
  by_cases hfail : ip.size < off ∨ off + n < off
  · rw [if_pos hfail, if_pos]
    rwa [UInt32.lt_iff_toNat_lt, lt_of_add_lt] at hfail
  · have hfail' : ¬ (ip.size.toNat < off.toNat ∨ 2 ^ 32 ≤ off.toNat + n.toNat) := by
      rwa [UInt32.lt_iff_toNat_lt, lt_of_add_lt] at hfail
    have hadd := toNat_add_of_not_lt (not_or.mp hfail).2
    rw [if_neg hfail, if_neg hfail']
    dsimp only
    split_ifs with hlong
    · rw [UInt32.lt_iff_toNat_lt, hadd] at hlong
      have hsub : (ip.size - off).toNat = ip.size.toNat - off.toNat :=
        UInt32.toNat_sub_of_le _ _ (UInt32.le_iff_toNat_le.mpr (by omega))
      rw [hloop _ (by omega), hsub]
      change Except.ok (some _, ip, d) = _
      rw [List.take_of_length_le (by simp), List.take_of_length_le (by simp; omega)]
    · rw [UInt32.lt_iff_toNat_lt, hadd] at hlong
      rw [hloop _ (by omega)]
      rfl

/-- A write of the inode to disk touches no block of a file. -/
lemma Accounts.kept_iupdate {t : Nat → Dinode} (h : Accounts sb d (allRefs sb d t))
    (hi : i < sb.ninodes) (hj : j < sb.ninodes) (ht : (t j).type ≠ 0) (ip : Dinode) :
    Kept d (t j) (iupdate sb d i ip) (t j) := by
  refine kept_of_data (fun hind => ?_) fun bn hbn => ?_
  · exact data_putDinode sb d ip hi (h.indirect_data hj ht hind)
  · exact data_putDinode sb d ip hi
      (h.block_data hj ht hbn.fileBlock.one_le_refs hbn.fileBlock.1).1

lemma freeBlocks_iupdate (hi : i < sb.ninodes) (ip : Dinode) :
    freeBlocks sb (iupdate sb d i ip) = freeBlocks sb d :=
  freeBlocks_congr fun _ _ => marked_putDinode sb d ip hi

lemma byteOf_fields (haddrs : ip'.addrs = ip.addrs) (k : Nat) : byteOf d ip' k = byteOf d ip k := by
  unfold byteOf blockOf
  rw [haddrs]

lemma kept_contents (h : Kept d ip d' ip') (hsize : ip'.size = ip.size) (hholes : NoHoles d ip) :
    contents d' ip' = contents d ip := by
  unfold contents
  rw [hsize]
  refine List.map_congr_left fun k hk => h.byteOf (hholes _ ?_)
  have := List.mem_range.mp hk
  have := Nat.div_mul_le_self k BSIZE
  omega

/-- What was written, as bytes of the whole file. -/
lemma Written.contents (h : Written sb i K off src d ip d' ip') (hholes : NoHoles d ip)
    (hoff : off ≤ ip.size.toNat) (hsize : ip'.size.toNat = max ip.size.toNat (off + src.length)) :
    Fs.contents d' ip' = splice (Fs.contents d ip) off src := by
  have hoff' : off ≤ (Fs.contents d ip).length := by rwa [length_contents]
  apply List.ext_getElem?
  intro k
  rw [getElem?_splice hoff', getElem?_contents, getElem?_contents, hsize]
  by_cases hin : off ≤ k ∧ k < off + src.length
  · rw [if_pos hin, if_pos (by omega), h.new k hin.1 hin.2]
  · rw [if_neg hin]
    by_cases hk : k < ip.size.toNat
    · rw [if_pos (by omega), if_pos hk, h.old k hin]
      refine hholes _ ?_
      have := Nat.div_mul_le_self k BSIZE
      omega
    · rw [if_neg (by omega), if_neg hk]

/-- The checks at the start of `writei`. -/
lemma writei_checks {o : UInt32} (hsrc : src.length < 2 ^ 32) :
    (ip.size < o ∨ o + UInt32.ofNat src.length < o ∨
        UInt32.ofNat (MAXFILE * BSIZE) < o + UInt32.ofNat src.length) ↔
      ((Fs.contents d ip).length < o.toNat ∨ 2 ^ 32 ≤ o.toNat + src.length ∨
        MAXFILE * BSIZE < o.toNat + src.length) := by
  have hn : (UInt32.ofNat src.length).toNat = src.length := by
    rw [UInt32.toNat_ofNat']
    exact Nat.mod_eq_of_lt hsrc
  have hmax : (UInt32.ofNat (MAXFILE * BSIZE)).toNat = MAXFILE * BSIZE := rfl
  rw [length_contents, UInt32.lt_iff_toNat_lt, lt_of_add_lt, hn]
  by_cases hover : 2 ^ 32 ≤ o.toNat + src.length
  · exact iff_of_true (Or.inr (Or.inl hover)) (Or.inr (Or.inl hover))
  · have hadd : (o + UInt32.ofNat src.length).toNat = o.toNat + src.length := by
      rw [toNat_add_of_not_lt (by rwa [lt_of_add_lt, hn]), hn]
    rw [UInt32.lt_iff_toNat_lt, hadd, hmax]

lemma writei_none (sb : Superblock) (dev : Devsw) (i : Nat) {o : UInt32} (hdev : ip.type ≠ T_DEV)
    (hsrc : src.length < 2 ^ 32) (h : writeFile (Fs.contents d ip) o.toNat src = none) :
    writei sb dev d i ip o src = .ok (none, ip, d) := by
  unfold writeFile at h
  split_ifs at h with hfail
  rw [← writei_checks hsrc] at hfail
  unfold writei
  rw [if_neg hdev]
  dsimp only
  by_cases hfirst : ip.size < o ∨ o + UInt32.ofNat src.length < o
  · rw [if_pos hfirst]
  · rw [if_neg hfirst, if_pos]
    tauto

lemma Written.fields (h : Written sb i K off src d ip d' ip') (haddrs : ip''.addrs = ip'.addrs) :
    Written sb i K off src d ip d' ip'' where
  new k hle hlt := by rw [byteOf_fields haddrs, h.new k hle hlt]
  old k hk hm := by rw [byteOf_fields haddrs, h.old k hk hm]
  others := h.others
  paid := by
    have hmissing : missing d' ip'' K = missing d' ip' K := by
      simp only [missing, mapped_fields haddrs, haddrs]
    have := h.paid
    unfold Paid at *
    rwa [hmissing]

/-- After the loop all blocks of the file are allocated. -/
lemma mapped_written {o : Nat} (hholes : NoHoles d ip) (hoff : o ≤ ip.size.toNat)
    (hgrown : Grown sb d ip d' ip') (hmapped : ∀ bn, Touches o src.length bn → Mapped d' ip' bn)
    (hbn : bn * BSIZE < max ip.size.toNat (o + src.length)) : Mapped d' ip' bn := by
  by_cases hold : bn * BSIZE < ip.size.toNat
  · exact hgrown.mapped bn (hholes bn hold)
  · refine hmapped bn ⟨?_, ?_, ?_⟩
    · omega
    · omega
    · simp only [BSIZE] at *
      omega

lemma Working.othersKept_iupdate (h : Working sb d i ip) (jp : Dinode) :
    OthersKept sb d i (Fs.iupdate sb d i jp) := by
  intro j hj hji ht
  have hkept := h.accounts.kept_iupdate h.lt hj (by rwa [tableWith_of_ne _ _ _ hji]) jp
  rwa [tableWith_of_ne _ _ _ hji] at hkept

lemma Working.kept_iupdate (h : Working sb d i ip) (jp : Dinode) :
    Kept d ip (Fs.iupdate sb d i jp) ip := by
  have hkept := h.accounts.kept_iupdate h.lt h.lt (by rw [tableWith_self]; exact h.type) jp
  rwa [tableWith_self] at hkept

lemma Working.paid_iupdate (h : Working sb d i ip) (jp : Dinode) (K : Nat) :
    Paid sb K d ip (Fs.iupdate sb d i jp) ip := by
  have hiff : ∀ c, Mapped (Fs.iupdate sb d i jp) ip c ↔ Mapped d ip c :=
    mapped_congr fun hind => data_putDinode sb d jp h.lt (h.indirect_data hind)
  rw [Paid, freeBlocks_iupdate h.lt]
  simp only [missing, hiff]

lemma Sound.others_contents (h : Sound sb d) (hothers : OthersKept sb d i d')
    (hinodes : ∀ j, j < sb.ninodes → j ≠ i → dinode sb d' j = dinode sb d j) (hj : j < sb.ninodes)
    (hji : j ≠ i) (ht : (dinode sb d j).type ≠ 0) :
    Fs.contents d' (dinode sb d' j) = Fs.contents d (dinode sb d j) := by
  rw [hinodes j hj hji]
  exact kept_contents (hothers j hj hji ht) rfl (h.noHoles j hj ht)

/-- The effect of a `writei` that is not refused: on the file, on the other files and on the number
of free blocks. -/
structure Wrote (sb : Superblock) (d : Disk) (i : Nat) (f : List UInt8) (d' : Disk) : Prop where
  file : Fs.contents d' (dinode sb d' i) = f
  others : ∀ j, j < sb.ninodes → j ≠ i → (dinode sb d j).type ≠ 0 →
    Fs.contents d' (dinode sb d' j) = Fs.contents d (dinode sb d j)
  types : ∀ j, j < sb.ninodes → (dinode sb d' j).type = (dinode sb d j).type
  paid : ∀ K, f.length ≤ K * BSIZE → Paid sb K d (dinode sb d i) d' (dinode sb d' i)

section Writei

variable {o : UInt32} {f : List UInt8} (dev : Devsw)

lemma writeFile_some (h : writeFile (Fs.contents d ip) o.toNat src = some f) :
    f = splice (Fs.contents d ip) o.toNat src ∧ o.toNat ≤ ip.size.toNat ∧
      o.toNat + src.length ≤ MAXFILE * BSIZE ∧
      f.length = max ip.size.toNat (o.toNat + src.length) := by
  unfold writeFile at h
  split_ifs at h with hfail
  obtain rfl := Option.some.inj h
  rw [length_contents] at hfail
  have hoff : o.toNat ≤ (Fs.contents d ip).length := by
    rw [length_contents]
    omega
  refine ⟨rfl, by omega, by omega, ?_⟩
  rw [length_splice hoff, length_contents]

lemma Sound.writei_wrote (h : Sound sb d) (hi : i < sb.ninodes) (ht : (dinode sb d i).type ≠ 0)
    (hdev : (dinode sb d i).type ≠ T_DEV) (hsrc : src.length < 2 ^ 32)
    (hf : writeFile (Fs.contents d (dinode sb d i)) o.toNat src = some f) :
    Ensures (writei sb dev d i (dinode sb d i) o src) fun x =>
      x.1 = some src.length ∧ Wrote sb d i f x.2.2 := by
  obtain ⟨rfl, hoff, hmax, hlen⟩ := writeFile_some hf
  have hchecks : ¬ ((dinode sb d i).size < o ∨ o + UInt32.ofNat src.length < o ∨
      UInt32.ofNat (MAXFILE * BSIZE) < o + UInt32.ofNat src.length) := by
    rw [writei_checks (d := d) hsrc]
    intro hfail
    rw [writeFile, if_pos hfail] at hf
    cases hf
  have hn : (UInt32.ofNat src.length).toNat = src.length := by
    rw [UInt32.toNat_ofNat']
    exact Nat.mod_eq_of_lt hsrc
  have hadd : (o + UInt32.ofNat src.length).toNat = o.toNat + src.length := by
    rw [toNat_add_of_not_lt (fun hlt => hchecks (Or.inr (Or.inl hlt))), hn]
  have hholes := h.noHoles i hi ht
  unfold writei
  rw [if_neg hdev]
  dsimp only
  rw [if_neg (fun hc => hchecks (hc.imp_right Or.inl)), if_neg (fun hc => hchecks (Or.inr (Or.inr hc)))]
  have hloop : Ensures (writeLoop sb src.length d (dinode sb d i) o.toNat src) fun x =>
      ∀ K, o.toNat + src.length ≤ K * BSIZE →
        Written sb i K o.toNat src d (dinode sb d i) x.2 x.1 :=
    fun x hx K hK => writeLoop_written src.length (h.working hi ht) o.toNat src le_rfl hK x hx
  refine Ensures.bind
    ((writeLoop_ensures src.length (h.working hi ht) o.toNat src le_rfl).and hloop) ?_
  rintro ⟨ip', d'⟩ ⟨⟨hwork, hgrown, hmapped, hsame⟩, hwrites⟩
  dsimp only at hwork hgrown hmapped hsame hwrites ⊢
  have hwritten := hwrites (o.toNat + src.length) (Nat.le_mul_of_pos_right _ (by decide))
  have hsize : ip'.size = (dinode sb d i).size := by rw [hgrown.fields]
  have hall : ∀ bn, bn * BSIZE < max (dinode sb d i).size.toNat (o.toNat + src.length) →
      Mapped d' ip' bn := fun bn => mapped_written hholes hoff hgrown hmapped
  split_ifs with hgrow <;>
    rw [UInt32.lt_iff_toNat_lt, UInt32.lt_iff_toNat_lt, hn, hadd, hsize, UInt32.toNat_zero] at hgrow
  · -- the file grew and its inode is written back
    set ip₂ : Dinode := { ip' with size := o + UInt32.ofNat src.length } with hip₂
    have hsize₂ : ip₂.size.toNat = max (dinode sb d i).size.toNat (o.toNat + src.length) := by
      rw [hip₂, hadd]
      omega
    have hwork₂ : Working sb d' i ip₂ := hwork.fields hwork.type rfl
    have hholes₂ : NoHoles d' ip₂ := by
      intro bn hbn
      rw [hsize₂] at hbn
      exact (mapped_fields rfl).mpr (hall bn hbn)
    have hself : dinode sb (iupdate sb d' i ip₂) i = ip₂ := by
      rw [iupdate, dinode_putDinode, if_pos rfl]
    have hinodes : ∀ j, j < sb.ninodes → j ≠ i →
        dinode sb (iupdate sb d' i ip₂) j = dinode sb d j := by
      intro j hj hji
      rw [iupdate, dinode_putDinode, if_neg hji, hgrown.inodes j hj]
    refine Ensures.pure ⟨rfl, ?_, fun j hj hji htj => ?_, fun j hj => ?_, fun K hK => ?_⟩
    · dsimp only
      rw [hself, kept_contents (hwork₂.kept_iupdate ip₂) rfl hholes₂]
      have hwritten₂ : Written sb i _ o.toNat src d (dinode sb d i) d' ip₂ := hwritten.fields rfl
      exact hwritten₂.contents hholes hoff hsize₂
    · exact h.others_contents
        (hwritten.others.trans hgrown.inodes (hwork₂.othersKept_iupdate ip₂)) hinodes hj hji htj
    · by_cases hji : j = i
      · rw [hji, hself, hip₂, hgrown.fields]
      · rw [hinodes j hj hji]
    · have hwritten₂ : Written sb i K o.toNat src d (dinode sb d i) d' ip₂ :=
        (hwrites K (by omega)).fields rfl
      dsimp only
      rw [hself]
      exact hwritten₂.paid.trans (hwork₂.paid_iupdate ip₂ K)
  · have hsize' : ip'.size.toNat = max (dinode sb d i).size.toNat (o.toNat + src.length) := by
      rw [hsize]
      omega
    have hold : ip' = dinode sb d i := by
      refine hsame fun bn hbn => hholes bn ?_
      have := hbn.2.1
      rw [hsize] at hsize'
      omega
    refine Ensures.pure ⟨rfl, ?_, fun j hj hji htj => ?_, fun j hj => ?_, fun K hK => ?_⟩
    · dsimp only
      rw [hgrown.inodes i hi, ← hwritten.contents hholes hoff hsize', hold]
    · exact h.others_contents hwritten.others (fun j hj _ => hgrown.inodes j hj) hj hji htj
    · rw [hgrown.inodes j hj]
    · have hpaid := (hwrites K (by omega)).paid
      have hself : dinode sb d' i = ip' := by rw [hgrown.inodes i hi, hold]
      dsimp only
      rwa [hself]

/-- With enough free blocks `writei` returns. -/
lemma Sound.writei_succeeds (h : Sound sb d) (hi : i < sb.ninodes) (ht : (dinode sb d i).type ≠ 0)
    (hf : writeFile (Fs.contents d (dinode sb d i)) o.toNat src = some f)
    (hfree : missing d (dinode sb d i) (fileBlocks f.length) ≤ freeBlocks sb d) :
    ∃ x, writei sb dev d i (dinode sb d i) o src = .ok x := by
  obtain ⟨-, hoff, hmax, hlen⟩ := writeFile_some hf
  have hK : o.toNat + src.length ≤ fileBlocks f.length * BSIZE := by
    rw [hlen]
    simp only [fileBlocks, BSIZE]
    omega
  have hsize : fileBlocks (dinode sb d i).size.toNat ≤ MAXFILE := by
    by_contra hlt
    have := (h.noHoles i hi ht MAXFILE (lt_fileBlocks.mp (Nat.lt_of_not_le hlt))).lt_MAXFILE
    omega
  have hKmax : fileBlocks f.length ≤ MAXFILE := by
    rw [hlen]
    simp only [fileBlocks, BSIZE, MAXFILE, NDIRECT, NINDIRECT, BWORDS] at *
    omega
  obtain ⟨⟨ip', d'⟩, hloop⟩ := writeLoop_succeeds src.length (h.working hi ht) o.toNat src le_rfl
    hK hKmax hfree
  unfold writei
  dsimp only
  split_ifs
  · exact ⟨_, rfl⟩
  · exact ⟨_, rfl⟩
  · exact ⟨_, rfl⟩
  · rw [hloop]
    dsimp only [bind, Except.bind]
    split_ifs <;> exact ⟨_, rfl⟩

end Writei

end Xv6.Fs
