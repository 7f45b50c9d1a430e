import Xv6.Fs.Paths

/-!
# Looking names up

The loop of `dirlookup` goes through the entries of a directory in order. Over blocks that are
allocated it is a search in the list of entries, and nothing on the disk changes.
-/

namespace Xv6.Fs

open Disk Fallible

variable {sb : Superblock} {dev : Devsw} {d : Disk} {ip dp : Dinode} {off n fuel : Nat}
  {name : List UInt8} {es : List Dirent}

/-- `readi` where all blocks are allocated. -/
lemma readi_mapped (hdev : ip.type ≠ T_DEV) (hle : off + n ≤ ip.size.toNat)
    (hm : ∀ bn, bn * BSIZE < off + n → Mapped d ip bn) :
    readi sb dev d ip (UInt32.ofNat off) (UInt32.ofNat n) =
      .ok (some ((List.range n).map fun k => byteOf d ip (off + k)), ip, d) := by
  have hsize := ip.size.toNat_lt
  have hoff : (UInt32.ofNat off).toNat = off := by
    rw [UInt32.toNat_ofNat']
    exact Nat.mod_eq_of_lt (by omega)
  have hn : (UInt32.ofNat n).toNat = n := by
    rw [UInt32.toNat_ofNat']
    exact Nat.mod_eq_of_lt (by omega)
  have hadd : (UInt32.ofNat off + UInt32.ofNat n).toNat = off + n := by
    rw [UInt32.toNat_add, hoff, hn]
    exact Nat.mod_eq_of_lt (by omega)
  unfold readi
  rw [if_neg hdev, if_neg]
  · dsimp only
    rw [if_neg, hoff, hn, readLoop_eq sb n off n le_rfl hm]
    · rfl
    · rw [UInt32.lt_iff_toNat_lt, hadd]
      omega
  · rw [UInt32.lt_iff_toNat_lt, UInt32.lt_iff_toNat_lt, hadd, hoff]
    omega

/-- The entry at the given offset. -/
def direntAt (d : Disk) (dp : Dinode) (off : Nat) : Dirent :=
  Dirent.decode ((List.range Dirent.SIZE).map fun k => byteOf d dp (off + k))

lemma readDirent_eq (sb : Superblock) (dev : Devsw) (msg : String) (off : Nat)
    (hdev : dp.type ≠ T_DEV) (hle : off + Dirent.SIZE ≤ dp.size.toNat)
    (hm : ∀ bn, bn * BSIZE < off + Dirent.SIZE → Mapped d dp bn) :
    readDirent sb dev msg d dp off = .ok (direntAt d dp off, dp, d) := by
  have hread : readi sb dev d dp (UInt32.ofNat off) 16 = _ := readi_mapped hdev hle hm
  rw [readDirent, hread]
  dsimp only [bind, Except.bind]
  rw [if_pos (by rw [List.length_map, List.length_range]; rfl)]
  rfl

/-- The first entry in use with the given name, and its offset; the entries start at `off`. -/
def lookup (name : List UInt8) : List Dirent → (off : Nat) → Option (Nat × Nat)
  | [], _ => none
  | de :: es, off =>
    if de.inum ≠ 0 ∧ namecmp name de.name = 0 then some (de.inum.toNat, off)
    else lookup name es (off + Dirent.SIZE)

lemma lookup_eq_some (name : List UInt8) (off : Nat) {k : Nat} {de : Dirent} (hk : es[k]? = some de) (hinum : de.inum ≠ 0)
    (hname : namecmp name de.name = 0)
    (hfirst : ∀ j < k, ∀ de', es[j]? = some de' → namecmp name de'.name ≠ 0) :
    lookup name es off = some (de.inum.toNat, off + k * Dirent.SIZE) := by
  induction es generalizing k off with
  | nil => cases hk
  | cons e es ih =>
    cases k with
    | zero =>
      cases hk
      rw [lookup, if_pos ⟨hinum, hname⟩, Nat.zero_mul, Nat.add_zero]
    | succ k =>
      have hne := hfirst 0 (Nat.succ_pos k) e rfl
      rw [lookup, if_neg (fun h => hne h.2), ih _ hk fun j hj de' hde' =>
        hfirst (j + 1) (Nat.succ_lt_succ hj) de' hde', Nat.succ_mul]
      congr 2
      omega

/-- The directory has the entries `es` from `off` on, in allocated blocks. -/
structure Entries (d : Disk) (dp : Dinode) (off : Nat) (es : List Dirent) : Prop where
  le : off + es.length * Dirent.SIZE ≤ dp.size.toNat
  mapped : ∀ bn, bn * BSIZE < off + es.length * Dirent.SIZE → Mapped d dp bn
  entry : ∀ k de, es[k]? = some de → direntAt d dp (off + k * Dirent.SIZE) = de

lemma Entries.tail {de : Dirent} (h : Entries d dp off (de :: es)) :
    Entries d dp (off + Dirent.SIZE) es where
  le := by
    have hle := h.le
    rw [List.length_cons, Nat.succ_mul] at hle
    omega
  mapped bn hbn := h.mapped bn (by rw [List.length_cons, Nat.succ_mul]; omega)
  entry k de' hk := by
    have hentry := h.entry (k + 1) de' (by rwa [List.getElem?_cons_succ])
    rw [Nat.succ_mul] at hentry
    rw [← hentry]
    congr 1
    omega

/-- The loop searches the entries, and goes on behind them if the name is not there. -/
lemma dirlookupLoop_entries (hdev : dp.type ≠ T_DEV) (h : Entries d dp off es) (fuel : Nat) :
    dirlookupLoop sb dev name (es.length + fuel) d dp off =
      match lookup name es off with
      | some r => .ok (some r, dp, d)
      | none => dirlookupLoop sb dev name fuel d dp (off + es.length * Dirent.SIZE) := by
  induction es generalizing off with
  | nil =>
    rw [List.length_nil, Nat.zero_add, Nat.zero_mul]
    rfl
  | cons de es ih =>
    have hle := h.le
    rw [List.length_cons, Nat.succ_mul] at hle
    have hpos : 0 < Dirent.SIZE := by decide
    have hread := readDirent_eq sb dev "dirlookup read" off hdev (by omega)
      fun bn hbn => h.mapped bn (by rw [List.length_cons, Nat.succ_mul]; omega)
    have hde : direntAt d dp off = de := by
      have hentry := h.entry 0 de rfl
      rwa [Nat.zero_mul, Nat.add_zero] at hentry
    have hfuel : (de :: es).length + fuel = es.length + fuel + 1 := by
      rw [List.length_cons]
      omega
    rw [hfuel, dirlookupLoop, if_pos (by omega), hread, hde]
    dsimp only [bind, Except.bind]
    rw [lookup]
    split_ifs with hmatch
    · rfl
    · rw [ih h.tail]
      have hnext : off + (de :: es).length * Dirent.SIZE =
          off + Dirent.SIZE + es.length * Dirent.SIZE := by
        rw [List.length_cons, Nat.succ_mul]
        omega
      rw [hnext]

end Xv6.Fs
