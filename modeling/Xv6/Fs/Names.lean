import Mathlib.Data.List.Basic
import Mathlib.Data.List.TakeWhile

/-!
# Names

The functions of `string.c` that names are handled with, the splitting of paths and the entries of
directories. A string is the list of its bytes; what is read behind its end is the terminating NUL.
-/

namespace Xv6.Fs

/-- The length of a name in a directory. -/
def DIRSIZ : Nat := 14

/-! ### Strings -/

def strncmp : Nat → List UInt8 → List UInt8 → Int
  | 0, _, _ => 0
  | n + 1, p, q =>
    if p.headD 0 ≠ 0 ∧ p.headD 0 = q.headD 0 then strncmp n p.tail q.tail
    else (p.headD 0).toNat - (q.headD 0).toNat

/-- `strncpy`: the `n` bytes that are written. -/
def strncpy : Nat → List UInt8 → List UInt8
  | 0, _ => []
  | n + 1, t =>
    t.headD 0 :: if t.headD 0 = 0 then List.replicate n 0 else strncpy n t.tail

def namecmp (s t : List UInt8) : Int := strncmp DIRSIZ s t

/-- The part of a string that comparing `n` bytes sees. -/
def cut : Nat → List UInt8 → List UInt8
  | 0, _ => []
  | n + 1, s => if s.headD 0 = 0 then [] else s.headD 0 :: cut n s.tail

variable {n : Nat} {s t : List UInt8}

lemma strncmp_eq_zero_iff : strncmp n s t = 0 ↔ cut n s = cut n t := by
  induction n generalizing s t with
  | zero => simp [strncmp, cut]
  | succ n ih =>
    simp only [strncmp, cut]
    by_cases hs : s.headD 0 = 0
    · have hiff : ((0 : UInt8).toNat : Int) - (t.headD 0).toNat = 0 ↔ t.headD 0 = 0 := by
        rw [← UInt8.toNat_inj, UInt8.toNat_zero]
        omega
      rw [if_neg (fun h => h.1 hs), hs, hiff, if_pos rfl]
      by_cases ht : t.headD 0 = 0
      · rw [if_pos ht]
        exact iff_of_true ht rfl
      · rw [if_neg ht]
        exact iff_of_false ht (List.cons_ne_nil _ _).symm
    · by_cases heq : s.headD 0 = t.headD 0
      · rw [if_pos ⟨hs, heq⟩, ih, if_neg hs, if_neg (heq ▸ hs), heq, List.cons.injEq]
        simp
      · have hne : ((s.headD 0).toNat : Int) - (t.headD 0).toNat ≠ 0 := by
          rw [← UInt8.toNat_inj] at heq
          omega
        rw [if_neg (fun h => heq h.2), if_neg hs]
        refine iff_of_false hne fun h => ?_
        split_ifs at h
        exact heq (List.cons.inj h).1

lemma namecmp_eq_zero_iff : namecmp s t = 0 ↔ cut DIRSIZ s = cut DIRSIZ t := strncmp_eq_zero_iff

@[simp]
lemma length_strncpy (n : Nat) (t : List UInt8) : (strncpy n t).length = n := by
  induction n generalizing t with
  | zero => rfl
  | succ n ih =>
    rw [strncpy, List.length_cons]
    split_ifs
    · rw [List.length_replicate]
    · rw [ih]

/-- A copied name compares as the original. -/
@[simp]
lemma cut_strncpy (n : Nat) (t : List UInt8) : cut n (strncpy n t) = cut n t := by
  induction n generalizing t with
  | zero => rfl
  | succ n ih =>
    simp only [cut, strncpy, List.headD_cons, List.tail_cons]
    split_ifs with h
    · rfl
    · rw [ih]

/-- In a string the first NUL is the one behind its end. -/
lemma cut_of_notMem (h : 0 ∉ s) : cut n s = s.take n := by
  induction n generalizing s with
  | zero => rfl
  | succ n ih =>
    cases s with
    | nil => rfl
    | cons c s =>
      rw [List.mem_cons, not_or] at h
      rw [cut, List.headD_cons, if_neg (Ne.symm h.1), List.tail_cons, ih h.2, List.take_succ_cons]

lemma cut_take (h : 0 ∉ s) : cut n (s.take n) = cut n s := by
  rw [cut_of_notMem (fun hm => h (List.mem_of_mem_take hm)), cut_of_notMem h, List.take_take,
    Nat.min_self]

/-! ### Paths -/

/-- `'/'` -/
def SLASH : UInt8 := 47

/-- `skipelem`: the next element of a path, cut to `DIRSIZ` bytes, and the path behind it. -/
def skipelem (path : List UInt8) : Option (List UInt8 × List UInt8) :=
  let path := path.dropWhile (· = SLASH)
  if path = [] then none
  else some ((path.takeWhile (· ≠ SLASH)).take DIRSIZ,
    (path.dropWhile (· ≠ SLASH)).dropWhile (· = SLASH))

/-! ### Directory entries -/

/-- `struct dirent` -/
structure Dirent where
  inum : UInt16
  name : List UInt8
  length_name : name.length = DIRSIZ
  deriving DecidableEq

namespace Dirent

/-- `sizeof(de)` -/
def SIZE : Nat := 16

/-- The bytes of an entry on disk. -/
def encode (de : Dirent) : List UInt8 :=
  UInt8.ofNat de.inum.toNat :: UInt8.ofNat (de.inum.toNat / 256) :: de.name

/-- The entry in the given bytes. -/
def decode (l : List UInt8) : Dirent where
  inum := UInt16.ofNat ((l.getD 0 0).toNat + 256 * (l.getD 1 0).toNat)
  name := (List.range DIRSIZ).map fun k => l.getD (k + 2) 0
  length_name := by rw [List.length_map, List.length_range]

@[simp]
lemma length_encode (de : Dirent) : de.encode.length = SIZE := by
  rw [encode, List.length_cons, List.length_cons, de.length_name]
  rfl

@[simp]
lemma decode_encode (de : Dirent) : decode de.encode = de := by
  obtain ⟨inum, name, hlen⟩ := de
  have hinum : UInt16.ofNat ((UInt8.ofNat inum.toNat).toNat +
      256 * (UInt8.ofNat (inum.toNat / 256)).toNat) = inum := by
    apply UInt16.toNat_inj.mp
    rw [UInt16.toNat_ofNat', UInt8.toNat_ofNat', UInt8.toNat_ofNat']
    have := inum.toNat_lt
    omega
  have hname : (List.range DIRSIZ).map (fun k => (encode ⟨inum, name, hlen⟩).getD (k + 2) 0) =
      name := by
    refine List.ext_getElem (by simp [hlen]) fun k _ hk => ?_
    simp [encode, hk]
  simp only [decode, hname, mk.injEq, and_true]
  exact hinum

/-- An entry of zeros is free. -/
lemma decode_zeros {l : List UInt8} (h : ∀ c ∈ l, c = 0) : (decode l).inum = 0 := by
  have hget : ∀ k, l.getD k 0 = 0 := by
    intro k
    rw [List.getD_eq_getElem?_getD]
    cases hk : l[k]? with
    | none => rfl
    | some c => exact h c (List.mem_of_getElem? hk)
  simp only [decode, hget]
  rfl

end Dirent

/-- The entries in the contents of a directory. -/
def dirents (f : List UInt8) : List Dirent :=
  (List.range (f.length / Dirent.SIZE)).map fun k =>
    Dirent.decode ((f.drop (k * Dirent.SIZE)).take Dirent.SIZE)

/-- The contents of a directory with the given entries. -/
def encodeDir (l : List Dirent) : List UInt8 := (l.map Dirent.encode).flatten

@[simp]
lemma length_encodeDir (l : List Dirent) : (encodeDir l).length = l.length * Dirent.SIZE := by
  simp [encodeDir, List.length_flatten, Function.comp_def]

/-- Where an entry is found. -/
lemma encodeDir_entry (l : List Dirent) {k : Nat} (hk : k < l.length) (rest : List UInt8) :
    ((encodeDir l ++ rest).drop (k * Dirent.SIZE)).take Dirent.SIZE = l[k].encode := by
  induction l generalizing k with
  | nil => exact absurd hk (Nat.not_lt_zero k)
  | cons de l ih =>
    have hcons : encodeDir (de :: l) ++ rest = de.encode ++ (encodeDir l ++ rest) := by
      simp [encodeDir]
    rw [hcons]
    cases k with
    | zero =>
      rw [Nat.zero_mul, List.drop_zero, List.take_left' (Dirent.length_encode de)]
      rfl
    | succ k =>
      rw [Nat.succ_mul, Nat.add_comm, ← List.drop_drop, List.drop_left' (Dirent.length_encode de)]
      exact ih (Nat.lt_of_succ_lt_succ hk)

end Xv6.Fs
