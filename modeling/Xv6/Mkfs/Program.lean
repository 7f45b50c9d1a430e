import Xv6.Fs.Names
import Xv6.Fs.Icache
import Xv6.Bio.Cache

/-!
# `mkfs`

The program that makes the first image of the disk. It does not share code with the kernel: blocks
and inodes are handed out by two counters, and the bitmap is written at the end. On the disk the
words are stored least significant byte first, which is what `xshort` and `xint` are for; the blocks
of the model hold their values.
-/

namespace Xv6.Mkfs

open Fs
open Icache (ROOTINO)

def NINODES : Nat := 200

def nbitmap : Nat := FSSIZE / (BSIZE * 8) + 1

def ninodeblocks : Nat := NINODES / IPB + 1

def nlog : Nat := LOGSIZE

/-- Number of meta blocks (boot, sb, nlog, inode, bitmap). -/
def nmeta : Nat := 2 + nlog + ninodeblocks + nbitmap

/-- The superblock that the program fills in. -/
abbrev sb : Superblock := mkfsSuperblock

/-- How the program ends when it does not reach `exit(0)`. -/
inductive Failure
  /-- `exit(1)` -/
  | exit
  /-- A failed assertion. -/
  | abort
  deriving DecidableEq

/-- The image, which is a file of `nsect` sectors and reads as zeros where nothing was written, and
the two counters. -/
structure State where
  img : Disk
  nsect : Nat
  freeinode : Nat
  freeblock : Nat

namespace State

variable (s : State)

/-- `rsect`: reading behind the end of the file is an error. -/
def rsect (sec : Nat) : Except Failure Block :=
  if sec < s.nsect then .ok (s.img sec) else .error .exit

def wsect (sec : Nat) (b : Block) : State :=
  { s with img := Function.update s.img sec b, nsect := max s.nsect (sec + 1) }

/-- `freeblock++` -/
def bump : State := { s with freeblock := s.freeblock + 1 }

/-! ### Inodes -/

def winode (inum : Nat) (di : Dinode) : Except Failure State := do
  let bn := sb.iblock inum
  let b ← s.rsect bn
  return s.wsect bn (di.writeTo (inum % IPB) b)

def rinode (inum : Nat) : Except Failure Dinode := do
  let b ← s.rsect (sb.iblock inum)
  return Dinode.ofWords fun k => b.get (16 * (inum % IPB) + k)

def ialloc (type : UInt16) : Except Failure (Nat × State) := do
  let inum := s.freeinode
  let s : State := { s with freeinode := s.freeinode + 1 }
  let s ← s.winode inum { zeroDinode with type := type, nlink := 1 }
  return (inum, s)

/-- `if(xint(din.addrs[k]) == 0) din.addrs[k] = xint(freeblock++);` -/
def slot (din : Dinode) (k : Fin (NDIRECT + 1)) : Dinode × State :=
  if din.addrs k = 0 then (din.setAddr k s.freeblock, s.bump) else (din, s)

/-- The entry `j` of the indirect block `x`. -/
def entry (x j : Nat) : Except Failure (Nat × State) := do
  let ind ← s.rsect x
  if ind.get j = 0 then
    let ind := ind.set j s.freeblock
    return (ind.get j, s.bump.wsect x ind)
  else return (ind.get j, s)

/-- The sector of the block `fbn` of a file. -/
def block (din : Dinode) (fbn : Nat) : Except Failure (Nat × Dinode × State) :=
  if h : fbn < NDIRECT then
    let (din, s) := s.slot din ⟨fbn, Nat.lt_succ_of_lt h⟩
    .ok ((din.addrs ⟨fbn, Nat.lt_succ_of_lt h⟩).toNat, din, s)
  else do
    let (din, s) := s.slot din indirect
    let (x, s) ← s.entry (din.addrs indirect).toNat (fbn - NDIRECT)
    return (x, din, s)

end State

/-- The loop of `iappend`, with the bytes `p` left; every round writes at least one. -/
def iappendLoop :
    Nat → State → Dinode → (off : Nat) → (p : List UInt8) → Except Failure (Nat × Dinode × State)
  | 0, s, din, off, _ => .ok (off, din, s)
  | fuel + 1, s, din, off, p =>
    if p = [] then .ok (off, din, s)
    else
      let fbn := off / BSIZE
      if fbn < MAXFILE then do
        let (x, din, s) ← s.block din fbn
        let n1 := min p.length ((fbn + 1) * BSIZE - off)
        let b ← s.rsect x
        let s := s.wsect x (putBytes b (off - fbn * BSIZE) (p.take n1))
        iappendLoop fuel s din (off + n1) (p.drop n1)
      else .error .abort

namespace State

variable (s : State)

def iappend (inum : Nat) (p : List UInt8) : Except Failure State := do
  let din ← s.rinode inum
  let (off, din, s) ← iappendLoop p.length s din din.size.toNat p
  s.winode inum { din with size := UInt32.ofNat off }

end State

/-! ### The bitmap -/

/-- A block whose first `used` bits are set. -/
def bitmap (used : Nat) : Block :=
  (List.range used).foldl (fun b i => b.set (i / 32) (b.get (i / 32) ||| 2 ^ (i % 32))) zeroBlock

def State.balloc (s : State) (used : Nat) : Except Failure State :=
  if used < BSIZE * 8 then .ok (s.wsect sb.bmapstart (bitmap used))
  else .error .abort

/-! ### The whole program -/

/-- A file on the command line that could be opened, and what the calls of `read` return until one
returns 0. -/
structure Input where
  name : List UInt8
  reads : List (List UInt8)
  name_ne : name ≠ []
  name_str : 0 ∉ name
  reads_len : ∀ c ∈ reads, 0 < c.length ∧ c.length ≤ BSIZE

/-- `'_'` -/
def UNDERSCORE : UInt8 := 95

namespace Input

variable (f : Input)

/-- The name under which the file goes into the image. -/
def stored : List UInt8 := if f.name.head? = some UNDERSCORE then f.name.tail else f.name

def bytes : List UInt8 := f.reads.flatten

end Input

/-- An entry filled by `bzero`, an assignment to `inum` and `strncpy`. -/
def dirent (inum : Nat) (name : List UInt8) : Dirent :=
  ⟨UInt16.ofNat inum, strncpy DIRSIZ name, length_strncpy DIRSIZ name⟩

/-- `"."` -/
def DOT : List UInt8 := [46]

/-- `".."` -/
def DOTDOT : List UInt8 := [46, 46]

/-- The words of `struct superblock`, in the block where `readsb` looks for them. -/
def superblock : Block := fun k =>
  [FSSIZE, FSSIZE - nmeta, NINODES, nlog, 2, 2 + nlog, 2 + nlog + ninodeblocks].getD k 0

/-- The image after `for(i = 0; i < FSSIZE; i++) wsect(i, zeroes);` -/
def zeroed : State :=
  (List.range FSSIZE).foldl (fun s i => s.wsect i zeroBlock) ⟨fun _ => zeroBlock, 0, 1, nmeta⟩

/-- One round of the loop over the files. -/
def addFile (s : State) (f : Input) : Except Failure State :=
  if SLASH ∈ f.name then .error .abort
  else do
    let (inum, s) ← s.ialloc T_FILE
    let s ← s.iappend ROOTINO (dirent inum f.stored).encode
    f.reads.foldlM (fun s buf => s.iappend inum buf) s

/-- Fix size of root inode dir. -/
def fixRoot (s : State) : Except Failure State := do
  let din ← s.rinode ROOTINO
  let off := (din.size.toNat / BSIZE + 1) * BSIZE
  s.winode ROOTINO { din with size := UInt32.ofNat off }

def main (files : List Input) : Except Failure State := do
  let s := zeroed.wsect 1 superblock
  let (rootino, s) ← s.ialloc T_DIR
  if rootino = ROOTINO then do
    let s ← s.iappend rootino (dirent rootino DOT).encode
    let s ← s.iappend rootino (dirent rootino DOTDOT).encode
    let s ← files.foldlM addFile s
    let s ← fixRoot s
    s.balloc s.freeblock
  else .error .abort

end Xv6.Mkfs
