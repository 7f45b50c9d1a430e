import Xv6.Fs.Layout
import Xv6.Proc.Table

/-!
# Blocks and inodes

The part of `fs.c` that allocates blocks and inodes and that reads and writes the contents of an
inode. The functions work on the disk and on the in-memory copy of an inode whose lock is held; what
they do to the copy reaches the disk when they call `iupdate`, and not before.
-/

namespace Xv6.Fs

/-- File type of a directory. -/
def T_DIR : UInt16 := 1

def T_FILE : UInt16 := 2

def T_DEV : UInt16 := 3

/-! ### Blocks -/

def zeroBlock : Block := fun _ => 0

/-- `bzero`: zero a block. -/
def bzero (d : Disk) (b : Nat) : Disk := Function.update d b zeroBlock

/-- `balloc`: the first block whose bit is clear, marked and zeroed. The two loops go through the
bits in order. -/
def balloc (sb : Superblock) (d : Disk) : Except Fault (Nat × Disk) :=
  match (List.range sb.size).find? (fun b => !Disk.marked sb d b) with
  | some b => .ok (b, bzero (Disk.mark sb d b) b)
  | none => .error (.panic "balloc: out of blocks")

/-- `bfree`: clear the bit of a block. -/
def bfree (sb : Superblock) (d : Disk) (b : Nat) : Except Fault Disk :=
  if Disk.marked sb d b then .ok (Disk.unmark sb d b)
  else .error (.panic "freeing free block")

/-! ### Inodes -/

def zeroDinode : Dinode := ⟨0, 0, 0, 0, 0, fun _ => 0⟩

/-- `ialloc`: the first inode on disk that is free becomes one of the given type. -/
def ialloc (sb : Superblock) (d : Disk) (type : UInt16) : Except Fault (Nat × Disk) :=
  match (List.range sb.ninodes).find? (fun i => 1 ≤ i ∧ (Disk.dinode sb d i).type = 0) with
  | some i => .ok (i, Disk.putDinode sb d i { zeroDinode with type := type })
  | none => .error (.panic "ialloc: no inodes")

/-- `iupdate`: copy the in-memory inode to disk. -/
def iupdate (sb : Superblock) (d : Disk) (i : Nat) (ip : Dinode) : Disk := Disk.putDinode sb d i ip

/-- The slot of the indirect block. -/
def indirect : Fin (NDIRECT + 1) := Fin.last NDIRECT

def Dinode.setAddr (ip : Dinode) (k : Fin (NDIRECT + 1)) (b : Nat) : Dinode :=
  { ip with addrs := Function.update ip.addrs k (UInt32.ofNat b) }

/-- `if((addr = ip->addrs[k]) == 0) ip->addrs[k] = addr = balloc(ip->dev);` -/
def slot (sb : Superblock) (d : Disk) (ip : Dinode) (k : Fin (NDIRECT + 1)) :
    Except Fault (Nat × Dinode × Disk) :=
  if ip.addrs k = 0 then do
    let (b, d) ← balloc sb d
    return (b, ip.setAddr k b, d)
  else return ((ip.addrs k).toNat, ip, d)

/-- The entry `j` of the indirect block `x`, allocating the block it names if there is none. -/
def entry (sb : Superblock) (d : Disk) (x j : Nat) : Except Fault (Nat × Disk) :=
  if (d x).get j = 0 then do
    let (b, d) ← balloc sb d
    return (b, Function.update d x ((d x).set j b))
  else return ((d x).get j, d)

/-- `bmap`: the disk block of the `bn`-th block of the file, allocated if there is none. -/
def bmap (sb : Superblock) (d : Disk) (ip : Dinode) (bn : Nat) :
    Except Fault (Nat × Dinode × Disk) :=
  if h : bn < NDIRECT then
    slot sb d ip ⟨bn, Nat.lt_succ_of_lt h⟩
  else if bn - NDIRECT < NINDIRECT then do
    let (x, ip, d) ← slot sb d ip indirect
    let (b, d) ← entry sb d x (bn - NDIRECT)
    return (b, ip, d)
  else .error (.panic "bmap: out of range")

/-- Free the listed blocks; a zero is no block. -/
def freeAll (sb : Superblock) : Disk → List Nat → Except Fault Disk
  | d, [] => .ok d
  | d, b :: l =>
    if b = 0 then freeAll sb d l
    else do
      let d ← bfree sb d b
      freeAll sb d l

/-- The blocks named by the direct slots. -/
def Dinode.direct (ip : Dinode) : List Nat :=
  (List.finRange NDIRECT).map fun k => (ip.addrs k.castSucc).toNat

/-- The blocks named by the entries of an indirect block. -/
def entries (d : Disk) (x : Nat) : List Nat := (List.range NINDIRECT).map fun j => (d x).get j

/-- `itrunc`: discard the contents. -/
def itrunc (sb : Superblock) (d : Disk) (i : Nat) (ip : Dinode) : Except Fault (Dinode × Disk) := do
  let d ← freeAll sb d ip.direct
  let d ←
    if ip.addrs indirect = 0 then pure d
    else do
      let d ← freeAll sb d (entries d (ip.addrs indirect).toNat)
      bfree sb d (ip.addrs indirect).toNat
  let ip := { ip with size := 0, addrs := fun _ => 0 }
  return (ip, iupdate sb d i ip)

/-! ### Contents -/

/-- Byte `i` of a block. -/
def byteAt (b : Block) (i : Nat) : UInt8 := UInt8.ofNat (b.get (i / 4) / 256 ^ (i % 4))

def setByte (b : Block) (i : Nat) (v : UInt8) : Block :=
  let w := b.get (i / 4)
  let p := 256 ^ (i % 4)
  b.set (i / 4) (w / (p * 256) * (p * 256) + v.toNat * p + w % p)

/-- `memmove(bp->data + o, src, m)` -/
def putBytes (b : Block) (o : Nat) (src : List UInt8) : Block :=
  ((List.range src.length).zip src).foldl (fun b x => setByte b (o + x.1) x.2) b

/-- The loop of `readi`, with `rem` bytes left to read; every round reads at least one. -/
def readLoop (sb : Superblock) :
    Nat → Disk → Dinode → (off rem : Nat) → Except Fault (List UInt8 × Dinode × Disk)
  | 0, d, ip, _, _ => .ok ([], ip, d)
  | fuel + 1, d, ip, off, rem =>
    if rem = 0 then .ok ([], ip, d)
    else do
      let (b, ip, d) ← bmap sb d ip (off / BSIZE)
      let m := min rem (BSIZE - off % BSIZE)
      let bytes := (List.range m).map fun k => byteAt (d b) (off % BSIZE + k)
      let (rest, ip, d) ← readLoop sb fuel d ip (off + m) (rem - m)
      return (bytes ++ rest, ip, d)

/-- What the drivers in `devsw` return for a device: what is read, and how many bytes are taken;
`none` is -1. They do not touch the file system. -/
structure Devsw where
  read : UInt16 → UInt32 → Option (List UInt8)
  write : UInt16 → List UInt8 → Option Nat

/-- `readi`; the result `none` is -1. -/
def readi (sb : Superblock) (dev : Devsw) (d : Disk) (ip : Dinode) (off n : UInt32) :
    Except Fault (Option (List UInt8) × Dinode × Disk) :=
  if ip.type = T_DEV then .ok (dev.read ip.major n, ip, d)
  else if ip.size < off ∨ off + n < off then .ok (none, ip, d)
  else do
    let n := if ip.size < off + n then ip.size - off else n
    let (bytes, ip, d) ← readLoop sb n.toNat d ip off.toNat n.toNat
    return (some bytes, ip, d)

/-- The loop of `writei`, with the bytes `src` left to write. -/
def writeLoop (sb : Superblock) :
    Nat → Disk → Dinode → (off : Nat) → (src : List UInt8) → Except Fault (Dinode × Disk)
  | 0, d, ip, _, _ => .ok (ip, d)
  | fuel + 1, d, ip, off, src =>
    if src = [] then .ok (ip, d)
    else do
      let (b, ip, d) ← bmap sb d ip (off / BSIZE)
      let m := min src.length (BSIZE - off % BSIZE)
      let d := Function.update d b (putBytes (d b) (off % BSIZE) (src.take m))
      writeLoop sb fuel d ip (off + m) (src.drop m)

/-- `writei` of the bytes `src` (fewer than 2^32); the result `none` is -1. -/
def writei (sb : Superblock) (dev : Devsw) (d : Disk) (i : Nat) (ip : Dinode) (off : UInt32)
    (src : List UInt8) : Except Fault (Option Nat × Dinode × Disk) :=
  let n := UInt32.ofNat src.length
  if ip.type = T_DEV then .ok (dev.write ip.major src, ip, d)
  else if ip.size < off ∨ off + n < off then .ok (none, ip, d)
  else if UInt32.ofNat (MAXFILE * BSIZE) < off + n then .ok (none, ip, d)
  else do
    let (ip, d) ← writeLoop sb src.length d ip off.toNat src
    if 0 < n ∧ ip.size < off + n then
      let ip := { ip with size := off + n }
      return (some src.length, ip, iupdate sb d i ip)
    else return (some src.length, ip, d)

end Xv6.Fs
