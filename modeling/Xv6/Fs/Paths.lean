import Xv6.Fs.ByteFiles
import Xv6.Fs.Names
import Xv6.Fs.Icache

/-!
# Directories and paths

The functions of `fs.c` that look names up. They run without interruption here, on the one device
of the machine.
-/

namespace Xv6.Fs

open Icache (NINODE ROOTINO)

section

variable (sb : Superblock) (dev : Devsw)

/-- `if(readi(dp, (char*)&de, off, sizeof(de)) != sizeof(de)) panic(msg);` -/
def readDirent (msg : String) (d : Disk) (dp : Dinode) (off : Nat) :
    Except Fault (Dirent × Dinode × Disk) := do
  let (r, dp, d) ← readi sb dev d dp (UInt32.ofNat off) 16
  match r with
  | some bytes =>
    if bytes.length = Dirent.SIZE then return (Dirent.decode bytes, dp, d)
    else .error (.panic msg)
  | none => .error (.panic msg)

/-- The loop of `dirlookup`. It ends before `off` can overflow: behind the largest file `bmap`
panics. -/
def dirlookupLoop (name : List UInt8) :
    Nat → Disk → Dinode → (off : Nat) → Except Fault (Option (Nat × Nat) × Dinode × Disk)
  | 0, d, dp, _ => .ok (none, dp, d)
  | fuel + 1, d, dp, off =>
    if off < dp.size.toNat then do
      let (de, dp, d) ← readDirent sb dev "dirlookup read" d dp off
      if de.inum ≠ 0 ∧ namecmp name de.name = 0 then return (some (de.inum.toNat, off), dp, d)
      else dirlookupLoop name fuel d dp (off + Dirent.SIZE)
    else .ok (none, dp, d)

/-- `dirlookup`: the inode number and the offset of the entry, before `iget`. -/
def dirlookup (d : Disk) (dp : Dinode) (name : List UInt8) :
    Except Fault (Option (Nat × Nat) × Dinode × Disk) :=
  if dp.type ≠ T_DIR then .error (.panic "dirlookup not DIR")
  else dirlookupLoop sb dev name dp.size.toNat d dp 0

/-! ### References to inodes -/

/-- The file system with the references to the inodes in the cache, one element for each. Where in
the cache an inode is does not matter. -/
structure Core extends State where
  refs : Multiset Nat

namespace Core

variable (s : Core)

/-- The machine after booting. -/
def boot (d : Disk) : Core := ⟨State.boot d, 0⟩

/-- `iget`; an inode without references is not valid when it enters the cache. -/
def iget (i : Nat) : Except Fault Core :=
  if i ∈ s.refs then .ok { s with refs := i ::ₘ s.refs }
  else if s.refs.dedup.card < NINODE then
    .ok ⟨⟨s.disk, Function.update s.mem i none⟩, i ::ₘ s.refs⟩
  else .error (.panic "iget: no inodes")

def idup (i : Nat) : Core := { s with refs := i ::ₘ s.refs }

def ilock (i : Nat) : Except Fault (Dinode × Core) := do
  let (ip, t) ← s.toState.ilock sb i
  return (ip, ⟨t, s.refs⟩)

/-- `iput`, and `iunlockput` of an inode that is locked. -/
def iput (i : Nat) : Except Fault Core := do
  let t ← s.toState.iput sb i (s.refs.count i = 1)
  return ⟨t, s.refs.erase i⟩

/-- `dirlookup` in the directory `i`, locked, whose copy is `dp`. -/
def dirlookup (i : Nat) (dp : Dinode) (name : List UInt8) :
    Except Fault (Option (Nat × Nat) × Core) := do
  let (r, dp, d) ← Fs.dirlookup sb dev s.disk dp name
  let s : Core := ⟨⟨d, Function.update s.mem i (some dp)⟩, s.refs⟩
  match r with
  | none => return (none, s)
  | some (inum, off) => do
    let s ← s.iget inum
    return (some (inum, off), s)

/-! ### Paths -/

/-- The loop of `namex`; every round takes an element off the path. The result is the inode and
the buffer `name`. -/
def namexLoop (nameiparent : Bool) :
    Nat → Core → (i : Nat) → (path name : List UInt8) →
      Except Fault (Option (Nat × List UInt8) × Core)
  | 0, s, i, _, name => .ok (some (i, name), s)
  | fuel + 1, s, i, path, name =>
    match skipelem path with
    | none =>
      if nameiparent then do
        let s ← s.iput sb i
        return (none, s)
      else return (some (i, name), s)
    | some (name, path) => do
      let (ip, s) ← s.ilock sb i
      if ip.type ≠ T_DIR then do
        let s ← s.iput sb i
        return (none, s)
      else if nameiparent ∧ path = [] then return (some (i, name), s)
      else do
        let (next, s) ← s.dirlookup sb dev i ip name
        let s ← s.iput sb i
        match next with
        | none => return (none, s)
        | some (inum, _) => namexLoop nameiparent fuel s inum path name

/-- `namex`, for a process whose current directory is `cwd`. -/
def namex (cwd : Nat) (path : List UInt8) (nameiparent : Bool) :
    Except Fault (Option (Nat × List UInt8) × Core) := do
  let (i, s) ←
    if path.head? = some SLASH then do
      let s ← s.iget ROOTINO
      pure (ROOTINO, s)
    else pure (cwd, s.idup cwd)
  namexLoop sb dev nameiparent (path.length + 1) s i path []

def namei (cwd : Nat) (path : List UInt8) : Except Fault (Option Nat × Core) := do
  let (r, s) ← namex sb dev s cwd path false
  return (r.map Prod.fst, s)

/-- `nameiparent`: the directory, and the last element of the path. -/
def nameiparent (cwd : Nat) (path : List UInt8) :
    Except Fault (Option (Nat × List UInt8) × Core) := namex sb dev s cwd path true

end Core

end

end Xv6.Fs
