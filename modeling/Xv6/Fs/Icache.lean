import Xv6.Fs.Inode
import Xv6.Kernel.State
import Xv6.Lib.Threads

/-!
# The inode cache

The cache of inodes in memory and what `exit` does to it: closing the files of a process and
dropping its current directory. A function is a program over atomic operations, each of which is
what the source does under one lock: `icache.lock` for the reference counts, the sleep-lock of an
inode for its copy, the lock of a buffer for the inode on disk, `ftable.lock` for the file table.
-/

namespace Xv6.Icache

open Fs Threads

/-- Entries in the inode cache. -/
def NINODE : Nat := 50

def ROOTINO : Nat := 1

/-- A `struct inode *`. -/
abbrev Entry := Fin NINODE

/-- A `struct file *`. -/
abbrev FilePtr := Fin NFILE

/-- `struct inode` -/
structure Inode where
  dev : Nat
  inum : Nat
  ref : Nat
  /-- The process that holds the sleep-lock. -/
  lock : Option Slot
  valid : Bool
  /-- The copy of the disk inode. -/
  copy : Dinode

/-- What the processes share. A reference is held by a file, as a current directory, or by a process
in the middle of a call; `held` lists the last. -/
structure Shared where
  inode : Entry → Inode
  /-- The disks as logged, by device. -/
  disk : Nat → Disk
  /-- The inode that a file of the file table refers to. -/
  file : FilePtr → Option Entry
  /-- The files that the descriptors of a process refer to. -/
  ofile : Slot → Multiset FilePtr
  cwd : Slot → Option Entry
  held : Slot → Multiset Entry

/-! ### Operations -/

inductive Op
  | acquiresleep (i : Entry)
  /-- The copy, if it is valid. -/
  | copy (i : Entry)
  /-- `r = ip->ref` -/
  | ref (i : Entry)
  /-- Assignments to the fields of the copy. -/
  | assign (i : Entry) (ip : Dinode)
  | iupdate (i : Entry)
  /-- `ip->valid = 0` -/
  | invalidate (i : Entry)
  | releasesleep (i : Entry)
  /-- `ip->ref--` -/
  | unref (i : Entry)
  /-- A descriptor is closed; the file gives up its reference if that was the last one. -/
  | closeFile
  /-- How many descriptors are open. -/
  | openCount
  | takeCwd
  /-- A new process gets the open files and the current directory. -/
  | fork

/-- What an operation answers. -/
def Op.Answer : Op → Type
  | .ref _ | .openCount => Nat
  | .takeCwd => Entry
  | .copy _ => Option Dinode
  | .closeFile => Option Entry
  | .acquiresleep _ | .assign _ _ | .iupdate _ | .invalidate _ | .releasesleep _ | .unref _
  | .fork => Unit

namespace Shared

variable (s : Shared)

def setInode (i : Entry) (x : Inode) : Shared := { s with inode := Function.update s.inode i x }

/-- The process has one more reference in its local variables. -/
def hold (p : Slot) (i : Entry) : Shared :=
  { s with held := Function.update s.held p (i ::ₘ s.held p) }

def drop (p : Slot) (i : Entry) : Shared :=
  { s with held := Function.update s.held p ((s.held p).erase i) }

/-- The last descriptor of a file takes the reference of the file with it. -/
def closeFile (p : Slot) (f : FilePtr) : Option Entry × Shared :=
  let s₁ := { s with ofile := Function.update s.ofile p ((s.ofile p).erase f) }
  if ∃ q, f ∈ s₁.ofile q then (none, s₁)
  else
    match s.file f with
    | none => (none, s₁)
    | some i => (some i, { s₁.hold p i with file := Function.update s.file f none })

/-- The process does not exist. -/
def NoProc (q : Slot) : Prop := s.cwd q = none ∧ s.ofile q = 0 ∧ s.held q = 0

instance (q : Slot) : Decidable (s.NoProc q) := inferInstanceAs (Decidable (_ ∧ _))

end Shared

/-- An operation by process `p`. The last argument resolves what the model leaves open: the file
or the new process that is taken. -/
def perform (sb : Superblock) (p : Slot) (e : Op) (x : Nat) (s : Shared) :
    Option (e.Answer × Shared) :=
  match e with
  | .acquiresleep i =>
    if (s.inode i).lock = none then some ((), s.setInode i { s.inode i with lock := some p })
    else none
  | .copy i => some (if (s.inode i).valid = true then some (s.inode i).copy else none, s)
  | .ref i => some ((s.inode i).ref, s)
  | .assign i ip => some ((), s.setInode i { s.inode i with copy := ip })
  | .iupdate i =>
    some ((), { s with
      disk := Function.update s.disk (s.inode i).dev
        ((s.disk (s.inode i).dev).putDinode sb (s.inode i).inum (s.inode i).copy) })
  | .invalidate i => some ((), s.setInode i { s.inode i with valid := false })
  | .releasesleep i =>
    if (s.inode i).lock = some p then some ((), s.setInode i { s.inode i with lock := none })
    else none
  | .unref i => some ((), (s.setInode i { s.inode i with ref := (s.inode i).ref - 1 }).drop p i)
  | .closeFile =>
    if hx : x < NFILE then
      if ⟨x, hx⟩ ∈ s.ofile p then some (s.closeFile p ⟨x, hx⟩) else none
    else none
  | .openCount => some ((s.ofile p).card, s)
  | .takeCwd =>
    match s.cwd p with
    | none => none
    | some i => some (i, { s.hold p i with cwd := Function.update s.cwd p none })
  | .fork =>
    if hx : x < NPROC then
      match s.cwd p with
      | none => none
      | some i =>
        if s.NoProc ⟨x, hx⟩ ∧ (⟨x, hx⟩ : Slot) ≠ p then
          some ((), { s.setInode i { s.inode i with ref := (s.inode i).ref + 1 } with
            cwd := Function.update s.cwd ⟨x, hx⟩ (some i)
            ofile := Function.update s.ofile ⟨x, hx⟩ (s.ofile p) })
        else none
    else none

/-- A program over these operations. -/
abbrev M := Prog Op Op.Answer

def acquiresleep (i : Entry) : M Unit := Prog.call (Op.acquiresleep i)

def copy (i : Entry) : M (Option Dinode) := Prog.call (Op.copy i)

def ref (i : Entry) : M Nat := Prog.call (Op.ref i)

def assign (i : Entry) (ip : Dinode) : M Unit := Prog.call (Op.assign i ip)

def iupdate (i : Entry) : M Unit := Prog.call (Op.iupdate i)

def invalidate (i : Entry) : M Unit := Prog.call (Op.invalidate i)

def releasesleep (i : Entry) : M Unit := Prog.call (Op.releasesleep i)

def unref (i : Entry) : M Unit := Prog.call (Op.unref i)

def closeFile : M (Option Entry) := Prog.call Op.closeFile

def openCount : M Nat := Prog.call Op.openCount

def takeCwd : M Entry := Prog.call Op.takeCwd

/-! ### Functions of `fs.c` -/

/-- The end of `itrunc`. -/
def itrunc (i : Entry) (ip : Dinode) : M Dinode := do
  let ip := { ip with size := 0, addrs := fun _ => 0 }
  assign i ip
  iupdate i
  return ip

/-- Free the inode, if it has no links and this is the only reference. -/
def ifree (i : Entry) (ip : Dinode) : M Unit :=
  if ip.nlink = 0 then do
    let r ← ref i
    if r = 1 then do
      let ip ← itrunc i ip
      assign i { ip with type := 0 }
      iupdate i
      invalidate i
    else pure ()
  else pure ()

/-- `iput` -/
def iput (i : Entry) : M Unit := do
  acquiresleep i
  let ip ← copy i
  ip.elim (pure ()) (ifree i)
  releasesleep i
  unref i

/-! ### System calls -/

/-- `fileclose` -/
def fileclose : M Unit := do
  let ip ← closeFile
  match ip with
  | none => return ()
  | some i => iput i

def closeFiles : Nat → M Unit
  | 0 => return ()
  | n + 1 => do
    fileclose
    closeFiles n

/-- `exit` -/
def exit : M Unit := do
  let n ← openCount
  closeFiles n
  let cwd ← takeCwd
  iput cwd

end Xv6.Icache
