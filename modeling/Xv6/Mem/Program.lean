import Xv6.Lib.Recorded
import Xv6.Mem.CopyOut

/-!
# The system call exec

All of `exec`: what it does to the memory and to the calling process, and, as a record, its calls of
the log and of the inode layer. The image is built by the functions of `Xv6.Mem.Exec`; here the
stack pointer is returned as well, and every jump to `bad` is there with what it has to undo.
-/

namespace Xv6.Program

open Recorded

/-- The calls of the log and of the inode layer. `namei` stands for a call that returns an inode. -/
inductive FsCall
  | beginOp
  | namei
  | ilock
  | iunlockput
  | endOp
  deriving DecidableEq

/-- What `exec` changes of the calling process: its address space, the registers `eip` and `esp` in
the trap frame, and its name. -/
structure Caller where
  pgdir : PageDir
  sz : Nat
  eip : Nat
  esp : Nat
  name : List UInt8

/-- Length of `name`. -/
def NAMESZ : Nat := 16

/-- The entry point in an ELF header. -/
def entryPoint (bs : List UInt8) : Nat := littleEndian bs 24 4

/-- The loop that looks for the last element of a path. -/
def lastElem : List UInt8 → List UInt8 → List UInt8
  | last, [] => last
  | last, b :: s => lastElem (if b = 47 then s else last) s

/-- `safestrcpy` of the string `t` to a buffer of `n` bytes that holds `s`. A string that fits is
followed by two zero bytes. -/
def safestrcpy (s t : List UInt8) (n : Nat) : List UInt8 :=
  let w := if t.length < n - 1 then t ++ [0, 0] else t.take (n - 1) ++ [0]
  w ++ s.drop w.length

/-- What `exec` reads from a regular file. -/
def ofFile (data : List UInt8) : Reads := fun _ _ => readi data

/-- The label `bad`: the new directory is freed if there is one, and the inode is released if `exec`
still holds it. -/
def bad (c : ShmField) (pgdir : Option PageDir) (ip : Bool) (u : Caller) (m : Mem) :
    Recorded Fault FsCall (Int × Caller × Mem) := do
  let m ← match pgdir with
    | some d => lift (freevm c d m)
    | none => pure m
  if ip then do
    tell .iunlockput
    tell .endOp
    pure (-1, u, m)
  else
    pure (-1, u, m)

/-- `exec` of a file, `none` if `namei` does not find it, by a process with shared page `c`. -/
def exec (c : ShmField) (path : List UInt8) (file : Option Reads) (argv : List (List UInt8))
    (u : Caller) (m : Mem) : Recorded Fault FsCall (Int × Caller × Mem) := do
  tell .beginOp
  match file with
  | none => do
    tell .endOp
    pure (-1, u, m)
  | some reads => do
    tell .namei
    tell .ilock
    match reads 0 0 0 ElfHdr.size with
    | none => bad c none true u m
    | some bs =>
      let elf := ElfHdr.parse bs
      if bs.length ≠ ElfHdr.size ∨ elf.magic ≠ ELF_MAGIC then
        bad c none true u m
      else do
        match ← lift (setupkvm c m) with
        | (none, m) => bad c none true u m
        | (some d, m) => do
          match ← lift (loadSegments c reads elf.phnum 0 elf.phoff 0 d m) with
          | (none, d, m) => bad c (some d) true u m
          | (some sz, d, m) => do
            tell .iunlockput
            tell .endOp
            match ← lift (allocStack c sz d m) with
            | (none, d, m) => bad c (some d) false u m
            | (some sz, d, m) => do
              match ← lift (pushStack d argv sz m) with
              | (none, m) => bad c (some d) false u m
              | (some esp, m) => do
                let m ← lift (freevm c u.pgdir m)
                pure (0, ⟨d, sz, entryPoint bs, esp, safestrcpy u.name (lastElem path path) NAMESZ⟩,
                  m)

end Xv6.Program
