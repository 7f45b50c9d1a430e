import Xv6.Mem.Exec

/-!
# The kernel

The process table with the address spaces of the processes, the table of open files, and physical
memory, and the system calls that change them, from `proc.c`, `sysproc.c`, `vm.c`, `exec.c`, `file.c`,
`pipe.c` and `sysfile.c`. A system call is one step: the states of a run are those between system
calls. What a system call reads from user memory (its arguments) is given with the step, and what it
writes there is left out.
-/

namespace Xv6

/-- Open files per process. -/
def NOFILE : Nat := 16

/-- Open files per system. -/
def NFILE : Nat := 100

inductive FileType
  | none | pipe | inode
  deriving DecidableEq

/-- `struct file`; `pipe` is the page that holds the pipe. -/
structure File where
  type : FileType
  ref : Nat
  readable : Bool
  writable : Bool
  pipe : Nat

/-- The ends of a pipe that are open. -/
structure Pipe where
  readopen : Bool
  writeopen : Bool

/-- The part of `struct proc` that concerns memory and files. -/
structure Mm where
  sz : Nat
  pgdir : Option PageDir
  kstack : Option Nat
  ofile : Fin NOFILE → Option (Fin NFILE)
  shm : ShmField

/-- The state of the kernel. `pipe x` is the `struct pipe` in page `x`; a page that holds no pipe has
both ends closed. -/
structure Kernel where
  table : PTable
  mm : Slot → Mm
  initproc : Slot
  mem : Mem
  kpgdir : PageDir
  file : Fin NFILE → File
  pipe : Nat → Pipe

namespace Kernel

def setMm (k : Kernel) (p : Slot) (u : Mm) : Kernel := { k with mm := Function.update k.mm p u }

def setFile (k : Kernel) (f : Fin NFILE) (e : File) : Kernel :=
  { k with file := Function.update k.file f e }

def setProc (k : Kernel) (p : Slot) (e : Proc) : Kernel :=
  { k with table := Function.update k.table p e }

/-- The directory of a process. -/
def dir (k : Kernel) (p : Slot) : Except Fault PageDir :=
  match (k.mm p).pgdir with
  | some d => .ok d
  | none => .error .nullDeref

/-- The directory of a process, and memory, have changed. -/
def setDir (k : Kernel) (p : Slot) (d : PageDir) (m : Mem) : Kernel :=
  { k.setMm p { k.mm p with pgdir := some d } with mem := m }

lemma setMm_mm (k : Kernel) (p q : Slot) (u : Mm) :
    (k.setMm p u).mm q = if q = p then u else k.mm q := Function.update_apply ..

lemma setFile_file (k : Kernel) (f g : Fin NFILE) (e : File) :
    (k.setFile f e).file g = if g = f then e else k.file g := Function.update_apply ..

/-! ### Files and pipes -/

def filealloc (k : Kernel) : Option (Fin NFILE) × Kernel :=
  match (List.finRange NFILE).find? (fun f => (k.file f).ref = 0) with
  | some f => (some f, k.setFile f { k.file f with ref := 1 })
  | none => (none, k)

def filedup (f : Fin NFILE) (k : Kernel) : Except Fault Kernel :=
  if (k.file f).ref < 1 then
    .error (.panic "filedup")
  else
    .ok (k.setFile f { k.file f with ref := (k.file f).ref + 1 })

/-- The channels `&p->nread` and `&p->nwrite` of a pipe. -/
def nreadChan (x : Nat) : Chan := .other (x * PGSIZE + 564)

def nwriteChan (x : Nat) : Chan := .other (x * PGSIZE + 568)

/-- The write end of the pipe is closed, or the read end. -/
def closeEnd (e : Pipe) (writable : Bool) : Pipe :=
  if writable then { e with writeopen := false } else { e with readopen := false }

def pipeclose (x : Nat) (writable : Bool) (k : Kernel) : Except Fault Kernel :=
  let e := closeEnd (k.pipe x) writable
  let c := if writable then nreadChan x else nwriteChan x
  let k := { k with pipe := Function.update k.pipe x e, table := wakeup1 (some c) k.table }
  if e.readopen = false ∧ e.writeopen = false then do
    let m ← k.mem.kfree x
    .ok { k with mem := m }
  else
    .ok k

def fileclose (f : Fin NFILE) (k : Kernel) : Except Fault Kernel :=
  let ff := k.file f
  if ff.ref < 1 then
    .error (.panic "fileclose")
  else if 0 < ff.ref - 1 then
    .ok (k.setFile f { ff with ref := ff.ref - 1 })
  else
    let k := k.setFile f { ff with ref := 0, type := .none }
    if ff.type = .pipe then pipeclose ff.pipe ff.writable k else .ok k

/-- `pipealloc`: the file for the read end and the one for the write end. -/
def pipealloc (k : Kernel) : Except Fault (Option (Fin NFILE × Fin NFILE) × Kernel) :=
  match k.filealloc with
  | (none, k) => .ok (none, k)
  | (some f₀, k) =>
    match k.filealloc with
    | (none, k) => do
      let k ← fileclose f₀ k
      .ok (none, k)
    | (some f₁, k) =>
      match k.mem.kalloc with
      | (none, m) => do
        let k ← fileclose f₀ { k with mem := m }
        let k ← fileclose f₁ k
        .ok (none, k)
      | (some y, m) =>
        let k := { k with mem := m, pipe := Function.update k.pipe y ⟨true, true⟩ }
        let k := k.setFile f₀
          { k.file f₀ with type := .pipe, readable := true, writable := false, pipe := y }
        let k := k.setFile f₁
          { k.file f₁ with type := .pipe, readable := false, writable := true, pipe := y }
        .ok (some (f₀, f₁), k)

def fdalloc (p : Slot) (f : Fin NFILE) (k : Kernel) : Option (Fin NOFILE) × Kernel :=
  match (List.finRange NOFILE).find? (fun fd => ((k.mm p).ofile fd).isNone) with
  | some fd => (some fd, k.setMm p { k.mm p with ofile := Function.update (k.mm p).ofile fd (some f) })
  | none => (none, k)

/-- `sys_pipe`, once its argument has been checked. -/
def sysPipe (p : Slot) (k : Kernel) : Except Fault (Int × Kernel) := do
  match ← k.pipealloc with
  | (none, k) => .ok (-1, k)
  | (some (rf, wf), k) =>
    match k.fdalloc p rf with
    | (none, k) => do
      let k ← fileclose rf k
      let k ← fileclose wf k
      .ok (-1, k)
    | (some fd₀, k) =>
      match k.fdalloc p wf with
      | (none, k) => do
        let k := k.setMm p { k.mm p with ofile := Function.update (k.mm p).ofile fd₀ none }
        let k ← fileclose rf k
        let k ← fileclose wf k
        .ok (-1, k)
      | (some _, k) => .ok (0, k)

/-- The end of `sys_open`, once the inode has been found. -/
def sysOpen (p : Slot) (readable writable : Bool) (k : Kernel) : Except Fault (Int × Kernel) :=
  match k.filealloc with
  | (none, k) => .ok (-1, k)
  | (some f, k) =>
    match k.fdalloc p f with
    | (none, k) => do
      let k ← fileclose f k
      .ok (-1, k)
    | (some fd, k) =>
      .ok (fd.val, k.setFile f { k.file f with type := .inode, readable, writable })

def sysDup (p : Slot) (fd : Fin NOFILE) (k : Kernel) : Except Fault (Int × Kernel) :=
  match (k.mm p).ofile fd with
  | none => .ok (-1, k)
  | some f =>
    match k.fdalloc p f with
    | (none, k) => .ok (-1, k)
    | (some fd', k) => do
      let k ← filedup f k
      .ok (fd'.val, k)

def sysClose (p : Slot) (fd : Fin NOFILE) (k : Kernel) : Except Fault (Int × Kernel) :=
  match (k.mm p).ofile fd with
  | none => .ok (-1, k)
  | some f => do
    let k ← fileclose f (k.setMm p { k.mm p with ofile := Function.update (k.mm p).ofile fd none })
    .ok (0, k)

/-! ### Processes -/

/-- The loop of `fork` that gives the child `q` the open files of `p`. -/
def dupFiles (p q : Slot) : List (Fin NOFILE) → Kernel → Except Fault Kernel
  | [], k => .ok k
  | fd :: l, k =>
    match (k.mm p).ofile fd with
    | none => dupFiles p q l k
    | some f => do
      let k ← filedup f k
      dupFiles p q l
        (k.setMm q { k.mm q with ofile := Function.update (k.mm q).ofile fd (some f) })

def fork (p : Slot) (k : Kernel) : Except Fault (Int × Kernel) :=
  match allocproc k.table with
  | .error e => .error e
  | .ok (none, _) => .ok (-1, k)
  | .ok (some q, t) =>
    match k.mem.kalloc with
    | (none, m) =>
      .ok (-1, { (k.setMm q { k.mm q with kstack := none }).setProc q { t q with state := .unused } with
        mem := m })
    | (some y, m) => do
      let d ← k.dir p
      match ← copyuvm (k.mm p).shm d m with
      | (none, m) => do
        let m ← m.kfree y
        let u := { k.mm q with kstack := none, pgdir := none, shm := ⟨none, 0⟩ }
        .ok (-1, { (k.setMm q u).setProc q { t q with state := .unused } with mem := m })
      | (some nd, m) => do
        let u := { k.mm q with
          kstack := some y, pgdir := some nd, sz := (k.mm p).sz, shm := (k.mm p).shm }
        let k ← dupFiles p q (List.finRange NOFILE) { k.setMm q u with mem := m }
        .ok ((t q).pid, k.setProc q { t q with parent := some p, state := .runnable })

/-- The loop of `exit` over the open files. -/
def closeFiles (p : Slot) : List (Fin NOFILE) → Kernel → Except Fault Kernel
  | [], k => .ok k
  | fd :: l, k =>
    match (k.mm p).ofile fd with
    | none => closeFiles p l k
    | some f => do
      let k ← fileclose f k
      closeFiles p l
        (k.setMm p { k.mm p with ofile := Function.update (k.mm p).ofile fd none })

def exit (p : Slot) (k : Kernel) : Except Fault (Int × Kernel) :=
  if p = k.initproc then
    .error (.panic "init exiting")
  else do
    let k ← closeFiles p (List.finRange NOFILE) k
    .ok (0, { k with table := exitTable k.initproc p k.table })

/-- One pass of `wait`: it returns, or goes to sleep. -/
def wait (p : Slot) (k : Kernel) : Except Fault (Int × Kernel) :=
  match waitScan k.table p with
  | .noChildren => .ok (-1, k)
  | .block => .ok (0, { k with table := sleepOn (.proc p) p k.table })
  | .reaped z =>
    match (k.mm z).kstack, (k.mm z).pgdir with
    | none, _ => .error (.panic "kfree")
    | some _, none => .error (.panic "freevm: no pgdir")
    | some y, some d => do
      let m ← k.mem.kfree y
      let m ← freevm (k.mm p).shm d m
      .ok ((k.table z).pid,
        { k.setMm z { k.mm z with kstack := none } with table := reapSlot z k.table, mem := m })

/-- The scheduler switches to a process. -/
def run (p : Slot) (k : Kernel) : Except Fault (Int × Kernel) :=
  match (k.mm p).kstack, (k.mm p).pgdir with
  | none, _ => .error (.panic "switchuvm: no kstack")
  | some _, none => .error (.panic "switchuvm: no pgdir")
  | some _, some _ => .ok (0, k.setProc p { k.table p with state := .running })

/-! ### Address spaces -/

/-- `exec`; `file` gives what it reads, `none` if `namei` finds no file. -/
def exec (p : Slot) (file : Option Reads) (argv : List (List UInt8)) (k : Kernel) :
    Except Fault (Int × Kernel) :=
  match file with
  | none => .ok (-1, k)
  | some reads => do
    match ← execImage (k.mm p).shm reads argv k.mem with
    | (none, m) => .ok (-1, { k with mem := m })
    | (some (nd, sz), m) => do
      let d ← k.dir p
      let m ← freevm (k.mm p).shm d m
      .ok (0, { k.setMm p { k.mm p with pgdir := some nd, sz := sz } with mem := m })

/-- The size that `growproc` asks for, in 32 bits. -/
def newSize (sz : Nat) (n : Int32) : Nat := ((sz + n.toInt) % 2 ^ 32).toNat

def growproc (p : Slot) (n : Int32) (k : Kernel) : Except Fault (Int × Kernel) := do
  let d ← k.dir p
  let sz := (k.mm p).sz
  if 0 < n.toInt then do
    let (sz', d, m) ← allocuvm (k.mm p).shm d sz (newSize sz n) k.mem
    if sz' = 0 then
      .ok (-1, k.setDir p d m)
    else
      .ok (0, { k.setMm p { k.mm p with pgdir := some d, sz := sz' } with mem := m })
  else if n.toInt < 0 then do
    let (sz', d, m) ← deallocuvm (k.mm p).shm d sz (newSize sz n) k.mem
    if sz' = 0 then
      .ok (-1, k.setDir p d m)
    else
      .ok (0, { k.setMm p { k.mm p with pgdir := some d, sz := sz' } with mem := m })
  else
    .ok (0, k)

/-- `sys_sbrk` returns the old size, or -1 if `growproc` fails. -/
def sbrk (p : Slot) (n : Int32) (k : Kernel) : Except Fault (Int × Kernel) := do
  let (r, k') ← growproc p n k
  .ok (if r < 0 then -1 else ((k.mm p).sz : Int), k')

def mmap (p : Slot) (start : UInt32) (n : Int32) (k : Kernel) : Except Fault (Int × Kernel) :=
  if RangeOk start.toNat n.toInt then do
    let d ← k.dir p
    let (ok, d, m) ←
      mmapPages (rangePages start.toNat n.toInt.toNat) (start.toNat / PGSIZE) d k.mem
    .ok (if ok then 0 else -1, k.setDir p d m)
  else
    .ok (-1, k)

/-- `sys_munmap`; on success the source returns no value, here 0. -/
def munmap (p : Slot) (start : UInt32) (n : Int32) (k : Kernel) : Except Fault (Int × Kernel) :=
  if RangeOk start.toNat n.toInt then do
    let d ← k.dir p
    let (ok, d, m) ←
      munmapPages (rangePages start.toNat n.toInt.toNat) (start.toNat / PGSIZE) d k.mem
    .ok (if ok then 0 else -1, k.setDir p d m)
  else
    .ok (-1, k)

/-- A page fault at an address; a process whose fault cannot be handled exits. -/
def fault (p : Slot) (addr : UInt32) (k : Kernel) : Except Fault (Int × Kernel) := do
  let d ← k.dir p
  let (ok, d, m) ← pageFault d (addr.toNat / PGSIZE) k.mem
  if ok then .ok (0, k.setDir p d m) else exit p (k.setDir p d m)

/-- `sys_shm_open`: the address of the shared page, or 0. -/
def shmOpen (p : Slot) (k : Kernel) : Except Fault (Int × Kernel) :=
  if (k.mm p).shm.va ≠ 0 then
    .ok (((k.mm p).shm.va * PGSIZE : Nat), k)
  else
    match k.mem.kalloc with
    | (none, _) => .ok (0, k)
    | (some y, m) => do
      let d ← k.dir p
      let (v, d, m) := mapLastPage y ⟨true, true⟩ (List.range 512).reverse d m
      if v = 0 then
        .ok (0, k.setDir p d m)
      else
        match m.shmAdd y with
        | (none, m) => .ok (0, k.setDir p d m)
        | (some i, m) =>
          .ok ((v * PGSIZE : Nat),
            { k.setMm p { k.mm p with pgdir := some d, shm := ⟨some i, v⟩ } with mem := m })

def shmGet (p : Slot) (k : Kernel) : Except Fault (Int × Kernel) :=
  .ok (((k.mm p).shm.va * PGSIZE : Nat), k)

/-- `sys_shm_close`; on success the source returns no value, here 0. -/
def shmClose (p : Slot) (k : Kernel) : Except Fault (Int × Kernel) :=
  if (k.mm p).shm.va = 0 then
    .ok (-1, k)
  else do
    let d ← k.dir p
    match d.walk (k.mm p).shm.va with
    | none => .error .nullDeref
    | some e => do
      let (found, m) ← k.mem.shmRemove e.ppn
      if found then
        .ok (0, { k.setMm p
          { k.mm p with pgdir := some (d.set (k.mm p).shm.va 0), shm := ⟨none, 0⟩ } with mem := m })
      else
        .ok (-1, { k with mem := m })

/-! ### Steps -/

inductive Action
  | run (p : Slot)
  | yield (p : Slot)
  | sleep (p : Slot) (addr : Nat)
  | wakeup (addr : Nat)
  | kill (pid : Int)
  | fork (p : Slot)
  | exit (p : Slot)
  | wait (p : Slot)
  | exec (p : Slot) (file : Option Reads) (argv : List (List UInt8))
  | sbrk (p : Slot) (n : Int32)
  | mmap (p : Slot) (start : UInt32) (n : Int32)
  | munmap (p : Slot) (start : UInt32) (n : Int32)
  | fault (p : Slot) (addr : UInt32)
  | shmOpen (p : Slot)
  | shmGet (p : Slot)
  | shmClose (p : Slot)
  | pipe (p : Slot)
  | open (p : Slot) (readable writable : Bool)
  | dup (p : Slot) (fd : Fin NOFILE)
  | close (p : Slot) (fd : Fin NOFILE)

/-- The result of an action and the state it leads to. -/
def perform (k : Kernel) : Action → Except Fault (Int × Kernel)
  | .run p => run p k
  | .yield p => .ok (0, k.setProc p { k.table p with state := .runnable })
  | .sleep p addr => .ok (0, { k with table := sleepOn (.other addr) p k.table })
  | .wakeup addr => .ok (0, { k with table := wakeup1 (some (.other addr)) k.table })
  | .kill pid =>
    .ok (if (kill pid k.table).1.isSome then 0 else -1, { k with table := (kill pid k.table).2 })
  | .fork p => fork p k
  | .exit p => exit p k
  | .wait p => wait p k
  | .exec p file argv => exec p file argv k
  | .sbrk p n => sbrk p n k
  | .mmap p start n => mmap p start n k
  | .munmap p start n => munmap p start n k
  | .fault p addr => fault p addr k
  | .shmOpen p => shmOpen p k
  | .shmGet p => shmGet p k
  | .shmClose p => shmClose p k
  | .pipe p => sysPipe p k
  | .open p readable writable => sysOpen p readable writable k
  | .dup p fd => sysDup p fd k
  | .close p fd => sysClose p fd k

/-- The process that takes the action and must be RUNNING for it. -/
def Action.caller : Action → Option Slot
  | .run _ | .wakeup _ | .kill _ => none
  | .yield p | .sleep p _ | .fork p | .exit p | .wait p | .exec p _ _ | .sbrk p _ | .mmap p _ _
  | .munmap p _ _ | .fault p _ | .shmOpen p | .shmGet p | .shmClose p | .pipe p | .open p _ _
  | .dup p _ | .close p _ => some p

/-- A RUNNING process makes its system calls; a RUNNABLE one may be run. -/
def Enabled (k : Kernel) (a : Action) : Prop :=
  (∀ p, a.caller = some p → (k.table p).state = .running) ∧
    ∀ p, a = .run p → (k.table p).state = .runnable

/-- A step of a run in which only the actions `ops` are taken. A fault is not a step: it ends the
run. -/
def Step (ops : Action → Prop) (k : Kernel) (a : Action) (k' : Kernel) : Prop :=
  ops a ∧ k.Enabled a ∧ ∃ r, k.perform a = .ok (r, k')

/-- The actions of the scheduler. -/
def Action.Scheduling : Action → Prop
  | .run _ | .yield _ | .sleep _ _ | .wakeup _ | .kill _ => True
  | _ => False

/-! ### Boot -/

/-- `freerange` of a number of pages from page `lo` on. -/
def freerange : Nat → Nat → Mem → Except Fault Mem
  | 0, _, m => .ok m
  | n + 1, lo, m => do
    let m ← m.kfree lo
    freerange n (lo + 1) m

/-- `startothers` takes a stack for every other CPU. -/
def startothers : Nat → Mem → Except Fault Mem
  | 0, m => .ok m
  | n + 1, m =>
    match m.kalloc with
    | (none, _) => .error .nullDeref
    | (some _, m) => startothers n m

/-- The first page that `kinit1` leaves to `kinit2`: 4 MB. -/
def kinitSplit : Nat := 4 * 1024 * 1024 / PGSIZE

/-- The kernel with one process, in slot `p`, whose kernel stack is `y` and whose directory is `d`. -/
def firstProcess (p : Slot) (t : PTable) (y : Nat) (d : PageDir) (kpgdir : PageDir) (m : Mem) :
    Kernel where
  table := Function.update t p { t p with state := .runnable }
  mm := Function.update (fun _ => ⟨0, none, none, fun _ => none, ⟨none, 0⟩⟩) p
    ⟨PGSIZE, some d, some y, fun _ => none, ⟨none, 0⟩⟩
  initproc := p
  mem := m
  kpgdir := kpgdir
  file := fun _ => ⟨.none, 0, false, false, 0⟩
  pipe := fun _ => ⟨false, false⟩

/-- `userinit`, with all slots of the process table unused. -/
def userinit (initcode : List UInt8) (kpgdir : PageDir) (m : Mem) : Except Fault Kernel := do
  match ← allocproc fun _ => ⟨.unused, 0, none, none, false⟩ with
  | (none, _) => .error .nullDeref
  | (some p, t) =>
    match m.kalloc with
    | (none, _) => .error .nullDeref
    | (some y, m) =>
      match ← setupkvm ⟨none, 0⟩ m with
      | (none, _) => .error (.panic "userinit: out of memory?")
      | (some d, m) => do
        let (d, m) ← inituvm d initcode m
        .ok (firstProcess p t y d kpgdir m)

/-- `main` on a machine with `ncpu` CPUs, up to the scheduler: `bytes` is what memory holds when the
machine starts. -/
def boot (l : Layout) (ncpu : Nat) (initcode : List UInt8) (bytes : Nat → Nat → UInt8) :
    Except Fault Kernel := do
  let m : Mem := ⟨l, [], fun _ => ⟨0, 0⟩, bytes⟩
  let m ← freerange (kinitSplit - l.kernelEnd) l.kernelEnd m
  match ← setupkvm ⟨none, 0⟩ m with
  | (none, _) => .error .nullDeref
  | (some kpgdir, m) => do
    let m ← startothers (ncpu - 1) m
    let m ← freerange (PHYSTOP - kinitSplit) kinitSplit m
    userinit initcode kpgdir m

end Kernel

end Xv6
