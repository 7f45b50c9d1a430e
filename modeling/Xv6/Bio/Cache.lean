import Mathlib.Algebra.GroupWithZero.Nat
import Mathlib.Data.Finset.Insert
import Mathlib.Data.List.FinRange
import Xv6.Lib.Ring
import Xv6.Lib.Run
import Xv6.Log.Header

/-!
# The buffer cache

`bio.c` with the disk driver under it (`iderw`, `idestart`, `ideintr`), as steps of any number of
processes. A step is a critical section of `bcache.lock`, of a buffer's sleep lock or of `idelock`,
or code that touches only a buffer whose sleep lock the process holds.

The disk carries out one request at a time: it takes the data of a write when `idestart` sends them
and delivers the data of a read when the interrupt handler fetches them.
-/

namespace Xv6

open LinkedRing TransitionSystem

/-- Size of the disk block cache. -/
def NBUF : Nat := MAXOPBLOCKS * 3

instance : NeZero NBUF := ⟨by decide⟩

/-- Size of the file system in blocks. -/
def FSSIZE : Nat := 1000

/-- `struct buf`, with the flags `B_VALID` and `B_DIRTY` and the holder of its sleep lock. -/
structure Buf (P : Type*) where
  valid : Bool
  dirty : Bool
  dev : Nat
  blockno : Nat
  owner : Option P
  refcnt : Nat
  data : Block

/-- A block of a device. -/
abbrev BlockId := Nat × Nat

def Buf.id {P : Type*} (b : Buf P) : BlockId := (b.dev, b.blockno)

/-- A node of the list of buffers: `bcache.head` or a buffer. -/
abbrev BufNode := Option (Fin NBUF)

/-- Where a process is in `bread`, `bwrite` or `brelse`. -/
inductive BufPc
  | ready
  /-- `bget`: holds a reference, waiting for the sleep lock. -/
  | locking (i : Fin NBUF) (k : BlockId)
  /-- `bread`: back from `bget`. -/
  | testing (i : Fin NBUF) (k : BlockId)
  /-- `iderw` called by `bread`: waiting for the disk. -/
  | reading (i : Fin NBUF) (k : BlockId)
  /-- `iderw` called by `bwrite`: waiting for the disk. -/
  | writing (i : Fin NBUF)
  /-- `brelse`: sleep lock released, reference not yet given up. -/
  | releasing (i : Fin NBUF)
  deriving DecidableEq

/-- The cache, the driver, the disk and the processes. `contents` (what was left in each block by
the last `log_write` or `bwrite`) and `modified` (buffers changed since) are history that no step of
the code reads. -/
structure BCache (P : Type*) where
  buf : Fin NBUF → Buf P
  links : Links BufNode
  idequeue : List (Fin NBUF)
  havedisk1 : Bool
  /-- The contents of sector `blockno` of IDE disk `dev & 1`. -/
  disk : Nat → Nat → Block
  pc : P → BufPc
  panic : Option String
  contents : BlockId → Block
  modified : Fin NBUF → Bool

/-- The device numbers in use. The driver addresses the IDE disk `dev & 1`, so two devices in use
are told apart by their last bit. -/
structure Devices where
  used : Finset Nat
  pos : ∀ d ∈ used, 1 ≤ d
  distinct : ∀ d ∈ used, ∀ e ∈ used, d % 2 = e % 2 → d = e

inductive BufAct (P : Type*)
  | bget (p : P) (k : BlockId)
  | acquiresleep (p : P)
  | test (p : P)
  | resume (p : P)
  | modify (p : P) (i : Fin NBUF) (v : Block)
  | logWrite (p : P) (i : Fin NBUF)
  | bwrite (p : P) (i : Fin NBUF)
  | brelse (p : P) (i : Fin NBUF)
  | unref (p : P)
  | ideintr

namespace BCache

variable {P : Type*} [DecidableEq P]

/-! ### The list of buffers -/

/-- The list built by `binit`. -/
def binit : Links BufNode :=
  (List.finRange NBUF).foldl (fun L i => L.insertFront none (some i)) ⟨fun _ => none, fun _ => none⟩

/-- The first loop of `bget`: the buffer that caches the block. -/
def lookup (s : BCache P) (k : BlockId) : Option (Fin NBUF) :=
  (Links.search s.links.next none (fun n => n.any fun i => (s.buf i).id = k) (NBUF + 1)
    (s.links.next none)).join

/-- The second loop of `bget`: the least recently used buffer that can be recycled. -/
def victim (s : BCache P) : Option (Fin NBUF) :=
  (Links.search s.links.prev none (fun n => n.any fun i => (s.buf i).refcnt = 0 ∧ ¬ (s.buf i).dirty)
    (NBUF + 1) (s.links.prev none)).join

/-! ### The disk driver -/

def setBuf (s : BCache P) (i : Fin NBUF) (b : Buf P) : BCache P :=
  { s with buf := Function.update s.buf i b }

def setPc (s : BCache P) (p : P) (c : BufPc) : BCache P :=
  { s with pc := Function.update s.pc p c }

def idestart (s : BCache P) (i : Fin NBUF) : BCache P :=
  if FSSIZE ≤ (s.buf i).blockno then
    { s with panic := some "incorrect blockno" }
  else if (s.buf i).dirty then
    { s with
      disk := Function.update s.disk ((s.buf i).dev % 2)
        (Function.update (s.disk ((s.buf i).dev % 2)) (s.buf i).blockno (s.buf i).data) }
  else s

/-- `iderw` up to its wait, after which the process is at `c`. -/
def iderw (s : BCache P) (p : P) (i : Fin NBUF) (c : BufPc) : BCache P :=
  if (s.buf i).owner ≠ some p then
    { s with panic := some "iderw: buf not locked" }
  else if (s.buf i).valid ∧ ¬ (s.buf i).dirty then
    { s with panic := some "iderw: nothing to do" }
  else if (s.buf i).dev ≠ 0 ∧ ¬ s.havedisk1 then
    { s with panic := some "iderw: ide disk 1 not present" }
  else
    let s' := { s with idequeue := s.idequeue ++ [i] }.setPc p c
    if s'.idequeue.head? = some i then s'.idestart i else s'

/-- The interrupt of the request at the head of the queue. -/
def ideintr (s : BCache P) : BCache P :=
  match s.idequeue with
  | [] => s
  | i :: q =>
    let b := s.buf i
    let s' := { s with idequeue := q }.setBuf i { b with
      data := if b.dirty then b.data else s.disk (b.dev % 2) b.blockno
      valid := true
      dirty := false }
    match q with
    | [] => s'
    | j :: _ => s'.idestart j

/-! ### Steps -/

/-- Record that the holder of buffer `i` has called `log_write` or `bwrite` on it. -/
def save (s : BCache P) (i : Fin NBUF) : BCache P :=
  { s with
    contents := Function.update s.contents (s.buf i).id (s.buf i).data
    modified := Function.update s.modified i false }

/-- When an action can be taken. A process changes and logs only buffers whose sleep lock it holds,
and after changing a buffer it calls `log_write` or `bwrite` before `brelse`. -/
def Enabled (D : Devices) (s : BCache P) : BufAct P → Prop
  | .bget p k => s.pc p = .ready ∧ k.1 ∈ D.used
  | .acquiresleep p => ∃ i k, s.pc p = .locking i k ∧ (s.buf i).owner = none
  | .test p => ∃ i k, s.pc p = .testing i k
  | .resume p => ∃ i, ((∃ k, s.pc p = .reading i k) ∨ s.pc p = .writing i) ∧
      (s.buf i).valid = true ∧ (s.buf i).dirty = false
  | .modify p i _ => s.pc p = .ready ∧ (s.buf i).owner = some p
  | .logWrite p i => s.pc p = .ready ∧ (s.buf i).owner = some p
  | .bwrite p _ => s.pc p = .ready
  | .brelse p i => s.pc p = .ready ∧ s.modified i = false
  | .unref p => ∃ i, s.pc p = .releasing i
  | .ideintr => True

/-- The state after an action. -/
def next (s : BCache P) : BufAct P → BCache P
  | .bget p k =>
    match s.lookup k with
    | some i => (s.setBuf i { s.buf i with refcnt := (s.buf i).refcnt + 1 }).setPc p (.locking i k)
    | none =>
      match s.victim with
      | some i =>
        (s.setBuf i { s.buf i with
          dev := k.1, blockno := k.2, valid := false, dirty := false, refcnt := 1 }).setPc p
            (.locking i k)
      | none => { s with panic := some "bget: no buffers" }
  | .acquiresleep p =>
    match s.pc p with
    | .locking i k => (s.setBuf i { s.buf i with owner := some p }).setPc p (.testing i k)
    | _ => s
  | .test p =>
    match s.pc p with
    | .testing i k => if (s.buf i).valid then s.setPc p .ready else s.iderw p i (.reading i k)
    | _ => s
  | .resume p => s.setPc p .ready
  | .modify _ i v =>
    { s.setBuf i { s.buf i with data := v } with modified := Function.update s.modified i true }
  | .logWrite _ i => (s.save i).setBuf i { s.buf i with dirty := true }
  | .bwrite p i =>
    if (s.buf i).owner ≠ some p then
      { s with panic := some "bwrite" }
    else
      ((s.save i).setBuf i { s.buf i with dirty := true }).iderw p i (.writing i)
  | .brelse p i =>
    if (s.buf i).owner ≠ some p then
      { s with panic := some "brelse" }
    else
      (s.setBuf i { s.buf i with owner := none }).setPc p (.releasing i)
  | .unref p =>
    match s.pc p with
    | .releasing i =>
      let s' := (s.setBuf i { s.buf i with refcnt := (s.buf i).refcnt - 1 }).setPc p .ready
      if (s.buf i).refcnt - 1 = 0 then
        { s' with links := (s.links.unlink (some i)).insertFront none (some i) }
      else s'
    | _ => s
  | .ideintr => s.ideintr

def Step (D : Devices) (s : BCache P) (a : BufAct P) (s' : BCache P) : Prop :=
  s.panic = none ∧ s.Enabled D a ∧ s' = s.next a

/-- The cache after `binit` and `ideinit`, over a disk with the given contents. -/
def init (P : Type*) (havedisk1 : Bool) (disk : Nat → Nat → Block) : BCache P where
  buf _ := ⟨false, false, 0, 0, none, 0, fun _ => 0⟩
  links := binit
  idequeue := []
  havedisk1 := havedisk1
  disk := disk
  pc _ := .ready
  panic := none
  contents k := disk (k.1 % 2) k.2
  modified _ := false

/-! ### Executing actions -/

instance (D : Devices) (s : BCache P) (a : BufAct P) : Decidable (s.Enabled D a) :=
  match a with
  | .bget _ _ | .modify _ _ _ | .logWrite _ _ | .brelse _ _ => inferInstanceAs (Decidable (_ ∧ _))
  | .bwrite _ _ => inferInstanceAs (Decidable (_ = _))
  | .ideintr => .isTrue trivial
  | .acquiresleep p =>
    match h : s.pc p with
    | .locking i k => decidable_of_iff ((s.buf i).owner = none) (by simp [Enabled, h])
    | .ready | .testing _ _ | .reading _ _ | .writing _ | .releasing _ =>
      .isFalse (by simp [Enabled, h])
  | .test p =>
    match h : s.pc p with
    | .testing i k => .isTrue ⟨i, k, h⟩
    | .ready | .locking _ _ | .reading _ _ | .writing _ | .releasing _ =>
      .isFalse (by simp [Enabled, h])
  | .resume p =>
    match h : s.pc p with
    | .reading i _ | .writing i =>
      decidable_of_iff ((s.buf i).valid = true ∧ (s.buf i).dirty = false) (by simp [Enabled, h])
    | .ready | .locking _ _ | .testing _ _ | .releasing _ => .isFalse (by simp [Enabled, h])
  | .unref p =>
    match h : s.pc p with
    | .releasing i => .isTrue ⟨i, h⟩
    | .ready | .locking _ _ | .testing _ _ | .reading _ _ | .writing _ =>
      .isFalse (by simp [Enabled, h])

def step (D : Devices) (s : BCache P) (a : BufAct P) : Option (BCache P) :=
  if s.panic = none ∧ s.Enabled D a then some (s.next a) else none

lemma step_iff {D : Devices} {s s' : BCache P} {a : BufAct P} :
    s.step D a = some s' ↔ s.Step D a s' := by
  simp [step, Step, and_assoc, eq_comm]

/-- The actions `l`, taken in turn, are a run. -/
lemma run_of_follow {D : Devices} {s t : BCache P} {l : List (BufAct P)}
    (h : follow (step D) s l = some t) : ∃ tr, Run (Step D) s tr t ∧ tr.map Prod.snd = l := by
  obtain ⟨tr, hr, hl⟩ := Run.of_follow h
  exact ⟨tr, hr.mono fun _ _ _ hs => step_iff.mp hs, hl⟩

/-! ### What a run does -/

/-- The block and the buffer with which a step returns from `bread`. -/
def breadReturn (s : BCache P) : BufAct P → Option (BlockId × Fin NBUF)
  | .test p =>
    match s.pc p with
    | .testing i k => if (s.buf i).valid then some (k, i) else none
    | _ => none
  | .resume p =>
    match s.pc p with
    | .reading i k => some (k, i)
    | _ => none
  | _ => none

/-- The contents of all blocks after one more step: a holder's `log_write` or `bwrite` counts. -/
def leave (c : BlockId → Block) (x : BCache P × BufAct P) : BlockId → Block :=
  match x.2 with
  | .logWrite p i | .bwrite p i =>
    if (x.1.buf i).owner = some p then Function.update c (x.1.buf i).id (x.1.buf i).data else c
  | _ => c

/-- The contents left in each block by the last holder that called `log_write` or `bwrite` on it
during the run, or those of the disk at the start. -/
def lastLeft (disk : Nat → Nat → Block) (tr : List (BCache P × BufAct P)) : BlockId → Block :=
  tr.foldl leave fun k => disk (k.1 % 2) k.2

end BCache

end Xv6
