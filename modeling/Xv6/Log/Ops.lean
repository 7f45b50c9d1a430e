import Mathlib.Data.Finset.Card
import Xv6.Lib.Run
import Xv6.Log.Header

/-!
# Concurrent file-system operations

`begin_op`, `log_write`, `end_op` and the commit they lead to, as steps of any number of processes.
`log.lock` and `ptable.lock` are explicit. A step is a stretch of code between two points at which
other processes can interfere: an `acquire`, a `release`, or an access to `log` made without holding
`log.lock`. `sleep` takes `ptable.lock` before it lets go of `log.lock`, and `wakeup` runs under
`ptable.lock`.
-/

namespace Xv6

/-- Where a process is in `log.c`. -/
inductive LogPc
  /-- Outside the file system. -/
  | idle
  /-- `begin_op`: waiting for `log.lock`, on entry or when `sleep` reacquires it. -/
  | entering
  /-- `begin_op`: at the top of the loop, holding `log.lock`. -/
  | testing
  /-- `sleep`: waiting for `ptable.lock`, holding `log.lock`. -/
  | sleepCall
  /-- `sleep`: holding both locks. -/
  | handOver
  /-- `sleep`: `log.lock` released, not yet SLEEPING, holding `ptable.lock`. -/
  | parking
  /-- SLEEPING on `&log`. -/
  | asleep
  /-- Between `begin_op` and `end_op`. -/
  | inOp
  /-- `log_write`: past the tests made without the lock, waiting for `log.lock`. -/
  | checked (b : Nat)
  /-- `log_write`: holding `log.lock`. -/
  | logging (b : Nat)
  /-- `end_op`: waiting for `log.lock`. -/
  | ending
  | endLocked
  /-- `end_op`: about to wake the waiters for log space, holding `log.lock`. -/
  | endWake
  /-- `end_op`: `log.lock` released with `do_commit` set. -/
  | commitStart
  /-- `commit`: from `write_log` to the assignment `log.lh.n = 0`. -/
  | commitWriting
  /-- `end_op`: back from `commit`, waiting for `log.lock`. -/
  | commitDone
  | doneLocked
  /-- `end_op`: about to wake all waiters after the commit, holding `log.lock`. -/
  | doneWake
  deriving DecidableEq

namespace LogPc

def holdsLog : LogPc → Bool
  | testing | sleepCall | handOver | logging _ | endLocked | endWake | doneLocked | doneWake => true
  | _ => false

def holdsPtable : LogPc → Bool
  | handOver | parking => true
  | _ => false

/-- The process is counted in `log.outstanding`. -/
def active : LogPc → Bool
  | inOp | checked _ | logging _ | ending | endLocked => true
  | _ => false

/-- The process is responsible for the commit in progress. -/
def commits : LogPc → Bool
  | commitStart | commitWriting | commitDone | doneLocked => true
  | _ => false

/-- The process holds `log.lock` and is about to wake the sleepers. -/
def wakes : LogPc → Bool
  | endWake | doneWake => true
  | _ => false

end LogPc

/-- A process, the operation it executes or executed last, and the distinct blocks that operation
has logged. -/
structure LogTask where
  pc : LogPc
  op : Nat
  used : Finset Nat

/-- What one commit wrote: the calls of `log_write` (operation and block) since the last commit, and
the blocks listed in the header. -/
structure Transaction where
  entries : List (Nat × Nat)
  blocks : List Nat

/-- `struct log` with its lock, the processes, and the history needed to speak of operations and
transactions (`nextOp`, `base`, `pending`, `committed`), which no step of the code reads. -/
structure LogState (P : Type*) where
  tasks : P → LogTask
  lock : Option P
  ptlock : Option P
  outstanding : Int
  committing : Bool
  lh : LogHeader
  size : Nat
  panic : Option String
  nextOp : Nat
  base : Nat
  pending : List (Nat × Nat)
  committed : List Transaction

inductive LogAct (P : Type*)
  | beginOp (p : P) | acquireBegin (p : P) | admitOp (p : P)
  | mustWait (p : P) | sleepPtable (p : P) | sleepRelease (p : P) | sleepPark (p : P)
  | kill (p : P)
  | logWrite (p : P) (b : Nat) | acquireLog (p : P) | record (p : P)
  | endOp (p : P) | acquireEnd (p : P) | decrement (p : P) | wakeEnd (p : P)
  | commit (p : P) | erase (p : P)
  | acquireDone (p : P) | clearCommitting (p : P) | wakeDone (p : P)

namespace LogState

variable {P : Type*}

/-- `wakeup1(&log)`: every process asleep on `&log` will go on to reacquire `log.lock`. -/
def wakeSleepers (t : P → LogTask) : P → LogTask := fun q =>
  if (t q).pc = .asleep then { t q with pc := .entering } else t q

/-- Waking a sleeper does not move it across any of the boundaries we track. -/
lemma wakeSleepers_pc {f : LogPc → Bool} (hf : f .asleep = f .entering) (t : P → LogTask) (q : P) :
    f (wakeSleepers t q).pc = f (t q).pc := by
  unfold wakeSleepers
  split_ifs with h
  · rw [h, hf]
  · rfl

@[simp] lemma wakeSleepers_op (t : P → LogTask) (q : P) : (wakeSleepers t q).op = (t q).op := by
  unfold wakeSleepers
  split_ifs <;> rfl

@[simp] lemma wakeSleepers_used (t : P → LogTask) (q : P) :
    (wakeSleepers t q).used = (t q).used := by
  unfold wakeSleepers
  split_ifs <;> rfl

lemma wakeSleepers_not_asleep (t : P → LogTask) (q : P) : (wakeSleepers t q).pc ≠ .asleep := by
  unfold wakeSleepers
  split_ifs with h
  · simp
  · exact h

/-- The test of `begin_op` that sends a process to sleep. -/
def MustWait (s : LogState P) : Prop :=
  s.committing = true ∨ (LOGSIZE : Int) < s.lh.n + (s.outstanding + 1) * MAXOPBLOCKS

instance (s : LogState P) : Decidable s.MustWait := inferInstanceAs (Decidable (_ ∨ _))

variable [DecidableEq P]

def goto (s : LogState P) (p : P) (c : LogPc) : P → LogTask :=
  Function.update s.tasks p { s.tasks p with pc := c }

/-- The block a process has passed to `log_write`. -/
def blockOf : LogPc → Nat
  | .checked b | .logging b => b
  | _ => 0

/-- When an action can be taken. An operation calls `log_write` between `begin_op` and `end_op`
only. -/
def Enabled (s : LogState P) : LogAct P → Prop
  | .beginOp p => (s.tasks p).pc = .idle
  | .acquireBegin p => (s.tasks p).pc = .entering ∧ s.lock = none
  | .admitOp p => (s.tasks p).pc = .testing ∧ ¬ s.MustWait
  | .mustWait p => (s.tasks p).pc = .testing ∧ s.MustWait
  | .sleepPtable p => (s.tasks p).pc = .sleepCall ∧ s.ptlock = none
  | .sleepRelease p => (s.tasks p).pc = .handOver
  | .sleepPark p => (s.tasks p).pc = .parking
  | .kill p => (s.tasks p).pc = .asleep ∧ s.ptlock = none
  | .logWrite p _ => (s.tasks p).pc = .inOp
  | .acquireLog p => (∃ b, (s.tasks p).pc = .checked b) ∧ s.lock = none
  | .record p => ∃ b, (s.tasks p).pc = .logging b
  | .endOp p => (s.tasks p).pc = .inOp
  | .acquireEnd p => (s.tasks p).pc = .ending ∧ s.lock = none
  | .decrement p => (s.tasks p).pc = .endLocked
  | .wakeEnd p => (s.tasks p).pc = .endWake ∧ s.ptlock = none
  | .commit p => (s.tasks p).pc = .commitStart
  | .erase p => (s.tasks p).pc = .commitWriting
  | .acquireDone p => (s.tasks p).pc = .commitDone ∧ s.lock = none
  | .clearCommitting p => (s.tasks p).pc = .doneLocked
  | .wakeDone p => (s.tasks p).pc = .doneWake ∧ s.ptlock = none

/-- The state after an action. -/
def next (s : LogState P) : LogAct P → LogState P
  | .beginOp p => { s with tasks := s.goto p .entering }
  | .acquireBegin p => { s with tasks := s.goto p .testing, lock := some p }
  | .admitOp p =>
    { s with
      tasks := Function.update s.tasks p ⟨.inOp, s.nextOp, ∅⟩
      lock := none
      outstanding := s.outstanding + 1
      nextOp := s.nextOp + 1 }
  | .mustWait p => { s with tasks := s.goto p .sleepCall }
  | .sleepPtable p => { s with tasks := s.goto p .handOver, ptlock := some p }
  | .sleepRelease p => { s with tasks := s.goto p .parking, lock := none }
  | .sleepPark p => { s with tasks := s.goto p .asleep, ptlock := none }
  | .kill p => { s with tasks := s.goto p .entering }
  | .logWrite p b =>
    if LOGSIZE ≤ s.lh.n ∨ s.size - 1 ≤ s.lh.n then
      { s with panic := some "too big a transaction" }
    else if s.outstanding < 1 then
      { s with panic := some "log_write outside of trans" }
    else
      { s with tasks := s.goto p (.checked b) }
  | .acquireLog p =>
    { s with tasks := s.goto p (.logging (blockOf (s.tasks p).pc)), lock := some p }
  | .record p =>
    let b := blockOf (s.tasks p).pc
    { s with
      tasks := Function.update s.tasks p ⟨.inOp, (s.tasks p).op, insert b (s.tasks p).used⟩
      lock := none
      lh := s.lh.record b
      pending := s.pending ++ [((s.tasks p).op, b)] }
  | .endOp p => { s with tasks := s.goto p .ending }
  | .acquireEnd p => { s with tasks := s.goto p .endLocked, lock := some p }
  | .decrement p =>
    if s.committing then
      { s with outstanding := s.outstanding - 1, panic := some "log.committing" }
    else if s.outstanding - 1 = 0 then
      { s with
        tasks := s.goto p .commitStart
        lock := none
        outstanding := s.outstanding - 1
        committing := true }
    else
      { s with tasks := s.goto p .endWake, outstanding := s.outstanding - 1 }
  | .wakeEnd p =>
    { s with
      tasks := Function.update (wakeSleepers s.tasks) p { s.tasks p with pc := .idle }
      lock := none }
  | .commit p =>
    if 0 < s.lh.n then
      { s with
        tasks := s.goto p .commitWriting
        base := s.nextOp
        pending := []
        committed := s.committed ++ [⟨s.pending, s.lh.blocks⟩] }
    else
      { s with tasks := s.goto p .commitDone }
  | .erase p => { s with tasks := s.goto p .commitDone, lh := { s.lh with n := 0 } }
  | .acquireDone p => { s with tasks := s.goto p .doneLocked, lock := some p }
  | .clearCommitting p => { s with tasks := s.goto p .doneWake, committing := false }
  | .wakeDone p =>
    { s with
      tasks := Function.update (wakeSleepers s.tasks) p { s.tasks p with pc := .idle }
      lock := none }

/-- A panic stops the kernel. -/
def Step (s : LogState P) (a : LogAct P) (s' : LogState P) : Prop :=
  s.panic = none ∧ s.Enabled a ∧ s' = s.next a

/-- The log after `initlog`, with `size` log blocks on disk. -/
def init (P : Type*) (size : Nat) : LogState P :=
  ⟨fun _ => ⟨.idle, 0, ∅⟩, none, none, 0, false, ⟨0, fun _ => 0⟩, size, none, 0, 0, [], []⟩

/-! ### Executing actions -/

instance (c : LogPc) : Decidable (∃ b, c = .checked b) :=
  match c with
  | .checked b => .isTrue ⟨b, rfl⟩
  | .idle | .entering | .testing | .sleepCall | .handOver | .parking | .asleep | .inOp
  | .logging _ | .ending | .endLocked | .endWake | .commitStart | .commitWriting | .commitDone
  | .doneLocked | .doneWake => .isFalse (by simp)

instance (c : LogPc) : Decidable (∃ b, c = .logging b) :=
  match c with
  | .logging b => .isTrue ⟨b, rfl⟩
  | .idle | .entering | .testing | .sleepCall | .handOver | .parking | .asleep | .inOp
  | .checked _ | .ending | .endLocked | .endWake | .commitStart | .commitWriting | .commitDone
  | .doneLocked | .doneWake => .isFalse (by simp)

instance (s : LogState P) (a : LogAct P) : Decidable (s.Enabled a) :=
  match a with
  | .beginOp _ | .sleepRelease _ | .sleepPark _ | .logWrite _ _ | .endOp _ | .decrement _
  | .commit _ | .erase _ | .clearCommitting _ => inferInstanceAs (Decidable (_ = _))
  | .record p => inferInstanceAs (Decidable (∃ b, (s.tasks p).pc = .logging b))
  | .acquireBegin _ | .admitOp _ | .mustWait _ | .sleepPtable _ | .kill _ | .acquireLog _
  | .acquireEnd _ | .wakeEnd _ | .acquireDone _ | .wakeDone _ =>
    inferInstanceAs (Decidable (_ ∧ _))

def step (s : LogState P) (a : LogAct P) : Option (LogState P) :=
  if s.panic = none ∧ s.Enabled a then some (s.next a) else none

lemma step_iff {s s' : LogState P} {a : LogAct P} : s.step a = some s' ↔ s.Step a s' := by
  simp [step, Step, and_assoc, eq_comm]

/-- The actions `l`, taken in turn from the initial state, are a run. -/
lemma run_of_follow {size : Nat} {l : List (LogAct P)} {t : LogState P}
    (h : TransitionSystem.follow step (init P size) l = some t) :
    ∃ tr, TransitionSystem.Run Step (init P size) tr t ∧ tr.map Prod.snd = l := by
  obtain ⟨tr, hr, hl⟩ := TransitionSystem.Run.of_follow h
  exact ⟨tr, hr.mono fun _ _ _ hs => step_iff.mp hs, hl⟩

/-! ### Moving one process -/

lemma pc_update (t : P → LogTask) (p q : P) (x : LogTask) :
    (Function.update t p x q).pc = if q = p then x.pc else (t q).pc := by
  by_cases h : q = p
  · subst h
    simp
  · simp [h]

lemma pc_goto (s : LogState P) (p q : P) (c : LogPc) :
    (s.goto p c q).pc = if q = p then c else (s.tasks q).pc := pc_update _ _ _ _

end LogState

end Xv6
