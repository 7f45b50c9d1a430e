import Xv6.Lib.Fifo
import Xv6.Lib.Run

/-!
# Pipes

One pipe and any number of processes inside `pipewrite`, `piperead` and `pipeclose`. A step is what
the holder of the pipe's lock does between two accesses to shared data, so a `kill`, which takes
only `ptable.lock`, may come between any two of them. `sleep` gives the lock up and marks the
process SLEEPING in one step: it holds `ptable.lock` meanwhile, and no `wakeup` gets in between.

A process that was woken tests the condition of its loop again once it has the lock.
-/

namespace Xv6.Pipe

def PIPESIZE : Nat := 512

instance : NeZero PIPESIZE := ⟨by decide⟩

instance : Fifo.Counters PIPESIZE 32 := ⟨by decide, by decide⟩

/-- The addresses that processes sleep on. -/
inductive Chan
  | nread
  | nwrite
  deriving DecidableEq, Repr

/-- The arguments of one call of `pipewrite`, with a number that tells the calls apart. The caller's
buffer does not change during the call. -/
structure WriteCall where
  id : Nat
  addr : Nat → UInt8
  n : Int

/-- Where a process is. -/
inductive Pc
  /-- Outside the three functions. -/
  | idle
  /-- `pipewrite` tests its loops for byte `i`. -/
  | write (c : WriteCall) (i : Nat)
  /-- The pipe is full: `pipewrite` is about to wake the readers. -/
  | writeFull (c : WriteCall) (i : Nat)
  | writeSleep (c : WriteCall) (i : Nat)
  /-- All bytes are stored: `pipewrite` is about to wake the readers. -/
  | writeDone (c : WriteCall)
  /-- `pipewrite` is about to release the lock and return `n`. -/
  | writeReturn (c : WriteCall)
  /-- `pipewrite` is about to release the lock and return -1. -/
  | writeFail (c : WriteCall)
  /-- `piperead` tests its first loop. -/
  | read (n : Int)
  | readSleep (n : Int)
  /-- `piperead` has copied the bytes `got`. -/
  | copy (n : Int) (got : List UInt8)
  /-- `piperead` is about to wake the writers. -/
  | readDone (n : Int) (got : List UInt8)
  /-- `piperead` is about to release the lock and return the number of bytes copied. -/
  | readReturn (n : Int) (got : List UInt8)
  /-- `piperead` is about to release the lock and return -1. -/
  | readFail (n : Int)
  /-- `pipeclose` is about to clear its flag. -/
  | close (writable : Bool)
  /-- `pipeclose` is about to wake the other end. -/
  | closeWake (writable : Bool)
  | closeReturn

def Pc.isIdle : Pc → Bool
  | .idle => true
  | _ => false

lemma Pc.eq_idle {pc : Pc} (h : pc.isIdle = true) : pc = .idle := by
  cases pc <;> first | rfl | cases h

/-- The pipe, the processes, and what was written and read so far. -/
structure State (P : Type*) where
  ring : Fifo UInt8 PIPESIZE 32
  readopen : Bool
  writeopen : Bool
  /-- The page went back to `kalloc`: nothing can be said about later calls. -/
  freed : Bool
  /-- The holder of the pipe's lock. -/
  lock : Option P
  pc : P → Pc
  asleep : P → Option Chan
  killed : P → Bool
  /-- How many calls of `pipewrite` there were. -/
  calls : Nat
  /-- Every byte ever stored, with the call that stored it, oldest first. -/
  stored : List (Nat × UInt8)
  /-- Every byte returned by a `piperead`, oldest first. -/
  returned : List UInt8

inductive Act (P : Type*)
  /-- `p` calls `pipewrite` and gets the lock. -/
  | pipewrite (p : P) (addr : Nat → UInt8) (n : Int)
  | piperead (p : P) (n : Int)
  | pipeclose (p : P) (writable : Bool)
  /-- The holder of the lock goes on. -/
  | go (p : P)
  /-- A woken process gets the lock back. -/
  | resume (p : P)
  | kill (p : P)

namespace State

variable {P : Type*} [DecidableEq P]

/-- The pipe as `pipealloc` makes it. The page is full of junk, and nobody uses the pipe yet. -/
def pipealloc (data : Fin PIPESIZE → UInt8) (killed : P → Bool) : State P where
  ring := ⟨data, 0, 0⟩
  readopen := true
  writeopen := true
  freed := false
  lock := none
  pc := fun _ => .idle
  asleep := fun _ => none
  killed := killed
  calls := 0
  stored := []
  returned := []

def setPc (s : State P) (p : P) (pc : Pc) : State P :=
  { s with pc := Function.update s.pc p pc }

/-- `release(&p->lock)` and return to the caller. -/
def leave (s : State P) (p : P) : State P :=
  { s.setPc p .idle with lock := none }

/-- `wakeup(chan)` -/
def wakeup (s : State P) (c : Chan) : State P :=
  { s with asleep := fun p => if s.asleep p = some c then none else s.asleep p }

/-- `sleep(chan, &p->lock)`, up to the point where the process is woken. -/
def sleep (s : State P) (p : P) (c : Chan) (pc : Pc) : State P :=
  { s.setPc p pc with asleep := Function.update s.asleep p (some c), lock := none }

/-- `kill`: a sleeping process is woken. -/
def kill (s : State P) (p : P) : State P :=
  { s with
    killed := Function.update s.killed p true
    asleep := Function.update s.asleep p none }

/-- `p->data[p->nwrite++ % PIPESIZE] = addr[i]` -/
def store (s : State P) (c : WriteCall) (i : Nat) : State P :=
  { s with ring := s.ring.push (c.addr i), stored := s.stored ++ [(c.id, c.addr i)] }

/-- The loops of `pipewrite`, for byte `i`. -/
def goWrite (s : State P) (p : P) (c : WriteCall) (i : Nat) : State P :=
  if (i : Int) < c.n then
    if s.ring.IsFull then
      if s.readopen = false ∨ s.killed p = true then
        s.setPc p (.writeFail c)
      else
        s.setPc p (.writeFull c i)
    else
      (s.store c i).setPc p (.write c (i + 1))
  else
    s.setPc p (.writeDone c)

/-- The first loop of `piperead`. -/
def goRead (s : State P) (p : P) (n : Int) : State P :=
  if s.ring.IsEmpty ∧ s.writeopen = true then
    if s.killed p = true then
      s.setPc p (.readFail n)
    else
      s.setPc p (.readSleep n)
  else
    s.setPc p (.copy n [])

/-- The second loop of `piperead`. -/
def goCopy (s : State P) (p : P) (n : Int) (got : List UInt8) : State P :=
  if (got.length : Int) < n then
    if s.ring.IsEmpty then
      s.setPc p (.readDone n got)
    else
      { s with ring := s.ring.pop }.setPc p (.copy n (got ++ [s.ring.front]))
  else
    s.setPc p (.readDone n got)

/-- What the holder of the lock does next. -/
def go (s : State P) (p : P) : Option (State P) :=
  match s.pc p with
  | .idle => none
  | .write c i => some (s.goWrite p c i)
  | .writeFull c i => some ((s.wakeup .nread).setPc p (.writeSleep c i))
  | .writeSleep c i => some (s.sleep p .nwrite (.write c i))
  | .writeDone c => some ((s.wakeup .nread).setPc p (.writeReturn c))
  | .writeReturn _ | .writeFail _ => some (s.leave p)
  | .read n => some (s.goRead p n)
  | .readSleep n => some (s.sleep p .nread (.read n))
  | .copy n got => some (s.goCopy p n got)
  | .readDone n got => some ((s.wakeup .nwrite).setPc p (.readReturn n got))
  | .readReturn _ got => some { s.leave p with returned := s.returned ++ got }
  | .readFail _ => some (s.leave p)
  | .close true => some ({ s with writeopen := false }.setPc p (.closeWake true))
  | .close false => some ({ s with readopen := false }.setPc p (.closeWake false))
  | .closeWake writable =>
    some ((s.wakeup (if writable then .nread else .nwrite)).setPc p .closeReturn)
  | .closeReturn =>
    some { s.leave p with freed := s.readopen = false ∧ s.writeopen = false }

/-- `p` takes the free lock and is then at `pc`. -/
def enter (s : State P) (p : P) (pc : Pc) : State P :=
  { s.setPc p pc with lock := some p }

/-- A process can start a call when it is in none and the pipe still exists. -/
def CanEnter (s : State P) (p : P) : Prop :=
  s.lock = none ∧ s.freed = false ∧ (s.pc p).isIdle = true

/-- A process inside a call that is not asleep can take the free lock again. -/
def CanResume (s : State P) (p : P) : Prop :=
  s.lock = none ∧ s.freed = false ∧ (s.pc p).isIdle = false ∧ s.asleep p = none

instance (s : State P) (p : P) : Decidable (s.CanEnter p) := inferInstanceAs (Decidable (_ ∧ _))

instance (s : State P) (p : P) : Decidable (s.CanResume p) := inferInstanceAs (Decidable (_ ∧ _))

/-- One step, if the action is possible. -/
def step (s : State P) : Act P → Option (State P)
  | .pipewrite p addr n =>
    if s.CanEnter p then
      some { s.enter p (.write ⟨s.calls, addr, n⟩ 0) with calls := s.calls + 1 }
    else none
  | .piperead p n => if s.CanEnter p then some (s.enter p (.read n)) else none
  | .pipeclose p writable => if s.CanEnter p then some (s.enter p (.close writable)) else none
  | .go p => if s.lock = some p then s.go p else none
  | .resume p => if s.CanResume p then some { s with lock := some p } else none
  | .kill p => some (s.kill p)

def Step (s : State P) (a : Act P) (s' : State P) : Prop := s.step a = some s'

/-- The ways in which a step can go. -/
inductive Moved (s : State P) : Act P → State P → Prop
  | pipewrite {p : P} {addr : Nat → UInt8} {n : Int} : s.CanEnter p →
      Moved s (.pipewrite p addr n)
        { s.enter p (.write ⟨s.calls, addr, n⟩ 0) with calls := s.calls + 1 }
  | piperead {p : P} {n : Int} : s.CanEnter p → Moved s (.piperead p n) (s.enter p (.read n))
  | pipeclose {p : P} {writable : Bool} : s.CanEnter p →
      Moved s (.pipeclose p writable) (s.enter p (.close writable))
  | go {p : P} {s' : State P} : s.lock = some p → s.go p = some s' → Moved s (.go p) s'
  | resume {p : P} : s.CanResume p → Moved s (.resume p) { s with lock := some p }
  | kill {p : P} : Moved s (.kill p) (s.kill p)

lemma Step.moved {s s' : State P} {a : Act P} (h : s.Step a s') : s.Moved a s' := by
  cases a with
  | go p =>
    obtain ⟨hl, hg⟩ := Option.ite_none_right_eq_some.mp h
    exact .go hl hg
  | kill p =>
    cases h
    exact .kill
  | pipewrite p addr n | piperead p n | pipeclose p writable | resume p =>
    obtain ⟨he, hs⟩ := Option.ite_none_right_eq_some.mp h
    cases hs
    constructor
    exact he

/-! ### Who may be where -/

@[simp] lemma setPc_self (s : State P) (p : P) (pc : Pc) : (s.setPc p pc).pc p = pc :=
  Function.update_self ..

lemma setPc_of_ne (s : State P) {p q : P} (pc : Pc) (h : q ≠ p) : (s.setPc p pc).pc q = s.pc q :=
  Function.update_of_ne h _ _

@[simp] lemma leave_self (s : State P) (p : P) : (s.leave p).pc p = .idle :=
  Function.update_self ..

@[simp] lemma sleep_self (s : State P) (p : P) (c : Chan) (pc : Pc) : (s.sleep p c pc).pc p = pc :=
  Function.update_self ..

end State

/-- Where a process may be without holding the lock. -/
def Pc.Resting : Pc → Prop
  | .idle | .write _ _ | .read _ => True
  | _ => False

variable {P : Type*}

/-- Only the holder of the lock is in the middle of something, and it is not asleep; nobody sleeps
outside a call. -/
structure Orderly (s : State P) : Prop where
  resting : ∀ p, s.lock ≠ some p → (s.pc p).Resting
  awake : ∀ p, s.lock = some p → s.asleep p = none
  inCall : ∀ p, s.pc p = .idle → s.asleep p = none

/-- What a step of the lock's holder `p` may do to the others: it may wake them. -/
structure Turn (p : P) (s s' : State P) : Prop where
  others : ∀ q, q ≠ p → s'.pc q = s.pc q
  woken : ∀ q, q ≠ p → s'.asleep q = s.asleep q ∨ s'.asleep q = none
  calls : s'.calls = s.calls
  lock : (s'.lock = some p ∧ s'.asleep p = none) ∨
    (s'.lock = none ∧ (s'.pc p).Resting ∧ (s'.pc p = .idle → s'.asleep p = none))

lemma wakeup_asleep (s : State P) (c : Chan) (q : P) :
    (s.wakeup c).asleep q = s.asleep q ∨ (s.wakeup c).asleep q = none := by
  simp only [State.wakeup]
  split_ifs
  · exact Or.inr rfl
  · exact Or.inl rfl

lemma Orderly.of_turn {s s' : State P} {p : P} (h : Orderly s) (hlock : s.lock = some p)
    (ht : Turn p s s') : Orderly s' where
  resting q hq := by
    by_cases hqp : q = p
    · subst hqp
      rcases ht.lock with hl | hl
      · exact absurd hl.1 hq
      · exact hl.2.1
    · rw [ht.others q hqp]
      exact h.resting q fun hl => hqp (Option.some.inj (hl.symm.trans hlock))
  awake q hq := by
    rcases ht.lock with hl | hl
    · obtain rfl : p = q := Option.some.inj (hl.1.symm.trans hq)
      exact hl.2
    · rw [hl.1] at hq
      cases hq
  inCall q hq := by
    by_cases hqp : q = p
    · subst hqp
      rcases ht.lock with hl | hl
      · exact hl.2
      · exact hl.2.2 hq
    · rw [ht.others q hqp] at hq
      rcases ht.woken q hqp with hw | hw
      · rw [hw]
        exact h.inCall q hq
      · exact hw

/-- A process that is not asleep takes the free lock. -/
lemma Orderly.entered {s s' : State P} {p : P} (h : Orderly s) (hfree : s.lock = none)
    (hlock : s'.lock = some p) (hpc : ∀ q, q ≠ p → s'.pc q = s.pc q)
    (hasleep : s'.asleep = s.asleep) (hp : s.asleep p = none) : Orderly s' where
  resting q hq := by
    have hqp : q ≠ p := by
      rintro rfl
      exact hq hlock
    rw [hpc q hqp]
    exact h.resting q (by simp [hfree])
  awake q hq := by
    obtain rfl : p = q := Option.some.inj (hlock.symm.trans hq)
    rw [hasleep, hp]
  inCall q hq := by
    rw [hasleep]
    by_cases hqp : q = p
    · rw [hqp, hp]
    · exact h.inCall q (by rwa [hpc q hqp] at hq)

variable [DecidableEq P]

lemma Turn.setPc {s s' : State P} {p : P} {pc : Pc} (hlock : s'.lock = some p)
    (hpc : s'.pc = s.pc) (hwoken : ∀ q, s'.asleep q = s.asleep q ∨ s'.asleep q = none)
    (hcalls : s'.calls = s.calls) (hp : s.asleep p = none) : Turn p s (s'.setPc p pc) where
  others q hq := by rw [State.setPc_of_ne _ _ hq, hpc]
  woken q _ := hwoken q
  calls := hcalls
  lock := by
    refine Or.inl ⟨hlock, ?_⟩
    rcases hwoken p with h | h
    · exact h.trans hp
    · exact h

lemma Turn.of_leave {s s' : State P} {p : P} (hpc : s'.pc = (s.leave p).pc)
    (hasleep : s'.asleep = s.asleep) (hcalls : s'.calls = s.calls) (hlock : s'.lock = none)
    (hp : s.asleep p = none) : Turn p s s' where
  others q hq := by
    rw [hpc]
    exact Function.update_of_ne hq _ _
  woken q _ := Or.inl (by rw [hasleep])
  calls := hcalls
  lock := Or.inr ⟨hlock, by simp [hpc, Pc.Resting], fun _ => by rw [hasleep, hp]⟩

lemma Turn.sleep {s : State P} {p : P} {c : Chan} {pc : Pc} (hpc : pc.Resting)
    (hidle : pc ≠ .idle) : Turn p s (s.sleep p c pc) where
  others _ hq := Function.update_of_ne hq _ _
  woken _ hq := Or.inl (Function.update_of_ne hq _ _)
  calls := rfl
  lock := Or.inr ⟨rfl, by simpa using hpc, fun h => absurd (by simpa using h) hidle⟩

/-- The holder of the lock leaves the others where they are, and gives the lock up only where it
may be without it. -/
lemma Orderly.turn {s s' : State P} {p : P} (h : Orderly s) (hlock : s.lock = some p)
    (hgo : s.go p = some s') : Turn p s s' := by
  have hp := h.awake p hlock
  unfold State.go at hgo
  generalize s.pc p = pc at hgo
  cases pc with
  | idle => cases hgo
  | write c i =>
    cases hgo
    unfold State.goWrite
    split_ifs
    all_goals exact Turn.setPc hlock rfl (fun _ => Or.inl rfl) rfl hp
  | read n =>
    cases hgo
    unfold State.goRead
    split_ifs
    all_goals exact Turn.setPc hlock rfl (fun _ => Or.inl rfl) rfl hp
  | copy n got =>
    cases hgo
    unfold State.goCopy
    split_ifs
    all_goals exact Turn.setPc hlock rfl (fun _ => Or.inl rfl) rfl hp
  | writeFull c i | writeDone c | readDone n got | closeWake writable =>
    cases hgo
    exact Turn.setPc hlock rfl (wakeup_asleep s _) rfl hp
  | writeSleep c i | readSleep n =>
    cases hgo
    exact Turn.sleep trivial (by simp)
  | writeReturn c | writeFail c | readFail n | readReturn n got | closeReturn =>
    cases hgo
    exact Turn.of_leave rfl rfl rfl rfl hp
  | close writable =>
    cases writable with
    | true | false =>
      cases hgo
      exact Turn.setPc hlock rfl (fun _ => Or.inl rfl) rfl hp

lemma Orderly.kill {s : State P} (h : Orderly s) (p : P) : Orderly (s.kill p) := by
  have hasleep : ∀ q, s.asleep q = none → (s.kill p).asleep q = none := by
    intro q hq
    by_cases hqp : q = p
    · subst hqp
      exact Function.update_self ..
    · exact (Function.update_of_ne hqp _ _).trans hq
  exact ⟨h.resting, fun q hq => hasleep q (h.awake q hq), fun q hq => hasleep q (h.inCall q hq)⟩

lemma Orderly.step {s s' : State P} {a : Act P} (h : Orderly s) (hs : s.Step a s') :
    Orderly s' := by
  cases hs.moved with
  | pipewrite he | piperead he | pipeclose he =>
    exact h.entered he.1 rfl (fun _ hq => Function.update_of_ne hq _ _) rfl
      (h.inCall _ (Pc.eq_idle he.2.2))
  | go hl hg => exact h.of_turn hl (h.turn hl hg)
  | resume hc => exact h.entered hc.1 rfl (fun _ _ => rfl) rfl hc.2.2.2
  | kill => exact h.kill _

omit [DecidableEq P] in
lemma orderly_pipealloc (data : Fin PIPESIZE → UInt8) (killed : P → Bool) :
    Orderly (State.pipealloc data killed) :=
  ⟨fun _ _ => trivial, fun _ _ => rfl, fun _ _ => rfl⟩

end Xv6.Pipe
