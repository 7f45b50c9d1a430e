import Xv6.Lib.Fifo

/-!
# Console input

`consoleintr` puts the characters that arrive from the keyboard and the serial line into a circular
buffer and lets the user edit the line that is being typed; `consoleread` takes finished lines out of
it. The indices `r`, `w` and `e` are never reset and overflow after `2 ^ 32` characters. Both
functions hold `cons.lock`, except that `consoleread` lets go of it while it sleeps.
-/

namespace Xv6.Console

def INPUT_BUF : Nat := 128

instance : NeZero INPUT_BUF := ⟨by decide⟩

instance : Fifo.Counters INPUT_BUF 32 := ⟨by decide, by decide⟩

/-- `C(x)`: control-x. -/
def C (x : Char) : UInt8 := (x.toNat - '@'.toNat).toUInt8

/-- `'\n'` -/
def NEWLINE : UInt8 := '\n'.toNat.toUInt8

/-- The circular buffer `input`, with its read, write and edit index. -/
structure Input where
  buf : Fin INPUT_BUF → UInt8
  r : BitVec 32
  w : BitVec 32
  e : BitVec 32

/-- All characters in the buffer, those of the unfinished line included, as a queue. -/
def Input.ring (s : Input) : Fifo UInt8 INPUT_BUF 32 := ⟨s.buf, s.r, s.e⟩

/-! ### consoleintr -/

/-- The loop of `^U`. There are at most `e - w` iterations. -/
def killLine : Nat → Input → Input
  | 0, s => s
  | n + 1, s =>
    if s.e ≠ s.w ∧ s.buf (Fifo.cell INPUT_BUF (s.e - 1#32)) ≠ NEWLINE then
      killLine n { s with e := s.e - 1#32 }
    else
      s

/-- The switch of `consoleintr` for one character, and whether it calls `wakeup(&input.r)`. -/
def typeChar (s : Input) (c : UInt8) : Input × Bool :=
  if c = C 'P' then
    (s, false)
  else if c = C 'U' then
    (killLine (s.e - s.w).toNat s, false)
  else if c = C 'H' ∨ c = 0x7f then
    (if s.e ≠ s.w then { s with e := s.e - 1#32 } else s, false)
  else if c ≠ 0 ∧ (s.e - s.r).toNat < INPUT_BUF then
    let c := if c = '\r'.toNat.toUInt8 then NEWLINE else c
    let s := { s with buf := Function.update s.buf (Fifo.cell INPUT_BUF s.e) c, e := s.e + 1#32 }
    if c = NEWLINE ∨ c = C 'D' ∨ s.e = s.r + BitVec.ofNat 32 INPUT_BUF then
      ({ s with w := s.e }, true)
    else
      (s, false)
  else
    (s, false)

/-! ### consoleread -/

/-- `consoleread` returns, or goes to sleep with `n` characters still to read. -/
inductive Outcome
  | ret (v : Int)
  | sleep (n : Nat)
  deriving DecidableEq

/-- The loop of `consoleread` from where `n` characters are still to read, up to its return or the call
of `sleep`; in the middle are the characters written to `dst`. -/
def readLoop (killed : Bool) (target : Nat) : Nat → Input → Input × List UInt8 × Outcome
  | 0, s => (s, [], .ret target)
  | n + 1, s =>
    if s.r = s.w then
      (s, [], if killed then .ret (-1) else .sleep (n + 1))
    else
      let c := s.buf (Fifo.cell INPUT_BUF s.r)
      let s := { s with r := s.r + 1#32 }
      if c = C 'D' then
        -- `^D` is saved for the next call if this one has read something
        (if n + 1 < target then { s with r := s.r - 1#32 } else s, [],
          .ret (target - (n + 1 : Nat)))
      else if c = NEWLINE then
        (s, [c], .ret (target - n))
      else
        let (s, dst, out) := readLoop killed target n s
        (s, c :: dst, out)

/-! ### Processes -/

/-- A call of `consoleread` that has gone to sleep. -/
structure Reader where
  target : Nat
  n : Nat
  asleep : Bool

/-- The console, and the processes of `P` that are reading from it. -/
structure State (P : Type*) where
  input : Input
  killed : P → Bool
  reader : P → Option Reader

/-- What a process sees of the console: a character in its buffer, or the return of `consoleread`. -/
inductive Output (P : Type*)
  | write (p : P) (c : UInt8)
  | ret (p : P) (v : Int)

inductive Event (P : Type*)
  /-- An interrupt: `getc` returns the characters one by one, and then -1. -/
  | intr (cs : List UInt8)
  /-- A process calls `consoleread`. -/
  | read (p : P) (n : Int32)
  /-- A process comes back from `sleep`. -/
  | resume (p : P)
  | kill (p : P)

variable {P : Type*}

/-- `wakeup(&input.r)` -/
def State.wakeup (s : State P) : State P :=
  { s with reader := fun p => (s.reader p).map fun rd => { rd with asleep := false } }

/-- One turn of the loop of `consoleintr`. -/
def State.type (s : State P) (c : UInt8) : State P :=
  let (input, wake) := typeChar s.input c
  if wake then State.wakeup { s with input := input } else { s with input := input }

def State.consoleintr (s : State P) (cs : List UInt8) : State P := cs.foldl State.type s

/-- The outputs of a stretch of `consoleread`. -/
def outputs (p : P) (dst : List UInt8) : Outcome → List (Output P)
  | .ret v => dst.map (.write p) ++ [.ret p v]
  | .sleep _ => dst.map (.write p)

variable [DecidableEq P]

/-- `consoleread` runs in process `p` until it returns or sleeps. -/
def State.consoleread (s : State P) (p : P) (target n : Nat) : State P × List (Output P) :=
  let (input, dst, out) := readLoop (s.killed p) target n s.input
  let rd := match out with
    | .ret _ => none
    | .sleep n => some ⟨target, n, true⟩
  ({ s with input := input, reader := Function.update s.reader p rd }, outputs p dst out)

/-- One event. An event that cannot happen, such as the return from `sleep` of a process that is
asleep, changes nothing. -/
def State.step (s : State P) : Event P → State P × List (Output P)
  | .intr cs => (s.consoleintr cs, [])
  | .read p n =>
    match s.reader p with
    | none => s.consoleread p n.toInt.toNat n.toInt.toNat
    | some _ => (s, [])
  | .resume p =>
    match s.reader p with
    | some ⟨target, n, false⟩ => s.consoleread p target n
    | _ => (s, [])
  | .kill p =>
    ({ s with
        killed := Function.update s.killed p true
        reader := Function.update s.reader p
          ((s.reader p).map fun rd => { rd with asleep := false }) }, [])

/-- The state and all outputs after a sequence of events. -/
def State.run (s : State P) : List (Event P) → State P × List (Output P)
  | [] => (s, [])
  | ev :: evs =>
    let (s, out) := s.step ev
    let (s, outs) := s.run evs
    (s, out ++ outs)

/-- The console after boot. -/
def State.init : State P := ⟨⟨fun _ => 0, 0, 0, 0⟩, fun _ => false, fun _ => none⟩

end Xv6.Console
