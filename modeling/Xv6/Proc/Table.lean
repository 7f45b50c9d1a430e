import Mathlib.Algebra.GroupWithZero.Nat
import Mathlib.Data.Fintype.Pi
import Xv6.Lib.Run

/-!
# The process table

The scheduler's part of `struct proc` and the operations of `proc.c` that read or write it under
`ptable.lock`: choosing a pid, taking a slot, waking sleepers, and the table updates made by `exit`
and `wait`. A `struct proc *` is the index of its slot in `ptable.proc`.
-/

namespace Xv6

/-- Maximum number of processes. -/
def NPROC : Nat := 64

instance : NeZero NPROC := ⟨by decide⟩

/-- A pointer into `ptable.proc`. -/
abbrev Slot := Fin NPROC

inductive ProcState
  | unused | embryo | sleeping | runnable | running | zombie
  deriving DecidableEq, Repr

/-- The addresses a process may sleep on: `wait` sleeps on the process's own slot. -/
inductive Chan
  | proc (p : Slot)
  | other (addr : Nat)
  deriving DecidableEq, Repr

structure Proc where
  state : ProcState
  pid : Int
  parent : Option Slot
  chan : Option Chan
  killed : Bool
  deriving DecidableEq, Repr

abbrev PTable := Slot → Proc

/-- Ways in which the kernel stops: a `panic`, C code with no defined meaning, or a process that
waits for a lock of its own. -/
inductive Fault
  | panic (msg : String)
  | outOfBounds
  | nullDeref
  | uninitialized
  | deadlock
  deriving DecidableEq, Repr

/-! ### Choosing a pid -/

/-- `pids[p->pid] = 1` for one slot; an index outside the array has no meaning. -/
def markPid (pids : Slot → Bool) (p : Proc) : Except Fault (Slot → Bool) :=
  if p.state = .unused then
    .ok pids
  else if h : 0 ≤ p.pid ∧ p.pid < NPROC then
    .ok (Function.update pids ⟨p.pid.toNat, by omega⟩ true)
  else
    .error .outOfBounds

def markPids (t : PTable) : List Slot → (Slot → Bool) → Except Fault (Slot → Bool)
  | [], pids => .ok pids
  | i :: l, pids =>
    match markPid pids (t i) with
    | .ok pids' => markPids t l pids'
    | .error e => .error e

/-- The smallest index whose `pids` entry is still 0, or -1. -/
def smallestFree (pids : Slot → Bool) : Int :=
  match (List.finRange NPROC).find? (fun i => !pids i) with
  | some i => i.val
  | none => -1

/-- `get_smallest_pid`. -/
def getSmallestPid (t : PTable) : Except Fault Int :=
  match markPids t (List.finRange NPROC) (fun _ => false) with
  | .ok pids => .ok (smallestFree pids)
  | .error e => .error e

/-- The pids that `get_smallest_pid` finds in use are all valid indices of its array. -/
def PidsInRange (t : PTable) : Prop :=
  ∀ i, (t i).state ≠ .unused → 0 ≤ (t i).pid ∧ (t i).pid < NPROC

/-- Some slot in use holds the pid `k`. -/
def PidUsed (t : PTable) (k : Int) : Prop :=
  ∃ i, (t i).state ≠ .unused ∧ (t i).pid = k

lemma markPids_ok {t : PTable} (ht : PidsInRange t) (l : List Slot) (pids : Slot → Bool) :
    ∃ pids', markPids t l pids = .ok pids' ∧
      ∀ k, pids' k = true ↔
        pids k = true ∨ ∃ i ∈ l, (t i).state ≠ .unused ∧ (t i).pid = (k.val : Int) := by
  induction l generalizing pids with
  | nil => exact ⟨pids, rfl, by simp⟩
  | cons i l ih =>
    by_cases hi : (t i).state = .unused
    · obtain ⟨pids', heq, hmem⟩ := ih pids
      refine ⟨pids', by simp [markPids, markPid, hi, heq], fun k => ?_⟩
      rw [hmem k]
      simp [hi]
    · have hr := ht i hi
      obtain ⟨pids', heq, hmem⟩ :=
        ih (Function.update pids ⟨(t i).pid.toNat, by omega⟩ true)
      refine ⟨pids', by simp [markPids, markPid, hi, hr, heq], fun k => ?_⟩
      rw [hmem k]
      by_cases hk : k = ⟨(t i).pid.toNat, by omega⟩
      · subst hk
        simp only [Function.update_self, true_or, List.mem_cons, true_iff]
        exact Or.inr ⟨i, Or.inl rfl, hi, by simp [hr.1]⟩
      · have hne : (t i).pid ≠ (k.val : Int) := by
          intro he
          exact hk (Fin.ext (by simp [he]))
        simp [Function.update_of_ne hk, hne]

/-- With all pids in range the call stays inside its array; it returns the smallest pid that no
slot in use holds, or -1 when every index is taken. -/
lemma getSmallestPid_ok {t : PTable} (ht : PidsInRange t) :
    ∃ v, getSmallestPid t = .ok v ∧
      ((v = -1 ∧ ∀ k : Slot, PidUsed t k.val) ∨
        (0 ≤ v ∧ v < NPROC ∧ ¬ PidUsed t v ∧ ∀ k : Int, 0 ≤ k → k < v → PidUsed t k)) := by
  obtain ⟨pids, heq, hmem⟩ := markPids_ok ht (List.finRange NPROC) (fun _ => false)
  simp only [Bool.false_eq_true, List.mem_finRange, true_and, false_or] at hmem
  refine ⟨smallestFree pids, by simp [getSmallestPid, heq], ?_⟩
  unfold smallestFree
  cases hf : (List.finRange NPROC).find? (fun i => !pids i) with
  | none =>
    rw [List.find?_eq_none] at hf
    refine Or.inl ⟨rfl, fun k => (hmem k).mp ?_⟩
    simpa using hf k (List.mem_finRange k)
  | some i =>
    rw [List.find?_eq_some_iff_getElem] at hf
    obtain ⟨hi, n, hn, hget, hlt⟩ := hf
    have hni : n = i.val := by simpa using congrArg Fin.val hget
    dsimp only
    refine Or.inr ⟨by simp, by have := i.isLt; omega, ?_, ?_⟩
    · intro hu
      rw [(hmem i).mpr hu] at hi
      simp at hi
    · intro k hk0 hki
      have hk : k.toNat < n := by omega
      have := hlt k.toNat hk
      simp only [List.getElem_finRange, Bool.not_not] at this
      have hkk := (hmem _).mp this
      simpa [PidUsed, Int.toNat_of_nonneg hk0] using hkk

lemma markPids_inRange {t : PTable} {l : List Slot} {pids pids' : Slot → Bool}
    (h : markPids t l pids = .ok pids') :
    ∀ i ∈ l, (t i).state ≠ .unused → 0 ≤ (t i).pid ∧ (t i).pid < NPROC := by
  induction l generalizing pids with
  | nil => simp
  | cons j l ih =>
    unfold markPids at h
    split at h
    · next pids₁ hj =>
      intro i hi hstate
      rcases List.mem_cons.mp hi with rfl | hi
      · unfold markPid at hj
        rw [if_neg hstate] at hj
        split at hj
        · assumption
        · simp at hj
      · exact ih h i hi hstate
    · simp at h

/-- The pid that the call returns is not that of a slot in use. -/
lemma getSmallestPid_fresh {t : PTable} {v : Int} (h : getSmallestPid t = .ok v) {i : Slot}
    (hi : (t i).state ≠ .unused) : (t i).pid ≠ v := by
  have hrange : PidsInRange t := by
    unfold getSmallestPid at h
    split at h
    · next pids hpids => exact fun i => markPids_inRange hpids i (List.mem_finRange i)
    · simp at h
  obtain ⟨v', hv', hcase⟩ := getSmallestPid_ok hrange
  obtain rfl : v' = v := Except.ok.inj (hv'.symm.trans h)
  rintro rfl
  rcases hcase with ⟨hneg, -⟩ | ⟨-, -, hfree, -⟩
  · have := (hrange i hi).1
    omega
  · exact hfree ⟨i, hi, rfl⟩

/-! ### Taking a slot -/

def firstUnused (t : PTable) : Option Slot :=
  (List.finRange NPROC).find? (fun i => (t i).state = .unused)

lemma firstUnused_some {t : PTable} {i : Slot} (h : firstUnused t = some i) :
    (t i).state = .unused := by
  simpa using List.find?_some h

lemma firstUnused_none {t : PTable} (h : firstUnused t = none) (i : Slot) :
    (t i).state ≠ .unused := by
  simpa using List.find?_eq_none.mp h i (List.mem_finRange i)

/-- The table when `allocproc` calls `get_smallest_pid`: the slot is already EMBRYO, with the pid
its last user left in it. -/
def claimSlot (t : PTable) (i : Slot) : PTable :=
  Function.update t i { t i with state := .embryo }

/-- `allocproc` up to its `release(&ptable.lock)`: the slot taken, if any, and the new table. -/
def allocproc (t : PTable) : Except Fault (Option Slot × PTable) :=
  match firstUnused t with
  | none => .ok (none, t)
  | some i =>
    match getSmallestPid (claimSlot t i) with
    | .ok pid => .ok (some i, Function.update t i { t i with state := .embryo, pid := pid })
    | .error e => .error e

/-- `allocproc` takes an unused slot and gives it another pid than the one left in it. -/
lemma allocproc_pid {t t' : PTable} {q : Slot} (h : allocproc t = .ok (some q, t')) :
    (t q).state = .unused ∧ (t' q).pid ≠ (t q).pid := by
  unfold allocproc at h
  split at h
  · simp at h
  · next i hi =>
    split at h
    · next v hv =>
      simp only [Except.ok.injEq, Prod.mk.injEq, Option.some.injEq] at h
      obtain ⟨rfl, rfl⟩ := h
      refine ⟨firstUnused_some hi, fun heq => ?_⟩
      rw [Function.update_self] at heq
      have hclaim : (claimSlot t i i).state ≠ .unused := by simp [claimSlot]
      refine getSmallestPid_fresh hv hclaim ?_
      simp only [claimSlot, Function.update_self]
      exact heq.symm
    · simp at h

lemma allocproc_full {t t' : PTable} (h : allocproc t = .ok (none, t')) (i : Slot) :
    (t i).state ≠ .unused := by
  unfold allocproc at h
  split at h
  · next hi => exact firstUnused_none hi i
  · split at h
    · simp at h
    · simp at h

/-! ### Sleeping and waking -/

/-- `wakeup1`: every process asleep on the channel becomes RUNNABLE. -/
def wakeup1 (c : Option Chan) (t : PTable) : PTable := fun i =>
  if (t i).state = .sleeping ∧ (t i).chan = c then { t i with state := .runnable } else t i

/-- `sleep` under `ptable.lock`. -/
def sleepOn (c : Chan) (p : Slot) (t : PTable) : PTable :=
  Function.update t p { t p with chan := some c, state := .sleeping }

/-- `kill`: the first slot with the pid, whatever its state. -/
def kill (pid : Int) (t : PTable) : Option Slot × PTable :=
  match (List.finRange NPROC).find? (fun i => (t i).pid = pid) with
  | none => (none, t)
  | some i =>
    (some i, Function.update t i
      { t i with
        killed := true
        state := if (t i).state = .sleeping then .runnable else (t i).state })

/-! ### Exit and wait -/

/-- The children of `p` pass to `initproc`, which is woken for each one already dead. -/
def abandonChildren (initproc p : Slot) : List Slot → PTable → PTable
  | [], t => t
  | i :: l, t =>
    if (t i).parent = some p then
      let t' := Function.update t i { t i with parent := some initproc }
      abandonChildren initproc p l
        (if (t' i).state = .zombie then wakeup1 (some (.proc initproc)) t' else t')
    else
      abandonChildren initproc p l t

/-- What each pass of the loop keeps, the loop keeps. -/
lemma abandonChildren_keeps {R : PTable → PTable → Prop} {initproc p : Slot} (hrefl : ∀ t, R t t)
    (htrans : ∀ {t t' t''}, R t t' → R t' t'' → R t t'')
    (hparent : ∀ t i, R t (Function.update t i { t i with parent := some initproc }))
    (hwakeup : ∀ t, R t (wakeup1 (some (.proc initproc)) t)) (l : List Slot) (t : PTable) :
    R t (abandonChildren initproc p l t) := by
  induction l generalizing t with
  | nil => exact hrefl t
  | cons i l ih =>
    simp only [abandonChildren]
    split
    · refine htrans (hparent t i) (htrans ?_ (ih _))
      split
      · exact hwakeup _
      · exact hrefl _
    · exact ih t

/-- The table part of `exit`, under `ptable.lock`. -/
def exitTable (initproc p : Slot) (t : PTable) : PTable :=
  let t := wakeup1 ((t p).parent.map .proc) t
  let t := abandonChildren initproc p (List.finRange NPROC) t
  Function.update t p { t p with state := .zombie }

/-- What one scan of `wait` finds. -/
inductive WaitResult
  | reaped (child : Slot)
  | noChildren
  | block
  deriving DecidableEq, Repr

/-- One pass of `wait` over the table. -/
def waitScan (t : PTable) (p : Slot) : WaitResult :=
  match (List.finRange NPROC).find? (fun i => (t i).parent = some p ∧ (t i).state = .zombie) with
  | some i => .reaped i
  | none =>
    if (List.finRange NPROC).all (fun i => (t i).parent ≠ some p) ∨ (t p).killed then
      .noChildren
    else
      .block

/-- The slot of a reaped child, as `wait` leaves it. -/
def reapSlot (i : Slot) (t : PTable) : PTable :=
  Function.update t i { t i with pid := 0, parent := none, killed := false, state := .unused }

end Xv6
