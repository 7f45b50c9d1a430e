import Xv6.Pipe.Calls

/-!
# Wakeups on pipes

A reader sleeps while the pipe is empty and a writer while it is full, so whoever changes that has
to wake them before the lock is free again. All ways out of `piperead` and `pipeclose` do. So does
`pipewrite`, except where it returns -1: a killed writer that has just filled an empty pipe leaves
without a `wakeup`, and a reader that sleeps then sleeps on beside 512 bytes.
-/

namespace Xv6.Pipe

open TransitionSystem

variable {P : Type*}

/-- With the lock free, who sleeps has a reason to. -/
def NoLostWakeup (s : State P) : Prop :=
  s.lock = none →
    (∀ p, s.asleep p = some .nread → s.ring.IsEmpty ∧ s.writeopen = true) ∧
    (∀ p, s.asleep p = some .nwrite → s.ring.IsFull ∧ s.readopen = true)

/-- When a `pipewrite` gives up on a full pipe, nobody is asleep on `nread`. -/
def NoReaderAsleep (s : State P) (a : Act P) : Prop :=
  ∀ p c, a = .go p → s.pc p = .writeFail c → ∀ q, s.asleep q ≠ some .nread

/-! ### The invariant -/

/-- The process is going to wake the sleepers before it releases the lock, or it should. -/
def Pc.Owes : Chan → Pc → Prop
  | .nread, .write _ _ | .nread, .writeFull _ _ | .nread, .writeDone _ | .nread, .writeFail _
  | .nread, .closeWake true => True
  | .nwrite, .copy _ _ | .nwrite, .readDone _ _ | .nwrite, .closeWake false => True
  | _, _ => False

/-- What the holder of the lock has found out about the pipe. -/
def Pc.Knows (s : State P) : Pc → Prop
  | .writeFull _ _ | .writeSleep _ _ => s.ring.IsFull ∧ s.readopen = true
  | .writeFail _ => s.ring.IsFull
  | .readSleep _ => s.ring.IsEmpty ∧ s.writeopen = true
  | _ => True

/-- There is a reason to sleep on the channel. -/
def State.Reason (s : State P) : Chan → Prop
  | .nread => s.ring.IsEmpty ∧ s.writeopen = true
  | .nwrite => s.ring.IsFull ∧ s.readopen = true

structure WakeInv (s : State P) : Prop extends Orderly s where
  knows : ∀ p, (s.pc p).Knows s
  reason : ∀ p c, s.asleep p = some c → s.Reason c ∨ ∃ h, s.lock = some h ∧ (s.pc h).Owes c

lemma WakeInv.noLostWakeup {s : State P} (h : WakeInv s) : NoLostWakeup s := by
  intro hfree
  have hall : ∀ p c, s.asleep p = some c → s.Reason c := by
    intro p c hp
    rcases h.reason p c hp with hr | ⟨q, hq, -⟩
    · exact hr
    · rw [hfree] at hq
      cases hq
  exact ⟨fun p hp => hall p .nread hp, fun p hp => hall p .nwrite hp⟩

lemma Pc.Resting.knows {s : State P} {pc : Pc} (h : pc.Resting) : pc.Knows s := by
  cases pc with
  | idle | write _ _ | read _ => trivial
  | _ => exact h.elim

lemma WakeInv.reason_of_lock {s : State P} {p q : P} {pc : Pc} {c : Chan} (h : WakeInv s)
    (hlock : s.lock = some p) (hpc : s.pc p = pc) (hq : s.asleep q = some c) :
    s.Reason c ∨ pc.Owes c := by
  subst hpc
  rcases h.reason q c hq with hr | ⟨r, hr, howes⟩
  · exact Or.inl hr
  · obtain rfl : p = r := Option.some.inj (hlock.symm.trans hr)
    exact Or.inr howes

variable [DecidableEq P]

/-- The holder of the lock moves on. -/
lemma WakeInv.go_pc {s s₁ : State P} {p : P} {pc : Pc} (h : WakeInv s) (hlock : s.lock = some p)
    (ht : Turn p s (s₁.setPc p pc)) (hlock₁ : s₁.lock = some p) (hknows : pc.Knows s₁)
    (hreason : ∀ q c, s₁.asleep q = some c → s₁.Reason c ∨ pc.Owes c) :
    WakeInv (s₁.setPc p pc) where
  toOrderly := h.toOrderly.of_turn hlock ht
  knows q := by
    by_cases hqp : q = p
    · rw [hqp, State.setPc_self]
      cases pc <;> exact hknows
    · rw [ht.others q hqp]
      exact (h.resting q fun hl => hqp (Option.some.inj (hl.symm.trans hlock))).knows
  reason q c hq := by
    rcases hreason q c hq with hr | howes
    · left
      cases c <;> exact hr
    · exact Or.inr ⟨p, hlock₁, by rwa [State.setPc_self]⟩

omit [DecidableEq P] in
/-- The holder of the lock gives it up. -/
lemma WakeInv.go_free {s s' : State P} {p : P} (h : WakeInv s) (hlock : s.lock = some p)
    (ht : Turn p s s') (hlock' : s'.lock = none)
    (hreason : ∀ q c, s'.asleep q = some c → s'.Reason c) : WakeInv s' where
  toOrderly := h.toOrderly.of_turn hlock ht
  knows q := ((h.toOrderly.of_turn hlock ht).resting q (by simp [hlock'])).knows
  reason q c hq := Or.inl (hreason q c hq)

omit [DecidableEq P] in
/-- After a `wakeup` the sleepers are those on the other channel. -/
lemma wakeup_some {s : State P} {c d : Chan} {q : P} (h : (s.wakeup c).asleep q = some d) :
    s.asleep q = some d ∧ d ≠ c := by
  simp only [State.wakeup] at h
  split_ifs at h with hc
  refine ⟨h, ?_⟩
  rintro rfl
  exact hc h

/-- The holder of the lock moves on, touches neither the pipe nor the sleepers, and owes at least
the same wakeups. -/
lemma WakeInv.go_same {s : State P} {p : P} {pc₀ pc : Pc} (h : WakeInv s)
    (hlock : s.lock = some p) (hpc : s.pc p = pc₀) (ht : Turn p s (s.setPc p pc))
    (hknows : pc.Knows s) (howes : ∀ c, pc₀.Owes c → pc.Owes c) : WakeInv (s.setPc p pc) :=
  h.go_pc hlock ht hlock hknows fun _ c hq => (h.reason_of_lock hlock hpc hq).imp_right (howes c)

/-- The holder of the lock wakes the sleepers on the only channel on which it owes a wakeup. -/
lemma WakeInv.go_wakeup {s : State P} {p : P} {pc₀ pc : Pc} {c : Chan} (h : WakeInv s)
    (hlock : s.lock = some p) (hpc : s.pc p = pc₀) (ht : Turn p s ((s.wakeup c).setPc p pc))
    (hknows : pc.Knows (s.wakeup c)) (howes : ∀ d, d ≠ c → ¬ pc₀.Owes d) :
    WakeInv ((s.wakeup c).setPc p pc) := by
  refine h.go_pc hlock ht hlock hknows fun q d hq => Or.inl ?_
  obtain ⟨hq, hne⟩ := wakeup_some hq
  rcases h.reason_of_lock hlock hpc hq with hr | ho
  · cases d <;> exact hr
  · exact absurd ho (howes d hne)

omit [DecidableEq P] in
/-- The holder of the lock, owing nothing, returns. -/
lemma WakeInv.go_leave {s s' : State P} {p : P} {pc : Pc} (h : WakeInv s)
    (hlock : s.lock = some p) (hpc : s.pc p = pc) (ht : Turn p s s') (hlock' : s'.lock = none)
    (hasleep : s'.asleep = s.asleep) (hreason : ∀ c, s.Reason c → s'.Reason c)
    (howes : ∀ q c, s.asleep q = some c → ¬ pc.Owes c) : WakeInv s' := by
  refine h.go_free hlock ht hlock' fun q c hq => ?_
  rw [hasleep] at hq
  rcases h.reason_of_lock hlock hpc hq with hr | ho
  · exact hreason c hr
  · exact absurd ho (howes q c hq)

/-- The holder of the lock, owing nothing, goes to sleep for a reason. -/
lemma WakeInv.go_sleep {s : State P} {p : P} {c : Chan} {pc₀ pc : Pc} (h : WakeInv s)
    (hlock : s.lock = some p) (hpc : s.pc p = pc₀) (ht : Turn p s (s.sleep p c pc))
    (hr : s.Reason c) (howes : ∀ d, ¬ pc₀.Owes d) : WakeInv (s.sleep p c pc) := by
  refine h.go_free hlock ht rfl fun q d hq => ?_
  have hrd : s.Reason d := by
    by_cases hqp : q = p
    · subst hqp
      obtain rfl : c = d := by simpa [State.sleep] using hq
      exact hr
    · have hq' : s.asleep q = some d := by
        simpa [State.sleep, Function.update_of_ne hqp] using hq
      exact (h.reason_of_lock hlock hpc hq').resolve_right (howes d)
  cases d <;> exact hrd

lemma WakeInv.step_go {s s' : State P} {p : P} (h : WakeInv s) (hlock : s.lock = some p)
    (hgo : s.go p = some s') (hC : NoReaderAsleep s (.go p)) : WakeInv s' := by
  have ht := h.toOrderly.turn hlock hgo
  have hk := h.knows p
  unfold State.go at hgo
  generalize hpc : s.pc p = pc at hgo hk
  cases pc with
  | idle => cases hgo
  | write c i =>
    cases hgo
    unfold State.goWrite at ht ⊢
    split_ifs at ht ⊢ with hi hfull hfail
    · refine h.go_same hlock hpc ht hfull ?_
      rintro (_ | _) ho <;> exact ho
    · refine h.go_same hlock hpc ht ⟨hfull, by simp_all⟩ ?_
      rintro (_ | _) ho <;> exact ho
    · refine h.go_pc hlock ht hlock trivial fun q d hq => ?_
      cases d with
      | nread => exact Or.inr trivial
      | nwrite =>
        -- a writer would be asleep only if the pipe were full
        rcases h.reason_of_lock hlock hpc hq with hr | ho
        · exact absurd hr.1 hfull
        · exact ho.elim
    · refine h.go_same hlock hpc ht trivial ?_
      rintro (_ | _) ho <;> exact ho
  | writeFull c i =>
    cases hgo
    refine h.go_wakeup hlock hpc ht hk ?_
    rintro (_ | _) hne ho
    · exact hne rfl
    · exact ho
  | writeSleep c i =>
    cases hgo
    refine h.go_sleep hlock hpc ht hk ?_
    rintro (_ | _) ho <;> exact ho
  | writeDone c =>
    cases hgo
    refine h.go_wakeup hlock hpc ht trivial ?_
    rintro (_ | _) hne ho
    · exact hne rfl
    · exact ho
  | writeFail c =>
    cases hgo
    refine h.go_leave hlock hpc ht rfl rfl (by rintro (_ | _) hr <;> exact hr) ?_
    rintro q (_ | _) hq ho
    · exact hC p c rfl hpc q hq
    · exact ho
  | writeReturn c | readFail n | readReturn n got =>
    cases hgo
    refine h.go_leave hlock hpc ht rfl rfl (by rintro (_ | _) hr <;> exact hr) ?_
    rintro q (_ | _) hq ho <;> exact ho
  | read n =>
    cases hgo
    unfold State.goRead at ht ⊢
    split_ifs at ht ⊢ with hempty hkilled
    · refine h.go_same hlock hpc ht trivial ?_
      rintro (_ | _) ho <;> exact ho.elim
    · refine h.go_same hlock hpc ht hempty ?_
      rintro (_ | _) ho <;> exact ho.elim
    · refine h.go_same hlock hpc ht trivial ?_
      rintro (_ | _) ho <;> exact ho.elim
  | readSleep n =>
    cases hgo
    refine h.go_sleep hlock hpc ht hk ?_
    rintro (_ | _) ho <;> exact ho
  | copy n got =>
    cases hgo
    unfold State.goCopy at ht ⊢
    split_ifs at ht ⊢ with hn hempty
    · refine h.go_same hlock hpc ht trivial ?_
      rintro (_ | _) ho <;> exact ho
    · refine h.go_pc hlock ht hlock trivial fun q d hq => ?_
      cases d with
      | nread =>
        -- a reader would be asleep only if the pipe were empty
        rcases h.reason_of_lock hlock hpc hq with hr | ho
        · exact absurd hr.1 hempty
        · exact ho.elim
      | nwrite => exact Or.inr trivial
    · refine h.go_same hlock hpc ht trivial ?_
      rintro (_ | _) ho <;> exact ho
  | readDone n got =>
    cases hgo
    refine h.go_wakeup hlock hpc ht trivial ?_
    rintro (_ | _) hne ho
    · exact ho
    · exact hne rfl
  | close writable =>
    cases writable with
    | true =>
      cases hgo
      refine h.go_pc hlock ht hlock trivial fun q d hq => ?_
      cases d with
      | nread => exact Or.inr trivial
      | nwrite => exact Or.inl ((h.reason_of_lock hlock hpc hq).resolve_right id)
    | false =>
      cases hgo
      refine h.go_pc hlock ht hlock trivial fun q d hq => ?_
      cases d with
      | nread => exact Or.inl ((h.reason_of_lock hlock hpc hq).resolve_right id)
      | nwrite => exact Or.inr trivial
  | closeWake writable =>
    cases hgo
    refine h.go_wakeup hlock hpc ht trivial ?_
    rintro (_ | _) hne ho <;> cases writable
    · exact ho
    · exact hne rfl
    · exact hne rfl
    · exact ho
  | closeReturn =>
    cases hgo
    refine h.go_leave hlock hpc ht rfl rfl (by rintro (_ | _) hr <;> exact hr) ?_
    rintro q (_ | _) hq ho <;> exact ho

omit [DecidableEq P] in
/-- A process takes the free lock. -/
lemma WakeInv.entered {s s' : State P} {p : P} (h : WakeInv s) (ho : Orderly s')
    (hfree : s.lock = none) (hlock : s'.lock = some p) (hasleep : s'.asleep = s.asleep)
    (hknows : (s'.pc p).Knows s') (hreason : ∀ c, s.Reason c → s'.Reason c) : WakeInv s' where
  toOrderly := ho
  knows q := by
    by_cases hqp : q = p
    · rw [hqp]
      exact hknows
    · exact (ho.resting q fun hl => hqp (Option.some.inj (hl.symm.trans hlock))).knows
  reason q c hq := by
    rw [hasleep] at hq
    rcases h.reason q c hq with hr | ⟨r, hr, -⟩
    · exact Or.inl (hreason c hr)
    · rw [hfree] at hr
      cases hr

lemma WakeInv.step {s s' : State P} {a : Act P} (h : WakeInv s) (hC : NoReaderAsleep s a)
    (hs : s.Step a s') : WakeInv s' := by
  have ho := h.toOrderly.step hs
  cases hs.moved with
  | pipewrite he | piperead he | pipeclose he =>
    refine h.entered ho he.1 rfl rfl ?_ (by rintro (_ | _) hr <;> exact hr)
    simp [State.enter, Pc.Knows]
  | go hl hg => exact h.step_go hl hg hC
  | @resume p hc =>
    exact h.entered ho hc.1 rfl rfl (h.resting p (by simp [hc.1])).knows
      (by rintro (_ | _) hr <;> exact hr)
  | @kill p =>
    refine ⟨ho, fun q => h.knows q, fun q c hq => ?_⟩
    have hq' : s.asleep q = some c := by
      by_cases hqp : q = p
      · subst hqp
        simp [State.kill] at hq
      · simpa [State.kill, Function.update_of_ne hqp] using hq
    rcases h.reason q c hq' with hr | hr
    · left
      cases c <;> exact hr
    · exact Or.inr hr

/-- From a state of the invariant, a `pipewrite` that gives up beside a sleeping reader loses the
wakeup. -/
lemma WakeInv.noReaderAsleep {s s' : State P} {a : Act P} (h : WakeInv s) (hs : s.Step a s')
    (hgood : NoLostWakeup s') : NoReaderAsleep s a := by
  rintro p c rfl hpc q hq
  have hfull : s.ring.IsFull := by
    have hk := h.knows p
    rwa [hpc] at hk
  cases hs.moved with
  | go hl hg =>
    simp only [State.go, hpc, Option.some.injEq] at hg
    subst hg
    have hempty : s.ring.IsEmpty := ((hgood rfl).1 q hq).1
    exact Fifo.not_isEmpty_of_isFull hfull hempty

omit [DecidableEq P] in
lemma wakeInv_pipealloc (data : Fin PIPESIZE → UInt8) (killed : P → Bool) :
    WakeInv (State.pipealloc data killed) where
  toOrderly := orderly_pipealloc data killed
  knows _ := trivial
  reason p c hp := by simp [State.pipealloc] at hp

/-- In a run on a new pipe no wakeup is lost exactly when nobody is asleep on `nread` whenever a
`pipewrite` gives up on a full pipe. -/
theorem noLostWakeup_iff {data : Fin PIPESIZE → UInt8} {killed : P → Bool} {s : State P}
    {tr : List (State P × Act P)} (hr : Run State.Step (State.pipealloc data killed) tr s) :
    AllStates NoLostWakeup tr s ↔ AllSteps NoReaderAsleep tr :=
  hr.allStates_iff (fun _ h => h.noLostWakeup) (fun _ _ _ h hC hs => h.step hC hs)
    (fun _ _ _ h hs hgood => h.noReaderAsleep hs hgood) (wakeInv_pipealloc data killed)

/-- `pipewrite` is about to return -1. -/
def Pc.fails : Pc → Bool
  | .writeFail _ => true
  | _ => false

/-- A reader falls asleep, a writer stores a byte and wakes it, and the reader returns the byte. -/
theorem noLostWakeup_one_byte :
    ∃ (s : State Bool) (tr : List (State Bool × Act Bool)),
      Run State.Step (State.pipealloc (fun _ => 0) fun _ => false) tr s ∧ s.returned = [7] ∧
      AllSteps NoReaderAsleep tr ∧ AllStates NoLostWakeup tr s := by
  obtain ⟨tr, s, hr, -, hs, hall⟩ := Run.of_follow_if (f := State.step)
    (C := fun s _ => ∀ p, (s.pc p).fails = false)
    (s := State.pipealloc (fun _ => 0) fun _ => false) (g := fun s => s.returned)
    (l := [.piperead false 1, .go false, .go false, .pipewrite true (fun _ => 7) 1, .go true,
      .go true, .go true, .go true, .resume false, .go false, .go false, .go false, .go false,
      .go false]) (b := [7]) (by decide +kernel)
  have hasleep : AllSteps NoReaderAsleep tr := by
    intro x hx p c _ hpc
    have := hall x hx p
    rw [hpc] at this
    cases this
  exact ⟨s, tr, hr, hs, hasleep, (noLostWakeup_iff hr).mpr hasleep⟩

/-! ### A lost wakeup -/

/-- The actions of the counterexample: a reader falls asleep, a writer is killed after it got the
lock, stores 512 bytes, finds the pipe full and returns -1. -/
def fillAndGiveUp : List (Act Bool) :=
  [.piperead false 1, .go false, .go false, .pipewrite true (fun _ => 0) 513, .kill true] ++
    List.replicate PIPESIZE (.go true) ++ [.go true, .go true]

/-- The killed writer is gone, the lock is free, the pipe is full, and the reader still sleeps. -/
theorem wakeup_lost_by_killed_writer :
    ∃ (s : State Bool) (tr : List (State Bool × Act Bool)),
      Run State.Step (State.pipealloc (fun _ => 0) fun _ => false) tr s ∧
      tr.map Prod.snd = fillAndGiveUp ∧ s.lock = none ∧ s.asleep false = some .nread ∧
      ¬ s.ring.IsEmpty ∧ ¬ AllStates NoLostWakeup tr s := by
  have hrun : (follow State.step (State.pipealloc (fun _ => 0) fun _ => false)
      fillAndGiveUp).map (fun s => (s.lock, s.asleep false, decide s.ring.IsEmpty)) =
      some (none, some .nread, false) := by decide +kernel
  obtain ⟨s, hs, h⟩ := Option.map_eq_some_iff.mp hrun
  obtain ⟨tr, hr, htr⟩ := Run.of_follow hs
  simp only [Prod.mk.injEq, decide_eq_false_iff_not] at h
  obtain ⟨hlock, hasleep, hempty⟩ := h
  refine ⟨s, tr, hr, htr, hlock, hasleep, hempty, fun hall => ?_⟩
  exact hempty ((hall.2 hlock).1 false hasleep).1

end Xv6.Pipe
