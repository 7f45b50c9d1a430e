import Xv6.Proc.Pid

/-!
# Killing a process

`kill` marks the first slot that holds the pid, whatever its state. Unused slots hold pids too: 0 at
first and after `wait`, another one after a `fork` that failed. A mark on an unused slot stays there
until `allocproc` takes the slot, which does not clear it. So `kill` is exact, and processes start
without the mark, exactly when no pid is named that an unused slot holds before any live process.
-/

namespace Xv6

open TransitionSystem

variable {s s' : PState} {a : PAct} {t : PTable} {pid : Int} {i : Slot}

/-- `kill` returns 0 exactly when a process has the pid, and marks and wakes that process only. -/
structure KillExact (t : PTable) (pid : Int) : Prop where
  returns : (kill pid t).1 ≠ none ↔ ∃ i, (t i).state ≠ .unused ∧ (t i).pid = pid
  changes : ∀ i, (kill pid t).2 i =
    if (t i).state ≠ .unused ∧ (t i).pid = pid then
      { t i with
        killed := true
        state := if (t i).state = .sleeping then .runnable else (t i).state }
    else t i

/-- Before an unused slot with the pid there is a process with it. -/
def NoStalePid (t : PTable) (pid : Int) : Prop :=
  ∀ i, (t i).state = .unused → (t i).pid = pid →
    ∃ j, j < i ∧ (t j).state ≠ .unused ∧ (t j).pid = pid

/-- The processes have different pids. -/
def DistinctPids (t : PTable) : Prop :=
  ∀ i j, (t i).state ≠ .unused → (t j).state ≠ .unused → (t i).pid = (t j).pid → i = j

/-- The first slot with the pid. -/
lemma find_pid_some (h : (List.finRange NPROC).find? (fun i => (t i).pid = pid) = some i) :
    (t i).pid = pid ∧ ∀ j, j < i → (t j).pid ≠ pid := by
  obtain ⟨hi, n, hn, hget, hlt⟩ := List.find?_eq_some_iff_getElem.mp h
  have hni : n = i.val := by simpa using congrArg Fin.val hget
  refine ⟨by simpa using hi, fun j hj heq => ?_⟩
  have := hlt j.val (by rw [hni]; exact hj)
  simp only [List.getElem_finRange, Bool.not_eq_true', decide_eq_false_iff_not] at this
  exact this heq

lemma find_pid_none (h : (List.finRange NPROC).find? (fun i => (t i).pid = pid) = none) (i : Slot) :
    (t i).pid ≠ pid := by
  simpa using List.find?_eq_none.mp h i (List.mem_finRange i)

/-- A slot that `kill` finds is in use when no unused slot comes first. -/
lemma NoStalePid.found (h : NoStalePid t pid)
    (hfind : (List.finRange NPROC).find? (fun i => (t i).pid = pid) = some i) :
    (t i).state ≠ .unused := by
  obtain ⟨hpid, hfirst⟩ := find_pid_some hfind
  intro hunused
  obtain ⟨j, hj, -, hjpid⟩ := h i hunused hpid
  exact hfirst j hj hjpid

/-- The slot that `kill` finds, when it is in use, is that of the process with the pid. -/
lemma killExact_of_found (hd : DistinctPids t)
    (hfind : (List.finRange NPROC).find? (fun i => (t i).pid = pid) = some i)
    (hi : (t i).state ≠ .unused) : KillExact t pid := by
  have hpid := (find_pid_some hfind).1
  refine ⟨?_, fun j => ?_⟩
  · rw [kill, hfind]
    exact iff_of_true (Option.some_ne_none _) ⟨i, hi, hpid⟩
  · rw [kill, hfind]
    dsimp only
    by_cases hji : j = i
    · rw [hji, Function.update_self, if_pos (And.intro hi hpid)]
    · rw [Function.update_of_ne hji, if_neg]
      rintro ⟨hj, hjpid⟩
      exact hji (hd j i hj hi (hjpid.trans hpid.symm))

/-- As long as unused slots are not marked, `kill` is exact only if it does not mark one. -/
lemma killExact_iff (hd : DistinctPids t)
    (hunmarked : ∀ i, (t i).state = .unused → (t i).killed = false) (pid : Int) :
    KillExact t pid ↔ NoStalePid t pid := by
  cases hfind : (List.finRange NPROC).find? (fun i => (t i).pid = pid) with
  | none =>
    have hno := find_pid_none hfind
    refine iff_of_true ⟨?_, fun i => ?_⟩ fun i _ hi => absurd hi (hno i)
    · rw [kill, hfind]
      refine iff_of_false (fun h => h rfl) ?_
      rintro ⟨i, -, hi⟩
      exact hno i hi
    · rw [kill, hfind, if_neg (fun h => hno i h.2)]
  | some i =>
    refine ⟨fun h j hj hjpid => ?_, fun h => killExact_of_found hd hfind (h.found hfind)⟩
    obtain ⟨hpid, hfirst⟩ := find_pid_some hfind
    have hi : (t i).state ≠ .unused := by
      intro hi
      have hchange := congrArg Proc.killed (h.changes i)
      rw [kill, hfind, if_neg (fun hc => hc.1 hi), hunmarked i hi] at hchange
      simp at hchange
    refine ⟨i, ?_, hi, hpid⟩
    rcases lt_trichotomy i j with hlt | heq | hgt
    · exact hlt
    · exact absurd (heq ▸ hj) hi
    · exact absurd hjpid (hfirst j hgt)

/-! ### What a step does to pids and marks -/

/-- The marks that `kill` sets. -/
def SameMarks (t t' : PTable) : Prop := ∀ i, (t' i).killed = (t i).killed

lemma SameMarks.trans {t' t'' : PTable} (h : SameMarks t t') (h' : SameMarks t' t'') :
    SameMarks t t'' := fun i => (h' i).trans (h i)

lemma SameMarks.update {p : Proc} (h : p.killed = (t i).killed) :
    SameMarks t (Function.update t i p) := by
  intro j
  by_cases hj : j = i
  · rw [hj, Function.update_self, h]
  · rw [Function.update_of_ne hj]

lemma wakeup1_sameMarks (c : Option Chan) (t : PTable) : SameMarks t (wakeup1 c t) := by
  intro i
  unfold wakeup1
  split_ifs <;> rfl

lemma abandonChildren_sameMarks (initproc p : Slot) (l : List Slot) (t : PTable) :
    SameMarks t (abandonChildren initproc p l t) :=
  abandonChildren_keeps (R := SameMarks) (fun _ _ => rfl) SameMarks.trans (fun _ _ => .update rfl)
    (wakeup1_sameMarks _) l t

lemma exitTable_sameMarks (initproc p : Slot) (t : PTable) :
    SameMarks t (exitTable initproc p t) := by
  have h := (wakeup1_sameMarks ((t p).parent.map .proc) t).trans
    (abandonChildren_sameMarks initproc p (List.finRange NPROC) _)
  exact h.trans (SameMarks.update rfl)

namespace PState

/-- What a step does to the pids, the marks and the slots in use. -/
inductive Effect (s : PState) : PAct → PState → Prop
  | keeps {a : PAct} {t : PTable} (ids : SameIds s.table t) (marks : SameMarks s.table t) :
      Effect s a { s with table := t }
  | takes {p i : Slot} {v : Int} (unused : (s.table i).state = .unused)
      (fresh : ∀ j, j ≠ i → (s.table j).state ≠ .unused → (s.table j).pid ≠ v) :
      Effect s (.fork p) { s with
        table := Function.update s.table i { s.table i with state := .embryo, pid := v }
        forking := Function.update s.forking p (some i) }
  | gives {a : PAct} {p np : Slot} (forking : s.forking p = some np) :
      Effect s a (s.abandonFork p np)
  | finishes {p np : Slot} (forking : s.forking p = some np) :
      Effect s (.forked p) (s.finishFork p np)
  | reaps {p i : Slot} (zombie : (s.table i).state = .zombie) :
      Effect s (.wait p) { s with table := reapSlot i s.table }
  | kills (pid : Int) : Effect s (.kill pid) { s with table := (Xv6.kill pid s.table).2 }

lemma Step.effect (hstep : s.Step a s') : Effect s a s' := by
  cases hstep.outcome with
  | full | childless => exact .keeps (SameIds.refl _) fun _ => rfl
  | @took p i v hf hv =>
    refine .takes (firstUnused_some hf) fun j hj hlive => ?_
    have hpid := getSmallestPid_fresh hv (i := j)
    rw [claimSlot, Function.update_of_ne hj] at hpid
    exact hpid hlive
  | noStack hp | noCopy hp => exact .gives hp
  | forked hp => exact .finishes hp
  | exited hrun => exact .keeps (exitTable_sameIds hrun) (exitTable_sameMarks _ _ _)
  | reaped hw => exact .reaps (waitScan_reaped hw).2
  | waits hrun | slept hrun => exact .keeps (sleepOn_sameIds hrun) (SameMarks.update rfl)
  | woke => exact .keeps (wakeup1_sameIds _ _) (wakeup1_sameMarks _ _)
  | killed pid => exact .kills pid
  | ran hp | yielded hp =>
    exact .keeps (SameIds.update rfl (by simp [hp]) (by simp [hp])) (SameMarks.update rfl)

end PState

/-! ### Calls one after the other -/

/-- `kill` does not interrupt a `fork`. -/
def PState.Alone (s : PState) : PAct → Prop
  | .kill _ => ∀ p, s.forking p = none
  | _ => True

/-- A step of a sequence of calls. -/
def PState.CallStep (s : PState) (a : PAct) (s' : PState) : Prop := s.Alone a ∧ s.Step a s'

/-- Pids are different, and nothing that becomes a process is marked before it is one. -/
structure KillInv (s : PState) : Prop where
  distinct : DistinctPids s.table
  embryo : ∀ p np, s.forking p = some np → (s.table np).state = .embryo
  unmarked : ∀ i, (s.table i).state = .unused → (s.table i).killed = false
  unborn : ∀ p np, s.forking p = some np → (s.table np).killed = false
  owner : ∀ p q np, s.forking p = some np → s.forking q = some np → p = q

/-- No `kill` names a pid that an unused slot holds before any process. -/
def NamesProcess (s : PState) : PAct → Prop
  | .kill pid => NoStalePid s.table pid
  | _ => True

/-- `kill` is exact, and the slot of a new process is not marked. -/
def KillsExactly (s : PState) : PAct → Prop
  | .kill pid => KillExact s.table pid
  | .fork _ => ∀ i t, allocproc s.table = .ok (some i, t) → (t i).killed = false
  | _ => True

lemma DistinctPids.of_sameIds {t' : PTable} (h : DistinctPids t) (ht : SameIds t t') :
    DistinctPids t' := by
  intro i j hi hj heq
  rw [ht.pid i, ht.pid j] at heq
  exact h i j (fun hu => hi ((ht.unused i).mpr hu)) (fun hu => hj ((ht.unused j).mpr hu)) heq

namespace KillInv

/-- A slot that is given back. -/
lemma free_slot (h : KillInv s) {pr : Proc} {forking : Slot → Option Slot}
    (hstate : pr.state = .unused) (hkilled : pr.killed = false)
    (hforking : ∀ p np, forking p = some np → s.forking p = some np ∧ np ≠ i) :
    KillInv ⟨Function.update s.table i pr, s.initproc, forking⟩ := by
  have hne : ∀ j, (Function.update s.table i pr j).state ≠ .unused → j ≠ i := by
    rintro j hj rfl
    rw [Function.update_self] at hj
    exact hj hstate
  refine ⟨fun j k hj hk heq => ?_, fun p np hp => ?_, fun j hj => ?_, fun p np hp => ?_,
    fun p q np hp hq => h.owner p q np (hforking p np hp).1 (hforking q np hq).1⟩
  · have hji := hne j hj
    have hki := hne k hk
    dsimp only at hj hk heq
    rw [Function.update_of_ne hji] at hj heq
    rw [Function.update_of_ne hki] at hk heq
    exact h.distinct j k hj hk heq
  · obtain ⟨hp, hnp⟩ := hforking p np hp
    dsimp only
    rw [Function.update_of_ne hnp]
    exact h.embryo p np hp
  · dsimp only at hj ⊢
    by_cases hji : j = i
    · rw [hji, Function.update_self, hkilled]
    · rw [Function.update_of_ne hji] at hj ⊢
      exact h.unmarked j hj
  · obtain ⟨hp, hnp⟩ := hforking p np hp
    dsimp only
    rw [Function.update_of_ne hnp]
    exact h.unborn p np hp

lemma forking_done (h : KillInv s) {p np : Slot} (hp : s.forking p = some np) :
    ∀ q nq, Function.update s.forking p none q = some nq → s.forking q = some nq ∧ nq ≠ np := by
  intro q nq hq
  by_cases hqp : q = p
  · rw [hqp, Function.update_self] at hq
    cases hq
  · rw [Function.update_of_ne hqp] at hq
    refine ⟨hq, ?_⟩
    rintro rfl
    exact hqp (h.owner q p nq hq hp)

/-- The slot that `allocproc` takes. -/
lemma take_slot (h : KillInv s) {p : Slot} {v : Int} (hi : (s.table i).state = .unused)
    (hfresh : ∀ j, j ≠ i → (s.table j).state ≠ .unused → (s.table j).pid ≠ v) :
    KillInv { s with
      table := Function.update s.table i { s.table i with state := .embryo, pid := v }
      forking := Function.update s.forking p (some i) } := by
  have hother : ∀ q nq, s.forking q = some nq → nq ≠ i := by
    rintro q nq hq rfl
    rw [h.embryo q nq hq] at hi
    cases hi
  -- every fork in progress is the new one or an old one on another slot
  have hforking : ∀ q nq, Function.update s.forking p (some i) q = some nq →
      q = p ∧ nq = i ∨ q ≠ p ∧ nq ≠ i ∧ s.forking q = some nq := by
    intro q nq hq
    by_cases hqp : q = p
    · rw [hqp, Function.update_self] at hq
      exact Or.inl ⟨hqp, (Option.some.inj hq).symm⟩
    · rw [Function.update_of_ne hqp] at hq
      exact Or.inr ⟨hqp, hother q nq hq, hq⟩
  refine ⟨fun j k hj hk heq => ?_, fun q nq hq => ?_, fun j hj => ?_, fun q nq hq => ?_,
    fun q r nq hq hr => ?_⟩
  · dsimp only at hj hk heq
    by_cases hji : j = i <;> by_cases hki : k = i
    · rw [hji, hki]
    · rw [hji, Function.update_self, Function.update_of_ne hki] at heq
      rw [Function.update_of_ne hki] at hk
      exact absurd heq.symm (hfresh k hki hk)
    · rw [hki, Function.update_self, Function.update_of_ne hji] at heq
      rw [Function.update_of_ne hji] at hj
      exact absurd heq (hfresh j hji hj)
    · rw [Function.update_of_ne hji] at hj heq
      rw [Function.update_of_ne hki] at hk heq
      exact h.distinct j k hj hk heq
  · rcases hforking q nq hq with ⟨-, rfl⟩ | ⟨-, hne, hold⟩
    · dsimp only
      rw [Function.update_self]
    · dsimp only
      rw [Function.update_of_ne hne]
      exact h.embryo q nq hold
  · dsimp only at hj ⊢
    by_cases hji : j = i
    · rw [hji, Function.update_self] at hj
      cases hj
    · rw [Function.update_of_ne hji] at hj ⊢
      exact h.unmarked j hj
  · rcases hforking q nq hq with ⟨-, rfl⟩ | ⟨-, hne, hold⟩
    · dsimp only
      rw [Function.update_self]
      exact h.unmarked nq hi
    · dsimp only
      rw [Function.update_of_ne hne]
      exact h.unborn q nq hold
  · rcases hforking q nq hq with ⟨rfl, rfl⟩ | ⟨-, hne, hold⟩ <;>
      rcases hforking r nq hr with ⟨rfl, hr'⟩ | ⟨-, hne', hold'⟩
    · rfl
    · exact absurd rfl hne'
    · exact absurd hr' hne
    · exact h.owner q r nq hold hold'

/-- The child becomes RUNNABLE. -/
lemma finish (h : KillInv s) {p np : Slot} (hp : s.forking p = some np) :
    KillInv (s.finishFork p np) := by
  have hdone := h.forking_done hp
  have hlive : (s.table np).state ≠ .unused := by
    rw [h.embryo p np hp]
    decide
  have hstate : ∀ j, (s.finishFork p np).table j =
      if j = np then { s.table np with parent := some p, state := .runnable } else s.table j := by
    intro j
    rw [PState.finishFork]
    dsimp only
    rw [Function.update_apply]
  refine ⟨fun j k hj hk heq => ?_, fun q nq hq => ?_, fun j hj => ?_, fun q nq hq => ?_,
    fun q r nq hq hr => h.owner q r nq (hdone q nq hq).1 (hdone r nq hr).1⟩
  · have hold : ∀ j, ((s.finishFork p np).table j).state ≠ .unused →
        (s.table j).state ≠ .unused := by
      intro j hj
      rw [hstate] at hj
      split_ifs at hj with hjn
      · rw [hjn]
        exact hlive
      · exact hj
    have hpid : ∀ j, ((s.finishFork p np).table j).pid = (s.table j).pid := by
      intro j
      rw [hstate]
      split_ifs with hjn
      · rw [hjn]
      · rfl
    rw [hpid, hpid] at heq
    exact h.distinct j k (hold j hj) (hold k hk) heq
  · obtain ⟨hold, hne⟩ := hdone q nq hq
    rw [hstate, if_neg hne]
    exact h.embryo q nq hold
  · rw [hstate] at hj ⊢
    split_ifs at hj ⊢ with hjn
    exact h.unmarked j hj
  · obtain ⟨hold, hne⟩ := hdone q nq hq
    rw [hstate, if_neg hne]
    exact h.unborn q nq hold

lemma step (h : KillInv s) (hname : NamesProcess s a) (hstep : s.CallStep a s') : KillInv s' := by
  obtain ⟨halone, hstep⟩ := hstep
  cases hstep.effect with
  | keeps ids marks =>
    refine ⟨h.distinct.of_sameIds ids, fun p np hp => (ids.embryo np).mpr (h.embryo p np hp),
      fun i hi => ?_, fun p np hp => ?_, h.owner⟩
    · rw [marks i]
      exact h.unmarked i ((ids.unused i).mp hi)
    · rw [marks np]
      exact h.unborn p np hp
  | takes unused fresh => exact h.take_slot unused fresh
  | gives forking =>
    exact h.free_slot rfl (h.unborn _ _ forking) (h.forking_done forking)
  | finishes forking => exact h.finish forking
  | @reaps p i zombie =>
    refine h.free_slot rfl rfl fun q nq hq => ⟨hq, ?_⟩
    rintro rfl
    rw [h.embryo q nq hq] at zombie
    cases zombie
  | kills pid =>
    refine ⟨h.distinct.of_sameIds (kill_sameIds pid _), fun p np hp => ?_, fun i hi => ?_,
      fun p np hp => ?_, h.owner⟩
    · rw [halone p] at hp
      cases hp
    · -- an unused slot is not the one that was found
      have hunused := ((kill_sameIds pid s.table).unused i).mp hi
      dsimp only
      rw [((killExact_iff h.distinct h.unmarked pid).mpr hname).changes i,
        if_neg (fun hc => hc.1 hunused)]
      exact h.unmarked i hunused
    · rw [halone p] at hp
      cases hp

/-- From a state of the invariant `kill` is exact when it names a process, and a new process is not
marked. -/
lemma killsExactly_iff (h : KillInv s) (a : PAct) : KillsExactly s a ↔ NamesProcess s a := by
  cases a with
  | kill pid => exact killExact_iff h.distinct h.unmarked pid
  | fork p =>
    refine iff_of_true (fun i t hi => ?_) trivial
    obtain ⟨v, hfirst, -, rfl⟩ := allocproc_some hi
    rw [Function.update_self]
    exact h.unmarked i (firstUnused_some hfirst)
  | _ => exact Iff.rfl

end KillInv

lemma killInv_userinit (h : PState.userinit = some s) : KillInv s := by
  obtain rfl := PState.userinit_eq h
  have hpid := (pidInv_userinit h).distinct
  refine ⟨hpid, by simp, fun i _ => ?_, by simp, by simp⟩
  dsimp only
  rw [Function.update_apply]
  split_ifs <;> rfl

/-- In a sequence of calls from boot, all calls of `kill` are exact and all new processes start
without the mark exactly when every `kill` names a pid that no unused slot holds before a process
with it. After such a sequence this condition decides for every pid whether `kill` is exact. -/
theorem kill_exact_iff {s₀ s : PState} {tr : List (PState × PAct)}
    (h₀ : PState.userinit = some s₀) (hr : Run PState.CallStep s₀ tr s) :
    (AllSteps KillsExactly tr ↔ AllSteps NamesProcess tr) ∧
      (AllSteps NamesProcess tr → ∀ pid, KillExact s.table pid ↔ NoStalePid s.table pid) := by
  have hgood : ∀ s a t, KillInv s → NamesProcess s a → s.CallStep a t → KillInv t :=
    fun _ _ _ h hname hstep => h.step hname hstep
  refine ⟨hr.allSteps_iff (fun s a t h _ => h.killsExactly_iff a) hgood (killInv_userinit h₀),
    fun hnames pid => ?_⟩
  have h := (hr.allStates hgood (killInv_userinit h₀) hnames).2
  exact killExact_iff h.distinct h.unmarked pid

instance (s : PState) : (a : PAct) → Decidable (s.Alone a)
  | .kill _ => inferInstanceAs (Decidable (∀ p, s.forking p = none))
  | .fork _ | .stackFailed _ | .copyFailed _ | .forked _ | .exit _ | .wait _ | .sleep _ _ | .wakeup _
  | .run _ | .yield _ => instDecidableTrue

instance (t : PTable) (pid : Int) : Decidable (NoStalePid t pid) := by
  unfold NoStalePid
  infer_instance

instance (s : PState) : (a : PAct) → Decidable (NamesProcess s a)
  | .kill pid => inferInstanceAs (Decidable (NoStalePid s.table pid))
  | .fork _ | .stackFailed _ | .copyFailed _ | .forked _ | .exit _ | .wait _ | .sleep _ _ | .wakeup _
  | .run _ | .yield _ => instDecidableTrue

/-- Init forks a child and kills it. -/
theorem kill_exact_child : ∃ s₀ s tr, PState.userinit = some s₀ ∧ Run PState.CallStep s₀ tr s ∧
    tr.map Prod.snd = [.run 0, .fork 0, .forked 0, .kill 2] ∧ (s.table 1).killed = true ∧
    AllSteps NamesProcess tr ∧ AllSteps KillsExactly tr := by
  obtain ⟨s₀, s, tr, h₀, hr, htr, hkilled, hall⟩ := PState.exists_run
    (fun s a => s.Alone a ∧ NamesProcess s a) (fun s => (s.table 1).killed)
    [.run 0, .fork 0, .forked 0, .kill 2] true (by decide +kernel)
  have hr : Run PState.CallStep s₀ tr s := hr.restrict fun x hx => (hall x hx).1
  have hnames : AllSteps NamesProcess tr := fun x hx => (hall x hx).2
  exact ⟨s₀, s, tr, h₀, hr, htr, hkilled, hnames, (kill_exact_iff h₀ hr).1.mpr hnames⟩

/-- No process has pid 0, but `kill` finds it in a slot that was never used and returns 0. The child
that init forks into that slot then starts with the mark. -/
theorem kill_marks_unused_slot :
    ∃ s₀ s tr, PState.userinit = some s₀ ∧ Run PState.CallStep s₀ tr s ∧
      tr.map Prod.snd = [.kill 0, .run 0, .fork 0, .forked 0] ∧
      (kill 0 s₀.table).1 = some 1 ∧ (∀ i, (s₀.table i).pid = 0 → (s₀.table i).state = .unused) ∧
      (s.table 1).state = .runnable ∧ (s.table 1).killed = true := by
  obtain ⟨s₀, s, tr, h₀, hr, htr, hlast, halone⟩ := PState.exists_run PState.Alone
    (fun s => ((s.table 1).state, (s.table 1).killed)) [.kill 0, .run 0, .fork 0, .forked 0]
    (.runnable, true) (by decide +kernel)
  have hboot : (PState.userinit.map fun s => ((kill 0 s.table).1,
      decide (∀ i, (s.table i).pid = 0 → (s.table i).state = .unused))) = some (some 1, true) := by
    decide +kernel
  rw [h₀, Option.map_some, Option.some.injEq, Prod.mk.injEq, decide_eq_true_eq] at hboot
  rw [Prod.mk.injEq] at hlast
  exact ⟨s₀, s, tr, h₀, hr.restrict halone, htr, hboot.1, hboot.2, hlast.1, hlast.2⟩

end Xv6
