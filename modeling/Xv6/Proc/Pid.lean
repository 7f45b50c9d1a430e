import Xv6.Proc.Table

/-!
# Process identity

Every process step that touches the process table, at the granularity of the critical sections of
`ptable.lock`: a `fork` in progress is a process that owns an EMBRYO slot, and it may still fail for
want of a kernel stack or in `copyuvm`.

Pids are meant to identify live processes. `get_smallest_pid` looks at the table after the new slot
has become EMBRYO, so the pid that the slot's last user left behind counts as taken. Pid 0 is kept
out of use by that accident only: it works as long as the slot holds pid 0 and some index of the
array is left over. The main result says that these two conditions are exactly what is needed.
-/

namespace Xv6

open TransitionSystem

/-- The process table together with the slots that unfinished `fork` calls work on. -/
structure PState where
  table : PTable
  initproc : Slot
  forking : Slot → Option Slot

inductive PAct
  /-- `fork` calls `allocproc`, which takes a slot and a pid. -/
  | fork (p : Slot)
  /-- `allocproc` finds no page for the kernel stack. -/
  | stackFailed (p : Slot)
  /-- `copyuvm` fails. -/
  | copyFailed (p : Slot)
  /-- `fork` makes the child RUNNABLE and returns its pid. -/
  | forked (p : Slot)
  | exit (p : Slot)
  | wait (p : Slot)
  | sleep (p : Slot) (c : Chan)
  | wakeup (c : Chan)
  | kill (pid : Int)
  /-- The scheduler switches to `p`. -/
  | run (p : Slot)
  | yield (p : Slot)
  deriving DecidableEq

namespace PState

/-- `p` executes and is not inside `fork`. -/
def Free (s : PState) (p : Slot) : Prop :=
  (s.table p).state = .running ∧ s.forking p = none

instance (s : PState) (p : Slot) : Decidable (s.Free p) :=
  inferInstanceAs (Decidable (_ ∧ _))

def setState (s : PState) (p : Slot) (st : ProcState) : PState :=
  { s with table := Function.update s.table p { s.table p with state := st } }

/-- `fork` gives its slot back: `np->state = UNUSED`. Nothing else in the slot is reset. -/
def abandonFork (s : PState) (p np : Slot) : PState :=
  { s.setState np .unused with forking := Function.update s.forking p none }

/-- `fork` sets the parent and makes the child RUNNABLE. -/
def finishFork (s : PState) (p np : Slot) : PState :=
  { s with
    table := Function.update s.table np
      { s.table np with parent := some p, state := .runnable }
    forking := Function.update s.forking p none }

/-- One step, if the action is possible and the code has a defined outcome. -/
def step (s : PState) : PAct → Option PState
  | .fork p =>
    if s.Free p then
      match allocproc s.table with
      | .ok (some np, t) =>
        some { s with table := t, forking := Function.update s.forking p (some np) }
      | .ok (none, _) => some s
      | .error _ => none
    else none
  | .stackFailed p | .copyFailed p =>
    match s.forking p with
    | some np => if (s.table p).state = .running then some (s.abandonFork p np) else none
    | none => none
  | .forked p =>
    match s.forking p with
    | some np => if (s.table p).state = .running then some (s.finishFork p np) else none
    | none => none
  | .exit p =>
    -- `exit` panics when called by initproc
    if s.Free p ∧ p ≠ s.initproc then
      some { s with table := exitTable s.initproc p s.table }
    else none
  | .wait p =>
    if s.Free p then
      match waitScan s.table p with
      | .reaped i => some { s with table := reapSlot i s.table }
      | .noChildren => some s
      | .block => some { s with table := sleepOn (.proc p) p s.table }
    else none
  | .sleep p c => if s.Free p then some { s with table := sleepOn c p s.table } else none
  | .wakeup c => some { s with table := wakeup1 (some c) s.table }
  | .kill pid => some { s with table := (Xv6.kill pid s.table).2 }
  | .run p => if (s.table p).state = .runnable then some (s.setState p .running) else none
  | .yield p => if (s.table p).state = .running then some (s.setState p .runnable) else none

def Step (s : PState) (a : PAct) (s' : PState) : Prop := s.step a = some s'

/-- The table before `userinit`: zeroed memory. -/
def zeroTable : PTable := fun _ => ⟨.unused, 0, none, none, false⟩

/-- `userinit`: the first process, in the slot `allocproc` finds, made RUNNABLE. -/
def userinit : Option PState :=
  match allocproc zeroTable with
  | .ok (some p, t) =>
    some ⟨Function.update t p { t p with state := .runnable }, p, fun _ => none⟩
  | _ => none

end PState

/-! ### What the pids are for -/

/-- Process identity, in one state. -/
structure Identity (s : PState) : Prop where
  /-- A pid is a positive index of the array of `get_smallest_pid`. -/
  range : ∀ i, (s.table i).state ≠ .unused → 1 ≤ (s.table i).pid ∧ (s.table i).pid < NPROC
  distinct : ∀ i j, (s.table i).state ≠ .unused → (s.table j).state ≠ .unused →
    (s.table i).pid = (s.table j).pid → i = j
  /-- What a `fork` in progress will return is positive and the pid of no other process. -/
  forkReturn : ∀ p np, s.forking p = some np → 0 < (s.table np).pid ∧
    ∀ j, j ≠ np → (s.table j).state ≠ .unused → (s.table j).pid ≠ (s.table np).pid
  /-- The next call of `get_smallest_pid` stays inside its array. -/
  inBounds : ∀ i, firstUnused s.table = some i →
    ∃ v, getSmallestPid (claimSlot s.table i) = .ok v

/-- The slot that `allocproc` is about to take holds pid 0, and it is not the last one free. -/
def CleanSlot (s : PState) : PAct → Prop
  | .fork _ => ∀ i, firstUnused s.table = some i →
      (s.table i).pid = 0 ∧ ∃ j, j ≠ i ∧ (s.table j).state = .unused
  | _ => True

/-- The invariant behind `Identity`. -/
structure PidInv (s : PState) : Prop where
  /-- Pids left behind in unused slots are in range too. -/
  bound : ∀ i, 0 ≤ (s.table i).pid ∧ (s.table i).pid < NPROC
  pos : ∀ i, (s.table i).state ≠ .unused → 1 ≤ (s.table i).pid
  distinct : ∀ i j, (s.table i).state ≠ .unused → (s.table j).state ≠ .unused →
    (s.table i).pid = (s.table j).pid → i = j
  embryo : ∀ p np, s.forking p = some np → (s.table np).state = .embryo
  owner : ∀ p q np, s.forking p = some np → s.forking q = some np → p = q

lemma PidInv.claimSlot_inRange {s : PState} (h : PidInv s) (i : Slot) :
    PidsInRange (claimSlot s.table i) := by
  intro j _
  have := h.bound j
  by_cases hji : j = i
  · subst hji
    simpa [claimSlot] using this
  · simpa [claimSlot, Function.update_of_ne hji] using this

lemma PidInv.identity {s : PState} (h : PidInv s) : Identity s where
  range i hi := ⟨h.pos i hi, (h.bound i).2⟩
  distinct := h.distinct
  forkReturn p np hp := by
    have hnp : (s.table np).state ≠ .unused := by simp [h.embryo p np hp]
    refine ⟨h.pos np hnp, fun j hj hju heq => hj (h.distinct j np hju hnp heq)⟩
  inBounds i _ := by
    obtain ⟨v, hv, _⟩ := getSmallestPid_ok (h.claimSlot_inRange i)
    exact ⟨v, hv⟩

/-! ### Steps that leave the pids alone -/

/-- `t'` has the pids of `t`, and the same unused and embryo slots. -/
structure SameIds (t t' : PTable) : Prop where
  pid : ∀ i, (t' i).pid = (t i).pid
  unused : ∀ i, (t' i).state = .unused ↔ (t i).state = .unused
  embryo : ∀ i, (t' i).state = .embryo ↔ (t i).state = .embryo

lemma SameIds.refl (t : PTable) : SameIds t t :=
  ⟨fun _ => rfl, fun _ => Iff.rfl, fun _ => Iff.rfl⟩

lemma SameIds.trans {t t' t'' : PTable} (h : SameIds t t') (h' : SameIds t' t'') :
    SameIds t t'' :=
  ⟨fun i => (h'.pid i).trans (h.pid i), fun i => (h'.unused i).trans (h.unused i),
    fun i => (h'.embryo i).trans (h.embryo i)⟩

/-- Changing one slot without touching its pid, from one live state to another. -/
lemma SameIds.update {t : PTable} {i : Slot} {p : Proc} (hpid : p.pid = (t i).pid)
    (hunused : p.state = .unused ↔ (t i).state = .unused)
    (hembryo : p.state = .embryo ↔ (t i).state = .embryo) :
    SameIds t (Function.update t i p) := by
  refine ⟨fun j => ?_, fun j => ?_, fun j => ?_⟩ <;>
  · by_cases hj : j = i
    · subst hj
      simp [*]
    · simp [Function.update_of_ne hj]

lemma wakeup1_sameIds (c : Option Chan) (t : PTable) : SameIds t (wakeup1 c t) := by
  refine ⟨fun i => ?_, fun i => ?_, fun i => ?_⟩ <;>
  · unfold wakeup1
    split_ifs with h
    · simp [h.1]
    · simp

lemma abandonChildren_sameIds (initproc p : Slot) (l : List Slot) (t : PTable) :
    SameIds t (abandonChildren initproc p l t) :=
  abandonChildren_keeps SameIds.refl SameIds.trans (fun _ _ => .update rfl Iff.rfl Iff.rfl)
    (wakeup1_sameIds _) l t

lemma kill_sameIds (pid : Int) (t : PTable) : SameIds t (kill pid t).2 := by
  unfold kill
  cases hf : (List.finRange NPROC).find? (fun i => (t i).pid = pid) with
  | none => exact SameIds.refl t
  | some i =>
    refine SameIds.update (i := i) rfl ?_ ?_
    · by_cases h : (t i).state = .sleeping <;> simp [h]
    · by_cases h : (t i).state = .sleeping <;> simp [h]

lemma sleepOn_sameIds {c : Chan} {p : Slot} {t : PTable} (hp : (t p).state = .running) :
    SameIds t (sleepOn c p t) :=
  SameIds.update rfl (by simp [hp]) (by simp [hp])

/-- A running process stays running while `exit` wakes its parent and gives its children away. -/
lemma exitTable_sameIds {initproc p : Slot} {t : PTable} (hp : (t p).state = .running) :
    SameIds t (exitTable initproc p t) := by
  have h := (wakeup1_sameIds ((t p).parent.map .proc) t).trans
    (abandonChildren_sameIds initproc p (List.finRange NPROC) _)
  refine h.trans (SameIds.update rfl ?_ ?_)
  · simp [h.unused p, hp]
  · simp [h.embryo p, hp]

lemma PidInv.of_sameIds {s : PState} {t : PTable} (h : PidInv s) (ht : SameIds s.table t) :
    PidInv { s with table := t } where
  bound i := by simpa [ht.pid i] using h.bound i
  pos i hi := by
    rw [ht.pid i]
    exact h.pos i (fun hu => hi ((ht.unused i).mpr hu))
  distinct i j hi hj heq := by
    rw [ht.pid i, ht.pid j] at heq
    exact h.distinct i j (fun hu => hi ((ht.unused i).mpr hu))
      (fun hu => hj ((ht.unused j).mpr hu)) heq
  embryo p np hp := (ht.embryo np).mpr (h.embryo p np hp)
  owner := h.owner

/-! ### Steps that give a slot back -/

/-- Freeing a slot keeps the invariant as long as no `fork` is still working on it. -/
lemma PidInv.free_slot {s : PState} (h : PidInv s) {i : Slot} {pr : Proc}
    {forking : Slot → Option Slot} (hstate : pr.state = .unused)
    (hpid : 0 ≤ pr.pid ∧ pr.pid < NPROC)
    (hforking : ∀ p np, forking p = some np → s.forking p = some np ∧ np ≠ i) :
    PidInv { s with table := Function.update s.table i pr, forking := forking } where
  bound j := by
    by_cases hj : j = i
    · subst hj
      simpa using hpid
    · simpa [Function.update_of_ne hj] using h.bound j
  pos j hj := by
    by_cases hji : j = i
    · subst hji
      simp [hstate] at hj
    · simp only [Function.update_of_ne hji] at hj ⊢
      exact h.pos j hj
  distinct j k hj hk heq := by
    have hji : j ≠ i := by rintro rfl; simp [hstate] at hj
    have hki : k ≠ i := by rintro rfl; simp [hstate] at hk
    simp only [Function.update_of_ne hji, Function.update_of_ne hki] at hj hk heq
    exact h.distinct j k hj hk heq
  embryo p np hp := by
    obtain ⟨hp', hne⟩ := hforking p np hp
    simpa [Function.update_of_ne hne] using h.embryo p np hp'
  owner p q np hp hq := h.owner p q np (hforking p np hp).1 (hforking q np hq).1

/-- The slots of the other unfinished forks, once `p` is done with `np`. -/
lemma PidInv.forking_done {s : PState} (h : PidInv s) {p np : Slot} (hp : s.forking p = some np)
    (q nq : Slot) (hq : Function.update s.forking p none q = some nq) :
    s.forking q = some nq ∧ nq ≠ np := by
  have hqp : q ≠ p := by rintro rfl; simp at hq
  rw [Function.update_of_ne hqp] at hq
  refine ⟨hq, ?_⟩
  rintro rfl
  exact hqp (h.owner q p nq hq hp)

/-! ### Taking a slot -/

/-- A pid in use after the slot became EMBRYO: the leftover pid of the slot, or one of another
process. -/
lemma pidUsed_claimSlot {t : PTable} {i : Slot} {k : Int} :
    PidUsed (claimSlot t i) k ↔
      (t i).pid = k ∨ ∃ j, j ≠ i ∧ (t j).state ≠ .unused ∧ (t j).pid = k := by
  constructor
  · rintro ⟨j, hj, hk⟩
    by_cases hji : j = i
    · subst hji
      left
      simpa [claimSlot] using hk
    · right
      simp only [claimSlot, Function.update_of_ne hji] at hj hk
      exact ⟨j, hji, hj, hk⟩
  · rintro (hk | ⟨j, hji, hj, hk⟩)
    · exact ⟨i, by simp [claimSlot], by simpa [claimSlot] using hk⟩
    · exact ⟨j, by simpa [claimSlot, Function.update_of_ne hji] using hj,
        by simpa [claimSlot, Function.update_of_ne hji] using hk⟩

/-- The pids of the other slots in use, as array indices. -/
private def pidIndex (t : PTable) (ht : ∀ i, 0 ≤ (t i).pid ∧ (t i).pid < NPROC) (j : Slot) : Slot :=
  ⟨(t j).pid.toNat, by have := ht j; omega⟩

private lemma pidIndex_val (t : PTable) (ht : ∀ i, 0 ≤ (t i).pid ∧ (t i).pid < NPROC) (j : Slot) :
    (((pidIndex t ht j).val : Nat) : Int) = (t j).pid := by
  simp [pidIndex, (ht j).1]

/-- If only slots other than `i` and `j` can hold the indices of the array beside 0, some index is
left over. -/
lemma PidInv.exists_free {s : PState} (h : PidInv s) {i j : Slot} (hji : j ≠ i)
    (hj : (s.table j).state = .unused) (hi : (s.table i).pid = 0) :
    ∃ k : Slot, ¬ PidUsed (claimSlot s.table i) k.val := by
  by_contra hall
  push Not at hall
  -- every index is the pid of `i` or of a process other than `i` and `j`: too few slots for that
  have hcover : (Finset.univ : Finset Slot) ⊆
      (Finset.univ.erase j).image (pidIndex s.table h.bound) := by
    intro k _
    rw [Finset.mem_image]
    rcases pidUsed_claimSlot.mp (hall k) with hk | ⟨m, _, hm, hk⟩
    · refine ⟨i, by simp [hji.symm], Fin.ext ?_⟩
      have := pidIndex_val s.table h.bound i
      omega
    · refine ⟨m, ?_, Fin.ext ?_⟩
      · simp only [Finset.mem_erase, Finset.mem_univ, and_true]
        rintro rfl
        exact hm hj
      · have := pidIndex_val s.table h.bound m
        omega
  have hcard := (Finset.card_le_card hcover).trans Finset.card_image_le
  rw [Finset.card_erase_of_mem (Finset.mem_univ j), Finset.card_univ, Fintype.card_fin] at hcard
  simp [NPROC] at hcard

/-- When every slot other than `i` is in use, every positive index is some process's pid. -/
lemma PidInv.full {s : PState} (h : PidInv s) {i : Slot}
    (hfull : ∀ j, j ≠ i → (s.table j).state ≠ .unused) (k : Slot) (hk : k.val ≠ 0) :
    ∃ j, j ≠ i ∧ (s.table j).state ≠ .unused ∧ (s.table j).pid = k.val := by
  have hinj : Set.InjOn (pidIndex s.table h.bound) ↑(Finset.univ.erase i) := by
    intro a ha b hb hab
    simp only [Finset.coe_erase, Finset.coe_univ, Set.mem_sdiff, Set.mem_univ,
      Set.mem_singleton_iff, true_and] at ha hb
    refine h.distinct a b (hfull a ha) (hfull b hb) ?_
    rw [← pidIndex_val s.table h.bound a, ← pidIndex_val s.table h.bound b, hab]
  have hsub : (Finset.univ.erase i).image (pidIndex s.table h.bound) ⊆
      Finset.univ.erase (0 : Slot) := by
    intro m hm
    obtain ⟨a, ha, rfl⟩ := Finset.mem_image.mp hm
    have hpos := h.pos a (hfull a (Finset.ne_of_mem_erase ha))
    have hval := pidIndex_val s.table h.bound a
    refine Finset.mem_erase.mpr ⟨fun h0 => ?_, Finset.mem_univ _⟩
    rw [h0] at hval
    simp at hval
    omega
  have heq := Finset.eq_of_subset_of_card_le hsub (by
    rw [Finset.card_image_of_injOn hinj, Finset.card_erase_of_mem (Finset.mem_univ _),
      Finset.card_erase_of_mem (Finset.mem_univ _)])
  have hmem : k ∈ Finset.univ.erase (0 : Slot) :=
    Finset.mem_erase.mpr ⟨fun h0 => hk (by simp [h0]), Finset.mem_univ k⟩
  rw [← heq, Finset.mem_image] at hmem
  obtain ⟨j, hj, rfl⟩ := hmem
  have hji := Finset.ne_of_mem_erase hj
  exact ⟨j, hji, hfull j hji, (pidIndex_val s.table h.bound j).symm⟩

/-- The pid `allocproc` picks for the slot `i`. -/
lemma allocproc_some {t t' : PTable} {i : Slot} (h : allocproc t = .ok (some i, t')) :
    ∃ v, firstUnused t = some i ∧ getSmallestPid (claimSlot t i) = .ok v ∧
      t' = Function.update t i { t i with state := .embryo, pid := v } := by
  unfold allocproc at h
  cases hf : firstUnused t with
  | none => simp [hf] at h
  | some k =>
    cases hg : getSmallestPid (claimSlot t k) with
    | error e => simp [hf, hg] at h
    | ok v =>
      simp only [hf, hg, Except.ok.injEq, Prod.mk.injEq, Option.some.injEq] at h
      obtain ⟨rfl, rfl⟩ := h
      exact ⟨v, rfl, hg, rfl⟩

/-- Into a clean slot goes a fresh positive pid. -/
lemma PidInv.fresh_pid {s : PState} (h : PidInv s) {i : Slot} {v : Int}
    (hv : getSmallestPid (claimSlot s.table i) = .ok v) (hi : (s.table i).pid = 0)
    (hj : ∃ j, j ≠ i ∧ (s.table j).state = .unused) :
    1 ≤ v ∧ v < NPROC ∧ ∀ j, j ≠ i → (s.table j).state ≠ .unused → (s.table j).pid ≠ v := by
  obtain ⟨w, hw, hspec⟩ := getSmallestPid_ok (h.claimSlot_inRange i)
  obtain rfl : w = v := by simpa [hv] using hw.symm
  obtain ⟨j, hji, hj⟩ := hj
  obtain ⟨k, hk⟩ := h.exists_free hji hj hi
  rcases hspec with ⟨_, hall⟩ | ⟨h0, hlt, hfree, _⟩
  · exact absurd (hall k) hk
  · rw [pidUsed_claimSlot] at hfree
    push Not at hfree
    refine ⟨?_, hlt, fun j hji hj => hfree.2 j hji hj⟩
    -- index 0 is marked by the slot itself
    have := hfree.1
    omega

/-- From a state of the invariant, a new pid that is positive and in range was put into a clean
slot. -/
lemma PidInv.cleanSlot_of_pid {s : PState} (h : PidInv s) {i : Slot} {v : Int}
    (hv : getSmallestPid (claimSlot s.table i) = .ok v) (hpos : 1 ≤ v) :
    (s.table i).pid = 0 ∧ ∃ j, j ≠ i ∧ (s.table j).state = .unused := by
  obtain ⟨w, hw, hspec⟩ := getSmallestPid_ok (h.claimSlot_inRange i)
  obtain rfl : w = v := by simpa [hv] using hw.symm
  rcases hspec with ⟨rfl, _⟩ | ⟨_, hlt, hfree, hsmaller⟩
  · omega
  · rw [pidUsed_claimSlot] at hfree
    push Not at hfree
    constructor
    · -- pid 0 is below the result, so it was marked, and no live process holds it
      rcases pidUsed_claimSlot.mp (hsmaller 0 le_rfl (by omega)) with h0 | ⟨j, _, hj, h0⟩
      · exact h0
      · have := h.pos j hj
        omega
    · by_contra hfull
      push Not at hfull
      obtain ⟨j, hji, hj, hjv⟩ := h.full hfull ⟨w.toNat, by omega⟩ (by dsimp; omega)
      refine hfree.2 j hji hj ?_
      rw [hjv]
      dsimp
      omega

/-- The new slot of a `fork` keeps the invariant when its pid is fresh. -/
lemma PidInv.take_slot {s : PState} (h : PidInv s) {p i : Slot} {v : Int}
    (hi : (s.table i).state = .unused) (hpos : 1 ≤ v) (hlt : v < NPROC)
    (hfresh : ∀ j, j ≠ i → (s.table j).state ≠ .unused → (s.table j).pid ≠ v) :
    PidInv { s with
      table := Function.update s.table i { s.table i with state := .embryo, pid := v }
      forking := Function.update s.forking p (some i) } where
  bound j := by
    by_cases hj : j = i
    · subst hj
      simp only [Function.update_self]
      omega
    · simpa [Function.update_of_ne hj] using h.bound j
  pos j hj := by
    by_cases hji : j = i
    · subst hji
      simpa using hpos
    · simp only [Function.update_of_ne hji] at hj ⊢
      exact h.pos j hj
  distinct j k hj hk heq := by
    by_cases hji : j = i <;> by_cases hki : k = i
    · rw [hji, hki]
    · subst hji
      simp only [Function.update_self, Function.update_of_ne hki] at hk heq
      exact absurd heq.symm (hfresh k hki hk)
    · subst hki
      simp only [Function.update_self, Function.update_of_ne hji] at hj heq
      exact absurd heq (hfresh j hji hj)
    · simp only [Function.update_of_ne hji, Function.update_of_ne hki] at hj hk heq
      exact h.distinct j k hj hk heq
  embryo q np hq := by
    by_cases hqp : q = p
    · subst hqp
      simp only [Function.update_self, Option.some.injEq] at hq
      subst hq
      simp
    · simp only [Function.update_of_ne hqp] at hq
      have hne := h.embryo q np hq
      have : np ≠ i := by rintro rfl; simp [hi] at hne
      simpa [Function.update_of_ne this] using hne
  owner q r np hq hr := by
    -- a slot another fork works on is EMBRYO, hence not `i`
    have key : ∀ q', q' ≠ p → s.forking q' ≠ some i := by
      intro q' _ hq'
      have := h.embryo q' i hq'
      simp [hi] at this
    by_cases hqp : q = p <;> by_cases hrp : r = p
    · rw [hqp, hrp]
    · subst hqp
      simp only [Function.update_self, Function.update_of_ne hrp, Option.some.injEq] at hq hr
      subst hq
      exact absurd hr (key r hrp)
    · subst hrp
      simp only [Function.update_self, Function.update_of_ne hqp, Option.some.injEq] at hq hr
      subst hr
      exact absurd hq (key q hqp)
    · simp only [Function.update_of_ne hqp, Function.update_of_ne hrp] at hq hr
      exact h.owner q r np hq hr

/-! ### The whole system -/

lemma PidInv.finishFork {s : PState} (h : PidInv s) {p np : Slot} (hp : s.forking p = some np) :
    PidInv (s.finishFork p np) where
  bound j := by
    by_cases hj : j = np
    · subst hj
      simpa [PState.finishFork] using h.bound j
    · simpa [PState.finishFork, Function.update_of_ne hj] using h.bound j
  pos j hj := by
    by_cases hjn : j = np
    · subst hjn
      simpa [PState.finishFork] using h.pos j (by simp [h.embryo p j hp])
    · simp only [PState.finishFork, Function.update_of_ne hjn] at hj ⊢
      exact h.pos j hj
  distinct j k hj hk heq := by
    have hnp : (s.table np).state ≠ .unused := by simp [h.embryo p np hp]
    have used : ∀ m, ((s.finishFork p np).table m).state ≠ .unused →
        (s.table m).state ≠ .unused := by
      intro m hm
      by_cases hmn : m = np
      · rwa [hmn]
      · simpa [PState.finishFork, Function.update_of_ne hmn] using hm
    have pid : ∀ m, ((s.finishFork p np).table m).pid = (s.table m).pid := by
      intro m
      by_cases hmn : m = np
      · subst hmn
        simp [PState.finishFork]
      · simp [PState.finishFork, Function.update_of_ne hmn]
    rw [pid j, pid k] at heq
    exact h.distinct j k (used j hj) (used k hk) heq
  embryo q nq hq := by
    obtain ⟨hq', hne⟩ := h.forking_done hp q nq hq
    simpa [PState.finishFork, Function.update_of_ne hne] using h.embryo q nq hq'
  owner q r nq hq hr :=
    h.owner q r nq (h.forking_done hp q nq hq).1 (h.forking_done hp r nq hr).1

/-- A `fork` that gives up hands back a slot with a pid in range. -/
lemma PidInv.abandonFork {s : PState} (h : PidInv s) {p np : Slot} (hp : s.forking p = some np) :
    PidInv (s.abandonFork p np) :=
  h.free_slot rfl (h.bound np) (h.forking_done hp)

/-- The outcomes of a step, with what the code has found out. -/
inductive PState.Outcome (s : PState) : PAct → PState → Prop
  | full {p : Slot} : Outcome s (.fork p) s
  | took {p i : Slot} {v : Int} (slot : firstUnused s.table = some i)
      (pid : getSmallestPid (claimSlot s.table i) = .ok v) : Outcome s (.fork p) { s with
        table := Function.update s.table i { s.table i with state := .embryo, pid := v }
        forking := Function.update s.forking p (some i) }
  | noStack {p np : Slot} (forking : s.forking p = some np) :
      Outcome s (.stackFailed p) (s.abandonFork p np)
  | noCopy {p np : Slot} (forking : s.forking p = some np) :
      Outcome s (.copyFailed p) (s.abandonFork p np)
  | forked {p np : Slot} (forking : s.forking p = some np)
      (running : (s.table p).state = .running) : Outcome s (.forked p) (s.finishFork p np)
  | exited {p : Slot} (running : (s.table p).state = .running) (init : p ≠ s.initproc) :
      Outcome s (.exit p) { s with table := exitTable s.initproc p s.table }
  | reaped {p i : Slot} (child : waitScan s.table p = .reaped i) :
      Outcome s (.wait p) { s with table := reapSlot i s.table }
  | childless {p : Slot} (child : waitScan s.table p = .noChildren) : Outcome s (.wait p) s
  | waits {p : Slot} (running : (s.table p).state = .running)
      (child : waitScan s.table p = .block) :
      Outcome s (.wait p) { s with table := sleepOn (.proc p) p s.table }
  | slept {p : Slot} {c : Chan} (running : (s.table p).state = .running) :
      Outcome s (.sleep p c) { s with table := sleepOn c p s.table }
  | woke (c : Chan) : Outcome s (.wakeup c) { s with table := wakeup1 (some c) s.table }
  | killed (pid : Int) : Outcome s (.kill pid) { s with table := (Xv6.kill pid s.table).2 }
  | ran {p : Slot} (runnable : (s.table p).state = .runnable) :
      Outcome s (.run p) (s.setState p .running)
  | yielded {p : Slot} (running : (s.table p).state = .running) :
      Outcome s (.yield p) (s.setState p .runnable)

lemma PState.Step.outcome {s s' : PState} {a : PAct} (hstep : s.Step a s') : s.Outcome a s' := by
  cases a with
  | fork p =>
    simp only [PState.Step, PState.step] at hstep
    split_ifs at hstep
    cases ha : allocproc s.table with
    | error e => simp [ha] at hstep
    | ok r =>
      obtain ⟨_ | i, t⟩ := r
      · obtain rfl : s' = s := by simpa [ha] using hstep.symm
        exact .full
      · obtain ⟨v, hf, hg, rfl⟩ := allocproc_some ha
        obtain rfl := Option.some.inj (show some _ = some s' by simpa [ha] using hstep)
        exact .took hf hg
  | stackFailed p | copyFailed p | forked p =>
    simp only [PState.Step, PState.step] at hstep
    cases hp : s.forking p with
    | none => simp [hp] at hstep
    | some np =>
      simp only [hp] at hstep
      split_ifs at hstep with hrun
      cases hstep
      first | exact .noStack hp | exact .noCopy hp | exact .forked hp hrun
  | wait p =>
    simp only [PState.Step, PState.step] at hstep
    split_ifs at hstep with hfree
    cases hw : waitScan s.table p with
    | reaped i | noChildren | block =>
      simp only [hw, Option.some.injEq] at hstep
      subst hstep
      first | exact .reaped hw | exact .childless hw | exact .waits hfree.1 hw
  | exit p | sleep p c | run p | yield p =>
    simp only [PState.Step, PState.step] at hstep
    split_ifs at hstep with h
    cases hstep
    first | exact .exited h.1.1 h.2 | exact .slept h.1 | exact .ran h | exact .yielded h
  | wakeup c =>
    cases hstep
    exact .woke c
  | kill pid =>
    cases hstep
    exact .killed pid

/-- A child found by `wait` is a zombie, so no `fork` is working on its slot. -/
lemma waitScan_reaped {t : PTable} {p i : Slot} (h : waitScan t p = .reaped i) :
    (t i).parent = some p ∧ (t i).state = .zombie := by
  unfold waitScan at h
  cases hf : (List.finRange NPROC).find?
      (fun i => (t i).parent = some p ∧ (t i).state = .zombie) with
  | none =>
    simp only [hf] at h
    split_ifs at h
  | some k =>
    simp only [hf, WaitResult.reaped.injEq] at h
    subst h
    simpa using List.find?_some hf

/-- One step from a state of the invariant, when a `fork` finds a clean slot. -/
lemma PidInv.step {s s' : PState} {a : PAct} (h : PidInv s) (hclean : CleanSlot s a)
    (hstep : s.Step a s') : PidInv s' := by
  cases hstep.outcome with
  | full | childless => exact h
  | took hf hv =>
    obtain ⟨h0, hj⟩ := hclean _ hf
    obtain ⟨hpos, hlt, hfresh⟩ := h.fresh_pid hv h0 hj
    exact h.take_slot (firstUnused_some hf) hpos hlt hfresh
  | noStack hp | noCopy hp => exact h.abandonFork hp
  | forked hp => exact h.finishFork hp
  | exited hrun => exact h.of_sameIds (exitTable_sameIds hrun)
  | reaped hw =>
    refine h.free_slot rfl (by simp [NPROC]) fun q nq hq => ⟨hq, ?_⟩
    rintro rfl
    have := h.embryo q nq hq
    simp [(waitScan_reaped hw).2] at this
  | waits hrun | slept hrun => exact h.of_sameIds (sleepOn_sameIds hrun)
  | woke => exact h.of_sameIds (wakeup1_sameIds _ _)
  | killed => exact h.of_sameIds (kill_sameIds _ _)
  | ran hp | yielded hp => exact h.of_sameIds (SameIds.update rfl (by simp [hp]) (by simp [hp]))

/-- From a state of the invariant, only a `fork` into a clean slot leads to a state in which pids
identify processes. -/
lemma PidInv.cleanSlot {s s' : PState} {a : PAct} (h : PidInv s) (hstep : s.Step a s')
    (hid : Identity s') : CleanSlot s a := by
  cases a with
  | fork p =>
    intro i hi
    cases hstep.outcome with
    | full =>
      -- `allocproc` returned 0 although a slot was unused: impossible
      simp only [PState.Step, PState.step] at hstep
      split_ifs at hstep
      obtain ⟨v, hv, _⟩ := getSmallestPid_ok (h.claimSlot_inRange i)
      simp only [allocproc, hi, hv, Option.some.injEq] at hstep
      have := congrArg (fun s => (s.table i).state) hstep
      simp [firstUnused_some hi] at this
    | @took _ k v hf hv =>
      obtain rfl : k = i := by simpa [hf] using hi
      have := (hid.range k (by simp)).1
      exact h.cleanSlot_of_pid hv (by simpa using this)
  | _ => trivial

/-- The state in which `userinit` leaves the table: the first process has slot 0 and pid 1. -/
lemma PState.userinit_eq {s : PState} (h : PState.userinit = some s) :
    s = ⟨Function.update PState.zeroTable 0 ⟨.runnable, 1, none, none, false⟩, 0,
      fun _ => none⟩ := by
  have hpid : getSmallestPid (claimSlot PState.zeroTable 0) = .ok 1 := by decide
  have hfirst : firstUnused PState.zeroTable = some 0 := by decide
  simpa [PState.userinit, allocproc, hfirst, hpid, PState.zeroTable] using h.symm

lemma pidInv_userinit {s : PState} (h : PState.userinit = some s) : PidInv s := by
  obtain rfl := PState.userinit_eq h
  refine ⟨fun i => ?_, fun i hi => ?_, fun i j hi hj _ => ?_, by simp, by simp⟩
  · by_cases h0 : i = 0
    · subst h0; simp [NPROC]
    · simp [Function.update_of_ne h0, PState.zeroTable, NPROC]
  · by_cases h0 : i = 0
    · subst h0; simp
    · simp [Function.update_of_ne h0, PState.zeroTable] at hi
  · have key : ∀ k : Slot, (Function.update PState.zeroTable 0
        ⟨.runnable, 1, none, none, false⟩ k).state ≠ .unused → k = 0 := by
      intro k hk
      by_contra h0
      simp [Function.update_of_ne h0, PState.zeroTable] at hk
    rw [key i hi, key j hj]

/-- Pids identify processes in every state of a run from boot exactly when each `fork` of the run
finds a slot whose last user left pid 0 and which is not the last unused slot. -/
theorem identity_iff_cleanSlots {s₀ s : PState} {tr : List (PState × PAct)}
    (h₀ : PState.userinit = some s₀) (hr : Run PState.Step s₀ tr s) :
    AllStates Identity tr s ↔ AllSteps CleanSlot tr :=
  hr.allStates_iff (fun _ h => h.identity) (fun _ _ _ h hc hs => h.step hc hs)
    (fun _ _ _ h hs hid => h.cleanSlot hs hid) (pidInv_userinit h₀)

/-- The actions `l` after boot, each tested before it is taken, are a run, whose last state is
described by `f`. -/
lemma PState.exists_run (C : PState → PAct → Prop) [∀ s a, Decidable (C s a)] {β : Type}
    (f : PState → β) (l : List PAct) (b : β)
    (h : (PState.userinit.bind fun s =>
      (follow (fun s a => if C s a then s.step a else none) s l).map f) = some b) :
    ∃ s₀ s tr, PState.userinit = some s₀ ∧ Run PState.Step s₀ tr s ∧ tr.map Prod.snd = l ∧
      f s = b ∧ AllSteps C tr := by
  obtain ⟨s₀, h₀, hl⟩ := Option.bind_eq_some_iff.mp h
  obtain ⟨tr, s, hrun⟩ := Run.of_follow_if hl
  exact ⟨s₀, s, tr, h₀, hrun⟩

instance (s : PState) (a : PAct) : Decidable (CleanSlot s a) := by
  cases a <;> dsimp only [CleanSlot] <;> infer_instance

/-- Init forks a child, which gets pid 2: the run meets the condition. -/
theorem identity_first_fork :
    ∃ s₀ s tr, PState.userinit = some s₀ ∧ Run PState.Step s₀ tr s ∧
      tr.map Prod.snd = [.run 0, .fork 0, .forked 0] ∧ (s.table 1).pid = 2 ∧
      AllSteps CleanSlot tr ∧ AllStates Identity tr s := by
  obtain ⟨s₀, s, tr, h₀, hr, htr, h1, hclean⟩ := PState.exists_run CleanSlot
    (fun s => (s.table 1).pid) [.run 0, .fork 0, .forked 0] 2 (by decide +kernel)
  exact ⟨s₀, s, tr, h₀, hr, htr, h1, hclean, (identity_iff_cleanSlots h₀ hr).mpr hclean⟩

/-- Init forks, the kernel stack cannot be allocated, init forks again: the second child is alive
with pid 0, which is also what `fork` returns to init. -/
theorem identity_broken_by_failed_fork :
    ∃ s₀ s tr, PState.userinit = some s₀ ∧ Run PState.Step s₀ tr s ∧
      tr.map Prod.snd = [.run 0, .fork 0, .stackFailed 0, .fork 0, .forked 0] ∧
      (s.table 1).state = .runnable ∧ (s.table 1).pid = 0 ∧ ¬ AllStates Identity tr s := by
  obtain ⟨s₀, s, tr, h₀, hr, htr, h1, -⟩ := PState.exists_run (fun _ _ => True)
    (fun s => ((s.table 1).state, (s.table 1).pid))
    [.run 0, .fork 0, .stackFailed 0, .fork 0, .forked 0] (.runnable, 0) (by decide +kernel)
  rw [Prod.mk.injEq] at h1
  refine ⟨s₀, s, tr, h₀, hr, htr, h1.1, h1.2, fun hall => ?_⟩
  have := (hall.2.range 1 (by simp [h1.1])).1
  omega

end Xv6
