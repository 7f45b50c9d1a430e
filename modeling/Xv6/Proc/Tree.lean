import Xv6.Proc.Pid

/-!
# The process tree

`exit` never frees the slot of the process: it leaves a ZOMBIE for the parent to reap in `wait`. For
that to work the parent has to be a process that still runs, and it must not be asleep in `wait`
with a zombie to collect. Both hold between any two critical sections of `ptable.lock`.

The proof sorts the steps by what they do to the tree. Most of them are `Quiet`: no parent changes
and nobody dies. What is left is a finished `fork`, an `exit`, a reaping `wait` and a `wait` that
falls asleep.
-/

namespace Xv6

open TransitionSystem

/-- SLEEPING, RUNNABLE or RUNNING. -/
def Proc.Alive (p : Proc) : Prop :=
  p.state = .sleeping ∨ p.state = .runnable ∨ p.state = .running

/-- UNUSED or EMBRYO: the slot holds no process yet. -/
def Proc.Unborn (p : Proc) : Prop :=
  p.state = .unused ∨ p.state = .embryo

/-- `p` is asleep in `wait`: nothing else sleeps on the address of a process. -/
def Waits (t : PTable) (p : Slot) : Prop :=
  (t p).state = .sleeping ∧ (t p).chan = some (.proc p)

/-- The channel of a `sleep` that is not part of `wait` is the address of some other object: the
ticks, a pipe, a buffer, the log, a sleep-lock or the console. -/
def PAct.OwnChannel : PAct → Prop
  | .sleep _ (.proc _) => False
  | _ => True

/-- One critical section of `ptable.lock`. -/
def PState.TreeStep (s : PState) (a : PAct) (s' : PState) : Prop :=
  a.OwnChannel ∧ s.Step a s'

/-- The slot that the action gives back to the table, if it is a `wait` that reaps a child. -/
def PState.reaps (s : PState) : PAct → Option Slot
  | .wait p =>
    match waitScan s.table p with
    | .reaped i => some i
    | _ => none
  | _ => none

/-- The process tree, in one state. -/
structure Tree (s : PState) : Prop where
  parent : ∀ i, i ≠ s.initproc → ¬ (s.table i).Unborn →
    ∃ p, (s.table i).parent = some p ∧ (s.table p).Alive
  /-- Nobody is asleep in `wait` with a zombie to reap. -/
  awake : ∀ p i, Waits s.table p → (s.table i).parent = some p → (s.table i).state ≠ .zombie

/-- A `wait` reaps a zombie child of its caller, and it gives up only when the caller has no child
or is killed. -/
def WaitSound (s : PState) (a : PAct) : Prop :=
  ∀ p, a = .wait p →
    (∀ i, waitScan s.table p = .reaped i →
      (s.table i).parent = some p ∧ (s.table i).state = .zombie) ∧
    (waitScan s.table p = .noChildren →
      (∀ i, (s.table i).parent ≠ some p) ∨ (s.table p).killed = true)

/-- How often the process in slot `i` exited during the run. -/
def exits (tr : List (PState × PAct)) (i : Slot) : Nat :=
  tr.countP fun x => x.2 = .exit i

/-- How often some `wait` of the run reaped slot `i`. -/
def reapings (tr : List (PState × PAct)) (i : Slot) : Nat :=
  tr.countP fun x => x.1.reaps x.2 = some i

lemma waitScan_noChildren {t : PTable} {p : Slot} (h : waitScan t p = .noChildren) :
    (∀ i, (t i).parent ≠ some p) ∨ (t p).killed = true := by
  unfold waitScan at h
  split at h
  · cases h
  · split_ifs at h with hc
    simpa using hc

lemma waitScan_block {t : PTable} {p : Slot} (h : waitScan t p = .block) (i : Slot)
    (hi : (t i).parent = some p) : (t i).state ≠ .zombie := by
  unfold waitScan at h
  split at h
  · cases h
  · rename_i hnone
    simpa [hi] using List.find?_eq_none.mp hnone i (List.mem_finRange i)

lemma waitSound (s : PState) (a : PAct) : WaitSound s a :=
  fun _ _ => ⟨fun _ hw => waitScan_reaped hw, waitScan_noChildren⟩

/-! ### Unfinished forks -/

/-- Each unfinished `fork` works on an EMBRYO slot of its own. -/
structure Forks (s : PState) : Prop where
  embryo : ∀ p np, s.forking p = some np → (s.table np).state = .embryo
  owner : ∀ p q np, s.forking p = some np → s.forking q = some np → p = q

lemma Forks.of_sameIds {s : PState} {t : PTable} (h : Forks s) (ht : SameIds s.table t) :
    Forks { s with table := t } where
  embryo p np hp := (ht.embryo np).mpr (h.embryo p np hp)
  owner := h.owner

/-- A slot that no `fork` works on may change as it likes. -/
lemma Forks.update {s : PState} (h : Forks s) {i : Slot} (pr : Proc)
    (hi : (s.table i).state ≠ .embryo) :
    Forks { s with table := Function.update s.table i pr } where
  embryo p np hp := by
    have hnp : np ≠ i := by
      rintro rfl
      exact hi (h.embryo p np hp)
    simpa [Function.update_of_ne hnp] using h.embryo p np hp
  owner := h.owner

/-- `fork` is done with its slot. -/
lemma Forks.finish {s : PState} (h : Forks s) {p np : Slot} (hp : s.forking p = some np)
    (pr : Proc) :
    Forks { s with
      table := Function.update s.table np pr
      forking := Function.update s.forking p none } := by
  have hother : ∀ q nq, Function.update s.forking p none q = some nq →
      s.forking q = some nq ∧ nq ≠ np := by
    intro q nq hq
    have hqp : q ≠ p := by
      rintro rfl
      simp at hq
    rw [Function.update_of_ne hqp] at hq
    refine ⟨hq, ?_⟩
    rintro rfl
    exact hqp (h.owner q p nq hq hp)
  refine ⟨fun q nq hq => ?_, fun q r nq hq hr => ?_⟩
  · obtain ⟨hq, hne⟩ := hother q nq hq
    simpa [Function.update_of_ne hne] using h.embryo q nq hq
  · exact h.owner q r nq (hother q nq hq).1 (hother r nq hr).1

/-- `fork` takes the unused slot `i`. -/
lemma Forks.take {s : PState} (h : Forks s) {p i : Slot} (hi : (s.table i).state = .unused)
    (pr : Proc) (hpr : pr.state = .embryo) :
    Forks { s with
      table := Function.update s.table i pr
      forking := Function.update s.forking p (some i) } := by
  have hfree : ∀ q, s.forking q ≠ some i := by
    intro q hq
    simp [h.embryo q i hq] at hi
  have howner : ∀ q nq, Function.update s.forking p (some i) q = some nq →
      (q = p ∧ nq = i) ∨ (s.forking q = some nq ∧ nq ≠ i) := by
    intro q nq hq
    by_cases hqp : q = p
    · subst hqp
      exact Or.inl ⟨rfl, by simpa using hq.symm⟩
    · rw [Function.update_of_ne hqp] at hq
      refine Or.inr ⟨hq, ?_⟩
      rintro rfl
      exact hfree q hq
  refine ⟨fun q nq hq => ?_, fun q r nq hq hr => ?_⟩
  · rcases howner q nq hq with ⟨-, rfl⟩ | ⟨hq, hne⟩
    · simpa using hpr
    · simpa [Function.update_of_ne hne] using h.embryo q nq hq
  · rcases howner q nq hq with ⟨rfl, rfl⟩ | ⟨hq, hne⟩
    · rcases howner r nq hr with ⟨rfl, -⟩ | ⟨-, hne⟩
      · rfl
      · exact absurd rfl hne
    · rcases howner r nq hr with ⟨-, rfl⟩ | ⟨hr, -⟩
      · exact absurd rfl hne
      · exact h.owner q r nq hq hr

/-! ### Steps that leave the tree alone -/

/-- From `t` to `t'` nobody is born, dies or is reaped, and nobody falls asleep in `wait`. -/
structure Still (t t' : PTable) : Prop where
  alive : ∀ i, (t i).Alive → (t' i).Alive
  unborn : ∀ i, (t i).Unborn → (t' i).Unborn
  zombie : ∀ i, (t' i).state = .zombie ↔ (t i).state = .zombie
  waits : ∀ i, Waits t' i → Waits t i

/-- No parent changes either. -/
structure Quiet (t t' : PTable) : Prop extends Still t t' where
  parent : ∀ i, (t' i).parent = (t i).parent

lemma Still.refl (t : PTable) : Still t t :=
  ⟨fun _ h => h, fun _ h => h, fun _ => Iff.rfl, fun _ h => h⟩

lemma Still.trans {t t' t'' : PTable} (h : Still t t') (h' : Still t' t'') : Still t t'' where
  alive i hi := h'.alive i (h.alive i hi)
  unborn i hi := h'.unborn i (h.unborn i hi)
  zombie i := (h'.zombie i).trans (h.zombie i)
  waits i hi := h.waits i (h'.waits i hi)

/-- A change of one slot that is still for this slot. -/
lemma Still.update {t : PTable} {i : Slot} {pr : Proc} (halive : (t i).Alive → pr.Alive)
    (hunborn : (t i).Unborn → pr.Unborn) (hzombie : pr.state = .zombie ↔ (t i).state = .zombie)
    (hwaits : pr.state = .sleeping → pr.chan = some (.proc i) → Waits t i) :
    Still t (Function.update t i pr) := by
  refine ⟨fun j hj => ?_, fun j hj => ?_, fun j => ?_, fun j hj => ?_⟩ <;>
    by_cases hji : j = i
  · subst hji
    simpa using halive hj
  · simpa [Function.update_of_ne hji] using hj
  · subst hji
    simpa using hunborn hj
  · simpa [Function.update_of_ne hji] using hj
  · subst hji
    simpa using hzombie
  · simp [Function.update_of_ne hji]
  · subst hji
    simp only [Waits, Function.update_self] at hj
    exact hwaits hj.1 hj.2
  · simpa [Waits, Function.update_of_ne hji] using hj

lemma Quiet.refl (t : PTable) : Quiet t t :=
  ⟨Still.refl t, fun _ => rfl⟩

/-- The same, with the parent left alone. -/
lemma Quiet.of_update {t : PTable} {i : Slot} {pr : Proc} (h : Still t (Function.update t i pr))
    (hparent : pr.parent = (t i).parent) : Quiet t (Function.update t i pr) := by
  refine ⟨h, fun j => ?_⟩
  by_cases hj : j = i
  · subst hj
    simpa using hparent
  · simp [Function.update_of_ne hj]

lemma wakeup1_quiet (c : Option Chan) (t : PTable) : Quiet t (wakeup1 c t) := by
  refine ⟨⟨fun i => ?_, fun i => ?_, fun i => ?_, fun i => ?_⟩, fun i => ?_⟩ <;>
  · simp only [wakeup1, Proc.Alive, Proc.Unborn, Waits]
    split_ifs with h
    · simp [h.1]
    · simp

lemma kill_quiet (pid : Int) (t : PTable) : Quiet t (kill pid t).2 := by
  unfold kill
  cases hf : (List.finRange NPROC).find? (fun i => (t i).pid = pid) with
  | none => exact Quiet.refl t
  | some i =>
    refine Quiet.of_update (Still.update ?_ ?_ ?_ ?_) rfl
    all_goals
      simp only [Proc.Alive, Proc.Unborn, Waits]
      split_ifs with h <;> simp [h]

/-- A woken process is not asleep in `wait`. -/
lemma not_waits_wakeup1 (t : PTable) (p : Slot) : ¬ Waits (wakeup1 (some (.proc p)) t) p := by
  simp only [Waits, wakeup1]
  split_ifs with h
  · simp
  · exact h

/-! ### Exit -/

/-- What the loop of `exit` does: the listed children of `p` pass to `initproc`, which is not left
asleep if one of them is dead. -/
structure Abandoned (initproc p : Slot) (l : List Slot) (t t' : PTable) : Prop
    extends Still t t' where
  parent : ∀ i, (t' i).parent =
    if i ∈ l ∧ (t i).parent = some p then some initproc else (t i).parent
  woken : ∀ i ∈ l, (t i).parent = some p → (t i).state = .zombie → ¬ Waits t' initproc

/-- One child passes to `initproc`. -/
lemma abandon_one (initproc : Slot) {p i : Slot} {t : PTable} (hi : (t i).parent = some p) :
    Abandoned initproc p [i] t
      (if (t i).state = .zombie then
        wakeup1 (some (.proc initproc))
          (Function.update t i { t i with parent := some initproc })
      else Function.update t i { t i with parent := some initproc }) := by
  set t₁ := Function.update t i { t i with parent := some initproc } with ht₁
  have hstill : Still t t₁ := Still.update id id Iff.rfl fun hs hc => ⟨hs, hc⟩
  have hparent : ∀ j, (t₁ j).parent =
      if j ∈ [i] ∧ (t j).parent = some p then some initproc else (t j).parent := by
    intro j
    by_cases hj : j = i
    · subst hj
      simp [ht₁, hi]
    · simp [ht₁, hj]
  split_ifs with hz
  · have hw := wakeup1_quiet (some (.proc initproc)) t₁
    exact ⟨hstill.trans hw.toStill, fun j => (hw.parent j).trans (hparent j),
      fun _ _ _ _ => not_waits_wakeup1 t₁ initproc⟩
  · refine ⟨hstill, hparent, fun j hj _ hjz => ?_⟩
    rw [List.mem_singleton.mp hj] at hjz
    exact absurd hjz hz

lemma abandonChildren_abandoned {initproc p : Slot} (hne : initproc ≠ p) (l : List Slot)
    (t : PTable) : Abandoned initproc p l t (abandonChildren initproc p l t) := by
  induction l generalizing t with
  | nil => exact ⟨Still.refl t, by simp [abandonChildren], by simp⟩
  | cons i l ih =>
    unfold abandonChildren
    split_ifs with hi
    · simp only [Function.update_self]
      have h₁ := abandon_one initproc hi
      have h₂ := ih (if (t i).state = .zombie then
        wakeup1 (some (.proc initproc))
          (Function.update t i { t i with parent := some initproc })
      else Function.update t i { t i with parent := some initproc })
      refine ⟨h₁.toStill.trans h₂.toStill, fun j => ?_, fun j hj hjp hjz hw => ?_⟩
      · rw [h₂.parent j, h₁.parent j]
        by_cases hj : j = i
        · subst hj
          simp [hi, hne]
        · simp [hj]
      · rcases List.mem_cons.mp hj with rfl | hjl
        · exact h₁.woken j (List.mem_singleton.mpr rfl) hjp hjz (h₂.waits _ hw)
        · by_cases hji : j = i
          · subst hji
            exact h₁.woken j (List.mem_singleton.mpr rfl) hjp hjz (h₂.waits _ hw)
          · refine h₂.woken j hjl ?_ ((h₁.zombie j).mpr hjz) hw
            simpa [hji, hjp] using h₁.parent j
    · have h := ih t
      refine ⟨h.toStill, fun j => ?_, fun j hj hjp => ?_⟩
      · rw [h.parent j]
        by_cases hj : j = i
        · subst hj
          simp [hi]
        · simp [hj]
      · rcases List.mem_cons.mp hj with rfl | hjl
        · exact absurd hjp hi
        · exact h.woken j hjl hjp

/-- What `exit` does to the table: `p` is a zombie, its children are those of `initproc`, and
neither its parent nor `initproc` is left asleep with a zombie child. -/
structure Exited (initproc p : Slot) (t t' : PTable) : Prop where
  self : (t' p).state = .zombie
  alive : ∀ i, i ≠ p → (t i).Alive → (t' i).Alive
  unborn : ∀ i, i ≠ p → (t i).Unborn → (t' i).Unborn
  zombie : ∀ i, i ≠ p → ((t' i).state = .zombie ↔ (t i).state = .zombie)
  waits : ∀ i, Waits t' i → Waits t i
  parent : ∀ i, (t' i).parent = if (t i).parent = some p then some initproc else (t i).parent
  wokenParent : ∀ q, (t p).parent = some q → ¬ Waits t' q
  wokenInit : ∀ i, (t i).parent = some p → (t i).state = .zombie → ¬ Waits t' initproc

lemma exitTable_exited {initproc p : Slot} (hne : initproc ≠ p) (t : PTable) :
    Exited initproc p t (exitTable initproc p t) := by
  unfold exitTable
  set t₁ := wakeup1 ((t p).parent.map .proc) t with ht₁
  set t₂ := abandonChildren initproc p (List.finRange NPROC) t₁ with ht₂
  have h₁ : Quiet t t₁ := wakeup1_quiet _ t
  have h₂ : Abandoned initproc p (List.finRange NPROC) t₁ t₂ :=
    abandonChildren_abandoned hne _ t₁
  have h₁₂ := h₁.toStill.trans h₂.toStill
  have hwaits : ∀ i, Waits (Function.update t₂ p { t₂ p with state := .zombie }) i →
      Waits t₂ i := by
    intro i hi
    by_cases hip : i = p
    · subst hip
      simp [Waits] at hi
    · simpa [Waits, Function.update_of_ne hip] using hi
  refine ⟨by simp, fun i hi => ?_, fun i hi => ?_, fun i hi => ?_,
    fun i hi => h₁₂.waits i (hwaits i hi), fun i => ?_, fun q hq hw => ?_,
    fun i hi hz hw => ?_⟩
  · simpa only [Function.update_of_ne hi] using h₁₂.alive i
  · simpa only [Function.update_of_ne hi] using h₁₂.unborn i
  · simpa only [Function.update_of_ne hi] using h₁₂.zombie i
  · have hp₂ : (t₂ i).parent =
        if (t i).parent = some p then some initproc else (t i).parent := by
      rw [h₂.parent i, h₁.parent i]
      simp
    by_cases hip : i = p
    · subst hip
      simpa using hp₂
    · simpa [Function.update_of_ne hip] using hp₂
  · have hw₁ : Waits t₁ q := h₂.waits q (hwaits q hw)
    rw [ht₁, hq] at hw₁
    exact not_waits_wakeup1 t q hw₁
  · refine h₂.woken i (List.mem_finRange i) ?_ ((h₁.zombie i).mpr hz) (hwaits _ hw)
    rw [h₁.parent i, hi]

/-! ### The invariant -/

/-- The invariant behind `Tree`. -/
structure TreeInv (s : PState) : Prop where
  init : (s.table s.initproc).Alive
  root : (s.table s.initproc).parent = none
  alive : ∀ i p, (s.table i).parent = some p → (s.table p).Alive
  orphan : ∀ i, (s.table i).parent = none → i = s.initproc ∨ (s.table i).Unborn
  irrefl : ∀ i, (s.table i).parent ≠ some i
  awake : ∀ p i, Waits s.table p → (s.table i).parent = some p → (s.table i).state ≠ .zombie

lemma TreeInv.tree {s : PState} (h : TreeInv s) : Tree s where
  parent i hi hu := by
    cases hp : (s.table i).parent with
    | none =>
      rcases h.orphan i hp with rfl | hunborn
      · exact absurd rfl hi
      · exact absurd hunborn hu
    | some p => exact ⟨p, rfl, h.alive i p hp⟩
  awake := h.awake

lemma Proc.Alive.ne_zombie {p : Proc} (h : p.Alive) : p.state ≠ .zombie := by
  rcases h with h | h | h <;> simp [h]

lemma Proc.Alive.not_unborn {p : Proc} (h : p.Alive) : ¬ p.Unborn := by
  rcases h with h | h | h <;> simp [Proc.Unborn, h]

/-- No parent changes and nobody dies; whoever falls asleep in `wait` has looked for zombies. -/
lemma TreeInv.same_tree {s s' : PState} (h : TreeInv s) (hinit : s'.initproc = s.initproc)
    (hparent : ∀ i, (s'.table i).parent = (s.table i).parent)
    (halive : ∀ i, (s.table i).Alive → (s'.table i).Alive)
    (hunborn : ∀ i, (s.table i).Unborn → (s'.table i).Unborn)
    (hawake : ∀ p i, Waits s'.table p → (s.table i).parent = some p →
      (s'.table i).state ≠ .zombie) : TreeInv s' where
  init := by
    rw [hinit]
    exact halive _ h.init
  root := by
    rw [hinit, hparent]
    exact h.root
  alive i p hp := by
    rw [hparent i] at hp
    exact halive p (h.alive i p hp)
  orphan i hp := by
    rw [hparent i] at hp
    rw [hinit]
    exact (h.orphan i hp).imp_right (hunborn i)
  irrefl i := by
    rw [hparent i]
    exact h.irrefl i
  awake p i hw hp := by
    rw [hparent i] at hp
    exact hawake p i hw hp

lemma TreeInv.quiet {s s' : PState} (h : TreeInv s) (hq : Quiet s.table s'.table)
    (hinit : s'.initproc = s.initproc) : TreeInv s' :=
  h.same_tree hinit hq.parent hq.alive hq.unborn fun p i hw hp hz =>
    h.awake p i (hq.waits p hw) hp ((hq.zombie i).mp hz)

/-- A running process without a zombie child falls asleep in `wait`. -/
lemma TreeInv.block {s : PState} {p : Slot} (h : TreeInv s) (hp : (s.table p).state = .running)
    (hno : ∀ i, (s.table i).parent = some p → (s.table i).state ≠ .zombie) :
    TreeInv { s with table := sleepOn (.proc p) p s.table } := by
  have hself : sleepOn (.proc p) p s.table p =
      { s.table p with chan := some (.proc p), state := .sleeping } := Function.update_self ..
  have hother : ∀ i, i ≠ p → sleepOn (.proc p) p s.table i = s.table i :=
    fun i hi => Function.update_of_ne hi _ _
  have hz : ∀ i, (sleepOn (.proc p) p s.table i).state = .zombie → (s.table i).state = .zombie := by
    intro i hi
    by_cases hip : i = p
    · subst hip
      simp [hself] at hi
    · rwa [hother i hip] at hi
  refine h.same_tree rfl (fun i => ?_) (fun i hi => ?_) (fun i hi => ?_)
    (fun q i hw hq hiz => ?_)
  · by_cases hip : i = p
    · subst hip
      simp [hself]
    · simp only [hother i hip]
  · by_cases hip : i = p
    · subst hip
      exact Or.inl (by simp [hself])
    · simpa only [hother i hip] using hi
  · have hip : i ≠ p := by
      rintro rfl
      exact Proc.Alive.not_unborn (Or.inr (Or.inr hp)) hi
    simpa only [hother i hip] using hi
  · by_cases hqp : q = p
    · subst hqp
      exact hno i hq (hz i hiz)
    · simp only [Waits, hother q hqp] at hw
      exact h.awake q i hw hq (hz i hiz)

lemma TreeInv.exit {s : PState} {p : Slot} {t : PTable} (h : TreeInv s)
    (hp : (s.table p).state = .running) (hne : p ≠ s.initproc)
    (he : Exited s.initproc p s.table t) : TreeInv { s with table := t } where
  init := he.alive _ hne.symm h.init
  root := by
    have hroot := he.parent s.initproc
    rw [h.root] at hroot
    simpa using hroot
  alive i q hq := by
    simp only [he.parent i] at hq
    split_ifs at hq with hi
    · cases hq
      exact he.alive _ hne.symm h.init
    · refine he.alive q ?_ (h.alive i q hq)
      rintro rfl
      exact hi hq
  orphan i hi := by
    simp only [he.parent i] at hi
    split_ifs at hi with hip
    rcases h.orphan i hi with rfl | hu
    · exact Or.inl rfl
    · refine Or.inr (he.unborn i ?_ hu)
      rintro rfl
      exact Proc.Alive.not_unborn (Or.inr (Or.inr hp)) hu
  irrefl i := by
    simp only [he.parent i]
    split_ifs with hi
    · -- the parent of `initproc` is not `p`
      rintro heq
      cases heq
      rw [h.root] at hi
      cases hi
    · exact h.irrefl i
  awake q i hw hq hz := by
    simp only [he.parent i] at hq
    by_cases hi : i = p
    · -- `p` itself: its parent was woken
      subst hi
      rw [if_neg (h.irrefl i)] at hq
      exact he.wokenParent q hq hw
    · have hz' := (he.zombie i hi).mp hz
      split_ifs at hq with hip
      · cases hq
        exact he.wokenInit i hip hz' hw
      · exact h.awake q i (he.waits q hw) hq hz'

lemma TreeInv.ne_init {s : PState} (h : TreeInv s) {i : Slot} (hi : ¬ (s.table i).Alive) :
    s.initproc ≠ i := by
  rintro rfl
  exact hi h.init

/-- A slot without a living process may be given to a child of one, or be unused again. -/
lemma TreeInv.replace {s : PState} {i : Slot} (h : TreeInv s) (hi : ¬ (s.table i).Alive)
    (pr : Proc) (forking : Slot → Option Slot) (hz : pr.state ≠ .zombie)
    (hs : pr.state ≠ .sleeping) (horphan : pr.parent = none → pr.Unborn)
    (hparent : ∀ q, pr.parent = some q → (s.table q).Alive) :
    TreeInv { s with table := Function.update s.table i pr, forking := forking } := by
  have hother : ∀ j, j ≠ i → Function.update s.table i pr j = s.table j :=
    fun j hj => Function.update_of_ne hj _ _
  have hself : Function.update s.table i pr i = pr := Function.update_self ..
  have hne : ∀ q, (s.table q).Alive → q ≠ i := by
    rintro q hq rfl
    exact hi hq
  have hinit := hother _ (h.ne_init hi)
  refine ⟨?_, ?_, fun j q hq => ?_, fun j hj => ?_, fun j => ?_, fun q j hw hq => ?_⟩
  · simpa only [hinit] using h.init
  · simpa only [hinit] using h.root
  · have hq' : (s.table q).Alive := by
      by_cases hji : j = i
      · subst hji
        exact hparent q (by simpa only [hself] using hq)
      · exact h.alive j q (by simpa only [hother j hji] using hq)
    simpa only [hother q (hne q hq')] using hq'
  · by_cases hji : j = i
    · subst hji
      simp only [hself] at hj ⊢
      exact Or.inr (horphan hj)
    · simp only [hother j hji] at hj ⊢
      exact h.orphan j hj
  · by_cases hji : j = i
    · subst hji
      simp only [hself]
      exact fun hp => hi (hparent j hp)
    · simpa only [hother j hji] using h.irrefl j
  · by_cases hji : j = i
    · subst hji
      simpa only [hself] using hz
    · simp only [hother j hji] at hq ⊢
      have hqi : q ≠ i := by
        rintro rfl
        exact hs (by simpa only [Waits, hself] using hw.1)
      refine h.awake q j ?_ hq
      simpa only [Waits, hother q hqi] using hw

/-! ### Steps and runs -/

/-- What one step does to the tree. -/
inductive Moves (s : PState) : PAct → PState → Prop
  | quiet {a : PAct} {s' : PState} : Quiet s.table s'.table → s'.initproc = s.initproc →
      (∀ p, a ≠ .exit p) → s.reaps a = none → Moves s a s'
  | born {p np : Slot} : s.forking p = some np → (s.table p).state = .running →
      Moves s (.forked p) (s.finishFork p np)
  | died {p : Slot} : (s.table p).state = .running → p ≠ s.initproc →
      Moves s (.exit p) { s with table := exitTable s.initproc p s.table }
  | reaped {p i : Slot} : waitScan s.table p = .reaped i →
      Moves s (.wait p) { s with table := reapSlot i s.table }
  | waits {p : Slot} : (s.table p).state = .running → waitScan s.table p = .block →
      Moves s (.wait p) { s with table := sleepOn (.proc p) p s.table }

/-- A slot without a process stays without one. -/
lemma quiet_unborn {t : PTable} {i : Slot} {pr : Proc} (hi : (t i).Unborn) (hpr : pr.Unborn)
    (hparent : pr.parent = (t i).parent) : Quiet t (Function.update t i pr) := by
  refine Quiet.of_update (Still.update ?_ (fun _ => hpr) ?_ ?_) hparent
  · exact fun ha => absurd hi ha.not_unborn
  · rcases hi with hi | hi <;> rcases hpr with hpr | hpr <;> simp [hi, hpr]
  · rcases hpr with hpr | hpr <;> simp [hpr]

/-- A living process stays alive, and does not fall asleep in `wait`. -/
lemma quiet_alive {t : PTable} {i : Slot} {pr : Proc} (hi : (t i).Alive) (hpr : pr.Alive)
    (hparent : pr.parent = (t i).parent)
    (hw : pr.state = .sleeping → pr.chan ≠ some (.proc i)) : Quiet t (Function.update t i pr) :=
  Quiet.of_update (Still.update (fun _ => hpr) (fun hu => absurd hu hi.not_unborn)
    (iff_of_false hpr.ne_zombie hi.ne_zombie) fun hs hc => absurd hc (hw hs)) hparent

lemma PState.TreeStep.moves {s s' : PState} {a : PAct} (hf : Forks s) (h : s.TreeStep a s') :
    Moves s a s' ∧ Forks s' := by
  obtain ⟨hown, hstep⟩ := h
  cases hstep.outcome with
  | full => exact ⟨.quiet (Quiet.refl _) rfl (by simp) rfl, hf⟩
  | took hi =>
    have hu := firstUnused_some hi
    exact ⟨.quiet (quiet_unborn (Or.inl hu) (Or.inr rfl) rfl) rfl (by simp) rfl, hf.take hu _ rfl⟩
  | noStack hp | noCopy hp =>
    exact ⟨.quiet (quiet_unborn (Or.inr (hf.embryo _ _ hp)) (Or.inl rfl) rfl) rfl (by simp) rfl,
      hf.finish hp _⟩
  | forked hp hrun => exact ⟨.born hp hrun, hf.finish hp _⟩
  | exited hrun hinit => exact ⟨.died hrun hinit, hf.of_sameIds (exitTable_sameIds hrun)⟩
  | reaped hw => exact ⟨.reaped hw, hf.update _ (by simp [(waitScan_reaped hw).2])⟩
  | childless hw =>
    exact ⟨.quiet (Quiet.refl _) rfl (by simp) (by simp [PState.reaps, hw]), hf⟩
  | waits hrun hw => exact ⟨.waits hrun hw, hf.of_sameIds (sleepOn_sameIds hrun)⟩
  | @slept p c hrun =>
    have hc : ∀ q, c ≠ .proc q := by
      rintro q rfl
      exact hown
    exact ⟨.quiet (quiet_alive (Or.inr (Or.inr hrun)) (Or.inl rfl) rfl
      (fun _ => by simpa using hc p)) rfl (by simp) rfl, hf.of_sameIds (sleepOn_sameIds hrun)⟩
  | woke =>
    exact ⟨.quiet (wakeup1_quiet _ _) rfl (by simp) rfl, hf.of_sameIds (wakeup1_sameIds _ _)⟩
  | killed => exact ⟨.quiet (kill_quiet _ _) rfl (by simp) rfl, hf.of_sameIds (kill_sameIds _ _)⟩
  | ran hp =>
    exact ⟨.quiet (quiet_alive (Or.inr (Or.inl hp)) (Or.inr (Or.inr rfl)) rfl (by simp)) rfl
      (by simp) rfl, hf.of_sameIds (SameIds.update rfl (by simp [hp]) (by simp [hp]))⟩
  | yielded hp =>
    exact ⟨.quiet (quiet_alive (Or.inr (Or.inr hp)) (Or.inr (Or.inl rfl)) rfl (by simp)) rfl
      (by simp) rfl, hf.of_sameIds (SameIds.update rfl (by simp [hp]) (by simp [hp]))⟩

lemma TreeInv.step {s s' : PState} {a : PAct} (h : TreeInv s) (hf : Forks s)
    (hm : Moves s a s') : TreeInv s' := by
  cases hm with
  | quiet hq hinit _ _ => exact h.quiet hq hinit
  | @born p np hp hrun =>
    have hnp : ¬ (s.table np).Alive :=
      fun ha => ha.not_unborn (Or.inr (hf.embryo p np hp))
    refine h.replace hnp _ _ (by simp) (by simp) (by simp) fun q hq => ?_
    cases hq
    exact Or.inr (Or.inr hrun)
  | died hrun hne => exact h.exit hrun hne (exitTable_exited hne.symm s.table)
  | reaped hw =>
    refine h.replace (fun ha => ha.ne_zombie (waitScan_reaped hw).2) _ s.forking (by simp)
      (by simp) (fun _ => Or.inl rfl) (by simp)
  | waits hrun hw => exact h.block hrun (waitScan_block hw)

/-- Slot `i` holds a zombie: one exit that nobody has reaped. -/
def zombies (s : PState) (i : Slot) : Nat :=
  if (s.table i).state = .zombie then 1 else 0

lemma zombies_congr {s s' : PState} {i : Slot}
    (h : (s'.table i).state = .zombie ↔ (s.table i).state = .zombie) :
    zombies s' i = zombies s i := by
  simp only [zombies, h]

/-- An exit makes one zombie and a reaping `wait` takes one away; nothing else touches them. -/
lemma Moves.zombies {s s' : PState} {a : PAct} (hm : Moves s a s') (hf : Forks s) (i : Slot) :
    Xv6.zombies s' i + (if s.reaps a = some i then 1 else 0) =
      Xv6.zombies s i + (if a = .exit i then 1 else 0) := by
  cases hm with
  | quiet hq _ hexit hreap =>
    rw [zombies_congr (hq.zombie i), hreap, if_neg (hexit i)]
    simp
  | @born p np hp _ =>
    have h : Xv6.zombies (s.finishFork p np) i = Xv6.zombies s i := by
      refine zombies_congr ?_
      by_cases hi : i = np
      · subst hi
        simp [PState.finishFork, hf.embryo p i hp]
      · simp [PState.finishFork, Function.update_of_ne hi]
    simp [h, PState.reaps]
  | @died p hrun hne =>
    have he := exitTable_exited hne.symm s.table
    by_cases hi : i = p
    · subst hi
      simp [Xv6.zombies, he.self, hrun, PState.reaps]
    · rw [zombies_congr (he.zombie i hi)]
      simp [PState.reaps, Ne.symm hi]
  | @reaped p k hw =>
    by_cases hi : i = k
    · subst hi
      simp [Xv6.zombies, reapSlot, PState.reaps, hw, (waitScan_reaped hw).2]
    · simp [Xv6.zombies, reapSlot, PState.reaps, hw, Function.update_of_ne hi, Ne.symm hi]
  | @waits p hrun hw =>
    have h : Xv6.zombies { s with table := sleepOn (.proc p) p s.table } i = Xv6.zombies s i := by
      refine zombies_congr ?_
      by_cases hi : i = p
      · subst hi
        simp [sleepOn, hrun]
      · simp [sleepOn, Function.update_of_ne hi]
    simp [h, PState.reaps, hw]

lemma treeInv_userinit {s : PState} (h : PState.userinit = some s) : TreeInv s := by
  obtain rfl := PState.userinit_eq h
  have hother : ∀ i : Slot, i ≠ 0 → Function.update PState.zeroTable 0
      ⟨.runnable, 1, none, none, false⟩ i = ⟨.unused, 0, none, none, false⟩ :=
    fun i hi => Function.update_of_ne hi _ _
  have hparent : ∀ i : Slot, (Function.update PState.zeroTable 0
      ⟨.runnable, 1, none, none, false⟩ i).parent = none := by
    intro i
    by_cases hi : i = 0
    · subst hi
      simp
    · rw [hother i hi]
  refine ⟨Or.inr (Or.inl (by simp)), hparent 0, fun i p hp => ?_, fun i _ => ?_, fun i hi => ?_,
    fun p i _ hp => ?_⟩
  · simp [hparent i] at hp
  · by_cases hi : i = 0
    · exact Or.inl hi
    · exact Or.inr (Or.inl (congrArg Proc.state (hother i hi)))
  · simp [hparent i] at hi
  · simp [hparent i] at hp

lemma forks_userinit {s : PState} (h : PState.userinit = some s) : Forks s := by
  obtain rfl := PState.userinit_eq h
  exact ⟨by simp, by simp⟩

/-- Every exit of a slot is reaped once, or waits as a zombie to be reaped. -/
lemma exits_eq {s₀ s : PState} {tr : List (PState × PAct)} (h₀ : PState.userinit = some s₀)
    (hr : Run PState.TreeStep s₀ tr s) (i : Slot) : exits tr i = reapings tr i + zombies s i := by
  induction hr with
  | refl =>
    obtain rfl := PState.userinit_eq h₀
    by_cases hi : i = 0
    · subst hi
      simp [exits, reapings, zombies]
    · simp [exits, reapings, zombies, Function.update_of_ne hi, PState.zeroTable]
  | @tail tr t u a hr ha ih =>
    have hf : Forks t := (hr.invariant (fun _ _ _ hf hs => (hs.moves hf).2) (forks_userinit h₀)).2
    have hz := (ha.moves hf).1.zombies hf i
    simp only [exits, reapings, List.countP_append, List.countP_singleton,
      decide_eq_true_eq] at ih ⊢
    omega

/-- In every run from boot each process other than `initproc` has a living parent and nobody is
asleep in `wait` with a zombie child. Each `wait` reaps a zombie child of its caller or gives up for
a reason, and the exits of a slot are those reaped so far together with the zombie in it. -/
theorem tree_run {s₀ s : PState} {tr : List (PState × PAct)} (h₀ : PState.userinit = some s₀)
    (hr : Run PState.TreeStep s₀ tr s) :
    AllStates Tree tr s ∧ AllSteps WaitSound tr ∧
      ∀ i, exits tr i = reapings tr i + zombies s i := by
  refine ⟨?_, fun x _ => waitSound x.1 x.2, exits_eq h₀ hr⟩
  have hinv : AllStates (fun s => TreeInv s ∧ Forks s) tr s := by
    refine hr.invariant (fun s a s' h hs => ?_) ⟨treeInv_userinit h₀, forks_userinit h₀⟩
    obtain ⟨hm, hf⟩ := hs.moves h.2
    exact ⟨h.1.step h.2 hm, hf⟩
  exact hinv.mono fun _ h => h.1.tree

instance (a : PAct) : Decidable a.OwnChannel := by
  unfold PAct.OwnChannel
  split <;> infer_instance

/-- Init forks and falls asleep in `wait`; the child exits, which wakes init, and init reaps it. -/
theorem tree_exitwait :
    ∃ s₀ s tr, PState.userinit = some s₀ ∧ Run PState.TreeStep s₀ tr s ∧
      tr.map Prod.snd = [.run 0, .fork 0, .forked 0, .wait 0, .run 1, .exit 1, .run 0, .wait 0] ∧
      (s.table 1).state = .unused ∧ exits tr 1 = reapings tr 1 ∧ AllStates Tree tr s := by
  obtain ⟨s₀, s, tr, h₀, hr, htr, h1, hown⟩ := PState.exists_run (fun _ a => a.OwnChannel)
    (fun s => (s.table 1).state)
    [.run 0, .fork 0, .forked 0, .wait 0, .run 1, .exit 1, .run 0, .wait 0] .unused
    (by decide +kernel)
  have hr' : Run PState.TreeStep s₀ tr s := hr.restrict hown
  obtain ⟨htree, -, hcount⟩ := tree_run h₀ hr'
  refine ⟨s₀, s, tr, h₀, hr', htr, h1, ?_, htree⟩
  have := hcount 1
  simpa [zombies, h1] using this

end Xv6
