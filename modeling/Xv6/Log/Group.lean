import Xv6.Lib.Count
import Xv6.Lib.Lock
import Xv6.Log.Ops

/-!
# Group commit

A commit runs while no operation is in progress, one process commits at a time, every operation's
blocks end up in one transaction, and nobody sleeps in `begin_op` without a reason.
-/

namespace Xv6

open Lock TransitionSystem

variable {P : Type*} [DecidableEq P]

namespace LogState

/-! ### The two locks -/

variable {s : LogState P} {a : LogAct P}

lemma lock_next (h : HeldBy (fun t => t.pc.holdsLog) s.tasks s.lock) (he : s.Enabled a) :
    HeldBy (fun t => t.pc.holdsLog) (s.next a).tasks (s.next a).lock := by
  cases a with
  | beginOp p | endOp p | sleepPark p | erase p | clearCommitting p =>
    apply h.keep
    simp only [Enabled] at he
    simp [he, LogPc.holdsLog]
  | mustWait p | sleepPtable p | kill p =>
    apply h.keep
    simp only [Enabled] at he
    simp [he.1, LogPc.holdsLog]
  | acquireBegin p | acquireLog p | acquireEnd p | acquireDone p =>
    rw [he.2] at h
    exact h.acquire rfl
  | admitOp p =>
    apply h.release _ rfl
    simp [he.1, LogPc.holdsLog]
  | sleepRelease p =>
    simp only [Enabled] at he
    apply h.release _ rfl
    simp [he, LogPc.holdsLog]
  | record p =>
    obtain ⟨b, hb⟩ := he
    apply h.release _ rfl
    simp [hb, LogPc.holdsLog]
  | logWrite p b =>
    simp only [next]
    split_ifs
    · exact h
    · exact h
    · apply h.keep
      simp [show (s.tasks p).pc = .inOp from he, LogPc.holdsLog]
  | decrement p =>
    simp only [Enabled] at he
    simp only [next]
    split_ifs
    · exact h
    · apply h.release _ rfl
      simp [he, LogPc.holdsLog]
    · apply h.keep
      simp [he, LogPc.holdsLog]
  | commit p =>
    simp only [Enabled] at he
    simp only [next]
    split_ifs <;>
    · apply h.keep
      simp [he, LogPc.holdsLog]
  | wakeEnd p | wakeDone p =>
    have hw : HeldBy (fun t => t.pc.holdsLog) (wakeSleepers s.tasks) s.lock :=
      h.map fun q => wakeSleepers_pc rfl s.tasks q
    apply hw.release _ rfl
    rw [wakeSleepers_pc (f := LogPc.holdsLog) rfl, he.1]
    rfl

lemma ptable_next (h : HeldBy (fun t => t.pc.holdsPtable) s.tasks s.ptlock) (he : s.Enabled a) :
    HeldBy (fun t => t.pc.holdsPtable) (s.next a).tasks (s.next a).ptlock := by
  cases a with
  | beginOp p | endOp p | sleepRelease p | erase p | clearCommitting p =>
    apply h.keep
    simp only [Enabled] at he
    simp [he, LogPc.holdsPtable]
  | acquireBegin p | mustWait p | kill p | acquireEnd p | acquireDone p | admitOp p =>
    apply h.keep
    simp only [Enabled] at he
    simp [he.1, LogPc.holdsPtable]
  | acquireLog p =>
    obtain ⟨⟨b, hb⟩, -⟩ := he
    apply h.keep
    simp [hb, LogPc.holdsPtable]
  | sleepPtable p =>
    rw [he.2] at h
    exact h.acquire rfl
  | sleepPark p =>
    simp only [Enabled] at he
    apply h.release _ rfl
    simp [he, LogPc.holdsPtable]
  | record p =>
    obtain ⟨b, hb⟩ := he
    apply h.keep
    simp [hb, LogPc.holdsPtable]
  | logWrite p b =>
    simp only [next]
    split_ifs
    · exact h
    · exact h
    · apply h.keep
      simp [show (s.tasks p).pc = .inOp from he, LogPc.holdsPtable]
  | decrement p =>
    simp only [Enabled] at he
    simp only [next]
    split_ifs
    · exact h
    · apply h.keep
      simp [he, LogPc.holdsPtable]
    · apply h.keep
      simp [he, LogPc.holdsPtable]
  | commit p =>
    simp only [Enabled] at he
    simp only [next]
    split_ifs <;>
    · apply h.keep
      simp [he, LogPc.holdsPtable]
  | wakeEnd p | wakeDone p =>
    have hw : HeldBy (fun t => t.pc.holdsPtable) (wakeSleepers s.tasks) s.ptlock :=
      h.map fun q => wakeSleepers_pc rfl s.tasks q
    apply hw.keep
    rw [wakeSleepers_pc (f := LogPc.holdsPtable) rfl, he.1]
    rfl

/-! ### Counting operations -/

variable [Fintype P]

/-- The number of processes between `begin_op` and `end_op`. -/
def activeCount (t : P → LogTask) : Int := ∑ p, if (t p).pc.active then 1 else 0

lemma activeCount_update_same {t : P → LogTask} {p : P} {x : LogTask}
    (h : x.pc.active = (t p).pc.active) : activeCount (Function.update t p x) = activeCount t := by
  have hw : (if x.pc.active then (1 : Int) else 0) = if (t p).pc.active then 1 else 0 := by rw [h]
  exact Count.sum_update_of_eq (fun _ t => if t.pc.active then (1 : Int) else 0) t hw

lemma activeCount_update_enter {t : P → LogTask} {p : P} {x : LogTask}
    (hp : (t p).pc.active = false) (hx : x.pc.active = true) :
    activeCount (Function.update t p x) = activeCount t + 1 := by
  have h := Count.sum_update (fun _ t => if t.pc.active then (1 : Int) else 0) t p x
  simpa [activeCount, hp, hx] using h

lemma activeCount_update_leave {t : P → LogTask} {p : P} {x : LogTask}
    (hp : (t p).pc.active = true) (hx : x.pc.active = false) :
    activeCount (Function.update t p x) = activeCount t - 1 := by
  have h := Count.sum_update (fun _ t => if t.pc.active then (1 : Int) else 0) t p x
  simp only [hp, hx, if_true, Bool.false_eq_true, if_false, add_zero] at h
  unfold activeCount
  omega

omit [DecidableEq P] in
lemma activeCount_wakeSleepers (t : P → LogTask) : activeCount (wakeSleepers t) = activeCount t := by
  apply Finset.sum_congr rfl
  intro p _
  rw [wakeSleepers_pc (f := LogPc.active) rfl]

omit [DecidableEq P] in
lemma activeCount_pos {t : P → LogTask} {p : P} (hp : (t p).pc.active = true) :
    1 ≤ activeCount t := by
  have h := Finset.single_le_sum (f := fun p => if (t p).pc.active then (1 : Int) else 0)
    (fun q _ => by split_ifs <;> omega) (Finset.mem_univ p)
  simpa [activeCount, hp] using h

/-! ### The invariant -/

/-- What the two locks, the counter and the flag say about the processes. -/
structure Inv (s : LogState P) : Prop where
  lock : HeldBy (fun t => t.pc.holdsLog) s.tasks s.lock
  ptable : HeldBy (fun t => t.pc.holdsPtable) s.tasks s.ptlock
  count : s.outstanding = activeCount s.tasks
  quiet : s.committing = true → s.outstanding = 0
  commits : ∀ p, (s.tasks p).pc.commits = true → s.committing = true
  unique : ∀ p q, (s.tasks p).pc.commits = true → (s.tasks q).pc.commits = true → p = q
  committer : s.committing = true → ∃ p, (s.tasks p).pc.commits = true
  /-- A process that has decided to sleep still holds `log.lock`, so its reason still holds. -/
  deciding : ∀ p, (s.tasks p).pc = .sleepCall ∨ (s.tasks p).pc = .handOver → s.MustWait
  /-- A process that gave up `log.lock` has a reason to sleep, or is about to be woken. -/
  parked : ∀ p, (s.tasks p).pc = .parking ∨ (s.tasks p).pc = .asleep →
    s.MustWait ∨ ∃ q, (s.tasks q).pc.wakes = true

omit [DecidableEq P] in
/-- A process inside an operation keeps `committing` clear. -/
lemma Inv.not_committing (h : Inv s) {p : P} (hp : (s.tasks p).pc.active = true) :
    s.committing = false := by
  by_contra hc
  rw [Bool.not_eq_false] at hc
  have := activeCount_pos hp
  have := h.count
  have := h.quiet hc
  omega

lemma count_next (h : Inv s) (he : s.Enabled a) :
    (s.next a).outstanding = activeCount (s.next a).tasks := by
  have hcount := h.count
  cases a with
  | beginOp p | endOp p | sleepPark p | sleepRelease p | erase p | clearCommitting p =>
    simp only [Enabled] at he
    rw [next, hcount, goto, activeCount_update_same]
    simp [he, LogPc.active]
  | acquireBegin p | mustWait p | sleepPtable p | kill p | acquireEnd p | acquireDone p =>
    rw [next, hcount, goto, activeCount_update_same]
    simp [he.1, LogPc.active]
  | acquireLog p =>
    obtain ⟨⟨b, hb⟩, -⟩ := he
    rw [next, hcount, goto, activeCount_update_same]
    simp [hb, LogPc.active]
  | admitOp p =>
    rw [next, hcount, activeCount_update_enter _ rfl]
    simp [he.1, LogPc.active]
  | record p =>
    obtain ⟨b, hb⟩ := he
    rw [next, hcount, activeCount_update_same]
    simp [hb, LogPc.active]
  | logWrite p b =>
    simp only [next]
    split_ifs
    · exact hcount
    · exact hcount
    · rw [hcount, goto, activeCount_update_same]
      simp [show (s.tasks p).pc = .inOp from he, LogPc.active]
  | decrement p =>
    simp only [Enabled] at he
    have hp : (s.tasks p).pc.active = true := by simp [he, LogPc.active]
    simp only [next, h.not_committing hp, Bool.false_eq_true, if_false]
    split_ifs <;> rw [hcount, goto, activeCount_update_leave hp rfl]
  | commit p =>
    simp only [Enabled] at he
    simp only [next]
    split_ifs <;>
    · rw [hcount, goto, activeCount_update_same]
      simp [he, LogPc.active]
  | wakeEnd p | wakeDone p =>
    rw [next, hcount, activeCount_update_same, activeCount_wakeSleepers]
    rw [wakeSleepers_pc (f := LogPc.active) rfl, he.1]
    rfl

/-! ### One commit at a time -/

lemma commits_next (h : Inv s) (he : s.Enabled a) (q : P)
    (hq : ((s.next a).tasks q).pc.commits = true) : (s.next a).committing = true := by
  have hold := h.commits q
  cases a with
  | logWrite p b =>
    simp only [next] at hq ⊢
    split_ifs at hq ⊢
    · exact hold hq
    · exact hold hq
    · simp only [pc_goto] at hq
      grind [LogPc.commits]
  | decrement p =>
    simp only [next] at hq ⊢
    split_ifs at hq ⊢ with hc
    · exact hc
    · rfl
    · simp only [pc_goto] at hq
      grind [LogPc.commits]
  | commit p =>
    simp only [Enabled] at he
    have hp := h.commits p
    simp only [next] at hq ⊢
    split_ifs at hq ⊢ <;>
    · simp only [pc_goto] at hq
      grind [LogPc.commits]
  | clearCommitting p =>
    simp only [Enabled] at he
    simp only [next, pc_goto] at hq
    have := h.unique p q
    grind [LogPc.commits]
  | wakeEnd p | wakeDone p =>
    simp only [next, pc_update] at hq ⊢
    have := wakeSleepers_pc (f := LogPc.commits) rfl s.tasks q
    grind [LogPc.commits]
  | _ =>
    simp only [Enabled] at he
    simp only [next, pc_goto, pc_update] at hq ⊢
    grind [LogPc.commits]

lemma quiet_next (h : Inv s) (he : s.Enabled a) (hc : (s.next a).committing = true) :
    (s.next a).outstanding = 0 := by
  have hq := h.quiet
  cases a with
  | logWrite p b =>
    simp only [next] at hc ⊢
    split_ifs at hc ⊢ <;> exact hq hc
  | decrement p =>
    simp only [Enabled] at he
    have hnc : s.committing = false := h.not_committing (p := p) (by simp [he, LogPc.active])
    simp only [next, hnc, Bool.false_eq_true, if_false] at hc ⊢
    split_ifs at hc ⊢ with h0
    exact h0
  | commit p =>
    simp only [next] at hc ⊢
    split_ifs at hc ⊢ <;> exact hq hc
  | admitOp p =>
    exact absurd (Or.inl hc) he.2
  | clearCommitting p => simp [next] at hc
  | _ => exact hq hc

lemma unique_next (h : Inv s) (he : s.Enabled a) (q r : P)
    (hq : ((s.next a).tasks q).pc.commits = true) (hr : ((s.next a).tasks r).pc.commits = true) :
    q = r := by
  have hold := h.unique q r
  cases a with
  | logWrite p b =>
    simp only [next] at hq hr
    split_ifs at hq hr
    · exact hold hq hr
    · exact hold hq hr
    · simp only [pc_goto] at hq hr
      grind [LogPc.commits]
  | decrement p =>
    simp only [Enabled] at he
    have hnc : s.committing = false := h.not_committing (p := p) (by simp [he, LogPc.active])
    have hq' := h.commits q
    have hr' := h.commits r
    simp only [next, hnc, Bool.false_eq_true, if_false] at hq hr
    split_ifs at hq hr <;>
    · simp only [pc_goto] at hq hr
      grind [LogPc.commits]
  | commit p =>
    simp only [Enabled] at he
    have hpq := h.unique p q
    have hpr := h.unique p r
    simp only [next] at hq hr
    split_ifs at hq hr <;>
    · simp only [pc_goto] at hq hr
      grind [LogPc.commits]
  | wakeEnd p | wakeDone p =>
    simp only [next, pc_update] at hq hr
    have := wakeSleepers_pc (f := LogPc.commits) rfl s.tasks q
    have := wakeSleepers_pc (f := LogPc.commits) rfl s.tasks r
    grind [LogPc.commits]
  | erase p | acquireDone p =>
    simp only [Enabled] at he
    have hpq := h.unique p q
    have hpr := h.unique p r
    simp only [next, pc_goto] at hq hr
    grind [LogPc.commits]
  | _ =>
    simp only [Enabled] at he
    simp only [next, pc_goto, pc_update] at hq hr
    grind [LogPc.commits]

lemma committer_next (h : Inv s) (he : s.Enabled a) (hc : (s.next a).committing = true) :
    ∃ q, ((s.next a).tasks q).pc.commits = true := by
  cases a with
  | logWrite p b =>
    simp only [next] at hc ⊢
    split_ifs at hc ⊢
    · exact h.committer hc
    · exact h.committer hc
    · obtain ⟨q, hq⟩ := h.committer hc
      refine ⟨q, ?_⟩
      simp only [Enabled] at he
      simp only [pc_goto]
      grind [LogPc.commits]
  | decrement p =>
    simp only [Enabled] at he
    have hnc : s.committing = false := h.not_committing (p := p) (by simp [he, LogPc.active])
    simp only [next, hnc, Bool.false_eq_true, if_false] at hc ⊢
    split_ifs at hc ⊢
    exact ⟨p, by simp [pc_goto, LogPc.commits]⟩
  | commit p =>
    simp only [next]
    split_ifs <;> exact ⟨p, by simp [pc_goto, LogPc.commits]⟩
  | clearCommitting p => simp [next] at hc
  | wakeEnd p | wakeDone p =>
    obtain ⟨q, hq⟩ := h.committer hc
    refine ⟨q, ?_⟩
    have hw := wakeSleepers_pc (f := LogPc.commits) rfl s.tasks q
    simp only [Enabled] at he
    simp only [next, pc_update]
    grind [LogPc.commits]
  | _ =>
    obtain ⟨q, hq⟩ := h.committer hc
    refine ⟨q, ?_⟩
    simp only [Enabled] at he
    simp only [next, pc_goto, pc_update]
    grind [LogPc.commits]

/-! ### No lost wakeup -/

omit [DecidableEq P] [Fintype P] in
/-- A reason to wait stays one while the log fills up and operations are admitted. -/
lemma MustWait.mono {s' : LogState P} (h : s.MustWait) (hc : s'.committing = s.committing)
    (hn : s.lh.n ≤ s'.lh.n) (ho : s.outstanding ≤ s'.outstanding) : s'.MustWait := by
  rcases h with h | h
  · exact Or.inl (hc.trans h)
  · right
    simp only [MAXOPBLOCKS] at h ⊢
    omega

lemma n_le_record (lh : LogHeader) (b : Nat) : lh.n ≤ (lh.record b).n := by
  rw [LogHeader.n_record]
  split_ifs <;> omega

lemma deciding_next (h : Inv s) (he : s.Enabled a) (q : P)
    (hq : ((s.next a).tasks q).pc = .sleepCall ∨ ((s.next a).tasks q).pc = .handOver) :
    (s.next a).MustWait := by
  have hold := h.deciding q
  have hlock : ∀ p, (s.tasks p).pc.holdsLog = true → (s.tasks q).pc.holdsLog = true → p = q :=
    fun p hp hq => h.lock.unique hp hq
  cases a with
  | mustWait p => exact he.2
  | sleepPtable p => exact h.deciding p (Or.inl he.1)
  | admitOp p =>
    simp only [Enabled] at he
    simp only [next, pc_update] at hq
    have := hlock p
    grind [LogPc.holdsLog]
  | record p =>
    obtain ⟨b, hb⟩ := he
    simp only [next, pc_update] at hq
    have := hlock p
    grind [LogPc.holdsLog]
  | logWrite p b =>
    simp only [next] at hq ⊢
    split_ifs at hq ⊢
    · exact hold hq
    · exact hold hq
    · simp only [pc_goto] at hq
      exact hold (by grind)
  | decrement p =>
    simp only [Enabled] at he
    have hp := hlock p
    simp only [next] at hq
    split_ifs at hq <;>
    · simp only [pc_goto] at hq
      grind [LogPc.holdsLog]
  | commit p =>
    simp only [next] at hq ⊢
    split_ifs at hq ⊢ <;>
    · simp only [pc_goto] at hq
      exact hold (by grind)
  | erase p =>
    simp only [Enabled] at he
    exact Or.inl (h.commits p (by simp [he, LogPc.commits]))
  | clearCommitting p =>
    simp only [Enabled] at he
    simp only [next, pc_goto] at hq
    have := hlock p
    grind [LogPc.holdsLog]
  | wakeEnd p | wakeDone p =>
    simp only [next, pc_update] at hq
    refine hold ?_
    unfold wakeSleepers at hq
    grind
  | _ =>
    simp only [next, pc_goto] at hq
    exact hold (by grind)

omit [Fintype P] in
/-- Someone is about to wake the sleepers and is not the process that moves. -/
lemma exists_wakes_goto {p : P} {c : LogPc} (hp : (s.tasks p).pc.wakes = false)
    (h : ∃ r, (s.tasks r).pc.wakes = true) : ∃ r, (s.goto p c r).pc.wakes = true := by
  obtain ⟨r, hr⟩ := h
  have hrp : r ≠ p := by
    rintro rfl
    simp [hp] at hr
  refine ⟨r, ?_⟩
  rwa [pc_goto, if_neg hrp]

lemma parked_next (h : Inv s) (he : s.Enabled a) (q : P)
    (hq : ((s.next a).tasks q).pc = .parking ∨ ((s.next a).tasks q).pc = .asleep) :
    (s.next a).MustWait ∨ ∃ r, ((s.next a).tasks r).pc.wakes = true := by
  have hold := h.parked q
  cases a with
  | sleepRelease p =>
    simp only [Enabled] at he
    exact Or.inl (h.deciding p (Or.inr he))
  | sleepPark p =>
    simp only [Enabled] at he
    rcases h.parked p (Or.inl he) with hw | hr
    · exact Or.inl hw
    · exact Or.inr (exists_wakes_goto (by simp [he, LogPc.wakes]) hr)
  | admitOp p =>
    have hqp : q ≠ p := by
      rintro rfl
      simp [next] at hq
    simp only [next, Function.update_of_ne hqp] at hq
    rcases hold hq with hw | ⟨r, hr⟩
    · exact absurd hw he.2
    · have hrp : p ≠ r := by
        rintro rfl
        simp [he.1, LogPc.wakes] at hr
      -- `p` holds `log.lock`, so nobody else can be about to wake the sleepers
      refine absurd (h.lock.unique (i := p) (j := r) ?_ ?_) hrp
      · simp [he.1, LogPc.holdsLog]
      · cases hpc : (s.tasks r).pc <;> simp_all [LogPc.wakes, LogPc.holdsLog]
  | record p =>
    obtain ⟨b, hb⟩ := he
    have hqp : q ≠ p := by
      rintro rfl
      simp [next] at hq
    simp only [next, Function.update_of_ne hqp] at hq
    rcases hold hq with hw | ⟨r, hr⟩
    · exact Or.inl (hw.mono rfl (n_le_record _ _) le_rfl)
    · right
      have hrp : r ≠ p := by
        rintro rfl
        simp [hb, LogPc.wakes] at hr
      exact ⟨r, by simpa [next, Function.update_of_ne hrp] using hr⟩
  | logWrite p b =>
    simp only [next] at hq ⊢
    split_ifs at hq ⊢
    · exact hold hq
    · exact hold hq
    · simp only [pc_goto] at hq
      rcases hold (by grind) with hw | hr
      · exact Or.inl hw
      · have he : (s.tasks p).pc = .inOp := he
        exact Or.inr (exists_wakes_goto (by simp [he, LogPc.wakes]) hr)
  | decrement p =>
    simp only [Enabled] at he
    have hnc : s.committing = false := h.not_committing (p := p) (by simp [he, LogPc.active])
    simp only [next, hnc, Bool.false_eq_true, if_false]
    split_ifs
    · exact Or.inl (Or.inl rfl)
    · exact Or.inr ⟨p, by simp [pc_goto, LogPc.wakes]⟩
  | commit p =>
    simp only [Enabled] at he
    exact Or.inl (Or.inl (by
      have := h.commits p (by simp [he, LogPc.commits])
      simp only [next]
      split_ifs <;> exact this))
  | erase p =>
    simp only [Enabled] at he
    exact Or.inl (Or.inl (h.commits p (by simp [he, LogPc.commits])))
  | clearCommitting p =>
    exact Or.inr ⟨p, by simp [next, pc_goto, LogPc.wakes]⟩
  | wakeEnd p | wakeDone p =>
    -- nobody is left asleep, and nobody can be parking while `wakeup` holds `ptable.lock`
    exfalso
    have hpt : (s.tasks q).pc.holdsPtable = false := by
      have hp := h.ptable
      rw [he.2] at hp
      exact hp.outside q
    have hwake := wakeSleepers_not_asleep s.tasks q
    have hsame := wakeSleepers_pc (f := LogPc.holdsPtable) rfl s.tasks q
    simp only [next, pc_update] at hq
    grind [LogPc.holdsPtable]
  | beginOp p | endOp p =>
    simp only [Enabled] at he
    simp only [next, pc_goto] at hq
    rcases hold (by grind) with hw | hr
    · exact Or.inl hw
    · exact Or.inr (exists_wakes_goto (by simp [he, LogPc.wakes]) hr)
  | acquireLog p =>
    obtain ⟨⟨b, hb⟩, -⟩ := he
    simp only [next, pc_goto] at hq
    rcases hold (by grind) with hw | hr
    · exact Or.inl hw
    · exact Or.inr (exists_wakes_goto (by simp [hb, LogPc.wakes]) hr)
  | _ p =>
    simp only [Enabled] at he
    simp only [next, pc_goto] at hq
    rcases hold (by grind) with hw | hr
    · exact Or.inl hw
    · exact Or.inr (exists_wakes_goto (by simp [he.1, LogPc.wakes]) hr)

lemma Inv.next (h : Inv s) (he : s.Enabled a) : Inv (s.next a) where
  lock := lock_next h.lock he
  ptable := ptable_next h.ptable he
  count := count_next h he
  quiet := quiet_next h he
  commits := commits_next h he
  unique := unique_next h he
  committer := committer_next h he
  deciding := deciding_next h he
  parked := parked_next h he

omit [DecidableEq P] in
lemma inv_init (size : Nat) : Inv (init P size) where
  lock p := by simp [init, LogPc.holdsLog]
  ptable p := by simp [init, LogPc.holdsPtable]
  count := by simp [init, activeCount, LogPc.active]
  quiet h := by simp [init] at h
  commits p h := by simp [init, LogPc.commits] at h
  unique p q h := by simp [init, LogPc.commits] at h
  committer h := by simp [init] at h
  deciding p h := by simp [init] at h
  parked p h := by simp [init] at h

end LogState

end Xv6
