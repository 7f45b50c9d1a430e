import Xv6.Log.Group

/-!
# Operations and transactions

Every block an operation logs is committed in one transaction, together with all other blocks of
that operation and after the operation has ended.
-/

namespace Xv6

open TransitionSystem

variable {P : Type*} [DecidableEq P] [Fintype P]

namespace LogState

variable {s : LogState P} {a : LogAct P}

/-! ### The history agrees with the log -/

/-- The history agrees with the log: the pending entries are those of operations numbered from
`base` on, and the operations of earlier transactions are over. -/
structure History (s : LogState P) : Prop where
  base_le : s.base ≤ s.nextOp
  ops : ∀ p, (s.tasks p).pc.active = true → s.base ≤ (s.tasks p).op ∧ (s.tasks p).op < s.nextOp
  pending : ∀ e ∈ s.pending, s.base ≤ e.1 ∧ e.1 < s.nextOp
  past : ∀ T ∈ s.committed, ∀ e ∈ T.entries, e.1 < s.base
  disjoint : s.committed.Pairwise fun T U => ∀ e ∈ T.entries, ∀ f ∈ U.entries, e.1 ≠ f.1
  blocks : ∀ T ∈ s.committed, ∀ b, b ∈ T.blocks ↔ ∃ o, (o, b) ∈ T.entries
  writing : ∀ p, (s.tasks p).pc = .commitWriting → s.pending = []
  logged : (∀ p, (s.tasks p).pc ≠ .commitWriting) →
    ∀ b, b ∈ s.lh.blocks ↔ ∃ o, (o, b) ∈ s.pending

omit [DecidableEq P] [Fintype P] in
/-- A step that admits nobody, logs nothing and writes no transaction. -/
lemma History.keep {s' : LogState P} (h : History s)
    (hact : ∀ q, (s'.tasks q).pc.active = true →
      (s.tasks q).pc.active = true ∧ (s'.tasks q).op = (s.tasks q).op)
    (hwrite : ∀ q, (s'.tasks q).pc = .commitWriting ↔ (s.tasks q).pc = .commitWriting)
    (hlog : (s'.base, s'.nextOp, s'.pending, s'.committed, s'.lh) =
      (s.base, s.nextOp, s.pending, s.committed, s.lh)) : History s' := by
  simp only [Prod.mk.injEq] at hlog
  obtain ⟨hb, hn, hp, hc, hl⟩ := hlog
  refine ⟨?_, fun q hq => ?_, ?_, ?_, ?_, ?_, fun q hq => ?_, fun hq => ?_⟩
  · rw [hb, hn]
    exact h.base_le
  · obtain ⟨ha, ho⟩ := hact q hq
    rw [hb, hn, ho]
    exact h.ops q ha
  · rw [hb, hn, hp]
    exact h.pending
  · rw [hc, hb]
    exact h.past
  · rw [hc]
    exact h.disjoint
  · rw [hc]
    exact h.blocks
  · rw [hp]
    exact h.writing q ((hwrite q).mp hq)
  · rw [hl, hp]
    exact h.logged fun q hs => hq q ((hwrite q).mpr hs)

omit [Fintype P] in
lemma History.keep_goto {t : LogState P} {p : P} {c : LogPc} (h : History s)
    (htasks : t.tasks = s.goto p c) (hact : c.active = true → (s.tasks p).pc.active = true)
    (hc : c ≠ .commitWriting) (hp : (s.tasks p).pc ≠ .commitWriting)
    (hlog : (t.base, t.nextOp, t.pending, t.committed, t.lh) =
      (s.base, s.nextOp, s.pending, s.committed, s.lh)) : History t := by
  apply h.keep _ _ hlog
  · intro q hq
    rw [htasks] at hq ⊢
    by_cases hqp : q = p
    · subst hqp
      simp only [goto, Function.update_self] at hq ⊢
      exact ⟨hact hq, trivial⟩
    · simp only [goto, Function.update_of_ne hqp] at hq ⊢
      exact ⟨hq, trivial⟩
  · intro q
    rw [htasks, pc_goto]
    by_cases hqp : q = p
    · subst hqp
      simp [hc, hp]
    · simp [hqp]

omit [Fintype P] in
lemma History.keep_wake {s' : LogState P} {p : P} (h : History s)
    (htasks : s'.tasks =
      Function.update (wakeSleepers s.tasks) p { s.tasks p with pc := .idle })
    (hp : (s.tasks p).pc ≠ .commitWriting)
    (hlog : (s'.base, s'.nextOp, s'.pending, s'.committed, s'.lh) =
      (s.base, s.nextOp, s.pending, s.committed, s.lh)) : History s' := by
  apply h.keep _ _ hlog
  · intro q hq
    rw [htasks] at hq ⊢
    by_cases hqp : q = p
    · subst hqp
      simp [LogPc.active] at hq
    · rw [Function.update_of_ne hqp] at hq ⊢
      rw [wakeSleepers_pc (f := LogPc.active) rfl] at hq
      exact ⟨hq, wakeSleepers_op _ _⟩
  · intro q
    rw [htasks]
    by_cases hqp : q = p
    · subst hqp
      simp [hp]
    · rw [Function.update_of_ne hqp]
      have := wakeSleepers_pc (f := fun c => decide (c = .commitWriting)) rfl s.tasks q
      simpa using this

omit [Fintype P] in
lemma History.admitOp {p : P} (h : History s) (hp : (s.tasks p).pc = .testing) :
    History (s.next (.admitOp p)) := by
  have hwrite : ∀ q, ((s.next (.admitOp p)).tasks q).pc = .commitWriting ↔
      (s.tasks q).pc = .commitWriting := by
    intro q
    simp only [next, pc_update]
    grind
  refine ⟨Nat.le_succ_of_le h.base_le, fun q hq => ?_, fun e he => ?_, h.past, h.disjoint, h.blocks,
    fun q hq => h.writing q ((hwrite q).mp hq),
    fun hq => h.logged fun q hs => hq q ((hwrite q).mpr hs)⟩
  · by_cases hqp : q = p
    · subst hqp
      simp only [next, Function.update_self]
      exact ⟨h.base_le, Nat.lt_succ_self _⟩
    · simp only [next, Function.update_of_ne hqp] at hq ⊢
      exact ⟨(h.ops q hq).1, Nat.lt_succ_of_lt (h.ops q hq).2⟩
  · exact ⟨(h.pending e he).1, Nat.lt_succ_of_lt (h.pending e he).2⟩

lemma History.record {p : P} {b : Nat} (h : History s) (hi : Inv s)
    (hp : (s.tasks p).pc = .logging b) : History (s.next (.record p)) := by
  have hact : (s.tasks p).pc.active = true := by simp [hp, LogPc.active]
  have hnone : ∀ q, (s.tasks q).pc ≠ .commitWriting := by
    intro q hq
    have := hi.commits q (by simp [hq, LogPc.commits])
    simp [hi.not_committing hact] at this
  refine ⟨h.base_le, fun q hq => ?_, fun e he => ?_, h.past, h.disjoint, h.blocks,
    fun q hq => ?_, fun _ x => ?_⟩
  · by_cases hqp : q = p
    · subst hqp
      simp only [next, Function.update_self]
      exact h.ops q hact
    · simp only [next, Function.update_of_ne hqp] at hq ⊢
      exact h.ops q hq
  · simp only [next, List.mem_append, List.mem_singleton] at he
    rcases he with he | rfl
    · exact h.pending e he
    · exact h.ops p hact
  · simp only [next, pc_update] at hq
    split_ifs at hq
    exact absurd hq (hnone q)
  · have hx := h.logged hnone x
    simp only [next, hp, blockOf, LogHeader.blocks_record, List.mem_append, List.mem_singleton,
      Prod.mk.injEq, exists_or]
    split_ifs with hb
    · grind
    · simp only [List.mem_append, List.mem_singleton, hx]
      grind

lemma History.commit {p : P} (h : History s) (hi : Inv s) (hp : (s.tasks p).pc = .commitStart) :
    History (s.next (.commit p)) := by
  have hcom : (s.tasks p).pc.commits = true := by simp [hp, LogPc.commits]
  simp only [next]
  split_ifs
  · have hquiet : ∀ q, (s.tasks q).pc.active = false := by
      intro q
      by_contra hq
      rw [Bool.not_eq_false] at hq
      simpa [hi.not_committing hq] using hi.commits p hcom
    have hnone : ∀ q, (s.tasks q).pc ≠ .commitWriting := by
      intro q hq
      obtain rfl := hi.unique p q hcom (by simp [hq, LogPc.commits])
      simp [hp] at hq
    refine ⟨le_rfl, fun q hq => ?_, by simp, fun T hT e he => ?_, ?_, fun T hT b => ?_,
      fun _ _ => rfl, fun hno => absurd (by simp [pc_goto]) (hno p)⟩
    · have hq' : (s.goto p .commitWriting q).pc.active = true := hq
      rw [pc_goto] at hq'
      split_ifs at hq'
      · simp [LogPc.active] at hq'
      · simp [hquiet q] at hq'
    · simp only [List.mem_append, List.mem_singleton] at hT
      rcases hT with hT | rfl
      · exact lt_of_lt_of_le (h.past T hT e he) h.base_le
      · exact (h.pending e he).2
    · refine List.pairwise_append.mpr ⟨h.disjoint, List.pairwise_singleton _ _, ?_⟩
      intro T hT U hU e he f hf
      obtain rfl := List.mem_singleton.mp hU
      exact Nat.ne_of_lt (lt_of_lt_of_le (h.past T hT e he) (h.pending f hf).1)
    · simp only [List.mem_append, List.mem_singleton] at hT
      rcases hT with hT | rfl
      · exact h.blocks T hT b
      · exact h.logged hnone b
  · exact h.keep_goto (t := { s with tasks := s.goto p .commitDone }) rfl
      (by simp [LogPc.active]) (by simp) (by simp [hp]) rfl

omit [Fintype P] in
lemma History.erase {p : P} (h : History s) (hp : (s.tasks p).pc = .commitWriting) :
    History (s.next (.erase p)) := by
  have hpend := h.writing p hp
  refine ⟨h.base_le, fun q hq => ?_, h.pending, h.past, h.disjoint, h.blocks, fun _ _ => hpend,
    fun _ b => by simp [next, LogHeader.blocks, hpend]⟩
  by_cases hqp : q = p
  · subst hqp
    simp [next, goto, LogPc.active] at hq
  · simp only [next, goto, Function.update_of_ne hqp] at hq ⊢
    exact h.ops q hq

lemma History.next (h : History s) (hi : Inv s) (he : s.Enabled a) : History (s.next a) := by
  cases a with
  | admitOp p => exact h.admitOp he.1
  | record p =>
    obtain ⟨b, hb⟩ := he
    exact h.record hi hb
  | commit p => exact h.commit hi he
  | erase p => exact h.erase he
  | wakeEnd p | wakeDone p => exact h.keep_wake rfl (by simp [he.1]) rfl
  | acquireLog p =>
    obtain ⟨⟨b, hb⟩, -⟩ := he
    exact h.keep_goto rfl (by simp [hb, LogPc.active]) (by simp) (by simp [hb]) rfl
  | logWrite p b =>
    simp only [LogState.next]
    split_ifs
    · exact h.keep (fun _ hq => ⟨hq, rfl⟩) (fun _ => Iff.rfl) rfl
    · exact h.keep (fun _ hq => ⟨hq, rfl⟩) (fun _ => Iff.rfl) rfl
    · have he : (s.tasks p).pc = .inOp := he
      exact h.keep_goto (p := p) (c := .checked b) rfl (by simp [he, LogPc.active]) (by simp)
        (by simp [he]) rfl
  | decrement p =>
    simp only [Enabled] at he
    simp only [LogState.next]
    split_ifs
    · exact h.keep (fun _ hq => ⟨hq, rfl⟩) (fun _ => Iff.rfl) rfl
    · exact h.keep_goto (p := p) (c := .commitStart) rfl (by simp [LogPc.active]) (by simp)
        (by simp [he]) rfl
    · exact h.keep_goto (p := p) (c := .endWake) rfl (by simp [LogPc.active]) (by simp)
        (by simp [he]) rfl
  | _ =>
    simp only [Enabled] at he
    exact h.keep_goto rfl (by simp [he, LogPc.active]) (by simp) (by simp [he]) rfl

omit [DecidableEq P] [Fintype P] in
lemma history_init (size : Nat) : History (init P size) := by
  constructor <;> simp [init, LogPc.active, LogHeader.blocks]

/-! ### Runs -/

/-- The calls of `log_write` of a run, in order: operation and block. -/
def logged (tr : List (LogState P × LogAct P)) : List (Nat × Nat) :=
  tr.filterMap fun x =>
    match x.2 with
    | .record p => some ((x.1.tasks p).op, blockOf (x.1.tasks p).pc)
    | _ => none

omit [DecidableEq P] [Fintype P] in
lemma logged_snoc (tr : List (LogState P × LogAct P)) (x : LogState P × LogAct P) :
    logged (tr ++ [x]) = logged tr ++ logged [x] := by
  simp [logged]

omit [Fintype P] in
/-- Every call of `log_write` of a run went into a transaction or is still pending. -/
lemma logged_eq {size : Nat} {tr : List (LogState P × LogAct P)} {t : LogState P}
    (hr : Run Step (init P size) tr t) :
    logged tr = t.committed.flatMap Transaction.entries ++ t.pending := by
  induction hr with
  | refl => rfl
  | @tail tr s t a _ hs ih =>
    obtain ⟨-, -, rfl⟩ := hs
    rw [logged_snoc, ih]
    cases a with
    | record p => simp [logged, LogState.next]
    | logWrite p b | decrement p =>
      simp only [LogState.next]
      split_ifs <;> simp [logged]
    | commit p =>
      simp only [LogState.next]
      split_ifs <;> simp [logged]
    | _ => simp [logged, LogState.next]

lemma inv_of_run {size : Nat} {tr : List (LogState P × LogAct P)} {t : LogState P}
    (hr : Run Step (init P size) tr t) : Inv t ∧ History t := by
  refine (hr.invariant (I := fun s => Inv s ∧ History s) ?_ ⟨inv_init size, history_init size⟩).2
  rintro s a _ ⟨hi, hh⟩ ⟨-, he, rfl⟩
  exact ⟨hi.next he, hh.next hi he⟩

/-- What the log guarantees to the file system after the steps `tr` have led to the state `t`. -/
structure GroupCommit (tr : List (LogState P × LogAct P)) (t : LogState P) : Prop where
  commit_alone : ∀ p, (t.tasks p).pc.commits = true → t.outstanding = 0
  nobody_inside : t.committing = true → ∀ p, (t.tasks p).pc.active = false
  nobody_starts : t.committing = true → ∀ p, ¬ t.Enabled (.admitOp p)
  /-- No call of `log_write` is forgotten. -/
  complete : logged tr = t.committed.flatMap Transaction.entries ++ t.pending
  blocks : ∀ T ∈ t.committed, ∀ b, b ∈ T.blocks ↔ ∃ o, (o, b) ∈ T.entries
  /-- An operation has its blocks in one transaction. -/
  undivided : t.committed.Pairwise fun T U => ∀ e ∈ T.entries, ∀ f ∈ U.entries, e.1 ≠ f.1
  /-- An operation with blocks in a transaction has none that wait for a later one. -/
  settled : ∀ T ∈ t.committed, ∀ e ∈ T.entries, ∀ f ∈ t.pending, e.1 ≠ f.1
  finished : ∀ T ∈ t.committed, ∀ e ∈ T.entries, ∀ p,
    (t.tasks p).pc.active = true → (t.tasks p).op ≠ e.1
  one_committer : t.committing = true ↔ ∃! p, (t.tasks p).pc.commits = true
  no_lost_wakeup : t.lock = none → ∀ p, (t.tasks p).pc = .asleep →
    t.committing = true ∨ (LOGSIZE : Int) < t.lh.n + (t.outstanding + 1) * MAXOPBLOCKS

/-- Group commit, for any number of processes and any interleaving of their steps. -/
theorem group_commit {size : Nat} {tr : List (LogState P × LogAct P)} {t : LogState P}
    (hr : Run Step (init P size) tr t) : GroupCommit tr t := by
  obtain ⟨hi, hh⟩ := inv_of_run hr
  have hinside : t.committing = true → ∀ p, (t.tasks p).pc.active = false := by
    intro hc p
    by_contra hp
    rw [Bool.not_eq_false] at hp
    simp [hi.not_committing hp] at hc
  constructor
  case commit_alone => exact fun p hp => hi.quiet (hi.commits p hp)
  case nobody_inside => exact hinside
  case nobody_starts => exact fun hc p he => he.2 (Or.inl hc)
  case complete => exact logged_eq hr
  case blocks => exact hh.blocks
  case undivided => exact hh.disjoint
  case settled =>
    intro T hT e he f hf
    exact Nat.ne_of_lt (lt_of_lt_of_le (hh.past T hT e he) (hh.pending f hf).1)
  case finished =>
    intro T hT e he p hp
    exact (Nat.ne_of_lt (lt_of_lt_of_le (hh.past T hT e he) (hh.ops p hp).1)).symm
  case one_committer =>
    constructor
    · intro hc
      obtain ⟨p, hp⟩ := hi.committer hc
      exact ⟨p, hp, fun q hq => hi.unique q p hq hp⟩
    · rintro ⟨p, hp, -⟩
      exact hi.commits p hp
  case no_lost_wakeup =>
    intro hl p hp
    rcases hi.parked p (Or.inr hp) with hw | ⟨q, hq⟩
    · exact hw
    · -- whoever is about to wake the sleepers holds `log.lock`
      have hfree := hi.lock
      rw [hl] at hfree
      have hout := hfree.outside q
      cases hpc : (t.tasks q).pc <;> simp_all [LogPc.wakes, LogPc.holdsLog]

/-- Process 1 starts its operation during that of process 0, so both are in one transaction. -/
theorem group_commit_two :
    ∃ (tr : List (LogState (Fin 2) × LogAct (Fin 2))) (t : LogState (Fin 2)),
      Run Step (init (Fin 2) LOGSIZE) tr t ∧
        tr.map Prod.snd = [.beginOp 0, .acquireBegin 0, .admitOp 0, .logWrite 0 7, .acquireLog 0,
          .record 0, .beginOp 1, .acquireBegin 1, .admitOp 1, .endOp 0, .acquireEnd 0, .decrement 0,
          .wakeEnd 0, .logWrite 1 8, .acquireLog 1, .record 1, .endOp 1, .acquireEnd 1,
          .decrement 1, .commit 1] ∧
        t.committed.map Transaction.blocks = [[7, 8]] ∧ GroupCommit tr t := by
  have hrun : (follow step (init (Fin 2) LOGSIZE) [.beginOp 0, .acquireBegin 0, .admitOp 0,
      .logWrite 0 7, .acquireLog 0, .record 0, .beginOp 1, .acquireBegin 1, .admitOp 1, .endOp 0,
      .acquireEnd 0, .decrement 0, .wakeEnd 0, .logWrite 1 8, .acquireLog 1, .record 1, .endOp 1,
      .acquireEnd 1, .decrement 1, .commit 1]).map
        (fun t => t.committed.map Transaction.blocks) = some [[7, 8]] := by decide +kernel
  obtain ⟨t, ht, hblocks⟩ := Option.map_eq_some_iff.mp hrun
  obtain ⟨tr, hr, htr⟩ := run_of_follow ht
  exact ⟨tr, t, hr, htr, hblocks, group_commit hr⟩

end LogState

end Xv6
