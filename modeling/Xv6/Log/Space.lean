import Mathlib.Algebra.BigOperators.Ring.Finset
import Xv6.Log.Commit
import Xv6.Log.Transactions

/-!
# Space in the log

`begin_op` reserves `MAXOPBLOCKS` blocks for each operation against a total of `LOGSIZE`. The
reservation is kept by every step, but a disk laid out by `mkfs` has only `LOGSIZE - 1` blocks for
data, since the first of its `LOGSIZE` log blocks holds the header.
-/

namespace Xv6

open TransitionSystem

variable {P : Type*} [DecidableEq P] [Fintype P]

/-- The blocks an operation may still add to the log. -/
def LogTask.reserve (x : LogTask) : Nat := if x.pc.active then MAXOPBLOCKS - x.used.card else 0

namespace LogState

variable {s : LogState P} {a : LogAct P}

/-- The blocks all operations in progress may still add to the log. -/
def reserved (t : P → LogTask) : Nat := ∑ p, (t p).reserve

omit [DecidableEq P] in
lemma reserved_le_activeCount (t : P → LogTask) :
    (reserved t : Int) ≤ activeCount t * MAXOPBLOCKS := by
  unfold reserved activeCount
  rw [Nat.cast_sum, Finset.sum_mul]
  apply Finset.sum_le_sum
  intro p _
  unfold LogTask.reserve
  split_ifs <;> simp

/-- The reservation: what the log holds and what may still be added fit into `LOGSIZE` blocks. -/
structure Reserved (s : LogState P) : Prop where
  nodup : s.lh.blocks.Nodup
  used : ∀ p, (s.tasks p).pc.active = true → ∀ b ∈ (s.tasks p).used, b ∈ s.lh.blocks
  within : ∀ p b, (s.tasks p).pc = .checked b ∨ (s.tasks p).pc = .logging b →
    (insert b (s.tasks p).used).card ≤ MAXOPBLOCKS
  room : s.lh.n + reserved s.tasks ≤ LOGSIZE

omit [DecidableEq P] in
lemma Reserved.keep {s' : LogState P} (h : Reserved s)
    (hact : ∀ q, (s'.tasks q).pc.active = true →
      (s.tasks q).pc.active = true ∧ (s'.tasks q).used = (s.tasks q).used)
    (hwithin : ∀ q b, (s'.tasks q).pc = .checked b ∨ (s'.tasks q).pc = .logging b →
      (insert b (s'.tasks q).used).card ≤ MAXOPBLOCKS)
    (hlh : s'.lh = s.lh) : Reserved s' := by
  refine ⟨?_, fun q hq b hb => ?_, hwithin, ?_⟩
  · rw [hlh]
    exact h.nodup
  · obtain ⟨ha, hu⟩ := hact q hq
    rw [hu] at hb
    rw [hlh]
    exact h.used q ha b hb
  · have hle : reserved s'.tasks ≤ reserved s.tasks := by
      apply Finset.sum_le_sum
      intro q _
      unfold LogTask.reserve
      by_cases hq : (s'.tasks q).pc.active = true
      · obtain ⟨ha, hu⟩ := hact q hq
        simp [hq, ha, hu]
      · simp [hq]
    rw [hlh]
    exact le_trans (Nat.add_le_add_left hle _) h.room

lemma Reserved.keep_goto {s' : LogState P} {p : P} {c : LogPc} (h : Reserved s)
    (htasks : s'.tasks = s.goto p c) (hact : c.active = true → (s.tasks p).pc.active = true)
    (hwithin : ∀ b, c = .checked b ∨ c = .logging b →
      (insert b (s.tasks p).used).card ≤ MAXOPBLOCKS)
    (hlh : s'.lh = s.lh) : Reserved s' := by
  apply h.keep _ _ hlh
  · intro q hq
    rw [htasks] at hq ⊢
    by_cases hqp : q = p
    · subst hqp
      simp only [goto, Function.update_self] at hq ⊢
      exact ⟨hact hq, trivial⟩
    · simp only [goto, Function.update_of_ne hqp] at hq ⊢
      exact ⟨hq, trivial⟩
  · intro q b hq
    rw [htasks] at hq ⊢
    by_cases hqp : q = p
    · subst hqp
      simp only [goto, Function.update_self] at hq ⊢
      exact hwithin b hq
    · simp only [goto, Function.update_of_ne hqp] at hq ⊢
      exact h.within q b hq

lemma Reserved.keep_wake {s' : LogState P} {p : P} (h : Reserved s)
    (htasks : s'.tasks =
      Function.update (wakeSleepers s.tasks) p { s.tasks p with pc := .idle })
    (hlh : s'.lh = s.lh) : Reserved s' := by
  apply h.keep _ _ hlh
  · intro q hq
    rw [htasks] at hq ⊢
    by_cases hqp : q = p
    · subst hqp
      simp [LogPc.active] at hq
    · rw [Function.update_of_ne hqp] at hq ⊢
      rw [wakeSleepers_pc (f := LogPc.active) rfl] at hq
      exact ⟨hq, wakeSleepers_used _ _⟩
  · intro q b hq
    rw [htasks] at hq ⊢
    by_cases hqp : q = p
    · subst hqp
      simp at hq
    · rw [Function.update_of_ne hqp] at hq ⊢
      rw [wakeSleepers_used]
      apply h.within q b
      have hc := wakeSleepers_pc (f := fun c => decide (c = .checked b)) rfl s.tasks q
      have hl := wakeSleepers_pc (f := fun c => decide (c = .logging b)) rfl s.tasks q
      simp only [decide_eq_decide] at hc hl
      rwa [hc, hl] at hq

/-- `begin_op` lets an operation in only if there is room for its `MAXOPBLOCKS` blocks. -/
lemma Reserved.admitOp {p : P} (h : Reserved s) (hi : Inv s) (hp : (s.tasks p).pc = .testing)
    (hw : ¬ s.MustWait) : Reserved (s.next (.admitOp p)) := by
  refine ⟨h.nodup, fun q hq b hb => ?_, fun q b hq => ?_, ?_⟩
  · by_cases hqp : q = p
    · subst hqp
      simp [next] at hb
    · simp only [next, Function.update_of_ne hqp] at hq hb
      exact h.used q hq b hb
  · by_cases hqp : q = p
    · subst hqp
      simp [next] at hq
    · simp only [next, Function.update_of_ne hqp] at hq ⊢
      exact h.within q b hq
  · have hsum := Count.sum_update (fun _ x => LogTask.reserve x) s.tasks p ⟨.inOp, s.nextOp, ∅⟩
    have hold : (s.tasks p).reserve = 0 := by simp [LogTask.reserve, hp, LogPc.active]
    have hnew : LogTask.reserve ⟨.inOp, s.nextOp, ∅⟩ = MAXOPBLOCKS := rfl
    have hle := reserved_le_activeCount s.tasks
    rw [← hi.count] at hle
    have hroom : ¬ (LOGSIZE : Int) < s.lh.n + (s.outstanding + 1) * MAXOPBLOCKS :=
      fun hlt => hw (Or.inr hlt)
    simp only [hold, hnew] at hsum
    simp only [next, reserved] at hle ⊢
    simp only [LOGSIZE, MAXOPBLOCKS] at *
    omega

/-- A new block in the log is taken out of the reservation of the operation that adds it. -/
lemma Reserved.record {p : P} {b : Nat} (h : Reserved s) (hp : (s.tasks p).pc = .logging b) :
    Reserved (s.next (.record p)) := by
  have hact : (s.tasks p).pc.active = true := by simp [hp, LogPc.active]
  have hlh : (s.next (.record p)).lh = s.lh.record b := by simp [next, hp, blockOf]
  have hmem : ∀ x, x ∈ (s.lh.record b).blocks ↔ x ∈ s.lh.blocks ∨ x = b := by
    intro x
    rw [LogHeader.blocks_record]
    split_ifs with hb
    · exact ⟨Or.inl, fun hx => hx.elim id fun hx => hx ▸ hb⟩
    · simp
  refine ⟨?_, fun q hq x hx => ?_, fun q x hq => ?_, ?_⟩
  · rw [hlh]
    exact LogHeader.nodup_record h.nodup b
  · rw [hlh, hmem]
    by_cases hqp : q = p
    · subst hqp
      simp only [next, hp, blockOf, Function.update_self, Finset.mem_insert] at hx
      rcases hx with rfl | hx
      · exact Or.inr rfl
      · exact Or.inl (h.used q hact x hx)
    · simp only [next, Function.update_of_ne hqp] at hq hx
      exact Or.inl (h.used q hq x hx)
  · by_cases hqp : q = p
    · subst hqp
      simp [next] at hq
    · simp only [next, Function.update_of_ne hqp] at hq ⊢
      exact h.within q x hq
  · have hsum := Count.sum_update (fun _ x => LogTask.reserve x) s.tasks p
      ⟨.inOp, (s.tasks p).op, insert b (s.tasks p).used⟩
    have hold : (s.tasks p).reserve = MAXOPBLOCKS - (s.tasks p).used.card := by
      simp [LogTask.reserve, hact]
    have hnew : LogTask.reserve ⟨.inOp, (s.tasks p).op, insert b (s.tasks p).used⟩ =
        MAXOPBLOCKS - (insert b (s.tasks p).used).card := rfl
    have hwithin := h.within p b (Or.inr hp)
    have hroom := h.room
    rw [hlh, LogHeader.n_record]
    simp only [hold, hnew] at hsum
    simp only [next, hp, blockOf, reserved] at hroom ⊢
    split_ifs with hb
    · have := Finset.card_le_card (Finset.subset_insert b (s.tasks p).used)
      omega
    · have hfresh : b ∉ (s.tasks p).used := fun hu => hb (h.used p hact b hu)
      rw [Finset.card_insert_of_notMem hfresh] at hsum hwithin
      omega

lemma Reserved.erase {p : P} (hi : Inv s) (hp : (s.tasks p).pc = .commitWriting) :
    Reserved (s.next (.erase p)) := by
  have hquiet : ∀ q, ((s.next (.erase p)).tasks q).pc.active = false := by
    intro q
    simp only [next, pc_goto]
    split_ifs
    · rfl
    · by_contra hq
      rw [Bool.not_eq_false] at hq
      simpa [hi.not_committing hq] using hi.commits p (by simp [hp, LogPc.commits])
  refine ⟨by simp [next, LogHeader.blocks], fun q hq => ?_, fun q b hq => ?_, ?_⟩
  · simp [hquiet q] at hq
  · have := hquiet q
    rcases hq with hq | hq <;> simp [hq, LogPc.active] at this
  · have hzero : reserved (s.next (.erase p)).tasks = 0 := by
      apply Finset.sum_eq_zero
      intro q _
      simp [LogTask.reserve, hquiet q]
    rw [hzero]
    simp [next]

/-- An operation calls `log_write` on at most `MAXOPBLOCKS` distinct blocks. -/
def WithinOp (s : LogState P) : LogAct P → Prop
  | .logWrite p b => (insert b (s.tasks p).used).card ≤ MAXOPBLOCKS
  | _ => True

lemma Reserved.next (h : Reserved s) (hi : Inv s) (he : s.Enabled a) (hop : WithinOp s a) :
    Reserved (s.next a) := by
  cases a with
  | admitOp p => exact h.admitOp hi he.1 he.2
  | record p =>
    obtain ⟨b, hb⟩ := he
    exact h.record hb
  | erase p => exact Reserved.erase hi he
  | wakeEnd p | wakeDone p => exact h.keep_wake rfl rfl
  | acquireLog p =>
    obtain ⟨⟨b, hb⟩, -⟩ := he
    refine h.keep_goto rfl (by simp [hb, LogPc.active]) ?_ rfl
    intro x hx
    obtain rfl : b = x := by simpa [hb, blockOf] using hx
    exact h.within p b (Or.inl hb)
  | logWrite p b =>
    simp only [LogState.next]
    split_ifs
    · exact h.keep (fun _ hq => ⟨hq, rfl⟩) h.within rfl
    · exact h.keep (fun _ hq => ⟨hq, rfl⟩) h.within rfl
    · have he : (s.tasks p).pc = .inOp := he
      refine h.keep_goto (p := p) (c := .checked b) rfl (by simp [he, LogPc.active]) ?_ rfl
      intro x hx
      obtain rfl : b = x := by simpa using hx
      exact hop
  | decrement p =>
    simp only [LogState.next]
    split_ifs
    · exact h.keep (fun _ hq => ⟨hq, rfl⟩) h.within rfl
    · exact h.keep_goto (p := p) (c := .commitStart) rfl (by simp [LogPc.active]) (by simp) rfl
    · exact h.keep_goto (p := p) (c := .endWake) rfl (by simp [LogPc.active]) (by simp) rfl
  | commit p =>
    simp only [LogState.next]
    split_ifs
    · exact h.keep_goto (p := p) (c := .commitWriting) rfl (by simp [LogPc.active]) (by simp) rfl
    · exact h.keep_goto (p := p) (c := .commitDone) rfl (by simp [LogPc.active]) (by simp) rfl
  | _ =>
    simp only [Enabled] at he
    exact h.keep_goto rfl (by simp [he, LogPc.active]) (by simp) rfl

omit [DecidableEq P] in
lemma reserved_init (size : Nat) : Reserved (init P size) := by
  constructor <;> simp [init, LogPc.active, LogHeader.blocks, reserved, LogTask.reserve]

/-! ### The panics of `log_write` -/

/-- The distinct blocks logged since the last commit. -/
def recent (s : LogState P) : Finset Nat := (s.pending.map Prod.snd).toFinset

omit [DecidableEq P] in
/-- Outside a commit, the header lists each block logged since the last commit once. -/
lemma n_eq_card_recent (h : Reserved s) (hh : History s)
    (hno : ∀ q, (s.tasks q).pc ≠ .commitWriting) : s.lh.n = s.recent.card := by
  have hset : s.lh.blocks.toFinset = s.recent := by
    ext b
    simp [recent, hh.logged hno b]
  rw [← hset, List.toFinset_card_of_nodup h.nodup, LogHeader.length_blocks]

/-- The kernel runs on, the header fits into the log on disk, and no block is listed twice. -/
structure Fits (s : LogState P) : Prop where
  running : s.panic = none
  n_le : s.lh.n ≤ s.size - 1
  nodup : s.lh.blocks.Nodup

/-- What every step keeps, whether or not the log overflows. -/
structure SpaceInv (s : LogState P) : Prop where
  inv : Inv s
  history : History s
  reserved : Reserved s
  size : s.size = LOGSIZE

/-- A call of `log_write` finds fewer distinct blocks logged since the last commit than the log has
data blocks, and does not raise their number above it. -/
def RoomLeft (s : LogState P) : LogAct P → Prop
  | .logWrite _ _ => s.recent.card < LOGSIZE - 1
  | .record p => (insert (blockOf (s.tasks p).pc) s.recent).card ≤ LOGSIZE - 1
  | _ => True

lemma SpaceInv.next (h : SpaceInv s) (he : s.Enabled a) (hop : WithinOp s a) :
    SpaceInv (s.next a) := by
  refine ⟨h.inv.next he, h.history.next h.inv he, h.reserved.next h.inv he hop, ?_⟩
  rw [← h.size]
  cases a with
  | logWrite p b | decrement p | commit p =>
    simp only [LogState.next]
    split_ifs <;> rfl
  | _ => rfl

omit [DecidableEq P] in
/-- While an operation is in progress no transaction is being written. -/
lemma SpaceInv.not_writing (h : SpaceInv s) {p : P} (hp : (s.tasks p).pc.active = true) (q : P) :
    (s.tasks q).pc ≠ .commitWriting := by
  intro hq
  have := h.inv.commits q (by simp [hq, LogPc.commits])
  simp [h.inv.not_committing hp] at this

omit [DecidableEq P] in
lemma SpaceInv.outstanding_pos (h : SpaceInv s) {p : P} (hp : (s.tasks p).pc.active = true) :
    1 ≤ s.outstanding := by
  rw [h.inv.count]
  exact activeCount_pos hp

/-- `log_write` panics exactly when the log has no data block left. -/
lemma SpaceInv.panic_logWrite (h : SpaceInv s) (hs : s.panic = none) {p : P} {b : Nat}
    (hp : (s.tasks p).pc = .inOp) : (s.next (.logWrite p b)).panic =
      if s.recent.card < LOGSIZE - 1 then none else some "too big a transaction" := by
  have hact : (s.tasks p).pc.active = true := by simp [hp, LogPc.active]
  have hn := n_eq_card_recent h.reserved h.history (h.not_writing hact)
  have hout := h.outstanding_pos hact
  have hsize := h.size
  by_cases hroom : s.recent.card < LOGSIZE - 1
  · have hno : ¬ (LOGSIZE ≤ s.lh.n ∨ s.size - 1 ≤ s.lh.n) := by omega
    have hin : ¬ s.outstanding < 1 := by omega
    rw [LogState.next, if_neg hno, if_neg hin, if_pos hroom]
    exact hs
  · have hyes : LOGSIZE ≤ s.lh.n ∨ s.size - 1 ≤ s.lh.n := by omega
    rw [LogState.next, if_pos hyes, if_neg hroom]

lemma SpaceInv.n_record (h : SpaceInv s) {p : P} {b : Nat} (hp : (s.tasks p).pc = .logging b) :
    (s.next (.record p)).lh.n = (insert b s.recent).card := by
  have hact : (s.tasks p).pc.active = true := by simp [hp, LogPc.active]
  have hn := n_eq_card_recent h.reserved h.history (h.not_writing hact)
  have hb : b ∈ s.lh.blocks ↔ b ∈ s.recent := by
    simp [recent, h.history.logged (h.not_writing hact) b]
  simp only [LogState.next, hp, blockOf, LogHeader.n_record, hb, hn]
  split_ifs with hmem
  · rw [Finset.insert_eq_of_mem hmem]
  · rw [Finset.card_insert_of_notMem hmem]

/-- Apart from `log_write`, nothing panics. -/
lemma SpaceInv.panic_next (h : SpaceInv s) (hs : s.panic = none) (he : s.Enabled a)
    (ha : ∀ p b, a ≠ .logWrite p b) : (s.next a).panic = none := by
  cases a with
  | logWrite p b => exact absurd rfl (ha p b)
  | decrement p =>
    simp only [Enabled] at he
    have hnc := h.inv.not_committing (p := p) (by simp [he, LogPc.active])
    simp only [LogState.next, hnc]
    split_ifs <;> simp_all
  | commit p =>
    simp only [LogState.next]
    split_ifs <;> exact hs
  | _ => exact hs

omit [Fintype P] in
lemma n_next (ha : ∀ p, a ≠ .record p) : (s.next a).lh.n ≤ s.lh.n := by
  cases a with
  | record p => exact absurd rfl (ha p)
  | erase p => exact Nat.zero_le _
  | logWrite p b | decrement p | commit p =>
    simp only [LogState.next]
    split_ifs <;> exact le_rfl
  | _ => exact le_rfl

/-- A step that leaves room in the log keeps the kernel running and the log within its blocks. -/
lemma Fits.next (h : SpaceInv s) (hf : Fits s) (he : s.Enabled a) (hop : WithinOp s a)
    (hroom : RoomLeft s a) : Fits (s.next a) := by
  have h' := h.next he hop
  refine ⟨?_, ?_, h'.reserved.nodup⟩
  · by_cases ha : ∃ p b, a = .logWrite p b
    · obtain ⟨p, b, rfl⟩ := ha
      rw [h.panic_logWrite hf.running he]
      exact if_pos hroom
    · push Not at ha
      exact h.panic_next hf.running he ha
  · rw [h'.size]
    by_cases ha : ∃ p, a = .record p
    · obtain ⟨p, rfl⟩ := ha
      obtain ⟨b, hb⟩ := he
      rw [h.n_record hb]
      simpa [RoomLeft, hb, blockOf] using hroom
    · push Not at ha
      have := hf.n_le
      rw [h.size] at this
      exact le_trans (n_next ha) this

lemma Fits.roomLeft (h : SpaceInv s) (hs : s.panic = none) (he : s.Enabled a)
    (hf : Fits (s.next a)) : RoomLeft s a := by
  cases a with
  | logWrite p b =>
    have hrun := hf.running
    rw [h.panic_logWrite hs he] at hrun
    show s.recent.card < LOGSIZE - 1
    by_contra hfull
    rw [if_neg hfull] at hrun
    simp at hrun
  | record p =>
    have hsize : (s.next (.record p)).size = LOGSIZE := h.size
    obtain ⟨b, hb⟩ := he
    have hn := hf.n_le
    rw [h.n_record hb, hsize] at hn
    simpa [RoomLeft, hb, blockOf] using hn
  | _ => trivial

omit [DecidableEq P] in
lemma spaceInv_init : SpaceInv (init P LOGSIZE) :=
  ⟨inv_init _, history_init _, reserved_init _, rfl⟩

omit [DecidableEq P] [Fintype P] in
lemma fits_init : Fits (init P LOGSIZE) := by
  constructor <;> simp [init, LogHeader.blocks]

/-- On a disk laid out by `mkfs`, with operations that keep to `MAXOPBLOCKS`, the reservations of
`begin_op` bound the header by `LOGSIZE` and exclude every panic but one; the header fits into the
log and `log_write` does not panic exactly when every call of `log_write` finds room in the
`LOGSIZE - 1` data blocks. -/
theorem logSpace_iff_roomLeft {tr : List (LogState P × LogAct P)} {t : LogState P}
    (hr : Run Step (init P LOGSIZE) tr t) (hop : AllSteps WithinOp tr) :
    AllStates (fun s => s.lh.n ≤ LOGSIZE ∧ s.lh.blocks.Nodup ∧
      (s.panic = none ∨ s.panic = some "too big a transaction")) tr t ∧
    (AllStates Fits tr t ↔ AllSteps RoomLeft tr) := by
  have hr := hr.restrict hop
  constructor
  · have hall := hr.invariant
      (I := fun s => SpaceInv s ∧ (s.panic = none ∨ s.panic = some "too big a transaction")) ?_
      ⟨spaceInv_init, Or.inl rfl⟩
    · apply hall.mono
      rintro s ⟨h, hp⟩
      exact ⟨le_trans (Nat.le_add_right _ _) h.reserved.room, h.reserved.nodup, hp⟩
    · rintro s a _ ⟨h, -⟩ ⟨hop, hs, he, rfl⟩
      refine ⟨h.next he hop, ?_⟩
      by_cases ha : ∃ p b, a = .logWrite p b
      · obtain ⟨p, b, rfl⟩ := ha
        rw [h.panic_logWrite hs he]
        split_ifs
        · exact Or.inl rfl
        · exact Or.inr rfl
      · push Not at ha
        exact Or.inl (h.panic_next hs he ha)
  · refine hr.allStates_iff (I := fun s => SpaceInv s ∧ Fits s) (fun _ h => h.2) ?_ ?_
      ⟨spaceInv_init, fits_init⟩
    · rintro s a _ ⟨h, hf⟩ hroom ⟨hop, -, he, rfl⟩
      exact ⟨h.next he hop, hf.next h he hop hroom⟩
    · rintro s a _ ⟨h, -⟩ ⟨-, hs, he, rfl⟩ hf
      exact hf.roomLeft h hs he

omit [Fintype P] in
/-- The actions `l`, each tested before it is taken, are a run, whose last state is described by
`f`. -/
lemma exists_run (C : LogState P → LogAct P → Prop) [∀ s a, Decidable (C s a)] {β : Type}
    (f : LogState P → β) (l : List (LogAct P)) (b : β)
    (h : (follow (fun s a => if C s a then step s a else none) (init P LOGSIZE) l).map f = some b) :
    ∃ tr t, Run Step (init P LOGSIZE) tr t ∧ tr.map Prod.snd = l ∧ f t = b ∧ AllSteps C tr := by
  obtain ⟨tr, t, hr, hl⟩ := Run.of_follow_if h
  exact ⟨tr, t, hr.mono fun _ _ _ hs => step_iff.mp hs, hl⟩

/-- The steps of one `begin_op` that does not have to wait. -/
def beginSteps (p : P) : List (LogAct P) := [.beginOp p, .acquireBegin p, .admitOp p]

/-- The steps of one `log_write` for each block of the list. -/
def writeSteps (p : P) (l : List Nat) : List (LogAct P) :=
  l.flatMap fun b => [.logWrite p b, .acquireLog p, .record p]

instance (s : LogState P) (a : LogAct P) : Decidable (WithinOp s a) := by
  cases a <;> dsimp only [WithinOp] <;> infer_instance

instance (s : LogState P) (a : LogAct P) : Decidable (RoomLeft s a) := by
  cases a <;> dsimp only [RoomLeft] <;> infer_instance

/-- One operation logs a block, and there is room for it. -/
theorem logSpace_one_block :
    ∃ (tr : List (LogState (Fin 1) × LogAct (Fin 1))) (t : LogState (Fin 1)),
      Run Step (init (Fin 1) LOGSIZE) tr t ∧
        tr.map Prod.snd = beginSteps 0 ++ writeSteps 0 [7] ∧ t.lh.blocks = [7] ∧
        AllSteps WithinOp tr ∧ AllSteps RoomLeft tr ∧ AllStates Fits tr t := by
  obtain ⟨tr, t, hr, htr, hblocks, hall⟩ := exists_run
    (fun s a => WithinOp s a ∧ RoomLeft s a) (fun t => t.lh.blocks)
    (beginSteps (0 : Fin 1) ++ writeSteps 0 [7]) [7] (by decide +kernel)
  have hop : AllSteps WithinOp tr := fun x hx => (hall x hx).1
  have hroom : AllSteps RoomLeft tr := fun x hx => (hall x hx).2
  exact ⟨tr, t, hr, htr, hblocks, hop, hroom, (logSpace_iff_roomLeft hr hop).2.mpr hroom⟩

/-- Three operations of `MAXOPBLOCKS` distinct blocks each are admitted together. When 29 blocks are
logged, the `log_write` of the thirtieth panics. -/
theorem logSpace_three_full_operations :
    ∃ (tr : List (LogState (Fin 3) × LogAct (Fin 3))) (t : LogState (Fin 3)),
      Run Step (init (Fin 3) LOGSIZE) tr t ∧
        tr.map Prod.snd = beginSteps 0 ++ beginSteps 1 ++ beginSteps 2 ++
          writeSteps 0 (List.range' 100 10) ++ writeSteps 1 (List.range' 110 10) ++
          writeSteps 2 (List.range' 120 9) ++ [.logWrite 2 129] ∧ AllSteps WithinOp tr ∧
        t.panic = some "too big a transaction" ∧ ¬ AllStates Fits tr t := by
  obtain ⟨tr, t, hr, htr, hpanic, hop⟩ := exists_run WithinOp (fun t => t.panic)
    (beginSteps (0 : Fin 3) ++ beginSteps 1 ++ beginSteps 2 ++ writeSteps 0 (List.range' 100 10) ++
      writeSteps 1 (List.range' 110 10) ++ writeSteps 2 (List.range' 120 9) ++ [.logWrite 2 129])
    (some "too big a transaction") (by decide +kernel)
  refine ⟨tr, t, hr, htr, hop, hpanic, fun hall => ?_⟩
  have hrunning := hall.2.running
  simp [hpanic] at hrunning

/-- Two operations make the test of `log_write` when 28 blocks are logged, and both add a block:
nothing panics, and the header lists as many blocks as the log area has. -/
theorem log_fills_up :
    ∃ (tr : List (LogState (Fin 3) × LogAct (Fin 3))) (t : LogState (Fin 3)),
      Run Step (init (Fin 3) LOGSIZE) tr t ∧ AllSteps WithinOp tr ∧ t.panic = none ∧
        t.lh.blocks = Log.fullLog.lh.blocks ∧ t.size = Log.fullLog.size := by
  obtain ⟨tr, t, hr, -, hend, hop⟩ := exists_run WithinOp
    (fun t => (t.panic, t.lh.blocks, t.size))
    (beginSteps (0 : Fin 3) ++ beginSteps 1 ++ beginSteps 2 ++ writeSteps 0 (List.range' 100 10) ++
      writeSteps 1 (List.range' 110 9) ++ writeSteps 2 (List.range' 119 9) ++
      [.logWrite 1 128, .logWrite 2 129, .acquireLog 1, .record 1, .acquireLog 2, .record 2])
    (none, Log.fullLog.lh.blocks, Log.fullLog.size) (by decide +kernel)
  simp only [Prod.mk.injEq] at hend
  exact ⟨tr, t, hr, hop, hend⟩

end LogState

end Xv6
