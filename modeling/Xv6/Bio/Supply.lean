import Mathlib.Data.Fintype.Fin
import Xv6.Bio.Coherence
import Xv6.Proc.Table

/-!
# Running out of buffers

`bget` panics when the block is not cached and no buffer can be recycled. `begin_op` rations the
buffers that transactions dirty, but nothing rations those of processes that only read: the cache
has 30 buffers and there may be 64 processes. The main result says what a run has to keep to.
-/

namespace Xv6

open LinkedRing TransitionSystem

namespace BCache

variable {P : Type*} [Fintype P]

/-- Process `p` uses buffer `i`: it holds the sleep lock, or it holds a reference while it waits for
the lock or after it gave the lock up. -/
def Uses (s : BCache P) (p : P) (i : Fin NBUF) : Prop :=
  (s.buf i).owner = some p ∨ (s.pc p).refs i ≠ 0

/-- `bget` found no buffer to recycle. -/
def OutOfBuffers (s : BCache P) : Prop :=
  s.panic = some "bget: no buffers"

instance [DecidableEq P] (s : BCache P) (p : P) (i : Fin NBUF) : Decidable (s.Uses p i) :=
  inferInstanceAs (Decidable (_ ∨ _))

variable [DecidableEq P]

/-- The buffers that some process uses or that hold a block logged and not yet installed. -/
def inUse (s : BCache P) : Finset (Fin NBUF) :=
  Finset.univ.filter fun i => (∃ p, s.Uses p i) ∨ (s.buf i).dirty = true

/-- When `bget` is asked for a block that is not cached, some buffer is not in use. -/
def BufferLeft (s : BCache P) (a : BufAct P) : Prop :=
  ∀ p k, a = .bget p k → s.lookup k = none → s.inUse.card < NBUF

variable {D : Devices} {s : BCache P} {i : Fin NBUF}

omit [DecidableEq P] in
/-- A reference count is positive exactly when some process uses the buffer. -/
lemma Held.refcnt_ne_zero_iff (h : Held D s) : (s.buf i).refcnt ≠ 0 ↔ ∃ p, s.Uses p i := by
  constructor
  · intro hne
    by_contra hno
    push Not at hno
    have howner : (s.buf i).owner = none := by
      cases ho : (s.buf i).owner with
      | none => rfl
      | some q => exact absurd (Or.inl ho) (hno q)
    have hsum : ∑ p, (s.pc p).refs i = 0 := by
      refine Finset.sum_eq_zero fun p _ => ?_
      by_contra hp
      exact hno p (Or.inr hp)
    rw [h.refs i, howner, hsum] at hne
    exact hne rfl
  · rintro ⟨p, hp⟩ h0
    obtain ⟨howner, hrefs⟩ := h.unreferenced h0
    rcases hp with hp | hp
    · rw [howner] at hp
      cases hp
    · exact hp (hrefs p).1

/-- The second loop of `bget` finds nothing exactly when every buffer is in use. -/
lemma Held.victim_eq_none_iff (h : Held D s) : s.victim = none ↔ s.inUse.card = NBUF := by
  obtain ⟨l, hr, hall⟩ := h.ring
  have hlen : l.length < NBUF + 1 := by
    have hcard := (List.nodup_cons.mpr ⟨hr.head_notMem, hr.nodup⟩).length_le_card
    exact Nat.lt_succ_of_le (by simpa using hcard)
  have hcard : s.inUse.card = NBUF ↔ ∀ i, (s.buf i).refcnt ≠ 0 ∨ (s.buf i).dirty = true := by
    have huniv : s.inUse.card = Fintype.card (Fin NBUF) ↔ ∀ i, i ∈ s.inUse := by
      rw [Finset.card_eq_iff_eq_univ, Finset.eq_univ_iff_forall]
    rw [Fintype.card_fin] at huniv
    rw [huniv]
    simp only [inUse, Finset.mem_filter, Finset.mem_univ, true_and, h.refcnt_ne_zero_iff]
  rw [hcard, victim, hr.search_prev hlen, Option.join_eq_none_iff]
  constructor
  · rintro (hf | hf) i
    · have hi := List.find?_eq_none.mp hf (some i) (List.mem_reverse.mpr (hall i))
      simp only [Option.any_some, decide_eq_true_eq, not_and, not_not] at hi
      by_cases h0 : (s.buf i).refcnt = 0
      · exact Or.inr (hi h0)
      · exact Or.inl h0
    · have hi := List.find?_some hf
      simp at hi
  · intro hbusy
    left
    refine List.find?_eq_none.mpr fun n _ => ?_
    cases n with
    | none => simp
    | some i =>
      simp only [Option.any_some, decide_eq_true_eq, not_and, not_not]
      intro h0
      exact (hbusy i).resolve_left (fun hne => hne h0)

omit [Fintype P] [DecidableEq P] in
lemma idestart_panic (s : BCache P) (i : Fin NBUF) (h : ¬ s.OutOfBuffers) :
    ¬ (s.idestart i).OutOfBuffers := by
  unfold idestart OutOfBuffers
  split_ifs
  · simp
  · exact h
  · exact h

omit [Fintype P] in
lemma iderw_panic (s : BCache P) (p : P) (i : Fin NBUF) (c : BufPc) (h : ¬ s.OutOfBuffers) :
    ¬ (s.iderw p i c).OutOfBuffers := by
  unfold iderw
  dsimp only
  split_ifs
  · simp [OutOfBuffers]
  · simp [OutOfBuffers]
  · simp [OutOfBuffers]
  · exact idestart_panic _ _ h
  · exact h

omit [Fintype P] in
/-- Only a `bget` that finds nothing runs out of buffers. -/
lemma outOfBuffers_next {a : BufAct P} (hs : s.panic = none) (hout : (s.next a).OutOfBuffers) :
    ∃ p k, a = .bget p k ∧ s.lookup k = none ∧ s.victim = none := by
  have h0 : ¬ s.OutOfBuffers := by simp [OutOfBuffers, hs]
  cases a with
  | bget p k =>
    simp only [BCache.next] at hout
    cases hk : s.lookup k with
    | some i =>
      simp only [hk] at hout
      exact absurd hout h0
    | none =>
      cases hv : s.victim with
      | some i =>
        simp only [hk, hv] at hout
        exact absurd hout h0
      | none => exact ⟨p, k, rfl, hk, rfl⟩
  | acquiresleep p =>
    simp only [BCache.next] at hout
    split at hout <;> exact absurd hout h0
  | test p =>
    simp only [BCache.next] at hout
    split at hout
    · split_ifs at hout
      · exact absurd hout h0
      · exact absurd hout (iderw_panic _ _ _ _ h0)
    · exact absurd hout h0
  | resume p | modify p i v | logWrite p i => exact absurd hout h0
  | bwrite p i =>
    simp only [BCache.next] at hout
    split_ifs at hout
    · simp [OutOfBuffers] at hout
    · exact absurd hout (iderw_panic _ _ _ _ h0)
  | brelse p i =>
    simp only [BCache.next] at hout
    split_ifs at hout
    · simp [OutOfBuffers] at hout
    · exact absurd hout h0
  | unref p =>
    simp only [BCache.next] at hout
    split at hout
    · split_ifs at hout <;> exact absurd hout h0
    · exact absurd hout h0
  | ideintr =>
    simp only [BCache.next, BCache.ideintr] at hout
    split at hout
    · exact absurd hout h0
    · split at hout
      · exact absurd hout h0
      · exact absurd hout (idestart_panic _ _ h0)

/-- A run never runs out of buffers exactly when each `bget` for a block that is not cached comes
while fewer than `NBUF` buffers are used by processes or hold logged blocks. -/
theorem buffersSuffice_iff (D : Devices) {havedisk1 : Bool} {disk : Nat → Nat → Block}
    {tr : List (BCache P × BufAct P)} {t : BCache P}
    (hr : Run (Step D) (init P havedisk1 disk) tr t) :
    AllStates (fun s => ¬ s.OutOfBuffers) tr t ↔ AllSteps BufferLeft tr := by
  refine hr.allStates_iff (I := fun s => Held D s ∧ ¬ s.OutOfBuffers) (fun _ h => h.2) ?_ ?_
    ⟨held_init havedisk1 disk, by simp [OutOfBuffers, init]⟩
  · rintro s a _ ⟨hh, -⟩ hleft ⟨hs, he, rfl⟩
    refine ⟨hh.next he, fun hout => ?_⟩
    obtain ⟨p, k, rfl, hk, hv⟩ := outOfBuffers_next hs hout
    exact (hleft p k rfl hk).ne (hh.victim_eq_none_iff.mp hv)
  · rintro s _ _ ⟨hh, -⟩ ⟨hs, he, rfl⟩ hok p k rfl hk
    refine lt_of_le_of_ne ?_ fun hcard => ?_
    · exact (Finset.card_le_univ _).trans_eq (Fintype.card_fin NBUF)
    · have hv := hh.victim_eq_none_iff.mpr hcard
      exact hok (by simp [OutOfBuffers, BCache.next, hk, hv])

/-- A single process reads a block. -/
theorem buffersSuffice_one_read :
    ∃ (tr : List (BCache Slot × BufAct Slot)) (t : BCache Slot),
      Run (Step rootDevice) (init Slot true fun _ _ _ => 0) tr t ∧
        tr.map Prod.snd = [.bget 0 (1, 60), .acquiresleep 0, .test 0, .ideintr, .resume 0] ∧
        AllSteps BufferLeft tr ∧ AllStates (fun s => ¬ s.OutOfBuffers) tr t := by
  obtain ⟨tr, t, hr, htr, -, hall⟩ := Run.of_follow_if (f := step rootDevice)
    (C := fun s _ => s.inUse.card < NBUF) (s := init Slot true fun _ _ _ => 0) (g := fun t => t.panic)
    (l := [.bget 0 (1, 60), .acquiresleep 0, .test 0, .ideintr, .resume 0]) (b := none)
    (by decide +kernel)
  have hr := hr.mono fun _ _ _ hs => step_iff.mp hs
  have hleft : AllSteps BufferLeft tr := fun x hx _ _ _ _ => hall x hx
  exact ⟨tr, t, hr, htr, hleft, (buffersSuffice_iff rootDevice hr).mpr hleft⟩

/-- What one reader does in `bread` until it waits for the disk. -/
def startRead (p : Slot) : List (BufAct Slot) :=
  [.bget p (1, 60 + p.val), .acquiresleep p, .test p]

/-- Thirty processes read thirty blocks, each holding one buffer and waiting for the disk, when one
more process asks for a block: `bget` panics, although no transaction is running. -/
theorem buffers_exhausted_by_readers :
    ∃ (tr : List (BCache Slot × BufAct Slot)) (t : BCache Slot),
      Run (Step rootDevice) (init Slot true fun _ _ _ => 0) tr t ∧
        tr.map Prod.snd = ((List.finRange NPROC).take NBUF).flatMap startRead ++
          [.bget 30 (1, 90)] ∧
        t.OutOfBuffers := by
  have hrun : (follow (step rootDevice) (init Slot true fun _ _ _ => 0)
      (((List.finRange NPROC).take NBUF).flatMap startRead ++ [.bget 30 (1, 90)])).map
      (fun t => t.panic) = some (some "bget: no buffers") := by decide +kernel
  obtain ⟨t, ht, hval⟩ := Option.map_eq_some_iff.mp hrun
  obtain ⟨tr, hr, htr⟩ := run_of_follow ht
  exact ⟨tr, t, hr, htr, hval⟩

end BCache

end Xv6
