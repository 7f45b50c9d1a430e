import Xv6.Pipe.Calls

/-!
# Pipes lose nothing

The bytes that left a pipe are a prefix of the bytes that entered it, across any number of readers
and writers and across the overflow of the two counters. The queue in between is what the ring
holds; a `piperead` that is still copying has some bytes in hand.
-/

namespace Xv6.Pipe

open TransitionSystem

/-- The bytes a `piperead` has copied and not returned yet. -/
def Pc.got : Pc → List UInt8
  | .copy _ got | .readDone _ got | .readReturn _ got => got
  | _ => []

namespace State

variable {P : Type*}

/-- The bytes in the hands of the holder of the lock. -/
def inHand (s : State P) : List UInt8 :=
  match s.lock with
  | some p => (s.pc p).got
  | none => []

/-- The bytes stored by one call of `pipewrite`, in order. -/
def written (s : State P) (id : Nat) : List UInt8 :=
  (s.stored.filter fun x => x.1 = id).map Prod.snd

/-- What was stored is what was returned, then what is in hand, then the `nwrite - nread` bytes of
the ring. -/
def Lossless (s : State P) : Prop :=
  ∃ q, s.ring.Holds q ∧ s.stored.map Prod.snd = s.returned ++ s.inHand ++ q ∧
    q.length = (s.ring.nwrite - s.ring.nread).toNat ∧ q.length ≤ PIPESIZE

/-- A `pipewrite` that returns `n` stored its `n` bytes in order, and a `piperead` that was asked
for bytes returns 0 only at the end of the stream. -/
def ReturnSound (s : State P) (a : Act P) : Prop :=
  ∀ p, a = .go p →
    (∀ c, s.pc p = .writeReturn c → s.written c.id = (List.range c.n.toNat).map c.addr) ∧
    (∀ n, s.pc p = .readReturn n [] → 0 < n → s.ring.IsEmpty ∧ s.writeopen = false)

end State

/-! ### The invariant -/

/-- The call of `pipewrite` that a process is in. -/
def Pc.call : Pc → Option WriteCall
  | .write c _ | .writeFull c _ | .writeSleep c _ | .writeDone c | .writeReturn c
  | .writeFail c => some c
  | _ => none

variable {P : Type*}

/-- What holds when a process is at `pc`. -/
def Pc.Ok (s : State P) : Pc → Prop
  | .write c i | .writeFull c i | .writeSleep c i =>
    i ≤ c.n.toNat ∧ s.written c.id = (List.range i).map c.addr
  | .writeDone c | .writeReturn c => s.written c.id = (List.range c.n.toNat).map c.addr
  | .copy _ got => got = [] → ¬ (s.ring.IsEmpty ∧ s.writeopen = true)
  | .readDone n got | .readReturn n got =>
    0 < n → got = [] → s.ring.IsEmpty ∧ s.writeopen = false
  | _ => True

/-- The queue in the ring. -/
def Buffered (s : State P) : Prop :=
  ∃ q, s.ring.Holds q ∧ s.stored.map Prod.snd = s.returned ++ s.inHand ++ q

structure LosslessInv (s : State P) : Prop extends Orderly s where
  buffered : Buffered s
  ok : ∀ p, (s.pc p).Ok s
  old : ∀ p c, (s.pc p).call = some c → c.id < s.calls
  distinct : ∀ p q c d, (s.pc p).call = some c → (s.pc q).call = some d → c.id = d.id → p = q
  logged : ∀ x ∈ s.stored, x.1 < s.calls

lemma LosslessInv.lossless {s : State P} (h : LosslessInv s) : s.Lossless := by
  obtain ⟨q, hq, heq⟩ := h.buffered
  exact ⟨q, hq, heq, hq.toNat_sub.symm, hq.fits⟩

lemma LosslessInv.returnSound {s : State P} (h : LosslessInv s) (a : Act P) :
    s.ReturnSound a := by
  intro p _
  have hp := h.ok p
  refine ⟨fun c hc => ?_, fun n hn hpos => ?_⟩
  · rw [hc] at hp
    exact hp
  · rw [hn] at hp
    exact hp hpos rfl

/-- At a place where the lock need not be held only the log of the call matters. -/
lemma Pc.Ok.resting {s s' : State P} {pc : Pc} (hrest : pc.Resting) (h : pc.Ok s)
    (hw : ∀ c, pc.call = some c → s'.written c.id = s.written c.id) : pc.Ok s' := by
  cases pc with
  | write c i => exact ⟨h.1, (hw c rfl).trans h.2⟩
  | idle | read n => trivial
  | _ => exact hrest.elim

variable [DecidableEq P]

/-- The holder of the lock takes a step. -/
lemma LosslessInv.go {s s' : State P} {p : P} (h : LosslessInv s) (hlock : s.lock = some p)
    (ht : Turn p s s') (hcall : ∀ c, (s'.pc p).call = some c → (s.pc p).call = some c)
    (hlog : ∀ x ∈ s'.stored, x ∈ s.stored ∨ ∃ c, (s.pc p).call = some c ∧ x.1 = c.id)
    (hwritten : ∀ id, (∀ c, (s.pc p).call = some c → c.id ≠ id) → s'.written id = s.written id)
    (hok : (s'.pc p).Ok s') (hbuf : Buffered s') : LosslessInv s' where
  toOrderly := h.toOrderly.of_turn hlock ht
  buffered := hbuf
  ok q := by
    by_cases hqp : q = p
    · rw [hqp]
      exact hok
    · rw [ht.others q hqp]
      have hrest := h.resting q fun hl => hqp (Option.some.inj (hl.symm.trans hlock))
      refine (h.ok q).resting hrest fun d hd => hwritten d.id fun c hc hid => hqp ?_
      exact h.distinct q p d c hd hc hid.symm
  old q c hc := by
    rw [ht.calls]
    by_cases hqp : q = p
    · exact h.old p c (hcall c (by rwa [hqp] at hc))
    · exact h.old q c (by rwa [ht.others q hqp] at hc)
  distinct q r c d hc hd hid := by
    have hsame : ∀ q c, (s'.pc q).call = some c → (s.pc q).call = some c := by
      intro q c hc
      by_cases hqp : q = p
      · rw [hqp] at hc ⊢
        exact hcall c hc
      · rwa [ht.others q hqp] at hc
    exact h.distinct q r c d (hsame q c hc) (hsame r d hd) hid
  logged x hx := by
    rw [ht.calls]
    rcases hlog x hx with hx | ⟨c, hc, hid⟩
    · exact h.logged x hx
    · rw [hid]
      exact h.old p c hc

/-- The holder of the lock takes a step that leaves the ring and the logs alone. -/
lemma LosslessInv.go_same {s s' : State P} {p : P} (h : LosslessInv s) (hlock : s.lock = some p)
    (ht : Turn p s s') (hcall : ∀ c, (s'.pc p).call = some c → (s.pc p).call = some c)
    (hring : s'.ring = s.ring) (hstored : s'.stored = s.stored)
    (hret : s'.returned ++ s'.inHand = s.returned ++ s.inHand) (hok : (s'.pc p).Ok s') :
    LosslessInv s' := by
  refine h.go hlock ht hcall (fun x hx => ?_) (fun id _ => ?_) hok ?_
  · rw [hstored] at hx
    exact Or.inl hx
  · simp only [State.written, hstored]
  · obtain ⟨q, hq, heq⟩ := h.buffered
    exact ⟨q, by rwa [hring], by rw [hstored, hret, heq]⟩

omit [DecidableEq P] in
lemma inHand_of_lock {s : State P} {p : P} (h : s.lock = some p) : s.inHand = (s.pc p).got := by
  simp only [State.inHand, h]

omit [DecidableEq P] in
lemma inHand_of_free {s : State P} (h : s.lock = none) : s.inHand = [] := by
  simp only [State.inHand, h]

lemma Pc.ok_setPc (s : State P) (p : P) (pc pc' : Pc) : pc.Ok (s.setPc p pc') ↔ pc.Ok s := by
  cases pc <;> exact Iff.rfl

/-- The holder of the lock moves on with the same bytes in hand. -/
lemma LosslessInv.go_pc {s s₁ : State P} {p : P} {pc₀ pc : Pc} (h : LosslessInv s)
    (hlock : s.lock = some p) (hpc : s.pc p = pc₀) (ht : Turn p s (s₁.setPc p pc))
    (hlock₁ : s₁.lock = some p) (hring : s₁.ring = s.ring) (hstored : s₁.stored = s.stored)
    (hret : s₁.returned = s.returned) (hcall : ∀ c, pc.call = some c → pc₀.call = some c)
    (hgot : pc.got = pc₀.got) (hok : pc.Ok s₁) : LosslessInv (s₁.setPc p pc) := by
  subst hpc
  refine h.go_same hlock ht ?_ hring hstored ?_ ?_
  · rw [State.setPc_self]
    exact hcall
  · have hhand : (s₁.setPc p pc).inHand = s.inHand := by
      rw [inHand_of_lock hlock, inHand_of_lock (s := s₁.setPc p pc) hlock₁, State.setPc_self, hgot]
    rw [hhand]
    exact congrArg (· ++ s.inHand) hret
  · rw [State.setPc_self, Pc.ok_setPc]
    exact hok

/-- The holder of the lock gives it up with nothing in hand. -/
lemma LosslessInv.go_free {s s' : State P} {p : P} {pc₀ pc : Pc} (h : LosslessInv s)
    (hlock : s.lock = some p) (hpc : s.pc p = pc₀) (ht : Turn p s s') (hlock' : s'.lock = none)
    (hpc' : s'.pc p = pc) (hring : s'.ring = s.ring) (hstored : s'.stored = s.stored)
    (hret : s'.returned = s.returned ++ pc₀.got)
    (hcall : ∀ c, pc.call = some c → pc₀.call = some c) (hok : pc.Ok s) : LosslessInv s' := by
  subst hpc hpc'
  refine h.go_same hlock ht hcall hring hstored ?_ ?_
  · rw [inHand_of_lock hlock, inHand_of_free hlock', hret, List.append_nil]
  · refine hok.resting ?_ fun c _ => by simp only [State.written, hstored]
    rcases ht.lock with hl | hl
    · rw [hlock'] at hl
      cases hl.1
    · exact hl.2.1

/-- `pipewrite` stores a byte. -/
lemma LosslessInv.go_store {s : State P} {p : P} {c : WriteCall} {i : Nat} (h : LosslessInv s)
    (hlock : s.lock = some p) (hpc : s.pc p = .write c i) (hi : (i : Int) < c.n)
    (hfull : ¬ s.ring.IsFull) (ht : Turn p s ((s.store c i).setPc p (.write c (i + 1)))) :
    LosslessInv ((s.store c i).setPc p (.write c (i + 1))) := by
  have hp := h.ok p
  rw [hpc] at hp
  refine h.go hlock ht ?_ (fun x hx => ?_) (fun id hid => ?_) ?_ ?_
  · simp [hpc, Pc.call]
  · rcases List.mem_append.mp hx with hx | hx
    · exact Or.inl hx
    · exact Or.inr ⟨c, by rw [hpc]; rfl, by rw [List.mem_singleton.mp hx]⟩
  · have hne : c.id ≠ id := hid c (by rw [hpc]; rfl)
    simp [State.written, State.store, State.setPc, hne]
  · rw [State.setPc_self]
    refine ⟨by omega, ?_⟩
    have hw : ((s.store c i).setPc p (.write c (i + 1))).written c.id =
        s.written c.id ++ [c.addr i] := by
      simp [State.written, State.store, State.setPc]
    rw [hw, hp.2, List.range_succ, List.map_append]
    rfl
  · obtain ⟨q, hq, heq⟩ := h.buffered
    refine ⟨q ++ [c.addr i], hq.push hfull, ?_⟩
    rw [inHand_of_lock hlock, hpc] at heq
    rw [inHand_of_lock (s := (s.store c i).setPc p (.write c (i + 1))) hlock, State.setPc_self]
    simp only [State.store, State.setPc, Pc.got, List.map_append, List.append_nil] at heq ⊢
    rw [heq, List.append_assoc]
    rfl

/-- `piperead` copies a byte. -/
lemma LosslessInv.go_pop {s : State P} {p : P} {n : Int} {got : List UInt8} (h : LosslessInv s)
    (hlock : s.lock = some p) (hpc : s.pc p = .copy n got) (hempty : ¬ s.ring.IsEmpty)
    (ht : Turn p s ({ s with ring := s.ring.pop }.setPc p (.copy n (got ++ [s.ring.front])))) :
    LosslessInv ({ s with ring := s.ring.pop }.setPc p (.copy n (got ++ [s.ring.front]))) := by
  refine h.go hlock ht ?_ (fun x hx => Or.inl hx) (fun id _ => rfl) ?_ ?_
  · simp [Pc.call]
  · rw [State.setPc_self]
    exact fun hnil => absurd hnil (by simp)
  · obtain ⟨q, hq, heq⟩ := h.buffered
    obtain ⟨q', rfl⟩ := hq.exists_front hempty
    refine ⟨q', hq.pop.2, ?_⟩
    rw [inHand_of_lock hlock, hpc] at heq
    rw [inHand_of_lock (p := p) (by exact hlock), State.setPc_self]
    simpa [State.setPc, Pc.got] using heq

lemma LosslessInv.step_go {s s' : State P} {p : P} (h : LosslessInv s) (hlock : s.lock = some p)
    (hgo : s.go p = some s') : LosslessInv s' := by
  have ht := h.toOrderly.turn hlock hgo
  have hp := h.ok p
  unfold State.go at hgo
  generalize hpc : s.pc p = pc at hgo hp
  cases pc with
  | idle => cases hgo
  | write c i =>
    cases hgo
    unfold State.goWrite at ht ⊢
    split_ifs at ht ⊢ with hi hfull hfail
    · exact h.go_pc hlock hpc ht hlock rfl rfl rfl (fun _ hc => hc) rfl trivial
    · exact h.go_pc hlock hpc ht hlock rfl rfl rfl (fun _ hc => hc) rfl hp
    · exact h.go_store hlock hpc hi hfull ht
    · have hin : i = c.n.toNat := by
        have := hp.1
        omega
      rw [hin] at hp
      exact h.go_pc hlock hpc ht hlock rfl rfl rfl (fun _ hc => hc) rfl hp.2
  | writeFull c i | writeDone c =>
    cases hgo
    exact h.go_pc hlock hpc ht hlock rfl rfl rfl (fun _ hc => hc) rfl hp
  | writeSleep c i =>
    cases hgo
    exact h.go_free hlock hpc ht rfl (State.sleep_self ..) rfl rfl (List.append_nil _).symm
      (fun _ hc => hc) hp
  | read n =>
    cases hgo
    unfold State.goRead at ht ⊢
    split_ifs at ht ⊢ with hempty hkilled
    · exact h.go_pc hlock hpc ht hlock rfl rfl rfl (by simp [Pc.call]) rfl trivial
    · exact h.go_pc hlock hpc ht hlock rfl rfl rfl (by simp [Pc.call]) rfl trivial
    · exact h.go_pc hlock hpc ht hlock rfl rfl rfl (by simp [Pc.call]) rfl
        fun _ => hempty
  | readSleep n =>
    cases hgo
    exact h.go_free hlock hpc ht rfl (State.sleep_self ..) rfl rfl (List.append_nil _).symm
      (fun _ hc => hc) trivial
  | copy n got =>
    cases hgo
    unfold State.goCopy at ht ⊢
    split_ifs at ht ⊢ with hn hempty
    · refine h.go_pc hlock hpc ht hlock rfl rfl rfl (by simp [Pc.call]) rfl ?_
      intro _ hnil
      exact ⟨hempty, by simpa [hempty] using hp hnil⟩
    · exact h.go_pop hlock hpc hempty ht
    · refine h.go_pc hlock hpc ht hlock rfl rfl rfl (by simp [Pc.call]) rfl ?_
      -- the loop stopped after `n` bytes, so some bytes were copied if any were asked for
      rintro hpos rfl
      exact absurd hpos hn
  | readDone n got =>
    cases hgo
    exact h.go_pc hlock hpc ht hlock rfl rfl rfl (by simp [Pc.call]) rfl hp
  | writeReturn c | writeFail c | readFail n | closeReturn =>
    cases hgo
    exact h.go_free hlock hpc ht rfl (State.leave_self ..) rfl rfl (List.append_nil _).symm
      (by simp [Pc.call]) trivial
  | readReturn n got =>
    cases hgo
    exact h.go_free hlock hpc ht rfl (State.leave_self ..) rfl rfl rfl (by simp [Pc.call]) trivial
  | close writable =>
    cases writable with
    | true | false =>
      cases hgo
      exact h.go_pc hlock hpc ht hlock rfl rfl rfl (by simp [Pc.call]) rfl trivial
  | closeWake writable =>
    cases hgo
    exact h.go_pc hlock hpc ht hlock rfl rfl rfl (by simp [Pc.call]) rfl trivial

omit [DecidableEq P] in
/-- A process takes the free lock, at the start of a call or after it was woken. -/
lemma LosslessInv.entered {s s' : State P} {p : P} (h : LosslessInv s) (ho : Orderly s')
    (hfree : s.lock = none) (hlock : s'.lock = some p) (hpc : ∀ q, q ≠ p → s'.pc q = s.pc q)
    (hring : s'.ring = s.ring) (hstored : s'.stored = s.stored)
    (hret : s'.returned = s.returned) (hcalls : s.calls ≤ s'.calls)
    (hgot : (s'.pc p).got = []) (hok : (s'.pc p).Ok s')
    (hcall : ∀ c, (s'.pc p).call = some c →
      (s.pc p).call = some c ∨ (s.calls ≤ c.id ∧ c.id < s'.calls)) : LosslessInv s' := by
  have hold : ∀ q c, q ≠ p → (s'.pc q).call = some c → (s.pc q).call = some c :=
    fun q c hqp hc => by rwa [hpc q hqp] at hc
  have hclash : ∀ q c d, q ≠ p → (s'.pc q).call = some c → (s'.pc p).call = some d →
      c.id ≠ d.id := by
    intro q c d hqp hc hd hid
    have hc' := hold q c hqp hc
    rcases hcall d hd with hd' | hd'
    · exact hqp (h.distinct q p c d hc' hd' hid)
    · have := h.old q c hc'
      omega
  refine ⟨ho, ?_, fun q => ?_, fun q c hc => ?_, fun q r c d hc hd hid => ?_, fun x hx => ?_⟩
  · obtain ⟨q, hq, heq⟩ := h.buffered
    refine ⟨q, by rwa [hring], ?_⟩
    rw [hstored, hret, inHand_of_lock hlock, hgot, heq, inHand_of_free hfree]
  · by_cases hqp : q = p
    · rw [hqp]
      exact hok
    · rw [hpc q hqp]
      exact (h.ok q).resting (h.resting q (by simp [hfree])) fun c _ => by
        simp only [State.written, hstored]
  · by_cases hqp : q = p
    · rw [hqp] at hc
      rcases hcall c hc with hc' | hc'
      · exact (h.old p c hc').trans_le hcalls
      · exact hc'.2
    · exact (h.old q c (hold q c hqp hc)).trans_le hcalls
  · by_cases hqp : q = p <;> by_cases hrp : r = p
    · rw [hqp, hrp]
    · rw [hqp] at hc
      exact absurd hid.symm (hclash r d c hrp hd hc)
    · rw [hrp] at hd
      exact absurd hid (hclash q c d hqp hc hd)
    · exact h.distinct q r c d (hold q c hqp hc) (hold r d hrp hd) hid
  · rw [hstored] at hx
    exact (h.logged x hx).trans_le hcalls

lemma LosslessInv.step {s s' : State P} {a : Act P} (h : LosslessInv s) (hs : s.Step a s') :
    LosslessInv s' := by
  have ho := h.toOrderly.step hs
  cases hs.moved with
  | @pipewrite p addr n he =>
    refine h.entered ho he.1 rfl (fun _ hq => Function.update_of_ne hq _ _) rfl rfl rfl
      (Nat.le_succ _) ?_ ?_ ?_
    · simp [State.enter, Pc.got]
    · -- no byte carries the number of a call that has just begun
      have hnew : s.stored.filter (fun x => x.1 = s.calls) = [] := by
        refine List.filter_eq_nil_iff.mpr fun x hx => ?_
        have := h.logged x hx
        simpa using this.ne
      simp [State.enter, Pc.Ok, State.written, State.setPc, hnew]
    · intro c hc
      simp only [State.enter, State.setPc_self, Pc.call, Option.some.injEq] at hc
      subst hc
      exact Or.inr ⟨le_rfl, Nat.lt_succ_self _⟩
  | piperead he | pipeclose he =>
    refine h.entered ho he.1 rfl (fun _ hq => Function.update_of_ne hq _ _) rfl rfl rfl
      le_rfl ?_ ?_ ?_
    · simp [State.enter, Pc.got]
    · simp [State.enter, Pc.Ok]
    · simp [State.enter, Pc.call]
  | go hl hg => exact h.step_go hl hg
  | @resume p hc =>
    have hrest := h.resting p (by simp [hc.1])
    refine h.entered ho hc.1 rfl (fun _ _ => rfl) rfl rfl rfl le_rfl ?_ ?_ fun _ hc => Or.inl hc
    · cases hpc : s.pc p with
      | idle | write _ _ | read _ => simp [Pc.got]
      | _ => simp [hpc, Pc.Resting] at hrest
    · exact (h.ok p).resting hrest fun _ _ => rfl
  | kill => exact ⟨ho, h.buffered, h.ok, h.old, h.distinct, h.logged⟩

omit [DecidableEq P] in
lemma losslessInv_pipealloc (data : Fin PIPESIZE → UInt8) (killed : P → Bool) :
    LosslessInv (State.pipealloc data killed) where
  toOrderly := orderly_pipealloc data killed
  buffered := ⟨[], Fifo.holds_nil rfl, rfl⟩
  ok _ := trivial
  old p c hc := by simp [State.pipealloc, Pc.call] at hc
  distinct p q c d hc := by simp [State.pipealloc, Pc.call] at hc
  logged x hx := by simp [State.pipealloc] at hx

/-- In every run on a new pipe the bytes returned are a prefix of the bytes stored and the rest is
in the ring or in hand; calls that return normally did what they say. -/
theorem lossless_run {data : Fin PIPESIZE → UInt8} {killed : P → Bool} {s : State P}
    {tr : List (State P × Act P)} (hr : Run State.Step (State.pipealloc data killed) tr s) :
    AllStates State.Lossless tr s ∧ AllSteps State.ReturnSound tr := by
  have hinv : AllStates LosslessInv tr s :=
    hr.invariant (fun _ _ _ h hs => h.step hs) (losslessInv_pipealloc data killed)
  exact ⟨hinv.mono fun _ h => h.lossless, fun x hx => (hinv.1 x hx).returnSound x.2⟩

/-- One process writes the byte 7 and another one reads it. -/
theorem lossless_one_byte :
    ∃ (s : State Bool) (tr : List (State Bool × Act Bool)),
      Run State.Step (State.pipealloc (fun _ => 0) fun _ => false) tr s ∧ s.returned = [7] ∧
      s.stored = [(0, 7)] ∧ AllStates State.Lossless tr s ∧ AllSteps State.ReturnSound tr := by
  have hrun : (follow State.step (State.pipealloc (fun _ => 0) fun _ => false)
      [.pipewrite true (fun _ => 7) 1, .go true, .go true, .go true, .go true,
        .piperead false 1, .go false, .go false, .go false, .go false, .go false]).map
      (fun s => (s.returned, s.stored)) = some ([7], [(0, 7)]) := by decide +kernel
  obtain ⟨s, hs, h⟩ := Option.map_eq_some_iff.mp hrun
  obtain ⟨tr, hr, -⟩ := Run.of_follow hs
  rw [Prod.mk.injEq] at h
  exact ⟨s, tr, hr, h.1, h.2, lossless_run hr⟩

end Xv6.Pipe
