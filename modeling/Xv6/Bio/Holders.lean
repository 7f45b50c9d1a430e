import Mathlib.Data.Fintype.Option
import Xv6.Bio.Cache
import Xv6.Lib.Count

/-!
# Who holds which buffer

The reference counts count the processes that use a buffer, the sleep lock is held by one of them,
the disk queue holds the buffers whose holders wait for the disk, and the list of buffers stays a
ring of all of them.
-/

namespace Xv6

open LinkedRing

namespace BufPc

/-- References to a buffer held by a process that does not hold its sleep lock. -/
def refs (i : Fin NBUF) : BufPc → Nat
  | locking j _ | releasing j => if j = i then 1 else 0
  | _ => 0

/-- The buffer in whose `bread` or `bwrite` the process is, holding its sleep lock. -/
def busy : BufPc → Option (Fin NBUF)
  | testing i _ | reading i _ | writing i => some i
  | _ => none

/-- The buffer that the process has locked but may still have to read from disk. -/
def fills : BufPc → Option (Fin NBUF)
  | testing i _ | reading i _ => some i
  | _ => none

/-- The buffer for which the process waits in `iderw`. -/
def waits : BufPc → Option (Fin NBUF)
  | reading i _ | writing i => some i
  | _ => none

/-- The block that the process asked for, and the buffer it was given for it. -/
def wants : BufPc → Option (Fin NBUF × BlockId)
  | locking i k | testing i k | reading i k => some (i, k)
  | _ => none

@[simp] lemma refs_ready (i : Fin NBUF) : refs i ready = 0 := rfl

@[simp] lemma busy_ready : busy ready = none := rfl

@[simp] lemma fills_ready : fills ready = none := rfl

@[simp] lemma waits_ready : waits ready = none := rfl

@[simp] lemma wants_ready : wants ready = none := rfl

lemma busy_of_waits {c : BufPc} {i : Fin NBUF} (h : c.waits = some i) : c.busy = some i := by
  cases c <;> simp_all [waits, busy]

lemma busy_of_fills {c : BufPc} {i : Fin NBUF} (h : c.fills = some i) : c.busy = some i := by
  cases c <;> simp_all [fills, busy]

lemma refs_of_wants {c : BufPc} {i : Fin NBUF} {k : BlockId} (h : c.wants = some (i, k)) :
    c.refs i = 1 ∨ c.busy = some i := by
  cases c <;> simp_all [wants, busy, refs]

end BufPc

namespace BCache

variable {P : Type*} [Fintype P]

/-- The invariant of the locks, the reference counts, the disk queue and the list of buffers. -/
structure Held (D : Devices) (s : BCache P) : Prop where
  ring : ∃ l, s.links.IsRing none l ∧ ∀ i, some i ∈ l
  unique : ∀ i j, 1 ≤ (s.buf i).dev → (s.buf i).id = (s.buf j).id → i = j
  live : ∀ i, (s.buf i).refcnt ≠ 0 ∨ (s.buf i).dirty = true → (s.buf i).dev ∈ D.used
  refs : ∀ i, (s.buf i).refcnt =
    (s.buf i).owner.isSome.toNat + ∑ p, (s.pc p).refs i
  busy : ∀ p i, (s.pc p).busy = some i → (s.buf i).owner = some p
  wants : ∀ p i k, (s.pc p).wants = some (i, k) → (s.buf i).id = k
  ready : ∀ p i, (s.buf i).owner = some p → (s.pc p).fills ≠ some i → (s.buf i).valid = true
  dirty : ∀ i, (s.buf i).dirty = true → (s.buf i).valid = true
  nodup : s.idequeue.Nodup
  queued : ∀ i ∈ s.idequeue, ∃ p, (s.pc p).waits = some i
  pending : ∀ i ∈ s.idequeue, (s.buf i).valid = false ∨ (s.buf i).dirty = true
  waiting : ∀ p i, (s.pc p).waits = some i →
    i ∈ s.idequeue ∨ (s.buf i).valid = true ∧ (s.buf i).dirty = false
  modified : ∀ i, s.modified i = true → ∃ p, (s.buf i).owner = some p ∧ (s.pc p).busy ≠ some i

variable {D : Devices} {s s' : BCache P} {i j : Fin NBUF} {p q : P} {k : BlockId}

lemma Held.congr (h : Held D s) (hs : (s'.buf, s'.links, s'.idequeue, s'.pc, s'.modified) =
    (s.buf, s.links, s.idequeue, s.pc, s.modified)) : Held D s' := by
  simp only [Prod.mk.injEq] at hs
  obtain ⟨hb, hl, hq, hp, hm⟩ := hs
  obtain ⟨h1, h2, h3, h4, h5, h6, h7, h8, h9, h10, h11, h12, h13⟩ := h
  constructor <;> simp only [hb, hl, hq, hp, hm] <;> assumption

/-- A buffer nobody refers to is unlocked, out of the disk queue and wanted by nobody. -/
lemma Held.unreferenced (h : Held D s) (hi : (s.buf i).refcnt = 0) :
    (s.buf i).owner = none ∧ ∀ p, (s.pc p).refs i = 0 ∧ (s.pc p).busy ≠ some i := by
  have hrefs := h.refs i
  rw [hi] at hrefs
  have howner : (s.buf i).owner = none := by
    cases ho : (s.buf i).owner with
    | none => rfl
    | some q =>
      simp only [ho, Option.isSome_some, Bool.toNat_true] at hrefs
      omega
  refine ⟨howner, fun p => ⟨?_, fun hb => ?_⟩⟩
  · have hsum : ∑ p, (s.pc p).refs i = 0 := by omega
    exact (Finset.sum_eq_zero_iff.mp hsum) p (Finset.mem_univ p)
  · simp [h.busy p i hb] at howner

lemma Held.notMem_idequeue (h : Held D s) (ho : (s.buf i).owner = some p)
    (hp : (s.pc p).waits ≠ some i) : i ∉ s.idequeue := by
  intro hi
  obtain ⟨q, hq⟩ := h.queued i hi
  have hown := h.busy q i (BufPc.busy_of_waits hq)
  obtain rfl : p = q := by simpa [ho] using hown
  exact hp hq

/-- The buffer of a process that is in `bread`, `bwrite` or holds it belongs to a device in use. -/
lemma Held.dev_used (h : Held D s) (ho : (s.buf i).owner = some p) : (s.buf i).dev ∈ D.used := by
  apply h.live i (Or.inl _)
  rw [h.refs i, ho]
  simp

variable [DecidableEq P]

/-! ### The two loops of `bget` -/

omit [Fintype P] [DecidableEq P] in
lemma lookup_some (hi : s.lookup k = some i) : (s.buf i).id = k := by
  have hs := Links.search_some (Option.join_eq_some_iff.mp hi)
  simpa using hs

omit [Fintype P] [DecidableEq P] in
lemma victim_some (hi : s.victim = some i) : (s.buf i).refcnt = 0 ∧ (s.buf i).dirty = false := by
  have hs := Links.search_some (Option.join_eq_some_iff.mp hi)
  simpa using hs

omit [DecidableEq P] in
/-- The first loop of `bget` goes through all buffers. -/
lemma Held.lookup_none (h : Held D s) (hk : s.lookup k = none) (i : Fin NBUF) :
    (s.buf i).id ≠ k := by
  intro hik
  obtain ⟨l, hr, hall⟩ := h.ring
  have hlen : l.length < NBUF + 1 := by
    have hcard := (List.nodup_cons.mpr ⟨hr.head_notMem, hr.nodup⟩).length_le_card
    exact Nat.lt_succ_of_le (by simpa using hcard)
  rw [lookup, hr.search_next hlen, Option.join_eq_none_iff] at hk
  rcases hk with hk | hk
  · have := List.find?_eq_none.mp hk (some i) (hall i)
    simp [hik] at this
  · have := List.find?_some hk
    simp at this

/-! ### Taking and giving up references -/

/-- One process moves, and at most one buffer changes; both changes agree on the references. -/
lemma Held.refs_next {c : BufPc} {b : Buf P} (h : Held D s)
    (hb : b.refcnt + (s.buf i).owner.isSome.toNat + (s.pc p).refs i =
      (s.buf i).refcnt + b.owner.isSome.toNat + c.refs i)
    (hother : ∀ j, j ≠ i → c.refs j = (s.pc p).refs j) (j : Fin NBUF) :
    (((s.setBuf i b).setPc p c).buf j).refcnt =
      (((s.setBuf i b).setPc p c).buf j).owner.isSome.toNat +
        ∑ q, (((s.setBuf i b).setPc p c).pc q).refs j := by
  have hsum := Count.sum_update (fun _ x => BufPc.refs j x) s.pc p c
  have hj := h.refs j
  simp only [setBuf, setPc]
  by_cases hji : j = i
  · subst hji
    simp only [Function.update_self]
    omega
  · have := hother j hji
    simp only [Function.update_of_ne hji]
    omega

/-- The process `p` moves to `c`, while buffer `i` gets the owner `o` and the count `n`. Nobody
starts to wait for the disk. -/
lemma Held.move {c : BufPc} {o : Option P} {n : Nat} (h : Held D s)
    (hrefs : n + (s.buf i).owner.isSome.toNat + (s.pc p).refs i =
      (s.buf i).refcnt + o.isSome.toNat + c.refs i)
    (hother : ∀ j, j ≠ i → c.refs j = (s.pc p).refs j)
    (hlive : n ≠ 0 → (s.buf i).dev ∈ D.used)
    (howner : ∀ q, q ≠ p → ((s.buf i).owner = some q ↔ o = some q))
    (hbusy : ∀ j, c.busy = some j → j = i ∧ o = some p)
    (hleave : ∀ j, (s.pc p).busy = some j → j = i)
    (hwants : ∀ j k, c.wants = some (j, k) → (s.buf j).id = k)
    (hready : o = some p → c.fills ≠ some i → (s.buf i).valid = true)
    (hwaits : c.waits = none) (hdone : ∀ j, (s.pc p).waits = some j → j ∉ s.idequeue)
    (hmod : s.modified i = true → (s.buf i).owner = some p → o = some p ∧ c.busy = none) :
    Held D ((s.setBuf i { s.buf i with owner := o, refcnt := n }).setPc p c) where
  ring := h.ring
  unique := by
    have := h.unique
    simp only [setBuf, setPc, Function.update_apply, Buf.id] at *
    grind
  live := by
    have := h.live
    simp only [setBuf, setPc, Function.update_apply] at *
    grind
  refs := h.refs_next hrefs hother
  busy := by
    have := h.busy
    simp only [setBuf, setPc, Function.update_apply]
    grind
  wants := by
    have := h.wants
    simp only [setBuf, setPc, Function.update_apply, Buf.id] at *
    grind
  ready := by
    have := h.ready
    have hfills : ∀ j, (s.pc p).fills = some j → j = i :=
      fun j hj => hleave j (BufPc.busy_of_fills hj)
    simp only [setBuf, setPc, Function.update_apply]
    grind
  dirty := by
    have := h.dirty
    simp only [setBuf, setPc, Function.update_apply]
    grind
  nodup := h.nodup
  queued := by
    have := h.queued
    simp only [setBuf, setPc, Function.update_apply]
    grind
  pending := by
    have := h.pending
    simp only [setBuf, setPc, Function.update_apply]
    grind
  waiting := by
    have := h.waiting
    simp only [setBuf, setPc, Function.update_apply]
    grind
  modified := by
    have := h.modified
    simp only [setBuf, setPc, Function.update_apply]
    grind

/-- `bget` finds the block in the cache. -/
lemma Held.hit (h : Held D s) (hp : s.pc p = .ready) (hk : s.lookup k = some i)
    (hd : k.1 ∈ D.used) :
    Held D ((s.setBuf i { s.buf i with refcnt := (s.buf i).refcnt + 1 }).setPc p
      (.locking i k)) := by
  have hid := lookup_some hk
  apply h.move <;> simp [hp, BufPc.refs, BufPc.busy, BufPc.wants, BufPc.waits, BufPc.fills]
  · omega
  · exact fun j hj => Ne.symm hj
  · rw [← hid] at hd
    exact hd
  · exact hid
  · exact fun ho => h.ready p i ho (by simp [hp])

/-- `acquiresleep` succeeds. -/
lemma Held.acquire (h : Held D s) (hp : s.pc p = .locking i k) (ho : (s.buf i).owner = none) :
    Held D ((s.setBuf i { s.buf i with owner := some p }).setPc p (.testing i k)) := by
  have hrefs := h.refs i
  have hid := h.wants p i k (by simp [hp, BufPc.wants])
  apply h.move <;> simp [hp, ho, BufPc.refs, BufPc.busy, BufPc.wants, BufPc.waits, BufPc.fills]
  · exact fun j hj => Ne.symm hj
  · exact fun hne => h.live i (Or.inl hne)
  · exact fun q hq => Ne.symm hq
  · exact hid

/-- `bread` or `bwrite` returns. -/
lemma Held.return (h : Held D s) (hb : (s.pc p).busy = some i) (hv : (s.buf i).valid = true)
    (hd : (s.pc p).waits = some i → (s.buf i).dirty = false) : Held D (s.setPc p .ready) := by
  have hrefs : ∀ j, (s.pc p).refs j = 0 := by
    intro j
    cases hp : s.pc p <;> simp_all [BufPc.busy, BufPc.refs]
  have hdone : ∀ j, (s.pc p).waits = some j → j ∉ s.idequeue := by
    intro j hj hmem
    have hji : j = i := by
      have := BufPc.busy_of_waits hj
      simp_all
    subst hji
    have := h.pending j hmem
    simp_all
  have hself : s.setBuf i { s.buf i with owner := (s.buf i).owner, refcnt := (s.buf i).refcnt } = s := by
    simp [setBuf]
  rw [← hself]
  apply h.move
  case hlive => exact fun hne => h.live i (Or.inl hne)
  case hdone => exact hdone
  all_goals simp [hrefs, hb, hv]

/-- `brelse` unlocks the buffer. -/
lemma Held.unlock (h : Held D s) (hp : s.pc p = .ready) (ho : (s.buf i).owner = some p)
    (hm : s.modified i = false) :
    Held D ((s.setBuf i { s.buf i with owner := none }).setPc p (.releasing i)) := by
  apply h.move <;> simp [hp, ho, hm, BufPc.refs, BufPc.busy, BufPc.wants, BufPc.waits]
  · exact fun j hj => Ne.symm hj
  · exact fun hne => h.live i (Or.inl hne)
  · exact fun q hq => Ne.symm hq

/-- `brelse` gives up the reference. -/
lemma Held.unref (h : Held D s) (hp : s.pc p = .releasing i) :
    Held D ((s.setBuf i { s.buf i with refcnt := (s.buf i).refcnt - 1 }).setPc p .ready) := by
  have hrefs := h.refs i
  have hone : 1 ≤ ∑ q, (s.pc q).refs i := by
    have := Finset.single_le_sum (f := fun q => (s.pc q).refs i) (fun q _ => Nat.zero_le _)
      (Finset.mem_univ p)
    simpa [hp, BufPc.refs] using this
  apply h.move <;> simp [hp, BufPc.refs, BufPc.busy, BufPc.waits]
  · omega
  · exact fun j hj => Ne.symm hj
  · exact fun hlt => h.live i (Or.inl (by omega))
  · exact fun ho => h.ready p i ho (by simp [hp, BufPc.fills])

omit [DecidableEq P] in
/-- A buffer moves to the front of the list. -/
lemma Held.moveFront (h : Held D s) (i : Fin NBUF) :
    Held D { s with links := (s.links.unlink (some i)).insertFront none (some i) } := by
  obtain ⟨l, hr, hall⟩ := h.ring
  obtain ⟨l₁, l₂, rfl⟩ := List.append_of_mem (hall i)
  have hring : ∃ l, ((s.links.unlink (some i)).insertFront none (some i)).IsRing none l ∧
      ∀ j, some j ∈ l := by
    refine ⟨some i :: (l₁ ++ l₂), hr.moveFront, fun j => ?_⟩
    have := hall j
    simp only [List.mem_append, List.mem_cons] at this ⊢
    tauto
  exact { h with ring := hring }

/-! ### Recycling -/

/-- `bget` recycles a buffer for a block that is not cached. -/
lemma Held.recycle (h : Held D s) (hp : s.pc p = .ready) (hk : s.lookup k = none)
    (hi : s.victim = some i) (hd : k.1 ∈ D.used) :
    Held D ((s.setBuf i { s.buf i with
      dev := k.1, blockno := k.2, valid := false, dirty := false, refcnt := 1 }).setPc p
        (.locking i k)) := by
  obtain ⟨hzero, hclean⟩ := victim_some hi
  obtain ⟨hown, hfree⟩ := h.unreferenced hzero
  have hnot : i ∉ s.idequeue := by
    intro hmem
    obtain ⟨q, hq⟩ := h.queued i hmem
    exact (hfree q).2 (BufPc.busy_of_waits hq)
  have hnone := h.lookup_none hk
  constructor
  case ring => exact h.ring
  case unique =>
    have := h.unique
    simp only [setBuf, setPc, Function.update_apply, Buf.id] at *
    grind
  case live =>
    have := h.live
    simp only [setBuf, setPc, Function.update_apply] at *
    grind
  case refs =>
    apply h.refs_next
    · simp [hp, hzero, hown, BufPc.refs]
    · intro j hj
      simp [hp, BufPc.refs, Ne.symm hj]
  case busy =>
    have := h.busy
    simp only [setBuf, setPc, Function.update_apply]
    grind [BufPc.busy]
  case wants =>
    have hw := h.wants
    have hi : ∀ q k', (s.pc q).wants ≠ some (i, k') := by
      intro q k' hq
      have := hfree q
      rcases BufPc.refs_of_wants hq with hr | hb
      · simp [hr] at this
      · exact this.2 hb
    simp only [setBuf, setPc, Function.update_apply, Buf.id] at *
    grind [BufPc.wants]
  case ready =>
    have := h.ready
    simp only [setBuf, setPc, Function.update_apply]
    grind [BufPc.fills]
  case dirty =>
    have := h.dirty
    simp only [setBuf, setPc, Function.update_apply]
    grind
  case nodup => exact h.nodup
  case queued =>
    have := h.queued
    simp only [setBuf, setPc, Function.update_apply]
    grind [BufPc.waits]
  case pending =>
    have := h.pending
    simp only [setBuf, setPc, Function.update_apply]
    grind
  case waiting =>
    have hw := h.waiting
    have hi : ∀ q, (s.pc q).waits ≠ some i :=
      fun q hq => (hfree q).2 (BufPc.busy_of_waits hq)
    simp only [setBuf, setPc, Function.update_apply]
    grind [BufPc.waits]
  case modified =>
    have := h.modified
    simp only [setBuf, setPc, Function.update_apply]
    grind [BufPc.busy]

/-! ### The disk queue -/

/-- `iderw` puts a buffer into the queue. -/
lemma Held.enqueue {c : BufPc} (h : Held D s) (ho : (s.buf i).owner = some p)
    (hw : (s.pc p).waits = none) (hb : (s.pc p).busy = none ∨ (s.pc p).busy = some i)
    (hf : (s.buf i).valid = false ∨ (s.buf i).dirty = true)
    (hm : s.modified i = false) (hr : ∀ j, (s.pc p).refs j = 0)
    (hc : c = .reading i (s.buf i).id ∨ c = .writing i ∧ (s.buf i).valid = true) :
    Held D ({ s with idequeue := s.idequeue ++ [i] }.setPc p c) := by
  have hnot : i ∉ s.idequeue := h.notMem_idequeue ho (by simp [hw])
  have hcb : c.busy = some i ∧ c.waits = some i ∧ (∀ j, c.refs j = 0) ∧
      (∀ j k, c.wants = some (j, k) → j = i ∧ k = (s.buf i).id) ∧
      (c.fills = some i ∨ c.fills = none ∧ (s.buf i).valid = true) := by
    rcases hc with rfl | ⟨rfl, hv⟩ <;>
      simp_all [BufPc.busy, BufPc.waits, BufPc.refs, BufPc.wants, BufPc.fills]
  obtain ⟨hbusy, hwaits, hrefs, hwants, hfills⟩ := hcb
  constructor
  case ring => exact h.ring
  case unique => exact h.unique
  case live => exact h.live
  case refs =>
    intro j
    have hsum := Count.sum_update (fun _ x => BufPc.refs j x) s.pc p c
    have hj := h.refs j
    simp only [hr, hrefs] at hsum
    simp only [setPc]
    omega
  case busy =>
    have := h.busy
    simp only [setPc, Function.update_apply]
    grind
  case wants =>
    have := h.wants
    simp only [setPc, Function.update_apply]
    grind
  case ready =>
    have hready := h.ready
    have : ∀ j, (s.pc p).fills = some j → j = i := by
      intro j hj
      have := BufPc.busy_of_fills hj
      grind
    simp only [setPc, Function.update_apply]
    grind
  case dirty => exact h.dirty
  case nodup =>
    have := h.nodup
    simp only [setPc]
    exact List.nodup_append.mpr ⟨this, by simp, by grind⟩
  case queued =>
    have := h.queued
    simp only [setPc, Function.update_apply]
    grind
  case pending =>
    have := h.pending
    simp only [setPc]
    grind
  case waiting =>
    have := h.waiting
    simp only [setPc, Function.update_apply]
    grind
  case modified =>
    have := h.modified
    simp only [setPc, Function.update_apply]
    grind

omit [Fintype P] [DecidableEq P] in
/-- `idestart` changes only the disk, or panics. -/
lemma idestart_same (s : BCache P) (i : Fin NBUF) :
    ((s.idestart i).buf, (s.idestart i).links, (s.idestart i).idequeue, (s.idestart i).pc,
      (s.idestart i).modified) = (s.buf, s.links, s.idequeue, s.pc, s.modified) := by
  unfold idestart
  split_ifs <;> rfl

/-- `iderw` on a buffer that its caller has locked. -/
lemma Held.iderw {c : BufPc} (h : Held D s) (ho : (s.buf i).owner = some p)
    (hw : (s.pc p).waits = none) (hb : (s.pc p).busy = none ∨ (s.pc p).busy = some i)
    (hf : (s.buf i).valid = false ∨ (s.buf i).dirty = true)
    (hm : s.modified i = false) (hr : ∀ j, (s.pc p).refs j = 0)
    (hc : c = .reading i (s.buf i).id ∨ c = .writing i ∧ (s.buf i).valid = true) :
    Held D (s.iderw p i c) := by
  have hq := h.enqueue ho hw hb hf hm hr hc
  unfold BCache.iderw
  dsimp only
  split_ifs
  · exact h.congr rfl
  · exact h.congr rfl
  · exact h.congr rfl
  · exact hq.congr (idestart_same _ _)
  · exact hq

omit [DecidableEq P] in
/-- The holder of a buffer that is not in `bread` or `bwrite` marks it dirty. -/
lemma Held.mark (h : Held D s) (hp : s.pc p = .ready) (ho : (s.buf i).owner = some p) :
    Held D ((s.save i).setBuf i { s.buf i with dirty := true }) := by
  have hvalid : (s.buf i).valid = true := h.ready p i ho (by simp [hp])
  have hused := h.dev_used ho
  constructor
  case ring => exact h.ring
  case unique =>
    have := h.unique
    simp only [save, setBuf, Function.update_apply, Buf.id] at *
    grind
  case live =>
    have := h.live
    simp only [save, setBuf, Function.update_apply]
    grind
  case refs =>
    intro j
    have := h.refs j
    simp only [save, setBuf, Function.update_apply]
    split_ifs with hj
    · rw [← hj]
      exact this
    · exact this
  case busy =>
    have := h.busy
    simp only [save, setBuf, Function.update_apply]
    grind
  case wants =>
    have := h.wants
    simp only [save, setBuf, Function.update_apply, Buf.id] at *
    grind
  case ready =>
    have := h.ready
    simp only [save, setBuf, Function.update_apply]
    grind
  case dirty =>
    have := h.dirty
    simp only [save, setBuf, Function.update_apply]
    grind
  case nodup => exact h.nodup
  case queued => exact h.queued
  case pending =>
    have := h.pending
    simp only [save, setBuf, Function.update_apply]
    grind
  case waiting =>
    have hwait := h.waiting
    have : ∀ q, (s.pc q).waits ≠ some i := by
      intro q hq
      have hown := h.busy q i (BufPc.busy_of_waits hq)
      obtain rfl : p = q := by simpa [ho] using hown
      simp [hp] at hq
    simp only [save, setBuf, Function.update_apply]
    grind
  case modified =>
    have := h.modified
    simp only [save, setBuf, Function.update_apply]
    grind

omit [DecidableEq P] in
/-- The holder of a buffer changes its data. -/
lemma Held.modify (h : Held D s) (hp : s.pc p = .ready) (ho : (s.buf i).owner = some p) (v : Block) :
    Held D { s.setBuf i { s.buf i with data := v } with
      modified := Function.update s.modified i true } := by
  have hbuf : ∀ j, ∃ w, Function.update s.buf i { s.buf i with data := v } j =
      { s.buf j with data := w } := by
    intro j
    by_cases hj : j = i
    · subst hj
      exact ⟨v, by simp⟩
    · exact ⟨(s.buf j).data, by simp [hj]⟩
  choose w hw using hbuf
  constructor
  case modified =>
    have := h.modified
    simp only [setBuf, Function.update_apply]
    grind [BufPc.busy]
  all_goals simp only [setBuf, hw]
  case ring => exact h.ring
  case unique => exact h.unique
  case live => exact h.live
  case refs => exact h.refs
  case busy => exact h.busy
  case wants => exact h.wants
  case ready => exact h.ready
  case dirty => exact h.dirty
  case nodup => exact h.nodup
  case queued => exact h.queued
  case pending => exact h.pending
  case waiting => exact h.waiting

omit [DecidableEq P] in
/-- The disk has finished with the first buffer of the queue. -/
lemma Held.complete {q : List (Fin NBUF)} (h : Held D s) (hq : s.idequeue = i :: q) (v : Block) :
    Held D ({ s with idequeue := q }.setBuf i
      { s.buf i with data := v, valid := true, dirty := false }) := by
  have hnd := h.nodup
  rw [hq, List.nodup_cons] at hnd
  constructor
  case ring => exact h.ring
  case unique =>
    have := h.unique
    simp only [setBuf, Function.update_apply, Buf.id] at *
    grind
  case live =>
    have := h.live
    simp only [setBuf, Function.update_apply]
    grind
  case refs =>
    intro j
    have := h.refs j
    simp only [setBuf, Function.update_apply]
    split_ifs with hj
    · rw [← hj]
      exact this
    · exact this
  case busy =>
    have := h.busy
    simp only [setBuf, Function.update_apply]
    grind
  case wants =>
    have := h.wants
    simp only [setBuf, Function.update_apply, Buf.id] at *
    grind
  case ready =>
    have := h.ready
    simp only [setBuf, Function.update_apply]
    grind
  case dirty =>
    have := h.dirty
    simp only [setBuf, Function.update_apply]
    grind
  case nodup => exact hnd.2
  case queued => exact fun j hj => h.queued j (by simp [hq, show j ∈ q from hj])
  case pending =>
    have := h.pending
    simp only [setBuf, Function.update_apply]
    grind
  case waiting =>
    have := h.waiting
    simp only [setBuf, Function.update_apply]
    grind
  case modified =>
    have := h.modified
    simp only [setBuf, Function.update_apply]
    grind

omit [DecidableEq P] in
lemma Held.ideintr (h : Held D s) : Held D s.ideintr := by
  unfold BCache.ideintr
  split
  · exact h
  · next i q hq =>
    have hc := h.complete hq (if (s.buf i).dirty then (s.buf i).data
      else s.disk ((s.buf i).dev % 2) (s.buf i).blockno)
    cases q with
    | nil => exact hc
    | cons j q => exact hc.congr (idestart_same _ _)

/-! ### Every step -/

lemma Held.next {a : BufAct P} (h : Held D s) (he : s.Enabled D a) : Held D (s.next a) := by
  cases a with
  | bget p k =>
    obtain ⟨hp, hd⟩ := he
    simp only [BCache.next]
    cases hk : s.lookup k with
    | some i => exact h.hit hp hk hd
    | none =>
      cases hi : s.victim with
      | some i => exact h.recycle hp hk hi hd
      | none => exact h.congr rfl
  | acquiresleep p =>
    obtain ⟨i, k, hp, ho⟩ := he
    simp only [BCache.next, hp]
    exact h.acquire hp ho
  | test p =>
    obtain ⟨i, k, hp⟩ := he
    have hbusy : (s.pc p).busy = some i := by simp [hp, BufPc.busy]
    have ho := h.busy p i hbusy
    simp only [BCache.next, hp]
    split_ifs with hv
    · exact h.return hbusy hv (by simp [hp, BufPc.waits])
    · have hm : s.modified i = false := by
        by_contra hm
        rw [Bool.not_eq_false] at hm
        obtain ⟨q, hq, hqb⟩ := h.modified i hm
        obtain rfl : p = q := by simpa [ho] using hq
        exact hqb hbusy
      have hid := h.wants p i k (by simp [hp, BufPc.wants])
      refine h.iderw ho (by simp [hp, BufPc.waits]) (Or.inr hbusy) (Or.inl (by simpa using hv)) hm
        (by simp [hp, BufPc.refs]) (Or.inl (by rw [hid]))
  | resume p =>
    obtain ⟨i, hp, hv, hd⟩ := he
    apply h.return (i := i) _ hv (fun _ => hd)
    rcases hp with ⟨k, hp⟩ | hp <;> simp [hp, BufPc.busy]
  | modify p i v => exact h.modify he.1 he.2 v
  | logWrite p i => exact h.mark he.1 he.2
  | bwrite p i =>
    simp only [BCache.next]
    split_ifs with ho
    · exact h.congr rfl
    · simp only [Enabled] at he
      rw [not_not] at ho
      have hvalid := h.ready p i ho (by simp [he])
      apply (h.mark he ho).iderw <;> simp [save, setBuf, he, ho, hvalid]
  | brelse p i =>
    simp only [BCache.next]
    split_ifs with ho
    · exact h.congr rfl
    · exact h.unlock he.1 (not_not.mp ho) he.2
  | unref p =>
    obtain ⟨i, hp⟩ := he
    simp only [BCache.next, hp]
    split_ifs
    · exact (h.unref hp).moveFront i
    · exact h.unref hp
  | ideintr => exact h.ideintr

/-- `binit` makes a ring of all buffers. -/
lemma binit_isRing : binit.IsRing none ((List.finRange NBUF).reverse.map some) := by
  have key : ∀ l : List (Fin NBUF), l.Nodup →
      (l.foldr (fun i L => L.insertFront none (some i))
        (⟨fun _ => none, fun _ => none⟩ : Links BufNode)).IsRing none (l.map some) := by
    intro l hl
    induction l with
    | nil => exact ⟨⟨rfl, rfl⟩, by simp, by simp⟩
    | cons i l ih =>
      rw [List.nodup_cons] at hl
      exact (ih hl.2).insertFront (by simp) (by simpa using hl.1)
  have h := key _ (List.nodup_reverse.mpr (List.nodup_finRange NBUF))
  rwa [List.foldr_reverse] at h

omit [DecidableEq P] in
lemma held_init (havedisk1 : Bool) (disk : Nat → Nat → Block) :
    Held D (init P havedisk1 disk) where
  ring := ⟨_, binit_isRing, by simp⟩
  unique := by simp [init]
  live := by simp [init]
  refs := by simp [init]
  busy := by simp [init]
  wants := by simp [init]
  ready := by simp [init]
  dirty := by simp [init]
  nodup := by simp [init]
  queued := by simp [init]
  pending := by simp [init]
  waiting := by simp [init]
  modified := by simp [init]

end BCache

end Xv6
