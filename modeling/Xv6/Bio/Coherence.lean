import Xv6.Bio.Holders

/-!
# Coherence of the buffer cache

Seen from the file system, the cache is a map from blocks to contents: `bread` returns what the last
holder of the block left there with `log_write` or `bwrite`.
-/

namespace Xv6

open TransitionSystem

/-- What a buffer says about the contents of blocks. -/
def Buf.view {P : Type*} (b : Buf P) : Bool × Bool × BlockId × Block :=
  (b.valid, b.dirty, b.id, b.data)

namespace BCache

variable {P : Type*}

lemma view_setBuf {s : BCache P} {i : Fin NBUF} {b : Buf P} (hb : b.view = (s.buf i).view)
    (j : Fin NBUF) : ((s.setBuf i b).buf j).view = (s.buf j).view := by
  by_cases hj : j = i
  · subst hj
    simpa [setBuf] using hb
  · simp [setBuf, hj]

/-- Cached contents are those of the map, and the disk has those of every block without a dirty
buffer. -/
structure Stored (D : Devices) (s : BCache P) : Prop where
  data : ∀ i, (s.buf i).valid = true → 1 ≤ (s.buf i).dev → s.modified i = false →
    (s.buf i).data = s.contents (s.buf i).id
  disk : ∀ k : BlockId, k.1 ∈ D.used →
    (∃ i, (s.buf i).id = k ∧ (s.buf i).dirty = true) ∨ s.disk (k.1 % 2) k.2 = s.contents k

/-- The disk has the data of the write request at the head of the queue. -/
def Started (s : BCache P) : Prop :=
  s.panic = none → ∀ i, s.idequeue.head? = some i → (s.buf i).dirty = true →
    s.disk ((s.buf i).dev % 2) (s.buf i).blockno = (s.buf i).data

variable {D : Devices} {s s' : BCache P} {i : Fin NBUF} {p : P} {k : BlockId}

/-- A step that changes no data, no flag and nothing on the disk. -/
lemma Stored.keep (h : Stored D s)
    (hbuf : ∀ i, (s'.buf i).view = (s.buf i).view)
    (hs : (s'.disk, s'.contents, s'.modified) = (s.disk, s.contents, s.modified)) :
    Stored D s' := by
  simp only [Prod.mk.injEq, Buf.view, Buf.id] at hbuf hs
  obtain ⟨hd, hc, hm⟩ := hs
  constructor
  · intro i hv hdev hmod
    obtain ⟨h1, h2, ⟨h3, h4⟩, h5⟩ := hbuf i
    rw [hm] at hmod
    have := h.data i (h1 ▸ hv) (h3 ▸ hdev) hmod
    simpa [Buf.id, h3, h4, h5, hc] using this
  · intro k hk
    rcases h.disk k hk with ⟨i, hi, hdirty⟩ | hdisk
    · obtain ⟨h1, h2, ⟨h3, h4⟩, h5⟩ := hbuf i
      exact Or.inl ⟨i, by simpa [Buf.id, h3, h4] using hi, h2 ▸ hdirty⟩
    · exact Or.inr (by rw [hd, hc, hdisk])

lemma Started.keep (h : Started s)
    (hbuf : ∀ i, (s'.buf i).view = (s.buf i).view)
    (hs : (s'.disk, s'.idequeue) = (s.disk, s.idequeue)) (hp : s'.panic = none → s.panic = none) :
    Started s' := by
  simp only [Prod.mk.injEq, Buf.view, Buf.id] at hbuf hs
  intro hpanic i hi hdirty
  obtain ⟨h1, h2, ⟨h3, h4⟩, h5⟩ := hbuf i
  rw [hs.2] at hi
  rw [hs.1, h3, h4, h5]
  exact h (hp hpanic) i hi (h2 ▸ hdirty)

/-- The place of a block on the disk belongs to it alone. -/
lemma disk_update_ne {disk : Nat → Nat → Block} {d b : Nat} {v : Block} (hd : d ∈ D.used)
    (hk : k.1 ∈ D.used) (hne : k ≠ (d, b)) :
    Function.update disk (d % 2) (Function.update (disk (d % 2)) b v) (k.1 % 2) k.2 =
      disk (k.1 % 2) k.2 := by
  by_cases hmod : k.1 % 2 = d % 2
  · have hdev := D.distinct k.1 hk d hd hmod
    have hblock : k.2 ≠ b := by
      rintro rfl
      exact hne (by rw [← hdev])
    rw [hmod, Function.update_self, Function.update_of_ne hblock]
  · rw [Function.update_of_ne hmod]

lemma Stored.idestart (h : Stored D s) (hd : (s.buf i).dirty = true → (s.buf i).dev ∈ D.used) :
    Stored D (s.idestart i) := by
  unfold BCache.idestart
  split_ifs with _ hdirty
  · exact h.keep (fun _ => rfl) rfl
  · refine ⟨h.data, fun k hk => ?_⟩
    by_cases hki : k = (s.buf i).id
    · exact Or.inl ⟨i, hki.symm, hdirty⟩
    · rcases h.disk k hk with hleft | hdisk
      · exact Or.inl hleft
      · exact Or.inr ((disk_update_ne (hd hdirty) hk hki).trans hdisk)
  · exact h

lemma started_idestart (hi : s.idequeue.head? = some i) : Started (s.idestart i) := by
  intro hpanic j hj hdirty
  unfold BCache.idestart at *
  split_ifs at * with hb hd
  · obtain rfl : i = j := by simpa [hi] using hj
    simp
  · obtain rfl : i = j := by simpa [hi] using hj
    exact absurd hdirty hd

/-! ### Steps that touch data -/

/-- Changing a buffer that is not queued leaves the active request alone. -/
lemma Started.setBuf {b : Buf P} (h : Started s) (hi : i ∉ s.idequeue)
    (hb : s'.buf = Function.update s.buf i b) (hs : (s'.disk, s'.idequeue, s'.panic) =
      (s.disk, s.idequeue, s.panic)) : Started s' := by
  simp only [Prod.mk.injEq] at hs
  intro hpanic j hj
  rw [hs.2.1] at hj
  have hji : j ≠ i := by
    rintro rfl
    exact hi (List.mem_of_mem_head? hj)
  rw [hb, hs.1, Function.update_of_ne hji]
  exact h (hs.2.2 ▸ hpanic) j hj

lemma Stored.modify (h : Stored D s) (v : Block) :
    Stored D { s.setBuf i { s.buf i with data := v } with
      modified := Function.update s.modified i true } := by
  constructor
  · intro j hv hj hm
    have hji : j ≠ i := by
      rintro rfl
      simp at hm
    simp only [setBuf, Function.update_of_ne hji] at hv hj hm ⊢
    exact h.data j hv hj hm
  · intro k hk
    rcases h.disk k hk with ⟨j, hj, hjd⟩ | hdisk
    · refine Or.inl ⟨j, ?_, ?_⟩ <;> by_cases hji : j = i
      · subst hji
        simpa [setBuf, Buf.id] using hj
      · simpa [setBuf, Function.update_of_ne hji] using hj
      · subst hji
        simpa [setBuf] using hjd
      · simpa [setBuf, Function.update_of_ne hji] using hjd
    · exact Or.inr hdisk

lemma Stored.recycle {b : Buf P} (h : Stored D s) (hclean : (s.buf i).dirty = false)
    (hb : b.valid = false) : Stored D (s.setBuf i b) := by
  constructor
  · intro j hv hj hm
    have hji : j ≠ i := by
      rintro rfl
      simp [setBuf, hb] at hv
    simp only [setBuf, Function.update_of_ne hji] at hv hj hm ⊢
    exact h.data j hv hj hm
  · intro k hk
    rcases h.disk k hk with ⟨j, hj, hjd⟩ | hdisk
    · have hji : j ≠ i := by
        rintro rfl
        simp [hclean] at hjd
      exact Or.inl ⟨j, by simpa [setBuf, Function.update_of_ne hji] using hj,
        by simpa [setBuf, Function.update_of_ne hji] using hjd⟩
    · exact Or.inr hdisk

variable [Fintype P]

/-- A buffer in the disk queue is not being modified. -/
lemma Held.not_modified (h : Held D s) (hi : i ∈ s.idequeue) : s.modified i = false := by
  by_contra hm
  rw [Bool.not_eq_false] at hm
  obtain ⟨p, ho, hb⟩ := h.modified i hm
  exact h.notMem_idequeue ho (fun hw => hb (BufPc.busy_of_waits hw)) hi

lemma Stored.mark (h : Stored D s) (hh : Held D s) (ho : (s.buf i).owner = some p) :
    Stored D ((s.save i).setBuf i { s.buf i with dirty := true }) := by
  have hdev := D.pos _ (hh.dev_used ho)
  constructor
  · intro j hv hj hm
    by_cases hji : j = i
    · subst hji
      simp [setBuf, save, Buf.id]
    · simp only [setBuf, save, Function.update_of_ne hji] at hv hj hm ⊢
      have hid : (s.buf j).id ≠ (s.buf i).id := fun e => hji (hh.unique j i hj e)
      rw [Function.update_of_ne hid]
      exact h.data j hv hj hm
  · intro k hk
    by_cases hki : k = (s.buf i).id
    · exact Or.inl ⟨i, by simp [setBuf, Buf.id, hki], by simp [setBuf]⟩
    · rcases h.disk k hk with ⟨j, hj, hjd⟩ | hdisk
      · refine Or.inl ⟨j, ?_, ?_⟩
        · have hji : j ≠ i := by
            rintro rfl
            exact hki hj.symm
          simpa [setBuf, save, Function.update_of_ne hji] using hj
        · by_cases hji : j = i
          · subst hji
            simp [setBuf]
          · simpa [setBuf, save, Function.update_of_ne hji] using hjd
      · exact Or.inr (by simpa [setBuf, save, Function.update_of_ne hki] using hdisk)

/-- The request at the head of the queue is done: the buffer agrees with the disk. -/
lemma Stored.complete {q : List (Fin NBUF)} (h : Stored D s) (hh : Held D s) (hst : Started s)
    (hpanic : s.panic = none) (hq : s.idequeue = i :: q) :
    Stored D ({ s with idequeue := q }.setBuf i { s.buf i with
      data := if (s.buf i).dirty then (s.buf i).data
        else s.disk ((s.buf i).dev % 2) (s.buf i).blockno
      valid := true
      dirty := false }) := by
  have hmem : i ∈ s.idequeue := by simp [hq]
  have hm := hh.not_modified hmem
  have hdev : (s.buf i).dev ∈ D.used := by
    obtain ⟨p, hp⟩ := hh.queued i hmem
    exact hh.dev_used (hh.busy p i (BufPc.busy_of_waits hp))
  have honly : ∀ j, (s.buf j).id = (s.buf i).id → j = i :=
    fun j hj => (hh.unique i j (D.pos _ hdev) hj.symm).symm
  -- in both directions of the transfer the disk and the map agree on the block afterwards
  have hdisk : s.disk ((s.buf i).dev % 2) (s.buf i).blockno = s.contents (s.buf i).id := by
    by_cases hd : (s.buf i).dirty = true
    · rw [hst hpanic i (by simp [hq]) hd]
      exact h.data i (hh.dirty i hd) (D.pos _ hdev) hm
    · rcases h.disk (s.buf i).id hdev with ⟨j, hj, hjd⟩ | hdisk
      · rw [honly j hj] at hjd
        exact absurd hjd hd
      · exact hdisk
  constructor
  · intro j hv hj hmod
    by_cases hji : j = i
    · subst hji
      simp only [setBuf, Function.update_self, Buf.id]
      split_ifs with hd
      · exact h.data j (hh.dirty j hd) (D.pos _ hdev) hm
      · exact hdisk
    · simp only [setBuf, Function.update_of_ne hji] at hv hj hmod ⊢
      exact h.data j hv hj hmod
  · intro k hk
    by_cases hki : k = (s.buf i).id
    · exact Or.inr (hki ▸ hdisk)
    · rcases h.disk k hk with ⟨j, hj, hjd⟩ | hdisk
      · have hji : j ≠ i := by
          rintro rfl
          exact hki hj.symm
        exact Or.inl ⟨j, by simpa [setBuf, Function.update_of_ne hji] using hj,
          by simpa [setBuf, Function.update_of_ne hji] using hjd⟩
      · exact Or.inr hdisk

/-! ### Every step -/

/-- The invariant of the cache as a whole. -/
structure Coherent (D : Devices) (s : BCache P) : Prop where
  held : Held D s
  stored : Stored D s
  started : Started s

variable [DecidableEq P]

omit [Fintype P] in
lemma Stored.iderw {c : BufPc} (h : Stored D s)
    (hd : (s.buf i).dirty = true → (s.buf i).dev ∈ D.used) : Stored D (s.iderw p i c) := by
  have hq : Stored D ({ s with idequeue := s.idequeue ++ [i] }.setPc p c) :=
    h.keep (fun _ => rfl) rfl
  unfold BCache.iderw
  dsimp only
  split_ifs
  · exact h.keep (fun _ => rfl) rfl
  · exact h.keep (fun _ => rfl) rfl
  · exact h.keep (fun _ => rfl) rfl
  · exact hq.idestart hd
  · exact hq

omit [Fintype P] in
lemma Started.iderw {c : BufPc} (h : Started s) : Started (s.iderw p i c) := by
  unfold BCache.iderw
  dsimp only
  split_ifs with _ _ _ hhead
  · exact h.keep (fun _ => rfl) rfl (by simp)
  · exact h.keep (fun _ => rfl) rfl (by simp)
  · exact h.keep (fun _ => rfl) rfl (by simp)
  · exact started_idestart hhead
  · intro hpanic j hj hdirty
    apply h hpanic j _ hdirty
    cases hs : s.idequeue with
    | nil => simp [setPc, hs] at hhead
    | cons j' q => simpa [setPc, hs] using hj

lemma Coherent.bget (h : Coherent D s) (hp : s.pc p = .ready) (hd : k.1 ∈ D.used) :
    Coherent D (s.next (.bget p k)) := by
  have hheld := h.held.next (a := .bget p k) ⟨hp, hd⟩
  cases hk : s.lookup k with
  | some i =>
    simp only [BCache.next, hk] at hheld ⊢
    exact ⟨hheld, h.stored.keep (view_setBuf rfl) rfl, h.started.keep (view_setBuf rfl) rfl id⟩
  | none =>
    cases hi : s.victim with
    | some i =>
      have hnot : i ∉ s.idequeue := by
        intro hmem
        obtain ⟨q, hq⟩ := h.held.queued i hmem
        exact ((h.held.unreferenced (victim_some hi).1).2 q).2 (BufPc.busy_of_waits hq)
      simp only [BCache.next, hk, hi] at hheld ⊢
      exact ⟨hheld, (h.stored.recycle (victim_some hi).2 rfl).keep (fun _ => rfl) rfl,
        h.started.setBuf hnot rfl rfl⟩
    | none =>
      simp only [BCache.next, hk, hi] at hheld ⊢
      exact ⟨hheld, h.stored.keep (fun _ => rfl) rfl, h.started.keep (fun _ => rfl) rfl (by simp)⟩

omit [DecidableEq P] in
lemma Coherent.ideintr (h : Coherent D s) (hs : s.panic = none) :
    Stored D s.ideintr ∧ Started s.ideintr := by
  unfold BCache.ideintr
  split
  · exact ⟨h.stored, h.started⟩
  · next i q hq =>
    have hc := h.stored.complete h.held h.started hs hq
    cases q with
    | nil =>
      refine ⟨hc, fun _ j hj => ?_⟩
      simp [BCache.setBuf] at hj
    | cons j q =>
      have hheld := h.held.complete hq (if (s.buf i).dirty then (s.buf i).data
        else s.disk ((s.buf i).dev % 2) (s.buf i).blockno)
      exact ⟨hc.idestart fun hd => hheld.live j (Or.inr hd), started_idestart rfl⟩

lemma Coherent.next {a : BufAct P} (h : Coherent D s) (hs : s.panic = none) (he : s.Enabled D a) :
    Coherent D (s.next a) := by
  have hheld := h.held.next he
  cases a with
  | bget p k => exact h.bget he.1 he.2
  | acquiresleep p =>
    obtain ⟨i, k, hp, ho⟩ := he
    simp only [BCache.next, hp] at hheld ⊢
    exact ⟨hheld, h.stored.keep (view_setBuf rfl) rfl, h.started.keep (view_setBuf rfl) rfl id⟩
  | test p =>
    obtain ⟨i, k, hp⟩ := he
    refine ⟨hheld, ?_, ?_⟩ <;> simp only [BCache.next, hp] <;> split_ifs
    · exact h.stored.keep (fun _ => rfl) rfl
    · exact h.stored.iderw fun hd => h.held.live i (Or.inr hd)
    · exact h.started.keep (fun _ => rfl) rfl id
    · exact h.started.iderw
  | resume p =>
    exact ⟨hheld, h.stored.keep (fun _ => rfl) rfl, h.started.keep (fun _ => rfl) rfl id⟩
  | modify p i v =>
    have hi := h.held.notMem_idequeue he.2 (by simp [he.1])
    exact ⟨hheld, h.stored.modify v, h.started.setBuf hi rfl rfl⟩
  | logWrite p i =>
    have hi := h.held.notMem_idequeue he.2 (by simp [he.1])
    exact ⟨hheld, h.stored.mark h.held he.2, h.started.setBuf hi rfl rfl⟩
  | bwrite p i =>
    simp only [Enabled] at he
    refine ⟨hheld, ?_, ?_⟩ <;> simp only [BCache.next] <;> split_ifs with ho
    · exact h.stored.keep (fun _ => rfl) rfl
    · rw [not_not] at ho
      refine (h.stored.mark h.held ho).iderw fun _ => ?_
      simpa [BCache.setBuf] using h.held.dev_used ho
    · exact h.started.keep (fun _ => rfl) rfl (by simp)
    · rw [not_not] at ho
      have hi := h.held.notMem_idequeue ho (by simp [he])
      have hst : Started ((s.save i).setBuf i { s.buf i with dirty := true }) :=
        h.started.setBuf hi rfl rfl
      exact hst.iderw
  | brelse p i =>
    simp only [BCache.next] at hheld ⊢
    split_ifs at hheld ⊢
    · exact ⟨hheld, h.stored.keep (fun _ => rfl) rfl, h.started.keep (fun _ => rfl) rfl (by simp)⟩
    · exact ⟨hheld, h.stored.keep (view_setBuf rfl) rfl, h.started.keep (view_setBuf rfl) rfl id⟩
  | unref p =>
    obtain ⟨i, hp⟩ := he
    simp only [BCache.next, hp] at hheld ⊢
    split_ifs at hheld ⊢ <;>
      exact ⟨hheld, h.stored.keep (view_setBuf rfl) rfl, h.started.keep (view_setBuf rfl) rfl id⟩
  | ideintr => exact ⟨hheld, (h.ideintr hs).1, (h.ideintr hs).2⟩

omit [DecidableEq P] in
lemma coherent_init (havedisk1 : Bool) (disk : Nat → Nat → Block) :
    Coherent D (init P havedisk1 disk) := by
  refine ⟨held_init havedisk1 disk, ⟨by simp [init], fun k _ => Or.inr rfl⟩, ?_⟩
  intro _ i hi
  simp [init] at hi

/-! ### Runs -/

omit [Fintype P] [DecidableEq P] in
lemma idestart_contents (s : BCache P) (i : Fin NBUF) : (s.idestart i).contents = s.contents := by
  unfold BCache.idestart
  split_ifs <;> rfl

omit [Fintype P] in
lemma iderw_contents (s : BCache P) (p : P) (i : Fin NBUF) (c : BufPc) :
    (s.iderw p i c).contents = s.contents := by
  unfold BCache.iderw
  dsimp only
  split_ifs <;> simp [idestart_contents, setPc]

omit [Fintype P] in
/-- The map is changed by `log_write` and `bwrite` only. -/
lemma contents_next {a : BufAct P} (he : s.Enabled D a) :
    (s.next a).contents = leave s.contents (s, a) := by
  cases a with
  | bget p k =>
    simp only [BCache.next, leave]
    split
    · rfl
    · split <;> rfl
  | acquiresleep p | unref p =>
    simp only [BCache.next, leave]
    split
    · first | rfl | (split_ifs <;> rfl)
    · rfl
  | test p =>
    simp only [BCache.next, leave]
    split
    · split_ifs
      · rfl
      · exact iderw_contents _ _ _ _
    · rfl
  | logWrite p i => simp [BCache.next, leave, BCache.setBuf, save, he.2]
  | bwrite p i =>
    simp only [BCache.next, leave]
    by_cases ho : (s.buf i).owner = some p
    · simp [ho, iderw_contents, BCache.setBuf, save]
    · simp [ho]
  | brelse p i =>
    simp only [BCache.next, leave]
    split_ifs <;> rfl
  | ideintr =>
    simp only [BCache.next, BCache.ideintr, leave]
    split
    · rfl
    · split
      · rfl
      · exact idestart_contents _ _
  | _ => rfl

omit [Fintype P] in
lemma contents_eq_lastLeft {havedisk1 : Bool} {disk : Nat → Nat → Block}
    {tr : List (BCache P × BufAct P)} {t : BCache P}
    (hr : Run (Step D) (init P havedisk1 disk) tr t) : t.contents = lastLeft disk tr := by
  induction hr with
  | refl => rfl
  | tail _ hs ih =>
    obtain ⟨-, he, rfl⟩ := hs
    rw [contents_next he, ih]
    simp [lastLeft]

omit [Fintype P] [DecidableEq P] in
lemma id_setBuf {b : Buf P} {j : Fin NBUF} (hb : b.id = (s.buf j).id) :
    ((s.setBuf j b).buf i).id = (s.buf i).id := by
  by_cases hij : i = j
  · subst hij
    simpa [BCache.setBuf] using hb
  · simp [BCache.setBuf, hij]

omit [Fintype P] [DecidableEq P] in
lemma idestart_buf (s : BCache P) (j : Fin NBUF) : (s.idestart j).buf = s.buf :=
  congrArg Prod.fst (idestart_same s j)

omit [Fintype P] in
lemma iderw_buf (s : BCache P) (p : P) (j : Fin NBUF) (c : BufPc) :
    (s.iderw p j c).buf = s.buf := by
  unfold BCache.iderw
  dsimp only
  split_ifs <;> simp [idestart_buf, setPc]

omit [Fintype P] in
/-- Only `bget` makes a buffer cache another block. -/
lemma id_next {a : BufAct P} (ha : ∀ p k, a ≠ .bget p k) :
    ((s.next a).buf i).id = (s.buf i).id := by
  cases a with
  | bget p k => exact absurd rfl (ha p k)
  | acquiresleep p =>
    simp only [BCache.next]
    split
    · exact id_setBuf rfl
    · rfl
  | test p =>
    simp only [BCache.next]
    split
    · split_ifs
      · rfl
      · rw [iderw_buf]
    · rfl
  | resume p => rfl
  | modify p j v => exact id_setBuf rfl
  | logWrite p j => exact id_setBuf (s := s) rfl
  | bwrite p j =>
    simp only [BCache.next]
    split_ifs
    · rfl
    · rw [iderw_buf]
      exact id_setBuf (s := s) rfl
  | brelse p j =>
    simp only [BCache.next]
    split_ifs
    · rfl
    · exact id_setBuf rfl
  | unref p =>
    simp only [BCache.next]
    split
    · split_ifs <;> exact id_setBuf rfl
    · rfl
  | ideintr =>
    simp only [BCache.next, BCache.ideintr]
    split
    · rfl
    · split
      · exact id_setBuf (s := s) rfl
      · rw [idestart_buf]
        exact id_setBuf (s := s) rfl

omit [Fintype P] in
lemma recycled_next {a : BufAct P} (hid : ((s.next a).buf i).id ≠ (s.buf i).id) :
    (s.buf i).refcnt = 0 ∧ (s.buf i).dirty = false := by
  by_cases ha : ∃ p k, a = .bget p k
  · obtain ⟨p, k, rfl⟩ := ha
    simp only [BCache.next] at hid
    split at hid
    · exact (hid (id_setBuf rfl)).elim
    · split at hid
      · next j hj =>
        have hij : i = j := by
          by_contra hij
          exact hid (by simp [BCache.setBuf, setPc, hij])
        subst hij
        exact victim_some hj
      · exact absurd rfl hid
  · push Not at ha
    exact absurd (id_next ha) hid

omit [DecidableEq P] in
/-- A buffer with which `bread` returns caches the block that was asked for and has its
contents. -/
lemma Coherent.breadReturn {a : BufAct P} (h : Coherent D s) (he : s.Enabled D a)
    (hret : s.breadReturn a = some (k, i)) :
    (s.buf i).id = k ∧ (s.buf i).data = s.contents k := by
  have key : ∀ p, (s.pc p).wants = some (i, k) → (s.pc p).busy = some i →
      (s.buf i).valid = true → (s.buf i).id = k ∧ (s.buf i).data = s.contents k := by
    intro p hw hb hv
    have hid := h.held.wants p i k hw
    have ho := h.held.busy p i hb
    have hm : s.modified i = false := by
      by_contra hm
      rw [Bool.not_eq_false] at hm
      obtain ⟨q, hq, hqb⟩ := h.held.modified i hm
      obtain rfl : p = q := by simpa [ho] using hq
      exact hqb hb
    exact ⟨hid, hid ▸ h.stored.data i hv (D.pos _ (h.held.dev_used ho)) hm⟩
  cases a with
  | test p =>
    obtain ⟨j, k', hp⟩ := he
    simp only [BCache.breadReturn, hp] at hret
    split_ifs at hret with hv
    cases hret
    exact key p (by simp [hp, BufPc.wants]) (by simp [hp, BufPc.busy]) hv
  | resume p =>
    obtain ⟨j, hp, hv, -⟩ := he
    rcases hp with ⟨k', hp⟩ | hp <;> simp only [BCache.breadReturn, hp] at hret <;> cases hret
    exact key p (by simp [hp, BufPc.wants]) (by simp [hp, BufPc.busy]) hv
  | _ => simp [BCache.breadReturn] at hret

lemma coherent_of_run {havedisk1 : Bool} {disk : Nat → Nat → Block}
    {tr : List (BCache P × BufAct P)} {t : BCache P}
    (hr : Run (Step D) (init P havedisk1 disk) tr t) : AllStates (Coherent D) tr t := by
  apply hr.invariant _ (coherent_init havedisk1 disk)
  rintro s a _ h ⟨hs, he, rfl⟩
  exact h.next hs he

/-- Each block of a device has at most one buffer, and the list of buffers is a ring through
`bcache.head` in which every buffer occurs once. -/
structure WellFormed (s : BCache P) : Prop where
  one_buffer : ∀ i j, 1 ≤ (s.buf i).dev → (s.buf i).id = (s.buf j).id → i = j
  ring : ∃ l, s.links.IsRing none l ∧ ∀ i, l.count (some i) = 1

/-- The buffer cache behaves as a map from blocks to contents. In every state of every run the cache
is well formed, `bread` returns the contents that the last holder of the block left with `log_write`
or `bwrite` (those of the disk if there was none), and a buffer changes the block it caches only
while it is neither referenced nor dirty. -/
theorem bread_returns_lastLeft (D : Devices) {havedisk1 : Bool} {disk : Nat → Nat → Block}
    {tr : List (BCache P × BufAct P)} {t : BCache P}
    (hr : Run (Step D) (init P havedisk1 disk) tr t) :
    AllStates WellFormed tr t ∧
    (∀ a k i, t.Enabled D a → t.breadReturn a = some (k, i) →
      (t.buf i).id = k ∧ (t.buf i).data = lastLeft disk tr k) ∧
    (∀ a i, ((t.next a).buf i).id ≠ (t.buf i).id →
      (t.buf i).refcnt = 0 ∧ (t.buf i).owner = none ∧ (t.buf i).dirty = false) := by
  have hall := coherent_of_run hr
  refine ⟨hall.mono ?_, ?_, ?_⟩
  · intro s h
    obtain ⟨l, hl, hmem⟩ := h.held.ring
    refine ⟨h.held.unique, l, hl, fun i => ?_⟩
    rw [List.count_eq_one_of_mem hl.nodup (hmem i)]
  · intro a k i he hret
    rw [← contents_eq_lastLeft hr]
    exact hall.2.breadReturn he hret
  · intro a i hid
    obtain ⟨hrefs, hdirty⟩ := recycled_next hid
    exact ⟨hrefs, (hall.2.held.unreferenced hrefs).1, hdirty⟩

/-- The root device alone. -/
def rootDevice : Devices := ⟨{1}, by simp, by simp⟩

/-- Process 0 reads a block of an empty disk, changes it and logs it; process 1 then reads the
change. -/
theorem bread_after_logWrite :
    ∃ (tr : List (BCache (Fin 2) × BufAct (Fin 2))) (t : BCache (Fin 2)),
      Run (Step rootDevice) (init (Fin 2) true fun _ _ _ => 0) tr t ∧
        tr.map Prod.snd = [.bget 0 (1, 5), .acquiresleep 0, .test 0, .ideintr, .resume 0,
          .modify 0 0 fun _ => 7, .logWrite 0 0, .brelse 0 0, .unref 0, .bget 1 (1, 5),
          .acquiresleep 1] ∧
        t.breadReturn (.test 1) = some ((1, 5), 0) ∧
        (t.buf 0).data = lastLeft (fun _ _ _ => 0) tr (1, 5) ∧ (t.buf 0).data.get 0 = 7 := by
  have hrun : (follow (step rootDevice) (init (Fin 2) true fun _ _ _ => 0)
      [.bget 0 (1, 5), .acquiresleep 0, .test 0, .ideintr, .resume 0, .modify 0 0 fun _ => 7,
        .logWrite 0 0, .brelse 0 0, .unref 0, .bget 1 (1, 5), .acquiresleep 1]).map
      (fun t => (decide (t.Enabled rootDevice (.test 1)), t.breadReturn (.test 1),
        (t.buf 0).data.get 0)) = some (true, some ((1, 5), 0), 7) := by decide +kernel
  obtain ⟨t, ht, hval⟩ := Option.map_eq_some_iff.mp hrun
  simp only [Prod.mk.injEq, decide_eq_true_eq] at hval
  obtain ⟨he, hret, hdata⟩ := hval
  obtain ⟨tr, hr, htr⟩ := run_of_follow ht
  exact ⟨tr, t, hr, htr, hret, ((bread_returns_lastLeft rootDevice hr).2.1 _ _ _ he hret).2, hdata⟩

end BCache

end Xv6
