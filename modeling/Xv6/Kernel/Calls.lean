import Xv6.Kernel.Outcomes
import Xv6.Mem.ExecPhases

/-!
# System calls keep page ownership

For each system call, the condition under which it keeps `Sound`, and the proof that it does. For most
calls there is none, or one on the shared page of the caller alone. Two conditions are about other
processes: `munmap` must not meet a shared page, and `wait` must find all shared pages of the child at
the `shm_va` of the parent.
-/

namespace Xv6

open Fallible Count

variable {d d' nd : PageDir} {m m' : Mem} {sz : Nat}

lemma munmapPages_range {start : UInt32} {n : Int32} (h : RangeOk start.toNat n.toInt) :
    Ensures (munmapPages (rangePages start.toNat n.toInt.toNat) (start.toNat / PGSIZE) d m) fun r =>
      Unmapped d m (start.toNat / PGSIZE) (rangePages start.toNat n.toInt.toNat) r.2.1 r.2.2 := by
  rcases Kernel.range_le h with hle | hzero
  · exact munmapPages_ensures hle
  · rw [hzero]
    refine .ok (.of_not_visited ?_)
    rintro w ⟨h1, h2, -⟩
    omega

lemma mmapPages_range {start : UInt32} {n : Int32} (h : RangeOk start.toNat n.toInt) :
    Ensures (mmapPages (rangePages start.toNat n.toInt.toNat) (start.toNat / PGSIZE) d m) fun r =>
      Moved d m r.2.1 r.2.2 ∧
      ∀ w, r.2.1.entry w = d.entry w ∨ ((d.entry w).present = false ∧ r.2.1.entry w = lazyPte) := by
  rcases Kernel.range_le h with hle | hzero
  · exact mmapPages_ensures hle
  · rw [hzero]
    exact .ok ⟨.refl _ _, fun _ => Or.inl rfl⟩

lemma MappedLast.ok {perm : Perm} {y v : Nat} (h : MappedLast perm y d m v d' m') (hd : d.Ok) :
    d'.Ok := by
  intro w hw
  rw [h.entry w]
  split_ifs
  · exact perm.pte_ok y
  · exact hd w hw

namespace Kernel

variable {k k' : Kernel} {p q : Slot} {u : Mm} {e : Proc}

lemma Sound.of_owned (h : k.Sound) (ho : k'.Owned) (hfile : k'.file = k.file)
    (hpipe : k'.pipe = k.pipe) : k'.Sound := by
  refine ⟨ho, ?_⟩
  obtain ⟨h1, h2, h3⟩ := h.pipes
  exact ⟨hfile ▸ h1, hfile ▸ hpipe ▸ h2, hfile ▸ h3⟩

/-- A slot that is not in use is filled in, but does not come into use. -/
lemma sameSpaces_dead (hq : ¬ k.Live q) (he : e.state = .unused) (hm : k.mem.Lost m) :
    SameSpaces k { (k.setMm q u).setProc q e with mem := m } := by
  have hlive : ∀ r, Live { (k.setMm q u).setProc q e with mem := m } r ↔ k.Live r := by
    intro r
    by_cases hr : r = q
    · subst hr
      refine iff_of_false (fun h => h ?_) hq
      simp [setProc, he]
    · simp [Live, setProc, setMm, Function.update_of_ne hr]
  have hmm : ∀ r, k.Live r → Kernel.mm { (k.setMm q u).setProc q e with mem := m } r = k.mm r := by
    intro r hr
    have hrq : r ≠ q := by
      rintro rfl
      exact hq hr
    exact Function.update_of_ne hrq _ _
  exact ⟨hlive, fun r hr => by rw [hmm r hr], fun r hr => by rw [hmm r hr],
    fun r hr => by rw [hmm r hr], rfl, hm.shmRef, hm.sharedOk, hm.layout⟩

lemma Sound.dead (h : k.Sound) (hq : ¬ k.Live q) (he : e.state = .unused) (hm : k.mem.Lost m) :
    Sound { (k.setMm q u).setProc q e with mem := m } :=
  h.of_owned (h.owned.same (sameSpaces_dead hq he hm) fun x => Nat.add_le_add_right (hm.free_le x) _)
    rfl rfl

lemma Sound.lost (h : k.Sound) (hm : k.mem.Lost m) : Sound { k with mem := m } := by
  have hs : SameSpaces k { k with mem := m } :=
    ⟨fun _ => Iff.rfl, fun _ _ => rfl, fun _ _ => rfl, fun _ _ => rfl, rfl, hm.shmRef, hm.sharedOk,
      hm.layout⟩
  exact h.of_owned (h.owned.same hs fun x => Nat.add_le_add_right (hm.free_le x) _) rfl rfl

/-! ### fork -/

/-- Filling the slot of the child. -/
lemma spawned_of_copied {y : Nat} {m₁ : Mem} (hq : ¬ k.Live q) (he : e.state = .runnable)
    (hk : k.mem.kalloc = (some y, m₁)) (hc : Copied (k.mm p).shm d m₁ nd m)
    (hu : u = { u with kstack := some y, pgdir := some nd, sz := (k.mm p).sz, shm := (k.mm p).shm }) :
    Spawned p q y d m₁ nd k { (k.setMm q u).setProc q e with mem := m } := by
  have hmm : Kernel.mm { (k.setMm q u).setProc q e with mem := m } q = u := Function.update_self ..
  refine ⟨hq, ?_, ⟨fun r hr => ?_, fun r hr => Function.update_of_ne hr _ _, rfl, rfl⟩, hk, hc, ?_, ?_,
    ?_⟩
  · simp [Live, setProc, he]
  · simp [Live, setProc, setMm, Function.update_of_ne hr]
  all_goals rw [hmm, hu]

lemma Forked.sound (hf : Forked p k k') (h : k.Sound) (hp : k.Live p)
    (hlast : (k.mm p).shm.idx = none ∨ (k.mm p).shm.va = KERNBASE - 1) : k'.Sound := by
  cases hf with
  | full => exact h
  | noStack dead unused =>
    exact h.dead (m := k.mem) dead unused (.of_shared h.owned.sharedOk (fun _ => le_rfl) rfl rfl)
  | @noCopy _ _ _ y d m₁ m₂ m dead unused hk hd hcopy hkfree =>
    have hready := (h.owned.copyReady hp hd).kalloc hk
    have hlost : m₁.Lost m₂ := (copyuvm_ensures hready _ hcopy).2 rfl hlast
    obtain ⟨-, hfree, hshared, hlayout⟩ := Mem.kfree_ensures _ _ _ hkfree
    refine h.dead dead unused ⟨fun x => ?_, fun x => ?_, fun i => ?_, ?_, ?_⟩
    · have h1 := hfree x
      have h2 := hlost.free_le x
      have h3 := Mem.free_kalloc hk x
      omega
    · rw [hshared, hlost.shmRef x, Mem.shared_kalloc hk]
    · rw [hshared, hlost.pa i, Mem.shared_kalloc hk]
    · exact hshared ▸ hlost.sharedOk
    · exact hlayout.trans (hlost.layout.trans (Mem.layout_kalloc hk))
  | spawned dead runnable hk hd hcopy hu hfiles =>
    have hcopied := (copyuvm_ensures ((h.owned.copyReady hp hd).kalloc hk) _ hcopy).1 _ rfl
    apply hfiles.sound
    exact h.of_owned (h.owned.spawn hp hd (spawned_of_copied dead runnable hk hcopied hu)) rfl rfl

/-! ### exec -/

lemma Execed.sound {r : Int} (he : Execed p k r k') (h : k.Sound) (hp : k.Live p)
    (hva : (k.mm p).shm.idx ≠ none → PHYSTOP ≤ (k.mm p).shm.va) : k'.Sound := by
  cases he with
  | noFile => exact h
  | failed himage => exact h.lost ((Program.execImage_ensures h.owned.freeOk _ himage).1 rfl)
  | @loaded _ _ d nd sz m₁ m himage hd hfreevm =>
    have hloaded : Program.Unfinished k.mem nd m₁ :=
      (Program.execImage_ensures h.owned.freeOk _ himage).2 nd sz rfl
    have hs₁ : Mem.SharedOk m₁.shared := hloaded.shared ▸ h.owned.sharedOk
    have hrel : Released d m₁ m := by
      refine (freevm_ensures hs₁ _ hfreevm).released hs₁ ((h.owned.mm p hp).dir d hd) ?_
      rw [hloaded.shared]
      exact (h.owned.mm p hp).shared_only d hd
    refine h.of_owned (h.owned.replace m₁ hp hd (sameBut_setMm k p _ m) (fun x => ?_)
      hloaded.shared hloaded.layout hrel fun _ => ?_) rfl rfl
    · have hmm : Kernel.mm { k.setMm p { k.mm p with pgdir := some nd, sz := sz } with mem := m } p =
          { k.mm p with pgdir := some nd, sz := sz } := Function.update_self ..
      have hlive : Live { k.setMm p { k.mm p with pgdir := some nd, sz := sz } with mem := m } p := hp
      rw [uses_dir hlive (by rw [hmm]), hmm]
      have h1 := hloaded.refs x
      have h2 : Mm.stackUses { k.mm p with pgdir := some nd, sz := sz } x = (k.mm p).stackUses x := rfl
      omega
    · have hmm : Kernel.mm { k.setMm p { k.mm p with pgdir := some nd, sz := sz } with mem := m } p =
          { k.mm p with pgdir := some nd, sz := sz } := Function.update_self ..
      rw [hmm]
      refine ⟨fun d' hd' => ?_, fun d' hd' v hv hpres hx => ?_, fun d' hd' hidx hlt hpres => ?_⟩
      · cases hd'
        exact hloaded.ok
      · -- the pages of the image come from the free list
        cases hd'
        refine absurd (hrel.plain _ ?_).1 hx
        rw [hloaded.shared]
        apply h.owned.shmRef_of_free
        have h1 := PageDir.userRefs_pos hv hpres
        have h2 := hloaded.refs (nd.entry v).ppn
        unfold PageDir.refs at h2
        omega
      · cases hd'
        exact absurd hpres (by simp [hloaded.below _ (hva hidx) hlt])

/-! ### wait -/

lemma Waited.sound (hw : Waited p k k') (h : k.Sound)
    (hhits : ∀ z, waitScan k.table p = .reaped z → ∀ d, (k.mm z).pgdir = some d → ∀ v < KERNBASE,
      (d.entry v).present = true → Mem.shmRef k.mem.shared (d.entry v).ppn ≠ 0 →
      (k.mm p).shm.Hits v) : k'.Sound := by
  cases hw with
  | noChildren => exact h
  | block _ harmless => exact harmless.sound h
  | @reaped z y d m₁ m hscan hy hd hkfree hfreevm =>
    have hz : k.Live z := by
      have := (waitScan_reaped hscan).2
      simp [Live, this]
    obtain ⟨-, hfree, hshared, hlayout⟩ := Mem.kfree_ensures _ _ _ hkfree
    have hs₁ : Mem.SharedOk m₁.shared := hshared ▸ h.owned.sharedOk
    have hrel : Released d m₁ m := by
      refine (freevm_ensures hs₁ _ hfreevm).released hs₁ ((h.owned.mm z hz).dir d hd) ?_
      rw [hshared]
      exact hhits z hscan d hd
    have hsame : SameBut z k { k.setMm z { k.mm z with kstack := none } with
        table := reapSlot z k.table, mem := m } := by
      refine ⟨fun r hr => ?_, fun r hr => Function.update_of_ne hr _ _, rfl, rfl⟩
      simp [Live, reapSlot, Function.update_of_ne hr]
    have hdead : ¬ Live { k.setMm z { k.mm z with kstack := none } with
        table := reapSlot z k.table, mem := m } z := by
      simp [Live, reapSlot]
    refine h.of_owned (h.owned.replace m₁ hz hd hsame (fun x => ?_) hshared hlayout hrel
      fun hlive => absurd hlive hdead) rfl rfl
    rw [Kernel.uses, if_neg hdead, Mm.stackUses, hy, Option.elim_some]
    have := hfree x
    omega

/-! ### sbrk, mmap, munmap and page faults -/

/-- A process without a shared page maps no shared page. -/
lemma Owned.shmRef_of_idx (h : k.Owned) (hp : k.Live p) (hd : (k.mm p).pgdir = some d)
    (hidx : (k.mm p).shm.idx = none) {v : Nat} (hv : v < KERNBASE)
    (hpres : (d.entry v).present = true) : Mem.shmRef k.mem.shared (d.entry v).ppn = 0 := by
  by_contra hne
  exact ((h.mm p hp).shared_only d hd v hv hpres hne).1 hidx

/-- Pages move between the directory and the free list of a process without a shared page. -/
lemma Sound.moveDir (h : k.Sound) (hp : k.Live p) (hd : (k.mm p).pgdir = some d)
    (hidx : (k.mm p).shm.idx = none) (hm : Moved d k.mem d' m) (sz : Nat) :
    Sound { k.setMm p { k.mm p with pgdir := some d', sz := sz } with mem := m } := by
  refine h.of_owned (h.owned.moveDir hp hd hm rfl rfl rfl (fun v hv hpres hx => ?_)
    fun hne => absurd hidx hne) rfl rfl
  exact absurd (h.owned.shmRef_of_idx hp hd hidx hv hpres) hx

lemma Sbrked.sound {n : Int32} (hb : Sbrked p n k k') (h : k.Sound) (hp : k.Live p)
    (hidx : (k.mm p).shm.idx = none) (hsz : (k.mm p).sz < KERNBASE * PGSIZE) : k'.Sound := by
  cases hb with
  | zero => exact h
  | grown pos hd halloc =>
    have hm := allocuvm_moved ((h.owned.mm p hp).dir _ hd) h.owned.sharedOk (.of_idx hidx) _ halloc
    exact h.moveDir hp hd hidx hm _
  | shrunk neg hd hdealloc =>
    have hm := deallocuvm_moved (pgUp_le_KERNBASE hsz) ((h.owned.mm p hp).dir _ hd) h.owned.sharedOk
      (.of_idx hidx) _ hdealloc
    exact h.moveDir hp hd hidx hm _

lemma Sound.pageFault {v : Nat} {ok : Bool} (h : k.Sound) (hp : k.Live p)
    (hidx : (k.mm p).shm.idx = none) (hd : (k.mm p).pgdir = some d)
    (hfault : Xv6.pageFault d v k.mem = .ok (ok, d', m)) : (k.setDir p d' m).Sound :=
  h.moveDir hp hd hidx (pageFault_moved ((h.owned.mm p hp).dir _ hd) _ hfault).1 _

lemma Faulted.sound {addr : UInt32} (hf : Faulted p addr k k') (h : k.Sound) (hp : k.Live p)
    (hidx : (k.mm p).shm.idx = none) : k'.Sound := by
  cases hf with
  | handled hd hfault => exact h.pageFault hp hidx hd hfault
  | exited hd hfault harmless _ => exact harmless.sound (h.pageFault hp hidx hd hfault)

lemma Mmapped.sound {start : UInt32} {n : Int32} (hm : Mmapped p start n k k') (h : k.Sound)
    (hp : k.Live p) : k'.Sound := by
  cases hm with
  | refused => exact h
  | mapped hrange hd hpages =>
    obtain ⟨hmoved, hentry⟩ := mmapPages_range hrange _ hpages
    refine h.of_owned (h.owned.moveDir hp hd hmoved rfl rfl rfl (fun v hv hpres _ => ?_)
      fun _ _ hpres => ?_) rfl rfl
    · rcases hentry v with he | ⟨hnot, -⟩
      · exact he
      · simp [hpres] at hnot
    · rcases hentry (k.mm p).shm.va with he | ⟨-, he⟩
      · exact he ▸ hpres
      · change (_ : Bool) = true at hpres
        rw [he] at hpres
        cases hpres

lemma Munmapped.sound {start : UInt32} {n : Int32} (hm : Munmapped p start n k k') (h : k.Sound)
    (hp : k.Live p)
    (hno : RangeOk start.toNat n.toInt → ∀ d, (k.mm p).pgdir = some d → ∀ w,
      Visited d (start.toNat / PGSIZE) (rangePages start.toNat n.toInt.toNat) w →
      (d.entry w).present = true → Mem.shmRef k.mem.shared (d.entry w).ppn = 0) : k'.Sound := by
  cases hm with
  | refused => exact h
  | @unmapped d _ _ _ hrange hd hpages =>
    have hun := munmapPages_range hrange _ hpages
    refine h.of_owned (h.owned.moveDir hp hd hun.moved rfl rfl rfl (fun v _ hpres hx => ?_)
      fun _ _ hpres => ?_) rfl rfl
    · exact hun.rest v fun hvis => hx (hno hrange d hd v hvis hpres)
    · by_cases hvis : Visited d (start.toNat / PGSIZE) (rangePages start.toNat n.toInt.toNat)
        (k.mm p).shm.va
      · change (_ : Bool) = true at hpres
        rw [hun.visited _ hvis] at hpres
        cases hpres
      · exact hun.rest _ hvis ▸ hpres

/-! ### Shared pages -/

lemma mem_tables {i : Nat} (h : i ∈ (List.range 512).reverse) : i < 512 := by simpa using h

/-- Taking a page and mapping it, or failing to. -/
lemma mapLastPage_moved {perm : Perm} {y v : Nat} {m₁ : Mem} (hk : m.kalloc = (some y, m₁))
    (h : mapLastPage y perm (List.range 512).reverse d m₁ = (v, d', m')) : Moved d m d' m' := by
  rcases mapLastPage_spec (fun _ => mem_tables) h with ⟨-, hext⟩ | hmap
  · exact (Moved.kalloc hk).trans hext.moved
  · refine ⟨fun x => ?_, hmap.ok, hmap.shared.trans (Mem.shared_kalloc hk),
      hmap.layout.trans (Mem.layout_kalloc hk)⟩
    have h1 := hmap.refs x
    have h2 := Mem.free_kalloc hk x
    omega

lemma ShmOpened.sound (ho : ShmOpened p k k') (h : k.Sound) (hp : k.Live p)
    (hidx : (k.mm p).shm.va = 0 → (k.mm p).shm.idx = none) : k'.Sound := by
  cases ho with
  | same => exact h
  | failed hva hk hd hmap _ => exact h.moveDir hp hd (hidx hva) (mapLastPage_moved hk hmap) _
  | @opened y v d d' m₁ m₂ m i hva hk hd hmap hne hadd =>
    have hmoved := mapLastPage_moved hk hmap
    have hsound := h.moveDir hp hd (hidx hva) hmoved (k.mm p).sz
    have hlast : MappedLast ⟨true, true⟩ y d m₁ v d' m₂ :=
      (mapLastPage_spec (fun _ => mem_tables) hmap).resolve_left fun h => hne h.1
    have hyfree : k.mem.free y ≠ 0 := by
      have := Mem.free_kalloc hk y
      rw [one, if_pos rfl] at this
      omega
    have hy0 : y ≠ 0 := (h.owned.inRange y (by unfold places; omega)).ne_zero
    have hentry : d'.entry v = (⟨true, true⟩ : Perm).pte y := by rw [hlast.entry v, if_pos rfl]
    have hs₂ : Mem.SharedOk m₂.shared := hmoved.shared ▸ h.owned.sharedOk
    obtain ⟨hs, -, hmem, href⟩ := Mem.shmAdd_some hs₂ hy0 hadd
    refine h.of_owned (hsound.owned.register (p := p) (d := d') (v := v) (i := i) hp
      (by simp [setMm]) hlast.lt (by rw [hentry]; rfl) ?_ ?_ ?_ hp ?_ ?_ hs ?_ ?_) rfl rfl
    · rw [hentry]
      show Mem.shmRef m₂.shared y = 0
      rw [hmoved.shared]
      exact h.owned.shmRef_of_free hyfree
    · simpa [setMm] using hidx hva
    · refine ⟨fun _ _ => Iff.rfl, fun r hr => ?_, rfl, rfl⟩
      exact (Function.update_of_ne hr _ _).trans (Function.update_of_ne hr _ _).symm
    · simp [setMm]
    · intro x
      rw [hentry]
      exact href x
    · intro x
      show m.free x = m₂.free x
      rw [hmem]
      rfl
    · show m.layout = m₂.layout
      rw [hmem]

lemma ShmClosed.sound (hc : ShmClosed p k k') (h : k.Sound) (hp : k.Live p)
    (hva : (k.mm p).shm.va < KERNBASE) : k'.Sound := by
  cases hc with
  | same => exact h
  | notFound => exact h
  | @closed d m _ hd htable hremove =>
    have hs := h.owned.sharedOk
    have hreg : Mem.shmRef k.mem.shared (d.entry (k.mm p).shm.va).ppn ≠ 0 := by
      intro hzero
      rw [Mem.shmRemove_of_shmRef_eq_zero hs hzero] at hremove
      cases hremove
    have hok := (h.owned.mm p hp).dir d hd
    have hpres : (d.entry (k.mm p).shm.va).present = true := by
      by_contra hnot
      apply hreg
      rw [(hok _ hva).ppn_zero (by simpa using hnot)]
      exact Mem.shmRef_zero hs
    obtain ⟨-, hs', href, hfree, -, hlayout⟩ := Mem.shmRemove_ensures hs hreg _ hremove
    exact h.of_owned (h.owned.unregister hp hd hva hpres rfl hreg (sameBut_setMm k p _ m) hp
      (Function.update_self ..) href hs' hfree hlayout) rfl rfl

/-! ### Every action -/

/-- The condition under which an action keeps the invariant. -/
def Safe (k : Kernel) : Action → Prop
  | .fork p => (k.mm p).shm.idx = none ∨ (k.mm p).shm.va = KERNBASE - 1
  | .exec p _ _ => (k.mm p).shm.idx ≠ none → PHYSTOP ≤ (k.mm p).shm.va
  | .wait p => ∀ z, waitScan k.table p = .reaped z → ∀ d, (k.mm z).pgdir = some d → ∀ v < KERNBASE,
      (d.entry v).present = true → Mem.shmRef k.mem.shared (d.entry v).ppn ≠ 0 → (k.mm p).shm.Hits v
  | .sbrk p _ => (k.mm p).shm.idx = none ∧ (k.mm p).sz < KERNBASE * PGSIZE
  | .fault p _ => (k.mm p).shm.idx = none
  | .munmap p start n => RangeOk start.toNat n.toInt → ∀ d, (k.mm p).pgdir = some d → ∀ w,
      Visited d (start.toNat / PGSIZE) (rangePages start.toNat n.toInt.toNat) w →
      (d.entry w).present = true → Mem.shmRef k.mem.shared (d.entry w).ppn = 0
  | .shmOpen p => (k.mm p).shm.va = 0 → (k.mm p).shm.idx = none
  | .shmClose p => (k.mm p).shm.va < KERNBASE
  | _ => True

/-- A safe action keeps page ownership. -/
theorem Outcome.sound {a : Action} (ho : Outcome k a k') (h : k.Sound) (hsafe : k.Safe a) :
    k'.Sound := by
  cases ho with
  | harmless hh => exact hh.sound h
  | fork live hf => exact hf.sound h live hsafe
  | exec live _ he => exact he.sound h live hsafe
  | wait live hw => exact hw.sound h hsafe
  | sbrk live hb => exact hb.sound h live hsafe.1 hsafe.2
  | mmap live hm => exact hm.sound h live
  | munmap live hm => exact hm.sound h live hsafe
  | fault live hf => exact hf.sound h live hsafe
  | shmOpen live ho => exact ho.sound h live hsafe
  | shmClose live hc => exact hc.sound h live hsafe

end Kernel

end Xv6
