import Mathlib.Algebra.BigOperators.Group.Finset.Piecewise
import Xv6.Kernel.Boot

/-!
# Reference counts of shared pages

A shared page has as many references as there are page tables that map it, and is not on the free
list. Two system calls break this: `munmap` frees a shared page without looking at the table of shared
pages, and `wait` gives an address space back with the `shm_va` of the parent instead of that of the
child. Apart from these, every interleaving of the system calls keeps it, and processes see nothing
of each other's memory but shared pages.
-/

namespace Xv6

namespace Kernel

open Fallible Count TransitionSystem

variable {k k' : Kernel} {p q : Slot} {a : Action} {d d' : PageDir} {m : Mem}

/-! ### The shared page is the last one -/

/-- A process has its shared page at the top of its address space, or has none there. -/
def TopPage (_sz : Nat) (pgdir : Option PageDir) (shm : ShmField) : Prop :=
  (shm = ⟨none, 0⟩ ∧ ∀ d, pgdir = some d → (d.entry (KERNBASE - 1)).present = false) ∨
    (shm.idx ≠ none ∧ shm.va = KERNBASE - 1)

/-- Page ownership, with shared pages at the top of address spaces. -/
structure Topped (k : Kernel) : Prop where
  sound : k.Sound
  top : k.Every (· ≠ .unused) TopPage

lemma KERNBASE_pos : KERNBASE = 524288 := by
  rw [KERNBASE_eq]
  rfl

lemma TopPage.idx {sz : Nat} {pgdir : Option PageDir} {shm : ShmField} (h : TopPage sz pgdir shm)
    (hva : shm.va = 0) : shm.idx = none := by
  rcases h with ⟨rfl, -⟩ | ⟨-, htop⟩
  · rfl
  · have := KERNBASE_pos
    omega

lemma TopPage.va {sz : Nat} {pgdir : Option PageDir} {shm : ShmField} (h : TopPage sz pgdir shm)
    (hva : shm.va ≠ 0) : shm.idx ≠ none ∧ shm.va = KERNBASE - 1 := by
  rcases h with ⟨rfl, -⟩ | htop
  · exact absurd rfl hva
  · exact htop

lemma TopPage.va_lt {sz : Nat} {pgdir : Option PageDir} {shm : ShmField}
    (h : TopPage sz pgdir shm) : shm.va < KERNBASE := by
  have := KERNBASE_pos
  rcases h with ⟨rfl, -⟩ | ⟨-, htop⟩
  · dsimp only
    omega
  · omega

/-- The top page stays as it is, or is unmapped. -/
lemma TopPage.mono {sz sz' : Nat} {shm : ShmField} (h : TopPage sz (some d) shm)
    (hd : (d'.entry (KERNBASE - 1)).present = true → (d.entry (KERNBASE - 1)).present = true) :
    TopPage sz' (some d') shm := by
  rcases h with ⟨hshm, htop⟩ | htop
  · refine Or.inl ⟨hshm, fun d₁ hd₁ => ?_⟩
    cases hd₁
    by_contra hne
    have h1 := htop d rfl
    rw [hd (by simpa using hne)] at h1
    cases h1
  · exact Or.inr htop

lemma Topped.fork_safe (h : k.Topped) (hp : k.Live p) :
    (k.mm p).shm.idx = none ∨ (k.mm p).shm.va = KERNBASE - 1 := by
  rcases h.top p hp with ⟨hshm, -⟩ | ⟨-, htop⟩
  · exact Or.inl (by rw [hshm])
  · exact Or.inr htop

lemma Topped.exec_safe (h : k.Topped) (hp : k.Live p) (hidx : (k.mm p).shm.idx ≠ none) :
    PHYSTOP ≤ (k.mm p).shm.va := by
  rcases h.top p hp with ⟨hshm, -⟩ | ⟨-, htop⟩
  · rw [hshm] at hidx
    exact absurd rfl hidx
  · have h1 := KERNBASE_pos
    have h2 : PHYSTOP = 57344 := rfl
    omega

/-- The new image of `exec` does not reach the top. -/
lemma Topped.image_top (h : k.Topped) {c : ShmField} {reads : Reads} {argv : List (List UInt8)}
    {sz : Nat} (himage : execImage c reads argv k.mem = .ok (some (d, sz), m)) :
    (d.entry (KERNBASE - 1)).present = false := by
  have hK := KERNBASE_pos
  have hphys : PHYSTOP = 57344 := rfl
  exact ((Program.execImage_ensures h.sound.owned.freeOk _ himage).2 d sz rfl).below _ (by omega)
    (by omega)

lemma Execed.top {r : Int} (he : Execed p k r k') (h : k.Topped) (hp : k.Live p) :
    k'.Every (· ≠ .unused) TopPage := by
  cases he with
  | noFile => exact h.top
  | failed image => exact h.top
  | @loaded _ _ d nd sz m₁ m image pgdir freevm =>
    refine h.top.setMm ?_
    rcases h.top p hp with ⟨hshm, -⟩ | htop
    · refine Or.inl ⟨hshm, fun d₁ hd₁ => ?_⟩
      cases hd₁
      exact h.image_top image
    · exact Or.inr htop

lemma Forked.top (hf : Forked p k k') (h : k.Topped) (hp : k.Live p) :
    k'.Every (· ≠ .unused) TopPage := by
  refine hf.every steady_live h.top fun _ hd hcopy => ?_
  have hK := KERNBASE_pos
  have hflags := copyuvm_flags _ hcopy _ rfl (KERNBASE - 1) (by omega)
  have htop := h.top p hp
  rw [hd] at htop
  exact htop.mono fun hpres => Pte.present_of_flags hflags ▸ hpres

lemma Mmapped.top {start : UInt32} {n : Int32} (hm : Mmapped p start n k k')
    (h : k.Every (· ≠ .unused) TopPage) (hp : k.Live p) : k'.Every (· ≠ .unused) TopPage := by
  cases hm with
  | refused => exact h
  | mapped range pgdir pages =>
    have htop := h p hp
    rw [pgdir] at htop
    refine h.setDir (htop.mono fun hpres => ?_)
    rcases (mmapPages_range range _ pages).2 (KERNBASE - 1) with he | ⟨-, he⟩
    · exact he ▸ hpres
    · change (_ : Bool) = true at hpres
      rw [he] at hpres
      cases hpres

lemma Munmapped.top {start : UInt32} {n : Int32} (hm : Munmapped p start n k k')
    (h : k.Every (· ≠ .unused) TopPage) (hp : k.Live p) : k'.Every (· ≠ .unused) TopPage := by
  cases hm with
  | refused => exact h
  | @unmapped d _ _ _ range pgdir pages =>
    have htop := h p hp
    rw [pgdir] at htop
    have hun := munmapPages_range range _ pages
    refine h.setDir (htop.mono fun hpres => ?_)
    by_cases hvis : Visited d (start.toNat / PGSIZE) (rangePages start.toNat n.toInt.toNat)
      (KERNBASE - 1)
    · change (_ : Bool) = true at hpres
      rw [hun.visited _ hvis] at hpres
      cases hpres
    · exact hun.rest _ hvis ▸ hpres

/-! ### The table of shared pages is large enough -/

lemma maps_ne_zero {x : Nat} (h : k.maps p x ≠ 0) :
    k.Live p ∧ ∃ d, (k.mm p).pgdir = some d ∧ ∃ v < KERNBASE, (d.entry v).present = true ∧
      (d.entry v).ppn = x := by
  unfold Kernel.maps at h
  split_ifs at h with hlive
  · refine ⟨hlive, ?_⟩
    unfold Mm.maps at h
    cases hd : (k.mm p).pgdir with
    | none =>
      rw [hd] at h
      exact absurd rfl h
    | some d =>
      rw [hd, Option.elim_some] at h
      exact ⟨d, rfl, PageDir.exists_of_userRefs_ne_zero h⟩
  · exact absurd rfl h

/-- A registered page is mapped by some process, at its `shm_va`. -/
lemma Owned.exists_maps (h : k.Owned) {x : Nat} (hx : Mem.shmRef k.mem.shared x ≠ 0) :
    ∃ q d, k.Live q ∧ (k.mm q).pgdir = some d ∧ (k.mm q).shm.idx ≠ none ∧
      (d.entry (k.mm q).shm.va).ppn = x := by
  have hsum : ∑ q, k.maps q x ≠ 0 := by
    have := h.refs_le x
    omega
  obtain ⟨q, -, hq⟩ := Finset.exists_ne_zero_of_sum_ne_zero hsum
  obtain ⟨hlive, d, hd, v, hv, hpres, rfl⟩ := maps_ne_zero hq
  obtain ⟨hidx, rfl⟩ := (h.mm q hlive).shared_only d hd v hv hpres hx
  exact ⟨q, d, hlive, hd, hidx, rfl⟩

/-- As long as a process has no shared page, an entry of the table is free: every entry in use
belongs to another process. -/
lemma Owned.exists_free_entry (h : k.Owned) (hidx : (k.mm p).shm.idx = none) :
    ∃ i, (k.mem.shared i).refCnt = 0 := by
  by_contra hall
  push Not at hall
  have hs := h.sharedOk
  have hpa : ∀ i, (k.mem.shared i).pa ≠ 0 := fun i h0 => hall i ((hs.zero i).mpr h0)
  have hreg : ∀ i, Mem.shmRef k.mem.shared (k.mem.shared i).pa ≠ 0 := by
    intro i
    rw [Mem.shmRef_eq hs rfl (hpa i)]
    exact hall i
  choose f d hf using fun i => h.exists_maps (hreg i)
  have hinj : Function.Injective f := by
    intro i j hij
    obtain ⟨-, hdi, -, hi⟩ := hf i
    obtain ⟨-, hdj, -, hj⟩ := hf j
    rw [hij, hdj] at hdi
    rw [hij, ← Option.some.inj hdi, hj] at hi
    exact (hs.distinct j i hi (hpa j)).symm
  have hsurj : Function.Surjective f := Finite.injective_iff_surjective.mp hinj
  obtain ⟨i, hi⟩ := hsurj p
  exact (hf i).2.2.1 (hi ▸ hidx)

lemma ShmOpened.top (ho : ShmOpened p k k') (h : k.Topped) (hp : k.Live p) :
    k'.Every (· ≠ .unused) TopPage := by
  have hK := KERNBASE_pos
  cases ho with
  | same => exact h.top
  | @failed y v d d' m₁ m va kalloc pgdir mapped fails =>
    have hidx := (h.top p hp).idx va
    have hmoved := mapLastPage_moved kalloc mapped
    have hv : v = 0 := by
      rcases fails with hv | hnone
      · exact hv
      · obtain ⟨i, hi⟩ := h.sound.owned.exists_free_entry hidx
        have hadd : m.shmAdd y = (none, (m.shmAdd y).2) := by rw [← hnone]
        have hfull := (Mem.shmAdd_none hadd).2 i
        rw [hmoved.shared] at hfull
        exact absurd hi hfull
    have htop := h.top p hp
    rw [pgdir] at htop
    refine h.top.setDir (htop.mono fun hpres => ?_)
    rcases mapLastPage_spec (fun _ => mem_tables) mapped with ⟨-, hext⟩ | hmap
    · exact hext.entry _ ▸ hpres
    · have hne : KERNBASE - 1 ≠ v := by omega
      rw [hmap.entry, if_neg hne] at hpres
      exact hpres
  | @opened y v d d' m₁ m₂ m i va kalloc pgdir mapped ne shmAdd =>
    have htop := (h.top p hp).resolve_right fun h' => by
      have := h'.2
      omega
    refine h.top.setMm (Or.inr ⟨by simp, ?_⟩)
    rw [tables_reverse] at mapped
    exact (mapLastPage_last (htop.2 d pgdir) mapped).resolve_right fun h => ne h.1

lemma ShmClosed.top (hc : ShmClosed p k k') (h : k.Every (· ≠ .unused) TopPage) (hp : k.Live p) :
    k'.Every (· ≠ .unused) TopPage := by
  cases hc with
  | same => exact h
  | notFound => exact h
  | closed va pgdir table remove =>
    refine h.setMm (Or.inl ⟨rfl, fun d₁ hd₁ => ?_⟩)
    cases hd₁
    rw [← ((h p hp).va va).2, PageDir.entry_set_self table]
    rfl

/-! ### Reference counts -/

/-- Each entry of the table of shared pages counts the page tables that map its page, which is not
free, and a page mapped by two processes has an entry. -/
structure SharedCounted (k : Kernel) : Prop where
  counted : ∀ i, 0 < (k.mem.shared i).refCnt →
    (Finset.univ.filter fun p => k.maps p (k.mem.shared i).pa ≠ 0).card = (k.mem.shared i).refCnt
  notFree : ∀ i, 0 < (k.mem.shared i).refCnt → (k.mem.shared i).pa ∉ k.mem.freelist
  registered : ∀ p q x, p ≠ q → k.maps p x ≠ 0 → k.maps q x ≠ 0 →
    ∃ i, 0 < (k.mem.shared i).refCnt ∧ (k.mem.shared i).pa = x

/-- A registered page is mapped at most once by each process. -/
lemma Owned.maps_le_one (h : k.Owned) {x : Nat} (hx : Mem.shmRef k.mem.shared x ≠ 0) (p : Slot) :
    k.maps p x ≤ 1 := by
  by_cases hp : k.Live p
  · rw [maps_live hp]
    exact (h.mm p hp).maps_le_one hx
  · rw [Kernel.maps, if_neg hp]
    exact Nat.zero_le _

lemma Owned.sharedCounted (h : k.Owned) : k.SharedCounted := by
  have hs := h.sharedOk
  have hreg : ∀ i, 0 < (k.mem.shared i).refCnt →
      Mem.shmRef k.mem.shared (k.mem.shared i).pa = (k.mem.shared i).refCnt := by
    intro i hi
    refine Mem.shmRef_eq hs rfl fun h0 => ?_
    have := (hs.zero i).mpr h0
    omega
  refine ⟨fun i hi => ?_, fun i hi => ?_, fun p q x hpq hp hq => ?_⟩
  · have hx : Mem.shmRef k.mem.shared (k.mem.shared i).pa ≠ 0 := by
      rw [hreg i hi]
      omega
    have hsum := (h.registered hx).2.1
    have hterm : ∀ p ∈ Finset.univ, k.maps p (k.mem.shared i).pa =
        if k.maps p (k.mem.shared i).pa ≠ 0 then 1 else 0 := by
      intro p _
      have := h.maps_le_one hx p
      split_ifs <;> omega
    rw [Finset.sum_congr rfl hterm, ← Finset.card_filter, hreg i hi] at hsum
    exact hsum
  · have hx : Mem.shmRef k.mem.shared (k.mem.shared i).pa ≠ 0 := by
      rw [hreg i hi]
      omega
    exact List.count_eq_zero.mp (h.registered hx).2.2.1
  · have h1 := maps_add_le_sum k hpq x
    have h2 := (Finset.sum_le_sum fun r (_ : r ∈ Finset.univ) =>
      maps_le_uses k r x).trans (sum_uses_le_places k x)
    have h3 := h.places_le x
    have hx : Mem.shmRef k.mem.shared x ≠ 0 := by omega
    obtain ⟨i, hi, hcnt⟩ := Mem.exists_of_shmRef_ne_zero hx
    exact ⟨i, by omega, hi⟩

/-- A registered page on the free list. -/
lemma SharedCounted.not_free (h : k.SharedCounted) {x : Nat}
    (hx : Mem.shmRef k.mem.shared x ≠ 0) : k.mem.free x = 0 := by
  obtain ⟨i, rfl, hcnt⟩ := Mem.exists_of_shmRef_ne_zero hx
  exact List.count_eq_zero.mpr (h.notFree i (by omega))

/-- The actions that make an address space larger or smaller, or back a lazy page of it. -/
def Action.Resizes : Action → Prop
  | .sbrk _ _ | .fault _ _ => True
  | _ => False

/-- The system calls that map, share and unmap pages. -/
def Action.Sharing : Action → Prop
  | .shmOpen _ | .shmClose _ | .fork _ | .exec _ _ _ | .munmap _ _ _ | .exit _ | .wait _ => True
  | a => a.Scheduling

/-- `munmap` meets no registered page, and `wait` finds every registered page of the child it reaps at
the `shm_va` of the caller. -/
def KeepsCounts (k : Kernel) : Action → Prop
  | .munmap p start n => RangeOk start.toNat n.toInt → ∀ d, (k.mm p).pgdir = some d → ∀ w,
      Visited d (start.toNat / PGSIZE) (rangePages start.toNat n.toInt.toNat) w →
      (d.entry w).present = true → Mem.shmRef k.mem.shared (d.entry w).ppn = 0
  | .wait p => ∀ z, waitScan k.table p = .reaped z → ∀ d, (k.mm z).pgdir = some d → ∀ v < KERNBASE,
      (d.entry v).present = true → Mem.shmRef k.mem.shared (d.entry v).ppn ≠ 0 → (k.mm p).shm.Hits v
  | _ => True

lemma live_of_step {ops : Action → Prop} (hs : Step ops k a k') (hp : a.caller = some p) :
    k.Live p := by
  simp [Live, hs.2.1.1 p hp]

lemma Action.Sharing.not_resizes (h : a.Sharing) : ¬ a.Resizes := by
  cases a <;> simp_all [Action.Sharing, Action.Scheduling, Action.Resizes]

lemma Topped.step {ops : Action → Prop} (h : k.Topped) (hs : Step ops k a k') (hno : ¬ a.Resizes)
    (hc : k.KeepsCounts a) : k'.Topped := by
  have hsafe : k.Safe a := by
    cases a with
    | fork p => exact h.fork_safe (live_of_step hs rfl)
    | exec p file argv => exact h.exec_safe (live_of_step hs rfl)
    | wait p => exact hc
    | munmap p start n => exact hc
    | shmOpen p => exact (h.top p (live_of_step hs rfl)).idx
    | shmClose p => exact (h.top p (live_of_step hs rfl)).va_lt
    | sbrk p n => exact absurd trivial hno
    | fault p addr => exact absurd trivial hno
    | _ => trivial
  refine ⟨hs.outcome.sound h.sound hsafe, ?_⟩
  cases hs.outcome with
  | harmless hh => exact h.top.keep steady_live hh.only
  | fork live hf => exact hf.top h live
  | exec live _ he => exact he.top h live
  | wait live hw => exact hw.every steady_live h.top
  | sbrk live hb => exact absurd trivial hno
  | mmap live hm => exact hm.top h.top live
  | munmap live hm => exact hm.top h.top live
  | fault live hf => exact absurd trivial hno
  | shmOpen live ho => exact ho.top h live
  | shmClose live hc => exact hc.top h.top live

/-- A `munmap` that meets a registered page puts it on the free list. -/
lemma Munmapped.keepsCounts {start : UInt32} {n : Int32} (hm : Munmapped p start n k k')
    (hP : k'.SharedCounted) : k.KeepsCounts (.munmap p start n) := by
  intro hrange d hd w hvis hpres
  cases hm with
  | refused hno => exact absurd hrange hno
  | @unmapped d₁ d' ok m _ pgdir pages =>
    rw [pgdir] at hd
    cases hd
    have hun := munmapPages_range hrange _ pages
    by_contra hx
    apply hun.freed w hvis hpres
    refine hP.not_free (x := (d.entry w).ppn) ?_
    show Mem.shmRef m.shared _ ≠ 0
    rw [hun.moved.shared]
    exact hx

/-- A `wait` that frees a registered page of the child leaves it registered. -/
lemma Waited.keepsCounts (hw : Waited p k k') (h : k.Topped) (hp : k.Live p)
    (hP : k'.SharedCounted) : k.KeepsCounts (.wait p) := by
  intro z hz d hd v hv hpres hx
  cases hw with
  | noChildren scan => cases scan.symm.trans hz
  | block scan => cases scan.symm.trans hz
  | @reaped z₁ y d₁ m₁ m scan kstack pgdir kfree freevm =>
    rw [scan] at hz
    cases hz
    rw [pgdir] at hd
    cases hd
    have hlive : k.Live z := by
      have := (waitScan_reaped scan).2
      simp [Live, this]
    have hhit := (h.sound.owned.mm z hlive).shared_only d pgdir v hv hpres hx
    have hvtop : v = KERNBASE - 1 := by
      rcases h.top z hlive with ⟨hshm, -⟩ | ⟨-, htop⟩
      · rw [hshm] at hhit
        exact absurd rfl hhit.1
      · exact hhit.2.trans htop
    rcases h.top p hp with ⟨hshm, -⟩ | ⟨hidx, htop⟩
    · -- the caller has no shared page, so the page is freed like any other
      exfalso
      obtain ⟨-, hfree, hshared, -⟩ := Mem.kfree_ensures _ _ _ kfree
      have hfreed := freevm_ensures (hshared ▸ h.sound.owned.sharedOk) _ freevm
      have hidx : (k.mm p).shm.idx = none := by rw [hshm]
      have hdrop : ∀ x, dropped (k.mm p).shm d m₁ 0 KERNBASE x = 0 := fun x =>
        if_neg fun hc => hc.1 hidx
      have hkept : kept (k.mm p).shm d (d.entry v).ppn = 0 := if_neg fun hc => hc.1 hidx
      have h1 := hfreed.free (d.entry v).ppn
      have h2 := PageDir.userRefs_pos hv hpres
      rw [hdrop, ite_self, hkept] at h1
      unfold PageDir.refs at h1
      have h3 : m.free (d.entry v).ppn = 0 := by
        refine hP.not_free (x := (d.entry v).ppn) ?_
        show Mem.shmRef m.shared _ ≠ 0
        rw [hfreed.shared hdrop, hshared]
        exact hx
      omega
    · exact ⟨hidx, hvtop.trans htop.symm⟩

lemma Booted.topped (h : k.Booted) : k.Topped := by
  refine ⟨h.sound, fun q hq => ?_⟩
  obtain rfl := h.only q hq
  obtain ⟨d, hd, -, hother⟩ := h.pgdir
  refine Or.inl ⟨h.shm, fun d₁ hd₁ => ?_⟩
  rw [hd] at hd₁
  cases hd₁
  have hK := KERNBASE_pos
  rw [hother _ (by omega) (by omega)]
  rfl

/-- In a run from boot the reference counts are right in all states exactly if no `munmap` meets a
registered page, and no `wait` reaps a child with a registered page while the caller has none. -/
theorem sharedCounted_iff_keepsCounts {l : Layout} {ncpu : Nat} {initcode : List UInt8}
    {bytes : Nat → Nat → UInt8} {k₀ : Kernel} {tr : List (Kernel × Action)}
    (hboot : boot l ncpu initcode bytes = .ok k₀) (hr : Run (Step Action.Sharing) k₀ tr k) :
    AllStates SharedCounted tr k ↔ AllSteps KeepsCounts tr := by
  refine hr.allStates_iff (I := Topped) (fun _ h => h.sound.owned.sharedCounted)
    (fun _ _ _ h hc hs => h.step hs hs.1.not_resizes hc) (fun k a k' h hs hP => ?_) (boot_ensures k₀ hboot).topped
  obtain ⟨r, hperform⟩ := hs.2.2
  cases a with
  | munmap p start n => exact (munmap_ensures _ hperform).keepsCounts hP
  | wait p =>
    exact (wait_ensures (hs.2.1.1 p rfl) _ hperform).keepsCounts h (live_of_step hs rfl) hP
  | _ => trivial

/-- The first process opens a shared page. -/
lemma exists_run_shmOpen (ops : Action → Prop) (C : Kernel → Action → Prop)
    (hops : ∀ p, ops (.run p) ∧ ops (.shmOpen p)) (hC : ∀ k p, C k (.run p) ∧ C k (.shmOpen p)) :
    ∃ k₀ tr k, boot smallLayout 1 [] (fun _ _ => 0) = .ok k₀ ∧ Run (Step ops) k₀ tr k ∧
      tr.length = 2 ∧ AllSteps C tr := by
  obtain ⟨k₀, hboot⟩ := boot_smallLayout
  have hb := boot_ensures k₀ hboot
  have hrun := hb.step_run ops (hops _).1
  obtain ⟨k₁, -, hopen, -⟩ := hb.step_shmOpen ops
    (hb.topped.step hrun id trivial).sound.owned (hops _).2
  refine ⟨k₀, _, k₁, hboot, (Run.refl.tail hrun).tail hopen, rfl, ?_⟩
  simp only [allSteps_snoc]
  exact ⟨⟨allSteps_nil _, (hC _ _).1⟩, (hC _ _).2⟩

/-- The first process opens a shared page. -/
theorem sharedCounted_after_shmOpen :
    ∃ k₀ tr k, boot smallLayout 1 [] (fun _ _ => 0) = .ok k₀ ∧ Run (Step Action.Sharing) k₀ tr k ∧
      tr.length = 2 ∧ AllSteps KeepsCounts tr ∧ AllStates SharedCounted tr k := by
  obtain ⟨k₀, tr, k, hboot, hr, hlen, hall⟩ := exists_run_shmOpen Action.Sharing KeepsCounts
    (fun _ => ⟨trivial, trivial⟩) fun _ _ => ⟨trivial, trivial⟩
  exact ⟨k₀, tr, k, hboot, hr, hlen, hall, (sharedCounted_iff_keepsCounts hboot hr).mpr hall⟩

/-- The page below the kernel. -/
def topAddr : UInt32 := 2147479552

lemma topAddr_range : RangeOk topAddr.toNat (4096 : Int32).toInt ∧
    topAddr.toNat / PGSIZE = KERNBASE - 1 ∧
    rangePages topAddr.toNat (4096 : Int32).toInt.toNat = 1 := by
  refine ⟨⟨by decide, by decide, ?_⟩, ?_, by decide⟩
  all_goals
    rw [KERNBASE_pos]
    decide

lemma visited_topAddr (h : (d.entry (KERNBASE - 1)).present = true) :
    Visited d (topAddr.toNat / PGSIZE) (rangePages topAddr.toNat (4096 : Int32).toInt.toNat)
      (KERNBASE - 1) := by
  rw [topAddr_range.2.1, topAddr_range.2.2]
  refine ⟨le_rfl, by omega, fun u h1 h2 => ?_⟩
  obtain rfl : u = KERNBASE - 1 := by omega
  exact PageDir.hasTable_of_present h

lemma Topped.step_munmap (ops : Action → Prop) (h : k.Topped) (hp : (k.table p).state = .running)
    (hd : (k.mm p).pgdir = some d) (hpres : (d.entry (KERNBASE - 1)).present = true)
    (hops : ops (.munmap p topAddr 4096)) : ∃ k', Step ops k (.munmap p topAddr 4096) k' := by
  have hlt : KERNBASE - 1 < KERNBASE := by
    have := KERNBASE_pos
    omega
  obtain ⟨m', hs⟩ := h.sound.owned.step_munmap ops hp hd hlt hpres hops topAddr_range.1 topAddr_range.2.1
    topAddr_range.2.2
  exact ⟨_, hs⟩

/-- The first process opens a shared page and unmaps it: the page is on the free list and still
registered. -/
theorem shared_page_freed_by_munmap :
    ∃ k₀ tr k, boot smallLayout 1 [] (fun _ _ => 0) = .ok k₀ ∧ Run (Step Action.Sharing) k₀ tr k ∧
      tr.length = 3 ∧ ¬ k.SharedCounted := by
  obtain ⟨k₀, hboot⟩ := boot_smallLayout
  have hb := boot_ensures k₀ hboot
  have hrun := hb.step_run Action.Sharing trivial
  have hstarted := hb.topped.step hrun id trivial
  obtain ⟨k₁, d, hopen, htable, hd, hpres, hreg⟩ := hb.step_shmOpen Action.Sharing
    hstarted.sound.owned trivial
  obtain ⟨k₂, hmunmap⟩ := (hstarted.step hopen id trivial).step_munmap Action.Sharing
    (htable ▸ started_running k₀) hd hpres trivial
  refine ⟨k₀, _, k₂, hboot, ((Run.refl.tail hrun).tail hopen).tail hmunmap, rfl, fun hP => ?_⟩
  obtain ⟨r, hperform⟩ := hmunmap.2.2
  exact hreg ((munmap_ensures _ hperform).keepsCounts hP topAddr_range.1 d hd (KERNBASE - 1)
    (visited_topAddr hpres) hpres)

/-! ### Isolation -/

/-- Process `p` has page `v` of its memory mapped. -/
structure HasPage (k : Kernel) (p : Slot) (d : PageDir) (v : Nat) : Prop where
  live : k.Live p
  dir : (k.mm p).pgdir = some d
  lt : v < KERNBASE
  present : (d.entry v).present = true

/-- The memory of a process is its own. -/
structure Isolated (k : Kernel) : Prop where
  /-- What one process stores another does not load, except through shared pages that both have
  open. -/
  load : ∀ p q d d' v w, p ≠ q → k.HasPage p d v → k.HasPage q d' w →
    ¬ ((k.mm p).shm.Hits v ∧ (k.mm q).shm.Hits w) →
    ∀ off bs o, loadByte d' (k.mem.write (d.entry v).ppn off bs) w o = loadByte d' k.mem w o
  /-- A page of a process is nowhere but in the memory of processes: it is not free, and no page
  table, kernel stack or pipe is in it. -/
  places : ∀ p d v, k.HasPage p d v →
    k.places (d.entry v).ppn = ∑ q, k.maps q (d.entry v).ppn

lemma HasPage.maps_pos {v : Nat} (h : k.HasPage p d v) : 1 ≤ k.maps p (d.entry v).ppn := by
  rw [maps_dir h.live h.dir]
  exact PageDir.userRefs_pos h.lt h.present

/-- A page that two processes map is in two places, so it is registered. -/
lemma Owned.isolated (h : k.Owned) : k.Isolated := by
  have hle : ∀ x, ∑ q, k.maps q x ≤ ∑ q, k.uses q x := fun x =>
    Finset.sum_le_sum fun q _ => maps_le_uses k q x
  refine ⟨fun p q d d' v w hpq hv hw hno off bs o => ?_, fun p d v hv => ?_⟩
  · have hne : (d'.entry w).ppn ≠ (d.entry v).ppn := by
      intro heq
      have hsum := add_le_sum (f := fun r => k.maps r (d.entry v).ppn) hpq
      have hplaces := h.places_le (d.entry v).ppn
      have hmaps := hle (d.entry v).ppn
      have hposp := hv.maps_pos
      have hposq := heq ▸ hw.maps_pos
      have href : Mem.shmRef k.mem.shared (d.entry v).ppn ≠ 0 := by
        unfold Kernel.places at hplaces
        omega
      exact hno ⟨(h.mm p hv.live).shared_only d hv.dir v hv.lt hv.present href,
        (h.mm q hw.live).shared_only d' hw.dir w hw.lt hw.present (heq ▸ href)⟩
    simp only [loadByte, Mem.write, Function.update_of_ne hne]
  · have hpos := hv.maps_pos.trans (maps_le_sum k p _)
    have hplaces := h.places_le (d.entry v).ppn
    have hrefs := h.refs_le (d.entry v).ppn
    have hmaps := hle (d.entry v).ppn
    unfold Kernel.places at hplaces ⊢
    omega

/-- In a run from boot whose steps are all safe, processes are isolated in every state. -/
theorem isolated_of_safe {ops : Action → Prop} {l : Layout} {ncpu : Nat} {initcode : List UInt8}
    {bytes : Nat → Nat → UInt8} {k₀ : Kernel} {tr : List (Kernel × Action)}
    (hboot : boot l ncpu initcode bytes = .ok k₀) (hr : Run (Step ops) k₀ tr k)
    (hsafe : AllSteps Safe tr) : AllStates Isolated tr k := by
  refine (hr.allStates ?_ (boot_ensures k₀ hboot).sound hsafe).mono fun _ h => h.owned.isolated
  exact fun _ _ _ h hc hs => hs.outcome.sound h hc

/-- The first process forks and opens a shared page. What it then stores in its first page, the
child does not load. -/
theorem isolated_after_fork :
    ∃ k₀ tr k d d', boot smallLayout 1 [] (fun _ _ => 0) = .ok k₀ ∧
      Run (Step fun _ => True) k₀ tr k ∧ tr.length = 3 ∧ AllStates Isolated tr k ∧
      k.HasPage 0 d 0 ∧ k.HasPage 1 d' 0 ∧
      ∀ off bs o, loadByte d' (k.mem.write (d.entry 0).ppn off bs) 0 o = loadByte d' k.mem 0 o := by
  obtain ⟨k₀, hboot⟩ := boot_smallLayout
  have hb := boot_ensures k₀ hboot
  have hrun := hb.step_run (fun _ => True) trivial
  have htop := hb.topped.step hrun id trivial
  obtain ⟨k₁, d, nd, hfork, hstate, hlive, hmm, hd, hnd, hpres, hpages, hfree⟩ :=
    hb.step_fork (fun _ => True) htop.sound.owned trivial
  have htop₁ := htop.step hfork id trivial
  have hK := KERNBASE_pos
  obtain ⟨d₀, hd₀, hzero, hother⟩ := hb.pgdir
  rw [hb.initproc, hd] at hd₀
  cases hd₀
  have hshm : (k₁.mm 0).shm = ⟨none, 0⟩ := by rw [hmm, ← hb.shm, hb.initproc]
  obtain ⟨k₂, d', hopen, htable, hd', -, -, hentry, hothers⟩ := htop₁.sound.owned.step_shmOpen
    (fun _ => True) hstate (by rw [hshm]) (hmm ▸ hd)
    (by rw [hother _ (by omega) (by omega)]; rfl) hpages hfree trivial
  have hr := ((Run.refl.tail hrun).tail hfork).tail hopen
  have hall := isolated_of_safe hboot hr (by
    simp only [allSteps_snoc]
    exact ⟨⟨⟨allSteps_nil _, trivial⟩, htop.fork_safe (live_of_step hfork rfl)⟩,
      (htop₁.top _ (live_of_step hopen rfl)).idx⟩)
  have hp : k₂.HasPage 0 d' 0 := ⟨by simp [Live, htable, hstate], hd', by omega, by
    rw [hentry 0 (by omega)]
    exact hzero⟩
  have hq : k₂.HasPage 1 nd 0 :=
    ⟨fun h => hlive (htable ▸ h), by rw [hothers 1 (by decide)]; exact hnd, by omega, hpres⟩
  refine ⟨k₀, _, k₂, d', nd, hboot, hr, rfl, hall, hp, hq,
    hall.2.load 0 1 d' nd 0 0 (by decide) hp hq fun h => ?_⟩
  have := (htop₁.step hopen id trivial).exec_safe hp.live h.1.1
  have hphys : PHYSTOP = 57344 := rfl
  have := h.1.2
  omega

end Kernel

end Xv6
