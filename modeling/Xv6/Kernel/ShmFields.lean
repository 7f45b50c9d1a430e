import Xv6.Kernel.Shared

/-!
# The fields shm_va and shm_idx

The two fields of a process describe its shared page: where it is mapped, and which entry of the table
of shared pages it has. `exec` replaces the page table under them, and `munmap` removes the page without
looking at them. Nothing else lets them go out of step.
-/

namespace Xv6

namespace Kernel

open Fallible Count TransitionSystem

variable {k k' : Kernel} {p q : Slot} {a : Action} {d d' : PageDir} {sh sh' : Fin N_SHARED_PAGES → ShmEntry}
  {sz sz' : Nat} {pgdir : Option PageDir} {shm : ShmField}

/-- Either both fields are clear, or the page at `shm_va` is writable by the user and is the one
registered at `shm_idx`. -/
structure AgreeAt (sh : Fin N_SHARED_PAGES → ShmEntry) (_sz : Nat) (pgdir : Option PageDir)
    (shm : ShmField) : Prop where
  both : shm.va ≠ 0 ↔ shm.idx ≠ none
  mapped : shm.va ≠ 0 → ∃ d i, pgdir = some d ∧ shm.idx = some i ∧
    (d.entry shm.va).present = true ∧ (d.entry shm.va).writable = true ∧
    (d.entry shm.va).user = true ∧ (sh i).refCnt ≠ 0 ∧ (sh i).pa = (d.entry shm.va).ppn

/-- The fields of every process agree with its page table. -/
def Agree (k : Kernel) : Prop := k.Every (· ≠ .unused) (AgreeAt k.mem.shared)

/-- Shared pages at the top of address spaces, with fields that agree. -/
structure Agreeing (k : Kernel) : Prop extends Topped k where
  agree : k.Agree

lemma AgreeAt.clear (sh : Fin N_SHARED_PAGES → ShmEntry) (sz : Nat) (pgdir : Option PageDir) :
    AgreeAt sh sz pgdir ⟨none, 0⟩ := ⟨by simp, by simp⟩

lemma AgreeAt.idx (h : AgreeAt sh sz pgdir shm) (hva : shm.va = 0) : shm = ⟨none, 0⟩ := by
  have hidx : shm.idx = none := by
    by_contra hne
    exact h.both.mpr hne hva
  cases shm
  simp_all

/-- The page at `shm_va` is mapped as before. -/
lemma AgreeAt.congr (h : AgreeAt sh sz (some d) shm)
    (he : shm.va ≠ 0 → (d.entry shm.va).present = true → d'.entry shm.va = d.entry shm.va) :
    AgreeAt sh sz' (some d') shm := by
  refine ⟨h.both, fun hva => ?_⟩
  obtain ⟨d₁, i, hd, hidx, hpres, hrest⟩ := h.mapped hva
  cases hd
  refine ⟨d', i, rfl, hidx, ?_⟩
  rw [he hva hpres]
  exact ⟨hpres, hrest⟩

/-- The entries in use keep their pages. -/
lemma AgreeAt.shared (h : AgreeAt sh sz pgdir shm)
    (hsh : ∀ i, (sh i).refCnt ≠ 0 → (sh' i).refCnt ≠ 0 ∧ (sh' i).pa = (sh i).pa) :
    AgreeAt sh' sz pgdir shm := by
  refine ⟨h.both, fun hva => ?_⟩
  obtain ⟨d, i, hd, hidx, hpres, hw, hu, hcnt, hpa⟩ := h.mapped hva
  obtain ⟨hcnt', hpa'⟩ := hsh i hcnt
  exact ⟨d, i, hd, hidx, hpres, hw, hu, hcnt', hpa'.trans hpa⟩

/-- A page that is still registered is so at the same index, if no entry was given another page. -/
lemma Agree.of_cleared (h : k.Topped) (h' : k'.Topped)
    (hc : Mem.Cleared k.mem.shared k'.mem.shared)
    (he : k'.Every (· ≠ .unused) (AgreeAt k.mem.shared)) : k'.Agree := by
  intro q hq
  refine ⟨(he q hq).both, fun hva => ?_⟩
  obtain ⟨d, i, hd, hidx, hpres, hw, hu, hcnt, hpa⟩ := (he q hq).mapped hva
  have hreg : Mem.shmRef k'.mem.shared (d.entry (k'.mm q).shm.va).ppn ≠ 0 :=
    (h'.sound.owned.mm q hq).shm_shared d hd (by simp [hidx]) (h'.top q hq).va_lt hpres
  obtain ⟨j, hj, hcnt'⟩ := Mem.exists_of_shmRef_ne_zero hreg
  have hs := h.sound.owned.sharedOk
  have hne : (k.mem.shared i).pa ≠ 0 := fun h0 => hcnt ((hs.zero i).mpr h0)
  have hji : (k.mem.shared i).pa = (k.mem.shared j).pa := by
    rcases hc j with hsame | hzero
    · rw [← hsame, hj, hpa]
    · rw [hj, ← hpa] at hzero
      exact absurd hzero hne
  obtain rfl := hs.distinct i j hji hne
  exact ⟨d, i, hd, hidx, hpres, hw, hu, hcnt', hj⟩

/-! ### System calls -/

/-- `exec` does not succeed while the caller has a shared page, and `munmap` does not get to it. -/
def KeepsAgree (k : Kernel) : Action → Prop
  | .exec p file argv => (k.mm p).shm.va ≠ 0 → ∀ k', exec p file argv k ≠ .ok (0, k')
  | .munmap p start n => RangeOk start.toNat n.toInt → ∀ d, (k.mm p).pgdir = some d →
      (k.mm p).shm.va ≠ 0 → ¬ Visited d (start.toNat / PGSIZE)
        (rangePages start.toNat n.toInt.toNat) (k.mm p).shm.va
  | _ => True

/-- The system calls on shared pages and those that change the page table under them. -/
def Action.Mapping : Action → Prop
  | .shmOpen _ | .shmGet _ | .shmClose _ | .fork _ | .exec _ _ _ | .mmap _ _ _ | .munmap _ _ _
  | .exit _ => True
  | a => a.Scheduling

lemma Action.Mapping.not_resizes (h : a.Mapping) : ¬ a.Resizes := by
  cases a <;> simp_all [Action.Mapping, Action.Scheduling, Action.Resizes]

/-- The only registered page of a process is at `shm_va`. -/
lemma Agreeing.keepsCounts (h : k.Agreeing) (ha : a.Mapping) (hp : ∀ p, a.caller = some p → k.Live p)
    (hc : k.KeepsAgree a) : k.KeepsCounts a := by
  cases a with
  | munmap p start n =>
    intro hrange d hd w hvis hpres
    by_contra hreg
    have hw : w < KERNBASE := by
      obtain ⟨h1, h2, -⟩ := hvis
      rcases range_le hrange with hle | hzero <;> omega
    obtain ⟨hidx, rfl⟩ := (h.sound.owned.mm p (hp p rfl)).shared_only d hd w hw hpres hreg
    exact hc hrange d hd ((h.agree p (hp p rfl)).both.mpr hidx) hvis
  | wait p => exact absurd ha id
  | _ => trivial

lemma Forked.cleared (hf : Forked p k k') (h : k.Topped) (hp : k.Live p) :
    Mem.Cleared k.mem.shared k'.mem.shared := by
  cases hf with
  | full => exact .of_eq rfl
  | noStack => exact .of_eq rfl
  | @noCopy _ _ _ y d m₁ m₂ m _ _ kalloc pgdir copyuvm kfree =>
    have hready := (h.sound.owned.copyReady hp pgdir).kalloc kalloc
    have hlost : m₁.Lost m₂ := (copyuvm_ensures hready _ copyuvm).2 rfl (h.fork_safe hp)
    obtain ⟨-, -, hshared, -⟩ := Mem.kfree_ensures _ _ _ kfree
    intro i
    left
    show (m.shared i).pa = _
    rw [hshared, hlost.pa i, Mem.shared_kalloc kalloc]
  | @spawned _ _ _ y d nd m₁ m _ _ _ kalloc pgdir copyuvm _ files =>
    have hready := (h.sound.owned.copyReady hp pgdir).kalloc kalloc
    have hcopied : Copied (k.mm p).shm d m₁ nd m := (copyuvm_ensures hready _ copyuvm).1 nd rfl
    intro i
    left
    rw [files.only.shared]
    show (m.shared i).pa = _
    rw [hcopied.copying.pa i, Mem.shared_kalloc kalloc]

/-- The child has the shared page of its parent. -/
lemma Forked.agree (hf : Forked p k k') (h : k.Agreeing) (hp : k.Live p) :
    k'.Every (· ≠ .unused) (AgreeAt k.mem.shared) := by
  refine hf.every steady_live h.agree fun {y d nd m₁ m} kalloc hd hcopy => ?_
  have hready := (h.sound.owned.copyReady hp hd).kalloc kalloc
  have hcopied : Copied (k.mm p).shm d m₁ nd m := (copyuvm_ensures hready _ hcopy).1 nd rfl
  have hagree := h.agree p hp
  have hlt := (h.top p hp).va_lt
  have hidx := hagree.both
  rw [hd] at hagree
  exact hagree.congr fun hva hpres => (hcopied.entry _ hlt).shared hpres ⟨hidx.mp hva, rfl⟩

lemma Execed.agree {file : Option Reads} {argv : List (List UInt8)} {r : Int}
    (he : Execed p k r k') (h : k.Agreeing) (hp : k.Live p) (hr : exec p file argv k = .ok (r, k'))
    (hc : k.KeepsAgree (.exec p file argv)) :
    k'.Every (· ≠ .unused) (AgreeAt k.mem.shared) ∧ Mem.Cleared k.mem.shared k'.mem.shared := by
  have hs := h.sound.owned.sharedOk
  have hfree := h.sound.owned.freeOk
  cases he with
  | noFile => exact ⟨h.agree, .of_eq rfl⟩
  | @failed _ _ m image =>
    have hlost : k.mem.Lost m := (Program.execImage_ensures hfree _ image).1 rfl
    exact ⟨h.agree, fun i => Or.inl (hlost.pa i)⟩
  | @loaded _ _ d nd sz m₁ m image pgdir freevm =>
    have hva : (k.mm p).shm.va = 0 := by
      by_contra hne
      exact hc hne _ hr
    have hloaded := (Program.execImage_ensures hfree _ image).2 nd sz rfl
    have hfreed := freevm_ensures (hloaded.shared ▸ hs) _ freevm
    have hclear := (h.agree p hp).idx hva
    refine ⟨Every.setMm h.agree ?_, ?_⟩
    · dsimp only
      rw [hclear]
      exact .clear _ _ _
    · have hcleared := hfreed.cleared
      rw [hloaded.shared] at hcleared
      exact hcleared

lemma Mmapped.agree {start : UInt32} {n : Int32} (hm : Mmapped p start n k k') (h : k.Agreeing)
    (hp : k.Live p) :
    k'.Every (· ≠ .unused) (AgreeAt k.mem.shared) ∧ k'.mem.shared = k.mem.shared := by
  cases hm with
  | refused => exact ⟨h.agree, rfl⟩
  | mapped range pgdir pages =>
    obtain ⟨hmoved, hentry⟩ := mmapPages_range range _ pages
    have hagree := h.agree p hp
    rw [pgdir] at hagree
    refine ⟨Every.setDir h.agree (hagree.congr fun _ hpres => ?_), hmoved.shared⟩
    refine (hentry _).resolve_right fun hno => ?_
    rw [hno.1] at hpres
    cases hpres

lemma Munmapped.agree {start : UInt32} {n : Int32} (hm : Munmapped p start n k k') (h : k.Agreeing)
    (hp : k.Live p) (hc : k.KeepsAgree (.munmap p start n)) :
    k'.Every (· ≠ .unused) (AgreeAt k.mem.shared) ∧ k'.mem.shared = k.mem.shared := by
  cases hm with
  | refused => exact ⟨h.agree, rfl⟩
  | unmapped range pgdir pages =>
    have hun := munmapPages_range range _ pages
    have hagree := h.agree p hp
    rw [pgdir] at hagree
    exact ⟨Every.setDir h.agree (hagree.congr fun hva _ => hun.rest _ (hc range _ pgdir hva)),
      hun.moved.shared⟩

lemma ShmOpened.agree (ho : ShmOpened p k k') (h : k.Agreeing) (hp : k.Live p) : k'.Agree := by
  cases ho with
  | same => exact h.agree
  | @failed y v d d' m₁ m va kalloc pgdir mapped fails =>
    have hshared : m.shared = k.mem.shared := (mapLastPage_moved kalloc mapped).shared
    show Every _ (AgreeAt m.shared) _
    rw [hshared]
    refine Every.setDir h.agree ?_
    rw [(h.agree p hp).idx va]
    exact .clear _ _ _
  | @opened y v d d' m₁ m₂ m i va kalloc pgdir mapped ne shmAdd =>
    have hmoved := mapLastPage_moved kalloc mapped
    have hlast : MappedLast ⟨true, true⟩ y d m₁ v d' m₂ :=
      (mapLastPage_spec (fun _ => mem_tables) mapped).resolve_left fun h => ne h.1
    have hentry : d'.entry v = (⟨true, true⟩ : Perm).pte y := by rw [hlast.entry v, if_pos rfl]
    have hy : k.mem.free y ≠ 0 := by
      rw [Mem.free_kalloc kalloc, one, if_pos rfl]
      omega
    have hy0 : y ≠ 0 := (h.sound.owned.inRange y (by unfold places; omega)).ne_zero
    have hs₂ : Mem.SharedOk m₂.shared := hmoved.shared ▸ h.sound.owned.sharedOk
    obtain ⟨hs, hpa, -, -⟩ := Mem.shmAdd_some hs₂ hy0 shmAdd
    have hkeep : k.Every (· ≠ .unused) (AgreeAt m.shared) := fun q hq =>
      (h.agree q hq).shared fun j hj => hmoved.shared ▸ Mem.shmAdd_keeps shmAdd j (hmoved.shared ▸ hj)
    refine Every.setMm hkeep ⟨iff_of_true ne (by simp), fun _ => ⟨d', i, rfl, rfl, ?_⟩⟩
    dsimp only
    rw [hentry]
    exact ⟨rfl, rfl, rfl, fun h0 => hy0 (hpa ▸ (hs.zero i).mp h0), hpa⟩

lemma ShmClosed.agree (hc : ShmClosed p k k') (h : k.Agreeing) :
    k'.Every (· ≠ .unused) (AgreeAt k.mem.shared) ∧ Mem.Cleared k.mem.shared k'.mem.shared := by
  cases hc with
  | same => exact ⟨h.agree, .of_eq rfl⟩
  | notFound => exact ⟨h.agree, .of_eq rfl⟩
  | @closed d m va pgdir table remove =>
    have hs := h.sound.owned.sharedOk
    have hreg : Mem.shmRef k.mem.shared (d.entry (k.mm p).shm.va).ppn ≠ 0 := by
      intro hzero
      rw [Mem.shmRemove_of_shmRef_eq_zero hs hzero] at remove
      cases remove
    obtain ⟨-, -, -, -, hcleared, -⟩ := Mem.shmRemove_ensures hs hreg _ remove
    exact ⟨Every.setMm h.agree (.clear _ _ _), hcleared⟩

lemma Agreeing.step (h : k.Agreeing) (hs : Step Action.Mapping k a k') (hc : k.KeepsAgree a) :
    k'.Agreeing := by
  have hlive : ∀ p, a.caller = some p → k.Live p := fun p hp => live_of_step hs hp
  have htop : k'.Topped :=
    h.toTopped.step hs hs.1.not_resizes (h.keepsCounts hs.1 hlive hc)
  refine ⟨htop, ?_⟩
  have hops := hs.1
  cases hs.outcome with
  | harmless hh =>
    exact .of_cleared h.toTopped htop (.of_eq hh.only.shared) (h.agree.keep steady_live hh.only)
  | fork live hf => exact .of_cleared h.toTopped htop (hf.cleared h.toTopped live) (hf.agree h live)
  | exec live result he =>
    obtain ⟨hevery, hcleared⟩ := he.agree h live result hc
    exact .of_cleared h.toTopped htop hcleared hevery
  | wait live hw => exact absurd hops id
  | sbrk live hb => exact absurd hops id
  | mmap live hm =>
    obtain ⟨hevery, hshared⟩ := hm.agree h live
    exact .of_cleared h.toTopped htop (.of_eq hshared) hevery
  | munmap live hm =>
    obtain ⟨hevery, hshared⟩ := hm.agree h live hc
    exact .of_cleared h.toTopped htop (.of_eq hshared) hevery
  | fault live hf => exact absurd hops id
  | shmOpen live ho => exact ho.agree h live
  | shmClose live hc =>
    obtain ⟨hevery, hcleared⟩ := hc.agree h
    exact .of_cleared h.toTopped htop hcleared hevery

/-! ### The two system calls that break the agreement -/

/-- After `exec` nothing is mapped at the old `shm_va`. -/
lemma Execed.keepsAgree {file : Option Reads} {argv : List (List UInt8)} {r : Int}
    (he : Execed p k r k') (h : k.Agreeing) (hp : k.Live p) (hr : exec p file argv k = .ok (r, k'))
    (hP : k'.Agree) : k.KeepsAgree (.exec p file argv) := by
  intro hva k'' hr'
  rw [hr] at hr'
  cases hr'
  generalize hzero : (0 : Int) = r at he
  cases he with
  | noFile => cases hzero
  | failed => cases hzero
  | @loaded _ _ d nd sz m₁ m image pgdir freevm =>
    have hmm : Kernel.mm { k.setMm p { k.mm p with pgdir := some nd, sz := sz } with mem := m } p =
        { k.mm p with pgdir := some nd, sz := sz } := Function.update_self ..
    have hagree := hP p hp
    rw [hmm] at hagree
    obtain ⟨d₂, -, hd₂, -, hpres, -⟩ := hagree.mapped hva
    cases hd₂
    change (PageDir.entry nd (k.mm p).shm.va).present = true at hpres
    rw [((h.top p hp).va hva).2, h.image_top image] at hpres
    cases hpres

/-- After `munmap` nothing is mapped at a `shm_va` that it got to. -/
lemma Munmapped.keepsAgree {start : UInt32} {n : Int32} (hm : Munmapped p start n k k')
    (hp : k.Live p) (hP : k'.Agree) : k.KeepsAgree (.munmap p start n) := by
  intro hrange d hd hva hvis
  cases hm with
  | refused hno => exact absurd hrange hno
  | @unmapped d₁ d' _ m _ pgdir pages =>
    rw [pgdir] at hd
    cases hd
    have hzero := (munmapPages_range hrange _ pages).visited _ hvis
    have hmm : (k.setDir p d' m).mm p = { k.mm p with pgdir := some d' } := Function.update_self ..
    have hagree := hP p hp
    rw [hmm] at hagree
    obtain ⟨d₂, -, hd₂, -, hpres, -⟩ := hagree.mapped hva
    cases hd₂
    change (PageDir.entry d' _).present = true at hpres
    rw [hzero] at hpres
    cases hpres

lemma Booted.agreeing (h : k.Booted) : k.Agreeing := by
  refine ⟨h.topped, fun q hq => ?_⟩
  obtain rfl := h.only q hq
  rw [h.shm]
  exact .clear _ _ _

/-- In a run from boot the fields agree with the page tables in all states exactly if no `exec` of a
process with a shared page succeeds and no `munmap` gets to the shared page of its caller. -/
theorem agree_iff_keepsAgree {l : Layout} {ncpu : Nat} {initcode : List UInt8}
    {bytes : Nat → Nat → UInt8} {k₀ : Kernel} {tr : List (Kernel × Action)}
    (hboot : boot l ncpu initcode bytes = .ok k₀) (hr : Run (Step Action.Mapping) k₀ tr k) :
    AllStates Agree tr k ↔ AllSteps KeepsAgree tr := by
  refine hr.allStates_iff (I := Agreeing) (fun _ h => h.agree) (fun _ _ _ h hc hs => h.step hs hc)
    (fun k a k' h hs hP => ?_) (boot_ensures k₀ hboot).agreeing
  obtain ⟨r, hperform⟩ := hs.2.2
  cases a with
  | exec p file argv =>
    exact (exec_ensures _ hperform).keepsAgree h (live_of_step hs rfl) hperform hP
  | munmap p start n => exact (munmap_ensures _ hperform).keepsAgree (live_of_step hs rfl) hP
  | _ => trivial

/-- The first process opens a shared page. -/
theorem agree_after_shmOpen :
    ∃ k₀ tr k, boot smallLayout 1 [] (fun _ _ => 0) = .ok k₀ ∧ Run (Step Action.Mapping) k₀ tr k ∧
      tr.length = 2 ∧ AllSteps KeepsAgree tr ∧ AllStates Agree tr k := by
  obtain ⟨k₀, tr, k, hboot, hr, hlen, hall⟩ := exists_run_shmOpen Action.Mapping KeepsAgree
    (fun _ => ⟨trivial, trivial⟩) fun _ _ => ⟨trivial, trivial⟩
  exact ⟨k₀, tr, k, hboot, hr, hlen, hall, (agree_iff_keepsAgree hboot hr).mpr hall⟩

/-- The first process opens a shared page and unmaps it: `shm_va` stays. -/
theorem shm_va_kept_by_munmap :
    ∃ k₀ tr k, boot smallLayout 1 [] (fun _ _ => 0) = .ok k₀ ∧ Run (Step Action.Mapping) k₀ tr k ∧
      tr.length = 3 ∧ ¬ k.Agree := by
  obtain ⟨k₀, hboot⟩ := boot_smallLayout
  have hb := boot_ensures k₀ hboot
  have hrun := hb.step_run Action.Mapping trivial
  have hstarted := hb.agreeing.step hrun trivial
  obtain ⟨k₁, d, hopen, htable, hd, hpres, hreg⟩ := hb.step_shmOpen Action.Mapping
    hstarted.sound.owned trivial
  have hopened := hstarted.step hopen trivial
  obtain ⟨k₂, hmunmap⟩ := hopened.toTopped.step_munmap Action.Mapping
    (htable ▸ started_running k₀) hd hpres trivial
  refine ⟨k₀, _, k₂, hboot, ((Run.refl.tail hrun).tail hopen).tail hmunmap, rfl, fun hP => ?_⟩
  obtain ⟨r, hperform⟩ := hmunmap.2.2
  have hlive : k₁.Live k₀.initproc := live_of_step hmunmap rfl
  -- the page is registered, so it is the one at `shm_va`
  have hlt : KERNBASE - 1 < KERNBASE := by
    have := KERNBASE_pos
    omega
  obtain ⟨hidx, htop⟩ := (hopened.sound.owned.mm _ hlive).shared_only d hd _ hlt hpres hreg
  refine (munmap_ensures _ hperform).keepsAgree hlive hP topAddr_range.1 d hd
    ((hopened.agree _ hlive).both.mpr hidx) ?_
  rw [← htop]
  exact visited_topAddr hpres

end Kernel

end Xv6
