import Xv6.Kernel.Boot

/-!
# Exclusive ownership without shared memory

In a run in which nobody calls `shm_open`, every page is in at most one place: on the free list once,
or one kernel stack, one page of a directory, one user mapping or one pipe.
-/

namespace Xv6

namespace Kernel

open Fallible Count TransitionSystem

variable {k k' : Kernel} {p : Slot} {a : Action}

/-- Every page is in at most one place, so that no page is on the free list twice and the page that
`kalloc` would return is not in use. -/
structure Exclusive (k : Kernel) : Prop where
  places_le : ∀ x, k.places x ≤ 1
  nodup : k.mem.freelist.Nodup
  kalloc : ∀ y m, k.mem.kalloc = (some y, m) →
    (∀ p, k.uses p y = 0) ∧ k.kpgdir.refs y = 0 ∧ k.pipeUses y = 0

/-- No process has a shared page, and all user space is below the kernel. -/
structure Private (k : Kernel) : Prop where
  sound : k.Sound
  every : k.Every (· ≠ .unused) fun sz _ shm => shm = ⟨none, 0⟩ ∧ sz < KERNBASE * PGSIZE

lemma Private.shm (h : k.Private) (hp : k.Live p) : (k.mm p).shm = ⟨none, 0⟩ := (h.every p hp).1

/-- Without shared pages in processes there are none at all. -/
lemma Private.shmRef (h : k.Private) (x : Nat) : Mem.shmRef k.mem.shared x = 0 := by
  by_contra hx
  have hsum : ∑ p, k.maps p x ≠ 0 := by
    have := h.sound.owned.refs_le x
    omega
  obtain ⟨p, -, hp⟩ := Finset.exists_ne_zero_of_sum_ne_zero hsum
  unfold Kernel.maps at hp
  split_ifs at hp with hlive
  · unfold Mm.maps at hp
    cases hd : (k.mm p).pgdir with
    | none =>
      rw [hd] at hp
      exact hp rfl
    | some d =>
      rw [hd, Option.elim_some] at hp
      obtain ⟨v, hv, hpres, rfl⟩ := PageDir.exists_of_userRefs_ne_zero hp
      have hhit := (h.sound.owned.mm p hlive).shared_only d hd v hv hpres hx
      rw [h.shm hlive] at hhit
      exact hhit.1 rfl
  · exact hp rfl

lemma Private.exclusive (h : k.Private) : k.Exclusive := by
  have hone : ∀ x, k.places x ≤ 1 := fun x => h.sound.owned.places_le_one (h.shmRef x)
  refine ⟨hone, List.nodup_iff_count_le_one.mpr h.sound.owned.free_le_one, fun y m hk => ?_⟩
  have hfree := Mem.free_kalloc hk y
  rw [one, if_pos rfl] at hfree
  have hy := hone y
  unfold places at hy
  refine ⟨fun p => ?_, by omega, by omega⟩
  have := uses_le_places k p y
  omega

/-- Any action but `shm_open` is safe. -/
lemma Private.safe (h : k.Private) (ha : ∀ p, a ≠ .shmOpen p)
    (hlive : ∀ p, a.caller = some p → k.Live p) : k.Safe a := by
  cases a with
  | fork p => exact Or.inl (by rw [h.shm (hlive p rfl)])
  | exec p file argv =>
    intro hidx
    rw [h.shm (hlive p rfl)] at hidx
    exact absurd rfl hidx
  | wait p => exact fun z _ d _ v _ _ hx => absurd (h.shmRef _) hx
  | sbrk p n => exact ⟨by rw [h.shm (hlive p rfl)], (h.every p (hlive p rfl)).2⟩
  | fault p addr =>
    show (k.mm p).shm.idx = none
    rw [h.shm (hlive p rfl)]
  | munmap p start n => exact fun _ d _ w _ _ => h.shmRef _
  | shmOpen p => exact absurd rfl (ha p)
  | shmClose p =>
    show (k.mm p).shm.va < KERNBASE
    rw [h.shm (hlive p rfl), KERNBASE_eq]
    decide
  | _ => trivial

/-- The new image of `exec` lies below the kernel. -/
lemma Execed.size {r : Int} (he : Execed p k r k')
    (h : k.Every (· ≠ .unused) fun sz _ shm => shm = ⟨none, 0⟩ ∧ sz < KERNBASE * PGSIZE)
    (hp : k.Live p) :
    k'.Every (· ≠ .unused) fun sz _ shm => shm = ⟨none, 0⟩ ∧ sz < KERNBASE * PGSIZE := by
  cases he with
  | noFile => exact h
  | failed image => exact h
  | loaded image pgdir freevm =>
    exact h.setMm ⟨(h p hp).1, (Program.execImage_image _ image _ _ rfl).lt⟩

lemma Sbrked.size {n : Int32} (hb : Sbrked p n k k')
    (h : k.Every (· ≠ .unused) fun sz _ shm => shm = ⟨none, 0⟩ ∧ sz < KERNBASE * PGSIZE)
    (hp : k.Live p) :
    k'.Every (· ≠ .unused) fun sz _ shm => shm = ⟨none, 0⟩ ∧ sz < KERNBASE * PGSIZE := by
  obtain ⟨hshm, hsz⟩ := h p hp
  cases hb with
  | zero => exact h
  | @grown d d' sz m pos pgdir alloc =>
    refine h.setMm ⟨hshm, ?_⟩
    dsimp only
    split_ifs with h0
    · exact hsz
    · rcases allocuvm_allocated _ alloc with ⟨hmax, hnew, -⟩ | ⟨hzero, -⟩
      · change sz = _ at hmax
        rw [hmax]
        exact Nat.max_lt.mpr ⟨hsz, hnew⟩
      · exact absurd hzero h0
  | @shrunk d d' sz m neg pgdir dealloc =>
    refine h.setMm ⟨hshm, ?_⟩
    dsimp only
    split_ifs with h0
    · exact hsz
    · have hmin : sz = _ := (deallocuvm_emptied _ dealloc).1
      rw [hmin]
      exact lt_of_le_of_lt (Nat.min_le_left _ _) hsz

/-- A step other than `shm_open` gives no process a shared page. -/
lemma Private.step (h : k.Private) (hs : Step (fun a => ∀ p, a ≠ .shmOpen p) k a k') :
    k'.Private := by
  have hlive : ∀ p, a.caller = some p → k.Live p := by
    intro p hp
    simp [Live, hs.2.1.1 p hp]
  refine ⟨hs.outcome.sound h.sound (h.safe hs.1 hlive), ?_⟩
  have ha := hs.1
  cases hs.outcome with
  | harmless hh => exact h.every.keep steady_live hh.only
  | fork live hf => exact hf.every steady_live h.every fun _ _ _ => h.every _ live
  | exec live _ he => exact he.size h.every live
  | wait live hw => exact hw.every steady_live h.every
  | sbrk live hb => exact hb.size h.every live
  | mmap live hm =>
    cases hm with
    | refused => exact h.every
    | mapped => exact h.every.setDir (h.every _ live)
  | munmap live hm =>
    cases hm with
    | refused => exact h.every
    | unmapped => exact h.every.setDir (h.every _ live)
  | fault live hf =>
    cases hf with
    | handled => exact h.every.setDir (h.every _ live)
    | exited _ _ harmless _ =>
      exact Every.keep steady_live (h.every.setDir (h.every _ live)) harmless.only
  | @shmOpen p _ live ho => exact absurd rfl (ha p)
  | @shmClose p _ live hc =>
    cases hc with
    | same => exact h.every
    | notFound => exact h.every
    | closed va =>
      rw [h.shm live] at va
      exact absurd rfl va

lemma Booted.isPrivate (h : k.Booted) : k.Private := by
  refine ⟨h.sound, fun q hq => ?_⟩
  obtain rfl := h.only q hq
  refine ⟨h.shm, ?_⟩
  rw [h.sz, KERNBASE_eq]
  decide

/-- In a run from boot in which nobody calls `shm_open`, every page is in at most one place in every
state. -/
theorem exclusive_without_shmOpen {l : Layout} {ncpu : Nat} {initcode : List UInt8}
    {bytes : Nat → Nat → UInt8} {k₀ : Kernel} {tr : List (Kernel × Action)}
    (hboot : boot l ncpu initcode bytes = .ok k₀)
    (hr : Run (Step fun a => ∀ p, a ≠ .shmOpen p) k₀ tr k) : AllStates Exclusive tr k :=
  (hr.invariant (fun _ _ _ h hs => h.step hs) (boot_ensures k₀ hboot).isPrivate).mono
    fun _ h => h.exclusive

/-- The first process is run, and gives its only page back. -/
theorem exclusive_after_munmap :
    ∃ k₀ tr k, boot smallLayout 1 [] (fun _ _ => 0) = .ok k₀ ∧
      Run (Step fun a => ∀ p, a ≠ .shmOpen p) k₀ tr k ∧ tr.length = 2 ∧ AllStates Exclusive tr k := by
  obtain ⟨k₀, hboot⟩ := boot_smallLayout
  have hb := boot_ensures k₀ hboot
  obtain ⟨d, hd, hpres, -⟩ := hb.pgdir
  have hrun := hb.step_run (fun a => ∀ p, a ≠ .shmOpen p) fun p hp => by cases hp
  have howned := (hb.isPrivate.step hrun).sound.owned
  have hrange : RangeOk (0 : UInt32).toNat (4096 : Int32).toInt := by
    refine ⟨by decide, by decide, ?_⟩
    rw [KERNBASE_eq]
    decide
  obtain ⟨m', hmunmap⟩ := howned.step_munmap (fun a => ∀ p, a ≠ .shmOpen p) (v := 0)
    (started_running k₀) hd (by rw [KERNBASE_eq]; decide) hpres (fun p hp => by cases hp) hrange
    (by decide) (by decide)
  have hr := (Run.refl.tail hrun).tail hmunmap
  exact ⟨k₀, _, _, hboot, hr, rfl, exclusive_without_shmOpen hboot hr⟩

end Kernel

end Xv6
