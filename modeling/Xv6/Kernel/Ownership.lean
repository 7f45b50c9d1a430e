import Xv6.Kernel.State

/-!
# Who owns a page

Every page managed by `kalloc` is counted over the places it can be in: the free list, the kernel
stack, page tables and user mappings of each process, the kernel's own page directory, and the pipe
buffers. The invariant `Owned` bounds this count: by one, or, for a page in the table of shared pages,
by its reference count, all of it user mappings at the `shm_va` of processes.
-/

namespace Xv6

open Fallible Count

/-! ### Counting places -/

namespace Mm

variable {u : Mm} {x : Nat}

/-- One when the page is the kernel stack. -/
def stackUses (u : Mm) (x : Nat) : Nat := u.kstack.elim 0 fun y => one y x

/-- How often a page serves a process: as its kernel stack, in its page tables, or mapped. -/
def uses (u : Mm) (x : Nat) : Nat := u.stackUses x + u.pgdir.elim 0 fun d => d.refs x

/-- How often the process maps a page. -/
def maps (u : Mm) (x : Nat) : Nat := u.pgdir.elim 0 fun d => d.userRefs x

lemma maps_le_uses (u : Mm) (x : Nat) : u.maps x ≤ u.uses x := by
  unfold maps uses
  cases u.pgdir with
  | none =>
    rw [Option.elim_none]
    exact Nat.zero_le _
  | some d =>
    rw [Option.elim_some, Option.elim_some, PageDir.refs]
    omega

/-- The directory of a process is well formed; it maps shared pages at `shm_va` only, and at `shm_va`
shared pages only. -/
structure Ok (sh : Fin N_SHARED_PAGES → ShmEntry) (u : Mm) : Prop where
  dir : ∀ d, u.pgdir = some d → d.Ok
  shared_only : ∀ d, u.pgdir = some d → ∀ v < KERNBASE, (d.entry v).present = true →
    Mem.shmRef sh (d.entry v).ppn ≠ 0 → u.shm.Hits v
  shm_shared : ∀ d, u.pgdir = some d → u.shm.idx ≠ none → u.shm.va < KERNBASE →
    (d.entry u.shm.va).present = true → Mem.shmRef sh (d.entry u.shm.va).ppn ≠ 0

/-- A registered page is mapped at most once by a process. -/
lemma Ok.userRefs_le_one {sh : Fin N_SHARED_PAGES → ShmEntry} {d : PageDir} (hu : u.Ok sh)
    (hd : u.pgdir = some d) (hx : Mem.shmRef sh x ≠ 0) : d.userRefs x ≤ 1 := by
  by_cases hva : u.shm.va < KERNBASE
  · have hle : d.userRefs x ≤ (d.entry u.shm.va).maps x := by
      unfold PageDir.userRefs
      rw [Finset.sum_eq_single_of_mem u.shm.va (Finset.mem_range.mpr hva)]
      intro w hw hne
      by_contra hmaps
      obtain ⟨hp, rfl⟩ := Pte.maps_ne_zero.mp hmaps
      exact hne (hu.shared_only d hd w (Finset.mem_range.mp hw) hp hx).2
    refine hle.trans ?_
    unfold Pte.maps one
    split_ifs <;> omega
  · have hzero : d.userRefs x = 0 := by
      by_contra hne
      obtain ⟨w, hw, hp, rfl⟩ := PageDir.exists_of_userRefs_ne_zero hne
      have := (hu.shared_only d hd w hw hp hx).2
      omega
    omega

lemma Ok.maps_le_one {sh : Fin N_SHARED_PAGES → ShmEntry} (hu : u.Ok sh)
    (hx : Mem.shmRef sh x ≠ 0) : u.maps x ≤ 1 := by
  unfold maps
  cases hd : u.pgdir with
  | none =>
    rw [Option.elim_none]
    exact Nat.zero_le _
  | some d =>
    rw [Option.elim_some]
    exact hu.userRefs_le_one hd hx

end Mm

namespace Kernel

variable {k k' : Kernel} {p q : Slot} {d d' nd : PageDir} {m m' : Mem} {u : Mm} {v x y : Nat}

/-- The slot is in use. -/
def Live (k : Kernel) (p : Slot) : Prop := (k.table p).state ≠ .unused

instance (k : Kernel) (p : Slot) : Decidable (k.Live p) := inferInstanceAs (Decidable (_ ≠ _))

def uses (k : Kernel) (p : Slot) (x : Nat) : Nat := if k.Live p then (k.mm p).uses x else 0

def maps (k : Kernel) (p : Slot) (x : Nat) : Nat := if k.Live p then (k.mm p).maps x else 0

/-- One when the page holds an open pipe. -/
def pipeUses (k : Kernel) (x : Nat) : Nat := ((k.pipe x).readopen || (k.pipe x).writeopen).toNat

/-- The number of places a page is in. -/
def places (k : Kernel) (x : Nat) : Nat :=
  k.mem.free x + ∑ p, k.uses p x + k.kpgdir.refs x + k.pipeUses x

/-- The invariant of page ownership. -/
structure Owned (k : Kernel) : Prop where
  places_le : ∀ x, k.places x ≤ max 1 (Mem.shmRef k.mem.shared x)
  refs_le : ∀ x, Mem.shmRef k.mem.shared x ≤ ∑ p, k.maps p x
  sharedOk : Mem.SharedOk k.mem.shared
  inRange : ∀ x, k.places x ≠ 0 → k.mem.InRange x
  mm : ∀ p, k.Live p → (k.mm p).Ok k.mem.shared

lemma uses_live (hp : k.Live p) (x : Nat) : k.uses p x = (k.mm p).uses x := if_pos hp

lemma maps_live (hp : k.Live p) (x : Nat) : k.maps p x = (k.mm p).maps x := if_pos hp

lemma maps_le_uses (k : Kernel) (p : Slot) (x : Nat) : k.maps p x ≤ k.uses p x := by
  unfold maps uses
  split_ifs
  · exact Mm.maps_le_uses _ _
  · exact le_rfl

lemma uses_dir (hp : k.Live p) (hd : (k.mm p).pgdir = some d) (x : Nat) :
    k.uses p x = (k.mm p).stackUses x + d.refs x := by
  rw [uses_live hp, Mm.uses, hd, Option.elim_some]

lemma maps_dir (hp : k.Live p) (hd : (k.mm p).pgdir = some d) (x : Nat) :
    k.maps p x = d.userRefs x := by
  rw [maps_live hp, Mm.maps, hd, Option.elim_some]

lemma uses_le_places (k : Kernel) (p : Slot) (x : Nat) : k.uses p x ≤ ∑ q, k.uses q x :=
  Finset.single_le_sum (f := fun q => k.uses q x) (fun _ _ => Nat.zero_le _) (Finset.mem_univ p)

lemma maps_le_sum (k : Kernel) (p : Slot) (x : Nat) : k.maps p x ≤ ∑ q, k.maps q x :=
  Finset.single_le_sum (f := fun q => k.maps q x) (fun _ _ => Nat.zero_le _) (Finset.mem_univ p)

lemma maps_add_le_sum (k : Kernel) (hpq : p ≠ q) (x : Nat) :
    k.maps p x + k.maps q x ≤ ∑ r, k.maps r x :=
  add_le_sum (f := fun r => k.maps r x) hpq

lemma sum_uses_le_places (k : Kernel) (x : Nat) : ∑ q, k.uses q x ≤ k.places x := by
  unfold places
  omega

lemma maps_pos (hp : k.Live p) (hd : (k.mm p).pgdir = some d) (hv : v < KERNBASE)
    (hpres : (d.entry v).present = true) : 1 ≤ k.maps p (d.entry v).ppn := by
  rw [maps_dir hp hd]
  exact PageDir.userRefs_pos hv hpres

/-! ### What the invariant says -/

/-- A shared page is nowhere but mapped by processes, as often as it has references. -/
lemma Owned.registered (h : k.Owned) (hx : Mem.shmRef k.mem.shared x ≠ 0) :
    k.places x = Mem.shmRef k.mem.shared x ∧ ∑ p, k.maps p x = Mem.shmRef k.mem.shared x ∧
      k.mem.free x = 0 ∧ ∀ p, k.uses p x = k.maps p x := by
  have h1 := h.places_le x
  have h2 := h.refs_le x
  have h3 : ∑ p, k.maps p x ≤ ∑ p, k.uses p x := Finset.sum_le_sum fun p _ => maps_le_uses k p x
  have h4 : k.places x = k.mem.free x + ∑ p, k.uses p x + k.kpgdir.refs x + k.pipeUses x := rfl
  have h5 : ∑ p, k.uses p x = ∑ p, k.maps p x := by omega
  refine ⟨by omega, by omega, by omega, fun p => ?_⟩
  have h6 := (Finset.sum_eq_sum_iff_of_le fun p _ => maps_le_uses k p x).mp h5.symm
  exact (h6 p (Finset.mem_univ p)).symm

lemma Owned.shmRef_of_free (h : k.Owned) (hx : k.mem.free x ≠ 0) :
    Mem.shmRef k.mem.shared x = 0 := by
  by_contra hne
  exact hx (h.registered hne).2.2.1

/-- A page that is not shared is in one place at most. -/
lemma Owned.places_le_one (h : k.Owned) (hx : Mem.shmRef k.mem.shared x = 0) : k.places x ≤ 1 := by
  have := h.places_le x
  rw [hx] at this
  simpa using this

lemma Owned.free_le_one (h : k.Owned) (x : Nat) : k.mem.free x ≤ 1 := by
  by_cases hx : Mem.shmRef k.mem.shared x = 0
  · have h1 := h.places_le_one hx
    have h2 : k.places x = k.mem.free x + ∑ p, k.uses p x + k.kpgdir.refs x + k.pipeUses x := rfl
    omega
  · rw [(h.registered hx).2.2.1]
    exact Nat.zero_le _

lemma Owned.freeOk (h : k.Owned) : k.mem.FreeOk :=
  ⟨h.sharedOk, h.free_le_one, fun x hx => h.inRange x (by unfold places; omega),
    fun _ hx => h.shmRef_of_free hx⟩

/-- A page that a process uses is not free. -/
lemma Owned.not_free_of_uses (h : k.Owned) (hu : k.uses p x ≠ 0) : k.mem.free x = 0 := by
  by_cases hx : Mem.shmRef k.mem.shared x = 0
  · have h1 := h.places_le_one hx
    have h2 : k.places x = k.mem.free x + ∑ p, k.uses p x + k.kpgdir.refs x + k.pipeUses x := rfl
    have h3 := uses_le_places k p x
    omega
  · exact (h.registered hx).2.2.1

lemma Owned.not_free_of_present (h : k.Owned) (hp : k.Live p) (hd : (k.mm p).pgdir = some d)
    (hv : v < KERNBASE) (hpres : (d.entry v).present = true) : k.mem.free (d.entry v).ppn = 0 := by
  apply h.not_free_of_uses (p := p)
  have h1 := maps_pos hp hd hv hpres
  have h2 := maps_le_uses k p (d.entry v).ppn
  omega

/-! ### When one process changes -/

lemma sum_uses_of_off (h : ∀ q, q ≠ p → k'.uses q x = k.uses q x) :
    ∑ q, k'.uses q x + k.uses p x = ∑ q, k.uses q x + k'.uses p x :=
  sum_of_eq_off (f := fun q => k.uses q x) (g := fun q => k'.uses q x) h

lemma sum_maps_of_off (h : ∀ q, q ≠ p → k'.maps q x = k.maps q x) :
    ∑ q, k'.maps q x + k.maps p x = ∑ q, k.maps q x + k'.maps p x :=
  sum_of_eq_off (f := fun q => k.maps q x) (g := fun q => k'.maps q x) h

/-- Outside process `p`, and in the kernel's directory and the pipes, nothing has changed. -/
structure SameBut (p : Slot) (k k' : Kernel) : Prop where
  live : ∀ q, q ≠ p → (k'.Live q ↔ k.Live q)
  mm : ∀ q, q ≠ p → k'.mm q = k.mm q
  kpgdir : k'.kpgdir = k.kpgdir
  pipe : k'.pipe = k.pipe

lemma SameBut.uses (h : SameBut p k k') (hq : q ≠ p) (x : Nat) : k'.uses q x = k.uses q x := by
  simp only [Kernel.uses, h.live q hq, h.mm q hq]

lemma SameBut.maps (h : SameBut p k k') (hq : q ≠ p) (x : Nat) : k'.maps q x = k.maps q x := by
  simp only [Kernel.maps, h.live q hq, h.mm q hq]

lemma SameBut.places (h : SameBut p k k') (x : Nat) :
    k'.places x + k.mem.free x + k.uses p x = k.places x + k'.mem.free x + k'.uses p x := by
  have hsum := sum_uses_of_off (p := p) fun q hq => h.uses hq x
  have hpipe : k'.pipeUses x = k.pipeUses x := by simp only [pipeUses, h.pipe]
  unfold Kernel.places
  rw [h.kpgdir, hpipe]
  omega

lemma SameBut.sum_maps (h : SameBut p k k') (x : Nat) :
    ∑ q, k'.maps q x + k.maps p x = ∑ q, k.maps q x + k'.maps p x :=
  sum_maps_of_off fun _ hq => h.maps hq x

lemma sameBut_setMm (k : Kernel) (p : Slot) (u : Mm) (m : Mem) :
    SameBut p k { k.setMm p u with mem := m } :=
  ⟨fun _ _ => Iff.rfl, fun _ hq => Function.update_of_ne hq _ _, rfl, rfl⟩

/-- The directory of a process changes, pages moving between it and the free list. Entries that map
shared pages stay, and nothing is newly mapped at `shm_va`. -/
lemma Owned.moveDir (h : k.Owned) (hp : k.Live p) (hd : (k.mm p).pgdir = some d)
    (hm : Moved d k.mem d' m') (hu : u.pgdir = some d') (hks : u.kstack = (k.mm p).kstack)
    (hshm : u.shm = (k.mm p).shm)
    (hkeep : ∀ v < KERNBASE, (d.entry v).present = true →
      Mem.shmRef k.mem.shared (d.entry v).ppn ≠ 0 → d'.entry v = d.entry v)
    (hnew : u.shm.idx ≠ none → u.shm.va < KERNBASE → (d'.entry u.shm.va).present = true →
      (d.entry u.shm.va).present = true) :
    Owned { k.setMm p u with mem := m' } := by
  have hsame := sameBut_setMm k p u m'
  have hlive : Live { k.setMm p u with mem := m' } p := hp
  have hmm : (Kernel.mm { k.setMm p u with mem := m' } p) = u := Function.update_self ..
  have hok := h.mm p hp
  have huses : ∀ x, k.uses p x = (k.mm p).stackUses x + d.refs x := uses_dir hp hd
  have huses' : ∀ x, Kernel.uses { k.setMm p u with mem := m' } p x =
      (k.mm p).stackUses x + d'.refs x := by
    intro x
    rw [uses_dir hlive (by rw [hmm, hu]), hmm, Mm.stackUses, hks, ← Mm.stackUses]
  have hmaps' : ∀ x, Kernel.maps { k.setMm p u with mem := m' } p x = d'.userRefs x := fun x =>
    maps_dir hlive (by rw [hmm, hu]) x
  have hplaces : ∀ x, Kernel.places { k.setMm p u with mem := m' } x ≤ k.places x := by
    intro x
    have h1 := hsame.places x
    rw [huses x, huses' x] at h1
    have h2 := hm.refs x
    change _ = k.places x + m'.free x + _ at h1
    omega
  -- entries that map a shared page are not lost
  have hmono : ∀ x, Mem.shmRef k.mem.shared x ≠ 0 → ∀ w ∈ Finset.range KERNBASE,
      (d.entry w).maps x ≤ (d'.entry w).maps x := by
    intro x hx w hw
    by_cases hmaps : (d.entry w).maps x = 0
    · omega
    · obtain ⟨hpres, rfl⟩ := Pte.maps_ne_zero.mp hmaps
      rw [hkeep w (Finset.mem_range.mp hw) hpres hx]
  refine ⟨fun x => ?_, fun x => ?_, ?_, fun x hx => ?_, fun q hq => ?_⟩
  · show _ ≤ max 1 (Mem.shmRef m'.shared x)
    rw [hm.shared]
    exact (hplaces x).trans (h.places_le x)
  · show Mem.shmRef m'.shared x ≤ _
    rw [hm.shared]
    by_cases hx : Mem.shmRef k.mem.shared x = 0
    · omega
    · have h1 := hsame.sum_maps x
      rw [maps_dir hp hd, hmaps' x] at h1
      have h2 := h.refs_le x
      have h3 : d.userRefs x ≤ d'.userRefs x := Finset.sum_le_sum (hmono x hx)
      omega
  · show Mem.SharedOk m'.shared
    exact hm.shared ▸ h.sharedOk
  · refine Mem.InRange.congr (h.inRange x ?_) hm.layout
    have := hplaces x
    omega
  · show Mm.Ok m'.shared _
    rw [hm.shared]
    by_cases hqp : q = p
    · subst hqp
      rw [hmm]
      refine ⟨fun d₁ hd₁ => ?_, fun d₁ hd₁ v hv hpres hx => ?_, fun d₁ hd₁ hidx hva hpres => ?_⟩
      · obtain rfl : d' = d₁ := by simpa [hu] using hd₁
        exact hm.ok (hok.dir d hd)
      · obtain rfl : d' = d₁ := by simpa [hu] using hd₁
        rw [hshm]
        have hold : (d.entry v).maps (d'.entry v).ppn ≠ 0 := by
          -- otherwise the page would be mapped once more than it is accounted for
          intro hzero
          have hlt : d.userRefs (d'.entry v).ppn < d'.userRefs (d'.entry v).ppn := by
            refine Finset.sum_lt_sum (hmono _ hx) ⟨v, Finset.mem_range.mpr hv, ?_⟩
            rw [hzero, Pte.maps_of_present hpres, one, if_pos rfl]
            exact Nat.zero_lt_one
          have hreg := h.registered hx
          have h1 := hreg.2.2.2 q
          rw [maps_dir hp hd, huses] at h1
          have h2 := hm.refs (d'.entry v).ppn
          have h3 := hreg.2.2.1
          unfold PageDir.refs at h1 h2
          omega
        obtain ⟨h1, h2⟩ := Pte.maps_ne_zero.mp hold
        exact hok.shared_only d hd v hv h1 (h2 ▸ hx)
      · obtain rfl : d' = d₁ := by simpa [hu] using hd₁
        have hold := hnew hidx hva hpres
        rw [hshm] at hold hidx hva ⊢
        have hreg := hok.shm_shared d hd hidx hva hold
        rw [hkeep _ hva hold hreg]
        exact hreg
    · rw [hsame.mm q hqp]
      exact h.mm q hq

/-- The address spaces are the same in both states, and so are the references to shared pages. -/
structure SameSpaces (k k' : Kernel) : Prop where
  live : ∀ q, k'.Live q ↔ k.Live q
  pgdir : ∀ q, k.Live q → (k'.mm q).pgdir = (k.mm q).pgdir
  kstack : ∀ q, k.Live q → (k'.mm q).kstack = (k.mm q).kstack
  shm : ∀ q, k.Live q → (k'.mm q).shm = (k.mm q).shm
  kpgdir : k'.kpgdir = k.kpgdir
  shmRef : ∀ x, Mem.shmRef k'.mem.shared x = Mem.shmRef k.mem.shared x
  sharedOk : Mem.SharedOk k'.mem.shared
  layout : k'.mem.layout = k.mem.layout

lemma SameSpaces.uses (h : SameSpaces k k') (q : Slot) (x : Nat) : k'.uses q x = k.uses q x := by
  by_cases hq : k.Live q
  · rw [uses_live hq, uses_live ((h.live q).mpr hq), Mm.uses, Mm.uses, Mm.stackUses, Mm.stackUses,
      h.pgdir q hq, h.kstack q hq]
  · simp only [Kernel.uses, h.live q, if_neg hq]

lemma SameSpaces.maps (h : SameSpaces k k') (q : Slot) (x : Nat) : k'.maps q x = k.maps q x := by
  by_cases hq : k.Live q
  · rw [maps_live hq, maps_live ((h.live q).mpr hq), Mm.maps, Mm.maps, h.pgdir q hq]
  · simp only [Kernel.maps, h.live q, if_neg hq]

lemma SameSpaces.sum_uses (h : SameSpaces k k') (x : Nat) :
    ∑ q, k'.uses q x = ∑ q, k.uses q x := Finset.sum_congr rfl fun q _ => h.uses q x

/-- With the address spaces the same, the invariant is a matter of the free list and the pipes. -/
lemma Owned.same (h : k.Owned) (hs : SameSpaces k k')
    (hle : ∀ x, k'.mem.free x + k'.pipeUses x ≤ k.mem.free x + k.pipeUses x) : k'.Owned := by
  have hplaces : ∀ x, k'.places x ≤ k.places x := by
    intro x
    have h1 := hs.sum_uses x
    have h2 := hle x
    unfold Kernel.places
    rw [h1, hs.kpgdir]
    omega
  refine ⟨fun x => ?_, fun x => ?_, hs.sharedOk, fun x hx => ?_, fun q hq => ?_⟩
  · rw [hs.shmRef]
    exact (hplaces x).trans (h.places_le x)
  · rw [hs.shmRef, Finset.sum_congr rfl fun q _ => hs.maps q x]
    exact h.refs_le x
  · refine Mem.InRange.congr (h.inRange x ?_) hs.layout
    have := hplaces x
    omega
  · have hq' := (hs.live q).mp hq
    have hok := h.mm q hq'
    have hdir := hs.pgdir q hq'
    have hshm := hs.shm q hq'
    refine ⟨fun d hd => hok.dir d (hdir ▸ hd), fun d hd v hv hpres hx => ?_,
      fun d hd hidx hva hpres => ?_⟩
    · rw [hs.shmRef] at hx
      rw [hshm]
      exact hok.shared_only d (hdir ▸ hd) v hv hpres hx
    · rw [hshm] at hidx hva hpres ⊢
      rw [hs.shmRef]
      exact hok.shm_shared d (hdir ▸ hd) hidx hva hpres

end Kernel

end Xv6
