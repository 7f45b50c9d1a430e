import Xv6.Kernel.Ownership

/-!
# System calls and page ownership

`fork`, `exec`, `wait`, `shm_open`, `shm_close` and the pipe calls against the invariant `Owned`. The
conditions under which an address space is given back correctly appear here: `freevm` looks at the
`shm_va` of the process that calls it, so every shared page in the directory must be there.
-/

namespace Xv6

open Fallible Count

variable {c : ShmField} {d nd : PageDir} {m m₁ m' : Mem} {v x y : Nat}

/-! ### Giving an address space back -/

/-- If all shared pages of the directory are at the current process's `shm_va`, `freevm` drops a
reference for each. -/
structure Released (d : PageDir) (m m' : Mem) : Prop where
  plain : ∀ x, Mem.shmRef m.shared x = 0 →
    Mem.shmRef m'.shared x = 0 ∧ m'.free x ≤ m.free x + d.refs x
  shmRef : ∀ x, Mem.shmRef m.shared x ≠ 0 →
    Mem.shmRef m'.shared x + d.userRefs x = Mem.shmRef m.shared x
  free : ∀ x, Mem.shmRef m.shared x ≠ 0 → m'.free x + d.userRefs x = m.free x + d.refs x +
    if Mem.shmRef m.shared x = 1 then d.userRefs x else 0
  sharedOk : Mem.SharedOk m'.shared
  cleared : Mem.Cleared m.shared m'.shared
  layout : m'.layout = m.layout

lemma userRefs_eq_kept (hhit : ∀ v < KERNBASE, (d.entry v).present = true →
    (d.entry v).ppn = x → c.Hits v) : d.userRefs x = kept c d x := by
  have hzero : ∀ v ∈ Finset.range KERNBASE, ¬ c.Hits v → (d.entry v).maps x = 0 := by
    intro v hv hno
    by_contra hne
    obtain ⟨h1, h2⟩ := Pte.maps_ne_zero.mp hne
    exact hno (hhit v (Finset.mem_range.mp hv) h1 h2)
  unfold PageDir.userRefs kept
  split_ifs with hc
  · apply Finset.sum_eq_single_of_mem c.va (Finset.mem_range.mpr hc.2)
    intro w hw hne
    exact hzero w hw fun hh => hne hh.2
  · apply Finset.sum_eq_zero
    intro w hw
    apply hzero w hw
    rintro ⟨h1, rfl⟩
    exact hc ⟨h1, Finset.mem_range.mp hw⟩

lemma Freed.released (h : Freed c d m m') (hs : Mem.SharedOk m.shared) (hok : d.Ok)
    (hhit : ∀ v < KERNBASE, (d.entry v).present = true →
      Mem.shmRef m.shared (d.entry v).ppn ≠ 0 → c.Hits v) : Released d m m' := by
  have hkept : ∀ x, Mem.shmRef m.shared x ≠ 0 → kept c d x = d.userRefs x := by
    intro x hx
    refine (userRefs_eq_kept fun v hv hp hpx => ?_).symm
    exact hhit v hv hp (hpx ▸ hx)
  refine ⟨fun x hx => ?_, fun x hx => ?_, fun x hx => ?_, h.sharedOk, h.cleared, h.layout⟩
  · have h1 := h.shmRef x
    have h2 := h.free x
    rw [hx, if_neg (by decide)] at h2
    omega
  · rw [← hkept x hx, ← dropped_eq_kept hok hs hx]
    exact h.shmRef x
  · have h1 := h.free x
    rw [dropped_eq_kept hok hs hx, hkept x hx] at h1
    exact h1

/-- Clearing the entry of a page. -/
lemma refs_clear {v : Nat} (hv : v < KERNBASE) (hp : (d.entry v).present = true) (x : Nat) :
    (d.set v 0).refs x + one (d.entry v).ppn x = d.refs x := by
  have := PageDir.userRefs_set (e := 0) (PageDir.hasTable_of_present hp) hv x
  rw [Pte.maps_of_present hp, Pte.maps_zero] at this
  unfold PageDir.refs
  rw [PageDir.tableRefs_set]
  omega

/-! ### Copies -/

lemma Copied.ok (h : Copied c d m nd m') (hd : d.Ok) : nd.Ok := by
  intro v hv
  have he := h.entry v hv
  have hpres := Pte.present_of_flags he.flags
  have hlazy : (nd.entry v).lazy = (d.entry v).lazy := by
    show (nd.entry v).flags.lazy = (d.entry v).flags.lazy
    rw [he.flags]
  refine ⟨fun hp => ?_, fun hp => ?_⟩
  · rw [hlazy]
    exact (hd v hv).not_both (hpres ▸ hp)
  · rw [hpres] at hp
    by_cases hl : (d.entry v).lazy = true
    · exact he.lazy hl
    · rw [he.same hp (by simpa using hl)]
      exact (hd v hv).ppn_zero hp

/-- The child keeps every mapping that it shares. -/
lemma Copied.kept_le (h : Copied c d m nd m') (x : Nat) : kept c d x ≤ nd.userRefs x := by
  unfold kept
  split_ifs with hc
  · by_cases hp : (d.entry c.va).present = true
    · rw [← (h.entry _ hc.2).shared hp ⟨hc.1, rfl⟩]
      exact PageDir.maps_le_userRefs hc.2 x
    · rw [Pte.maps_of_not_present (by simpa using hp)]
      exact Nat.zero_le _
  · exact Nat.zero_le _

namespace Kernel

variable {k k' : Kernel} {p q z : Slot} {u : Mm}

/-- Process `p` gives up `s x` mappings of each shared page `x`, and a page is freed with its last
mapping. -/
lemma Owned.drop {s : Nat → Nat} (h : k.Owned) (hp : k.Live p) (hsame : SameBut p k k')
    (hs : ∀ x, s x ≤ k.maps p x)
    (hplain : ∀ x, Mem.shmRef k.mem.shared x = 0 →
      Mem.shmRef k'.mem.shared x = 0 ∧ k'.places x ≤ k.places x)
    (href : ∀ x, Mem.shmRef k.mem.shared x ≠ 0 →
      Mem.shmRef k'.mem.shared x + s x = Mem.shmRef k.mem.shared x)
    (hreg : ∀ x, Mem.shmRef k.mem.shared x ≠ 0 → k'.places x + s x ≤
      Mem.shmRef k.mem.shared x + if Mem.shmRef k.mem.shared x = 1 then s x else 0)
    (hsum : ∀ x, k.maps p x ≤ k'.maps p x + s x) (hshared : Mem.SharedOk k'.mem.shared)
    (hlayout : k'.mem.layout = k.mem.layout) (hok : k'.Live p → (k'.mm p).Ok k'.mem.shared) :
    k'.Owned := by
  have hle_one : ∀ x, Mem.shmRef k.mem.shared x ≠ 0 → s x ≤ 1 := fun x hx =>
    (hs x).trans (maps_live hp x ▸ (h.mm p hp).maps_le_one hx)
  have hnot : ∀ x, Mem.shmRef k'.mem.shared x ≠ 0 → Mem.shmRef k.mem.shared x ≠ 0 := by
    intro x hx h0
    exact hx (hplain x h0).1
  refine ⟨fun x => ?_, fun x => ?_, hshared, fun x hx => ?_, fun q hq => ?_⟩
  · by_cases hx : Mem.shmRef k.mem.shared x = 0
    · have h1 := (hplain x hx).2
      have h2 := h.places_le_one hx
      omega
    · have h1 := hreg x hx
      have h2 := href x hx
      have h3 := hle_one x hx
      split_ifs at h1 <;> omega
  · by_cases hx : Mem.shmRef k'.mem.shared x = 0
    · omega
    · have h1 := href x (hnot x hx)
      have h2 := hsame.sum_maps x
      have h3 := h.refs_le x
      have h4 := hsum x
      omega
  · refine Mem.InRange.congr (h.inRange x ?_) hlayout
    by_cases h0 : Mem.shmRef k.mem.shared x = 0
    · have := (hplain x h0).2
      omega
    · rw [(h.registered h0).1]
      exact h0
  · by_cases hqp : q = p
    · subst hqp
      exact hok hq
    · have hq' := (hsame.live q hqp).mp hq
      have hmm := h.mm q hq'
      rw [hsame.mm q hqp]
      refine ⟨hmm.dir, fun d' hd' v hv hpres hx => ?_, fun d' hd' hidx hva hpres => ?_⟩
      · exact hmm.shared_only d' hd' v hv hpres (hnot _ hx)
      · -- the page has a reference left, the one of `q`
        have hx := hmm.shm_shared d' hd' hidx hva hpres
        have h1 := href _ hx
        have h2 := (h.registered hx).2.1
        have h3 := maps_pos hq' hd' hva hpres
        have h4 := hs (d'.entry (k.mm q).shm.va).ppn
        have h5 := maps_add_le_sum k (Ne.symm hqp) (d'.entry (k.mm q).shm.va).ppn
        omega

/-- The address space of `p` is given back, after a new one may have been built for it from the free
list: `m₁` is the memory in between. -/
lemma Owned.replace (m₁ : Mem) (h : k.Owned) (hp : k.Live p) (hd : (k.mm p).pgdir = some d)
    (hsame : SameBut p k k')
    (huse : ∀ x, k'.uses p x + m₁.free x ≤ (k.mm p).stackUses x + k.mem.free x)
    (hshared : m₁.shared = k.mem.shared) (hlayout : m₁.layout = k.mem.layout)
    (hrel : Released d m₁ k'.mem) (hok : k'.Live p → (k'.mm p).Ok k'.mem.shared) : k'.Owned := by
  have huses : ∀ x, k.uses p x = (k.mm p).stackUses x + d.refs x := uses_dir hp hd
  have hmaps : ∀ x, k.maps p x = d.userRefs x := maps_dir hp hd
  refine h.drop (s := d.userRefs) hp hsame (fun x => (hmaps x).ge) (fun x hx => ⟨?_, ?_⟩)
    (fun x hx => ?_) (fun x hx => ?_) (fun x => ?_) hrel.sharedOk (hrel.layout.trans hlayout) hok
  · exact (hrel.plain x (hshared ▸ hx)).1
  · have h1 := hsame.places x
    have h2 := (hrel.plain x (hshared ▸ hx)).2
    have h3 := huse x
    rw [huses] at h1
    omega
  · have := hrel.shmRef x (hshared ▸ hx)
    rwa [hshared] at this
  · have h1 := hsame.places x
    obtain ⟨h2, -, h3, h4⟩ := h.registered hx
    have h5 := h4 p
    have h6 := hrel.free x (hshared ▸ hx)
    have h7 := huse x
    rw [hshared] at h6
    rw [huses, hmaps] at h5
    rw [huses] at h1
    split_ifs at h6 ⊢ <;> omega
  · rw [hmaps]
    exact Nat.le_add_left _ _

/-! ### A child is given a copy of the address space -/

/-- What `copyuvm` relies on holds of the address space of a live process. -/
lemma Owned.copyReady (h : k.Owned) (hp : k.Live p) (hd : (k.mm p).pgdir = some d) :
    CopyReady (k.mm p).shm d k.mem :=
  ⟨fun v hv => (((h.mm p hp).dir d hd) v hv).not_both,
    fun _ hv hpres => h.not_free_of_present hp hd hv hpres, h.free_le_one, h.sharedOk,
    (h.mm p hp).shm_shared d hd⟩

/-- A page that is kept for the child is registered. -/
lemma Owned.registered_of_kept (h : k.Owned) (hp : k.Live p) (hd : (k.mm p).pgdir = some d)
    (hx : kept (k.mm p).shm d x ≠ 0) : Mem.shmRef k.mem.shared x ≠ 0 := by
  unfold kept at hx
  split_ifs at hx with hc
  · obtain ⟨hpres, rfl⟩ := Pte.maps_ne_zero.mp hx
    exact (h.mm p hp).shm_shared d hd hc.1 hc.2 hpres
  · exact absurd rfl hx

/-- `fork` has filled the free slot `q`: its kernel stack is `y`, its address space `nd` a copy of that
of `p`. -/
structure Spawned (p q : Slot) (y : Nat) (d : PageDir) (m : Mem) (nd : PageDir) (k k' : Kernel) :
    Prop where
  dead : ¬ k.Live q
  live : k'.Live q
  same : SameBut q k k'
  kalloc : k.mem.kalloc = (some y, m)
  copied : Copied (k.mm p).shm d m nd k'.mem
  pgdir : (k'.mm q).pgdir = some nd
  kstack : (k'.mm q).kstack = some y
  shm : (k'.mm q).shm = (k.mm p).shm

lemma Owned.spawn (h : k.Owned) (hp : k.Live p) (hd : (k.mm p).pgdir = some d)
    (hf : Spawned p q y d m nd k k') : k'.Owned := by
  have hkfree := Mem.free_kalloc hf.kalloc
  have hkshared := Mem.shared_kalloc hf.kalloc
  have hreg : ∀ x, kept (k.mm p).shm d x ≠ 0 → Mem.shmRef k.mem.shared x ≠ 0 := fun x hx =>
    h.registered_of_kept hp hd hx
  have href : ∀ x, Mem.shmRef k'.mem.shared x =
      Mem.shmRef k.mem.shared x + kept (k.mm p).shm d x := by
    intro x
    rw [hf.copied.copying.shmRef x, hkshared]
  have hplaces : ∀ x, k'.places x = k.places x + kept (k.mm p).shm d x := by
    intro x
    have h1 := hf.same.places x
    have h2 := hf.copied.refs x
    have h3 := hkfree x
    rw [uses_dir hf.live hf.pgdir, Mm.stackUses, hf.kstack, Option.elim_some] at h1
    have h4 : k.uses q x = 0 := if_neg hf.dead
    omega
  have hnot : ∀ x, Mem.shmRef k'.mem.shared x ≠ 0 → Mem.shmRef k.mem.shared x ≠ 0 := by
    intro x hx h0
    have h1 := href x
    have h2 := hreg x
    omega
  refine ⟨fun x => ?_, fun x => ?_, hf.copied.copying.sharedOk, fun x hx => ?_, fun r hr => ?_⟩
  · rw [hplaces, href]
    by_cases hx : Mem.shmRef k.mem.shared x = 0
    · have h1 := h.places_le_one hx
      have h2 := hreg x
      omega
    · rw [(h.registered hx).1]
      exact le_max_right _ _
  · have h1 := hf.same.sum_maps x
    have h2 : k.maps q x = 0 := if_neg hf.dead
    rw [maps_dir hf.live hf.pgdir] at h1
    have h3 := hf.copied.kept_le x
    have h4 := h.refs_le x
    rw [href]
    omega
  · refine Mem.InRange.congr (h.inRange x ?_)
      (hf.copied.copying.layout.trans (Mem.layout_kalloc hf.kalloc))
    intro h0
    by_cases hx' : Mem.shmRef k.mem.shared x = 0
    · have h1 := hplaces x
      have h2 := hreg x
      omega
    · exact hx' ((h.registered hx').1 ▸ h0)
  · by_cases hrq : r = q
    · subst hrq
      refine ⟨fun d' hd' => ?_, fun d' hd' v hv hpres hx => ?_, fun d' hd' hidx hva hpres => ?_⟩
      · obtain rfl : nd = d' := by simpa [hf.pgdir] using hd'
        exact hf.copied.ok ((h.mm p hp).dir d hd)
      · obtain rfl : nd = d' := by simpa [hf.pgdir] using hd'
        rw [hf.shm]
        by_contra hhit
        have he := hf.copied.entry v hv
        have hfresh := (he.fresh (Pte.present_of_flags he.flags ▸ hpres) hhit).1
        have hfree := hkfree (nd.entry v).ppn
        exact hnot _ hx (h.shmRef_of_free (by omega))
      · obtain rfl : nd = d' := by simpa [hf.pgdir] using hd'
        rw [hf.shm] at hidx hva hpres ⊢
        have he := hf.copied.entry _ hva
        have hpres' := Pte.present_of_flags he.flags ▸ hpres
        rw [he.shared hpres' ⟨hidx, rfl⟩]
        have h1 := (h.mm p hp).shm_shared d hd hidx hva hpres'
        have h2 := href (d.entry (k.mm p).shm.va).ppn
        omega
    · have hmm := h.mm r ((hf.same.live r hrq).mp hr)
      rw [hf.same.mm r hrq]
      refine ⟨hmm.dir, fun d' hd' v hv hpres hx => ?_, fun d' hd' hidx hva hpres => ?_⟩
      · exact hmm.shared_only d' hd' v hv hpres (hnot _ hx)
      · have h1 := hmm.shm_shared d' hd' hidx hva hpres
        have h2 := href (d'.entry (k.mm r).shm.va).ppn
        omega

/-! ### Registering and removing a shared page -/

/-- The page that `p` maps at `v` is registered, and `v` becomes its `shm_va`. -/
lemma Owned.register {i : Fin N_SHARED_PAGES} (h : k.Owned) (hp : k.Live p)
    (hd : (k.mm p).pgdir = some d) (hv : v < KERNBASE) (hpres : (d.entry v).present = true)
    (hx : Mem.shmRef k.mem.shared (d.entry v).ppn = 0) (hidx : (k.mm p).shm.idx = none)
    (hsame : SameBut p k k') (hlive : k'.Live p)
    (hmm : k'.mm p = { k.mm p with shm := ⟨some i, v⟩ })
    (href : ∀ x, Mem.shmRef k'.mem.shared x = Mem.shmRef k.mem.shared x + one (d.entry v).ppn x)
    (hshared : Mem.SharedOk k'.mem.shared) (hfree : ∀ x, k'.mem.free x = k.mem.free x)
    (hlayout : k'.mem.layout = k.mem.layout) : k'.Owned := by
  have hd' : (k'.mm p).pgdir = some d := by rw [hmm, hd]
  have hplaces : ∀ x, k'.places x = k.places x := by
    intro x
    have h1 := hsame.places x
    rw [uses_dir hp hd, uses_dir hlive hd', hfree x, hmm] at h1
    have h2 : Mm.stackUses { k.mm p with shm := ⟨some i, v⟩ } x = (k.mm p).stackUses x := rfl
    omega
  have hmaps : ∀ q x, k'.maps q x = k.maps q x := by
    intro q x
    by_cases hqp : q = p
    · rw [hqp, maps_dir hp hd, maps_dir hlive hd']
    · exact hsame.maps hqp x
  have hone : k.places (d.entry v).ppn ≤ 1 := h.places_le_one hx
  have hpmaps := maps_pos hp hd hv hpres
  have hsum : ∀ q, k.uses q (d.entry v).ppn ≤ 1 := fun q =>
    ((uses_le_places k q _).trans (sum_uses_le_places k _)).trans hone
  have hold : ∀ x, Mem.shmRef k'.mem.shared x ≠ 0 →
      Mem.shmRef k.mem.shared x ≠ 0 ∨ x = (d.entry v).ppn := by
    intro x hx'
    have h1 := href x
    unfold one at h1
    split_ifs at h1 with hxe
    · exact Or.inr hxe.symm
    · exact Or.inl (by omega)
  refine ⟨fun x => ?_, fun x => ?_, hshared, fun x hx' => ?_, fun q hq => ?_⟩
  · rw [hplaces]
    have h1 := h.places_le x
    have h2 := href x
    omega
  · rw [Finset.sum_congr rfl fun q _ => hmaps q x, href]
    have h1 := h.refs_le x
    unfold one
    split_ifs with hxe
    · subst hxe
      have h2 := maps_le_sum k p (d.entry v).ppn
      omega
    · omega
  · exact Mem.InRange.congr (h.inRange x (hplaces x ▸ hx')) hlayout
  · by_cases hqp : q = p
    · subst hqp
      refine ⟨fun d' hd₁ => ?_, fun d' hd₁ w hw hpres' hx' => ?_, fun d' hd₁ _ _ _ => ?_⟩
      · obtain rfl : d = d' := by simpa [hd'] using hd₁
        exact (h.mm q hp).dir d hd
      · obtain rfl : d = d' := by simpa [hd'] using hd₁
        rcases hold _ hx' with hreg | hppn
        · exact absurd hidx ((h.mm q hp).shared_only d hd w hw hpres' hreg).1
        · -- the page has one place only
          rw [hmm]
          refine ⟨by simp, ?_⟩
          by_contra hne
          have h1 := PageDir.userRefs_two_le hv hw hne hpres hpres' hppn
          have h2 := maps_dir hp hd (d.entry v).ppn
          have h3 := maps_le_uses k q (d.entry v).ppn
          have h4 := hsum q
          omega
      · obtain rfl : d = d' := by simpa [hd'] using hd₁
        rw [hmm]
        have h1 := href (d.entry v).ppn
        rw [one, if_pos rfl] at h1
        show Mem.shmRef k'.mem.shared (d.entry v).ppn ≠ 0
        omega
    · have hq' := (hsame.live q hqp).mp hq
      have hmmq := h.mm q hq'
      rw [hsame.mm q hqp]
      refine ⟨hmmq.dir, fun d' hd₁ w hw hpres' hx' => ?_, fun d' hd₁ hi hva hpres' => ?_⟩
      · rcases hold _ hx' with hreg | hppn
        · exact hmmq.shared_only d' hd₁ w hw hpres' hreg
        · -- two processes would map a page that has one place only
          have h1 := maps_pos hq' hd₁ hw hpres'
          rw [hppn] at h1
          have h2 := maps_add_le_sum k hqp (d.entry v).ppn
          have h3 := (Finset.sum_le_sum fun r (_ : r ∈ Finset.univ) =>
            maps_le_uses k r (d.entry v).ppn).trans (sum_uses_le_places k _)
          omega
      · have h1 := hmmq.shm_shared d' hd₁ hi hva hpres'
        have h2 := href (d'.entry (k.mm q).shm.va).ppn
        omega

/-- The page at the `shm_va` of `p` loses this mapping and its reference, and is freed with the last. -/
lemma Owned.unregister (h : k.Owned) (hp : k.Live p) (hd : (k.mm p).pgdir = some d)
    (hva : (k.mm p).shm.va < KERNBASE) (hpres : (d.entry (k.mm p).shm.va).present = true)
    (hx : (d.entry (k.mm p).shm.va).ppn = x) (hreg : Mem.shmRef k.mem.shared x ≠ 0)
    (hsame : SameBut p k k') (hlive : k'.Live p)
    (hmm : k'.mm p = { k.mm p with
      pgdir := some (d.set (k.mm p).shm.va 0), shm := ⟨none, 0⟩ })
    (href : ∀ z, Mem.shmRef k'.mem.shared z + one x z = Mem.shmRef k.mem.shared z)
    (hshared : Mem.SharedOk k'.mem.shared)
    (hfree : ∀ z, k'.mem.free z = k.mem.free z +
      if Mem.shmRef k.mem.shared x = 1 then one x z else 0)
    (hlayout : k'.mem.layout = k.mem.layout) : k'.Owned := by
  have htable := PageDir.hasTable_of_present hpres
  have hd' : (k'.mm p).pgdir = some (d.set (k.mm p).shm.va 0) := by rw [hmm]
  have hrefs : ∀ z, (d.set (k.mm p).shm.va 0).refs z + one x z = d.refs z := by
    intro z
    rw [← hx]
    exact refs_clear hva hpres z
  have hmaps : ∀ z, k'.maps p z + one x z = k.maps p z := by
    intro z
    rw [maps_dir hp hd, maps_dir hlive hd']
    have h1 := PageDir.userRefs_set (e := 0) htable hva z
    rw [Pte.maps_of_present hpres, hx, Pte.maps_zero, Nat.add_zero] at h1
    exact h1
  have hplaces : ∀ z, k'.places z + one x z =
      k.places z + if Mem.shmRef k.mem.shared x = 1 then one x z else 0 := by
    intro z
    have h1 := hsame.places z
    rw [uses_dir hp hd, uses_dir hlive hd', hfree z, hmm] at h1
    have h2 := hrefs z
    have h3 : Mm.stackUses { k.mm p with
      pgdir := some (d.set (k.mm p).shm.va 0), shm := ⟨none, 0⟩ } z = (k.mm p).stackUses z := rfl
    omega
  have hone : ∀ z, Mem.shmRef k.mem.shared z = 0 → one x z = 0 := by
    intro z hz
    rw [one, if_neg]
    rintro rfl
    exact hreg hz
  refine h.drop (s := one x) hp hsame (fun z => ?_) (fun z hz => ?_) (fun z _ => href z)
    (fun z hz => ?_) (fun z => (hmaps z).ge) hshared hlayout fun _ => ?_
  · have := hmaps z
    omega
  · have h1 := hplaces z
    have h2 := href z
    rw [hone z hz] at h1 h2
    split_ifs at h1 <;> omega
  · have h1 := hplaces z
    have h2 := (h.registered hz).1
    by_cases hxz : x = z
    · rw [← hxz] at h1 h2 ⊢
      omega
    · rw [one, if_neg hxz, ite_self] at h1 ⊢
      omega
  · rw [hmm]
    refine ⟨fun d' hd₁ => ?_, fun d' hd₁ v hv hpv hz => ?_, fun _ _ hne => absurd rfl hne⟩
    · cases hd₁
      exact ((h.mm p hp).dir d hd).set Pte.ok_zero
    · -- the entry at `shm_va` is gone, and there was no other
      cases hd₁
      have hvne : v ≠ (k.mm p).shm.va := by
        rintro rfl
        rw [PageDir.entry_set_self htable] at hpv
        cases hpv
      rw [PageDir.entry_set_ne hvne] at hpv hz
      have h1 := href (d.entry v).ppn
      exact absurd ((h.mm p hp).shared_only d hd v hv hpv (by omega)).2 hvne

end Kernel

end Xv6
