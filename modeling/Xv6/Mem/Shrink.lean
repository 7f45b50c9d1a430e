import Mathlib.Order.Interval.Finset.Nat
import Xv6.Mem.Demand
import Xv6.Mem.Release

/-!
# Shrinking an address space

`deallocuvm` should leave nothing accessible between the new size and the old one. It frees and clears
the present entries; it does not touch an entry that is only lazy, and at `shm_va` it drops a reference
to the shared page without clearing the entry. The loop follows the pointer to the entry at `shm_va`
before looking whether there is one, unless it has jumped over the page together with a missing page
table.
-/

namespace Xv6

open Fallible Count

variable {c : ShmField} {d d' : PageDir} {m m' : Mem} {v w x n lo hi stop : Nat}

/-! ### When the loop returns -/

/-- The loop of `deallocuvm`, entered at page `lo`, gets past page `v`: at `shm_va` there is a page
table, or the page is skipped together with the page before it. -/
def Passable (c : ShmField) (d : PageDir) (lo v : Nat) : Prop :=
  c.Hits v → d.HasTable v ∨ (v ≠ lo ∧ v % NPTENTRIES ≠ 0)

lemma hasTable_succ (ht : d.HasTable v) (hmod : (v + 1) % NPTENTRIES ≠ 0) : d.HasTable (v + 1) := by
  have hdiv : (v + 1) / NPTENTRIES = v / NPTENTRIES := by
    simp only [NPTENTRIES] at hmod ⊢
    omega
  unfold PageDir.HasTable at ht ⊢
  rwa [hdiv]

/-- From a page with a page table the loop moves on to the next one. -/
lemma Passable.succ (h : Passable c d v w) (ht : d.HasTable v) (hw : v < w) :
    Passable c d (v + 1) w := by
  intro hit
  rcases h hit with hw' | ⟨-, hmod⟩
  · exact Or.inl hw'
  · by_cases heq : w = v + 1
    · subst heq
      exact Or.inl (hasTable_succ ht hmod)
    · exact Or.inr ⟨heq, hmod⟩

lemma Passable.of_succ (h : Passable c d (v + 1) w) (hw : v < w) : Passable c d v w := by
  intro hit
  rcases h hit with hw' | ⟨-, hmod⟩
  · exact Or.inl hw'
  · exact Or.inr ⟨by omega, hmod⟩

/-- From a page without a page table the loop moves on to the next page table. -/
lemma Passable.block (h : Passable c d v w) : Passable c d ((v / NPTENTRIES + 1) * NPTENTRIES) w := by
  intro hit
  rcases h hit with hw | ⟨-, hmod⟩
  · exact Or.inl hw
  · refine Or.inr ⟨?_, hmod⟩
    rintro rfl
    exact hmod (Nat.mul_mod_left _ _)

lemma passable_of_set {e : Pte} : Passable c (d.set v e) lo w ↔ Passable c d lo w := by
  unfold Passable
  rw [PageDir.hasTable_set]

/-- A page that is not present is not in the table of shared pages. -/
lemma shmRemove_not_present (hs : Mem.SharedOk m.shared) (he : (d.entry v).Ok)
    (hp : (d.entry v).present = false) : m.shmRemove (d.entry v).ppn = .ok (false, m) := by
  rw [he.ppn_zero hp]
  exact Mem.shmRemove_of_shmRef_eq_zero hs (Mem.shmRef_zero hs)

lemma shmRemove_sharedOk (hs : Mem.SharedOk m.shared) :
    Ensures (m.shmRemove x) fun r => Mem.SharedOk r.2.shared := by
  by_cases hx : Mem.shmRef m.shared x = 0
  · rw [Mem.shmRemove_of_shmRef_eq_zero hs hx]
    exact .ok hs
  · exact (Mem.shmRemove_ensures hs hx).mono fun r hr => hr.2.1

/-- What the loop needs of the pages from `v` up to `stop`. -/
structure Clearable (c : ShmField) (v stop : Nat) (d : PageDir) (m : Mem) : Prop where
  ok : ∀ w, v ≤ w → w < stop → (d.entry w).Ok
  inRange : ∀ w, v ≤ w → w < stop → (d.entry w).present = true → m.InRange (d.entry w).ppn
  sharedOk : Mem.SharedOk m.shared
  passable : ∀ w, v ≤ w → w < stop → Passable c d v w

lemma Clearable.congr (h : Clearable c v stop d m) (hl : m'.layout = m.layout)
    (hs : Mem.SharedOk m'.shared) : Clearable c v stop d m' :=
  ⟨h.ok, fun w h1 h2 hp => (h.inRange w h1 h2 hp).congr hl, hs, h.passable⟩

lemma Clearable.succ (h : Clearable c v stop d m) (ht : d.HasTable v) :
    Clearable c (v + 1) stop d m :=
  ⟨fun w h1 => h.ok w (by omega), fun w h1 => h.inRange w (by omega), h.sharedOk,
    fun w h1 h2 => (h.passable w (by omega) h2).succ ht (by omega)⟩

lemma Clearable.block (h : Clearable c v stop d m) :
    Clearable c ((v / NPTENTRIES + 1) * NPTENTRIES) stop d m := by
  have hlt := lt_block v
  exact ⟨fun w h1 => h.ok w (by omega), fun w h1 => h.inRange w (by omega), h.sharedOk,
    fun w h1 h2 => (h.passable w (by omega) h2).block⟩

/-- An entry below the pages to come is cleared. -/
lemma Clearable.set (h : Clearable c (v + 1) stop d m) : Clearable c (v + 1) stop (d.set v 0) m := by
  have hentry : ∀ w, v + 1 ≤ w → (d.set v 0).entry w = d.entry w := fun w hw =>
    PageDir.entry_set_ne (by omega)
  refine ⟨fun w h1 h2 => ?_, fun w h1 h2 hp => ?_, h.sharedOk, fun w h1 h2 => ?_⟩
  · rw [hentry w h1]
    exact h.ok w h1 h2
  · rw [hentry w h1] at hp ⊢
    exact h.inRange w h1 h2 hp
  · exact passable_of_set.mpr (h.passable w h1 h2)

lemma deallocPages_returns (h : Clearable c v stop d m) :
    ∃ r, deallocPages c n v stop d m = .ok r := by
  induction n generalizing v d m with
  | zero => exact ⟨_, rfl⟩
  | succ n ih =>
    unfold deallocPages
    split
    · next hv =>
      split
      · next hit =>
        have ht : d.HasTable v := (h.passable v le_rfl hv hit).resolve_right fun hne => hne.1 rfl
        have hwalk := PageDir.walk_eq_some_iff.mpr ⟨ht, rfl⟩
        have hremove : ∃ r, m.shmRemove (d.entry v).ppn = .ok r := by
          cases hp : (d.entry v).present with
          | true => exact shmRemove_succeeds (h.inRange v le_rfl hv hp)
          | false => exact ⟨_, shmRemove_not_present h.sharedOk (h.ok v le_rfl hv) hp⟩
        obtain ⟨⟨found, m₁⟩, hm₁⟩ := hremove
        simp only [hwalk, hm₁, bind, Except.bind]
        exact ih ((h.succ ht).congr (shmRemove_layout _ hm₁) (shmRemove_sharedOk h.sharedOk _ hm₁))
      · next hit =>
        split
        · exact ih h.block
        · next e hwalk =>
          obtain ⟨ht, rfl⟩ := PageDir.walk_eq_some_iff.mp hwalk
          split
          · next hp =>
            have hin := h.inRange v le_rfl hv hp
            rw [if_neg hin.ne_zero, Mem.kfree_eq_ok hin]
            exact ih ((h.succ ht).set.congr rfl h.sharedOk)
          · exact ih (h.succ ht)
    · exact ⟨_, rfl⟩

/-- Conversely the loop returns only if it gets past the shared page. -/
lemma deallocPages_passable (hn : stop ≤ v + n) :
    Ensures (deallocPages c n v stop d m) fun _ => ∀ w, v ≤ w → w < stop → Passable c d v w := by
  induction n generalizing v d m with
  | zero => exact .ok fun w h1 h2 => by omega
  | succ n ih =>
    have hlt := lt_block v
    unfold deallocPages
    split
    · next hv =>
      -- the page the loop is at has a table or is not the shared one
      have hstep : ∀ {d₁ : PageDir}, (d₁.HasTable v ∨ ¬ c.Hits v) →
          (∀ w, v + 1 ≤ w → w < stop → Passable c d₁ (v + 1) w) →
          ∀ w, v ≤ w → w < stop → Passable c d₁ v w := by
        intro d₁ hfirst hrest w h1 h2
        rcases Nat.eq_or_lt_of_le h1 with rfl | hvw
        · intro hit
          exact hfirst.elim Or.inl fun hno => absurd hit hno
        · exact (hrest w hvw h2).of_succ hvw
      split
      · next hit =>
        split
        · exact .error
        · next e he =>
          obtain ⟨ht, rfl⟩ := PageDir.walk_eq_some_iff.mp he
          refine Ensures.bind (R := fun _ => True) (fun _ _ => trivial) fun r _ => ?_
          exact (ih (by omega)).mono fun _ hr => hstep (Or.inl ht) hr
      · next hit =>
        split
        · next he =>
          refine (ih (by omega)).mono fun _ hr w h1 h2 hw => ?_
          have hno := PageDir.walk_eq_none_iff.mp he
          have hwv : w ≠ v := by
            rintro rfl
            exact hit hw
          by_cases hblock : w < (v / NPTENTRIES + 1) * NPTENTRIES
          · refine Or.inr ⟨hwv, fun hmod => ?_⟩
            simp only [NPTENTRIES] at hblock hmod
            omega
          · exact (hr w (by omega) h2 hw).imp_right fun h => ⟨hwv, h.2⟩
        · next e he =>
          obtain ⟨ht, rfl⟩ := PageDir.walk_eq_some_iff.mp he
          split
          · split
            · exact .error
            · refine Ensures.bind (R := fun _ => True) (fun _ _ => trivial) fun m₁ _ => ?_
              refine (ih (by omega)).mono fun _ hr => hstep (Or.inl ht) fun w h1 h2 => ?_
              exact passable_of_set.mp (hr w h1 h2)
          · exact (ih (by omega)).mono fun _ hr => hstep (Or.inl ht) hr
    · exact .ok fun w h1 h2 => by omega

/-! ### What shrinking should do -/

/-- How many present entries from `lo` up to `hi`, not counting the one at `shm_va`, map a page. -/
def releasedRefs (c : ShmField) (d : PageDir) (lo hi x : Nat) : Nat :=
  ∑ v ∈ Finset.Ico lo hi, if c.Hits v then 0 else (d.entry v).maps x

/-- One if the page is mapped at `shm_va`, and that lies between `lo` and `hi`. -/
def unsharedRefs (c : ShmField) (d : PageDir) (lo hi x : Nat) : Nat :=
  ∑ v ∈ Finset.Ico lo hi, if c.Hits v then (d.entry v).maps x else 0

/-- Nothing between the pages `lo` and `hi` is accessible any more: each page that was mapped there is
free once more, the shared page of the current process has one reference less, and no other entry has
changed. -/
structure Shrunk (c : ShmField) (lo hi : Nat) (d : PageDir) (m : Mem) (d' : PageDir) (m' : Mem) :
    Prop where
  gone : ∀ v, lo ≤ v → v < hi → (d'.entry v).mapped = false
  freed : ∀ x, m'.free x = m.free x + releasedRefs c d lo hi x +
    if Mem.shmRef m.shared x = 1 then unsharedRefs c d lo hi x else 0
  refs : ∀ x, Mem.shmRef m'.shared x = Mem.shmRef m.shared x - unsharedRefs c d lo hi x
  outside : ∀ v, v < lo ∨ hi ≤ v → d'.entry v = d.entry v

/-- The pages between `lo` and `hi` that `deallocuvm` would leave accessible: there is no lazy one, and
the shared page of the current process is not mapped there and does not stop the loop. -/
def Shrinkable (c : ShmField) (d : PageDir) (lo hi : Nat) : Prop :=
  ∀ v, lo ≤ v → v < hi → (d.entry v).lazy = false ∧ Passable c d lo v ∧
    (c.Hits v → (d.entry v).present = false)

/-- Clearing the present entries of a range releases what they mapped. -/
lemma Emptied.userRefs_add (h : Emptied c lo hi d d') (hhi : hi ≤ KERNBASE) (x : Nat) :
    d.userRefs x = d'.userRefs x + releasedRefs c d lo hi x := by
  have hsum : releasedRefs c d lo hi x = ∑ v ∈ Finset.range KERNBASE,
      if lo ≤ v ∧ v < hi ∧ ¬ c.Hits v then (d.entry v).maps x else 0 := by
    have hsub : Finset.Ico lo hi ⊆ Finset.range KERNBASE := by
      intro v hv
      have := Finset.mem_Ico.mp hv
      exact Finset.mem_range.mpr (by omega)
    rw [releasedRefs]
    refine (Finset.sum_congr rfl fun v hv => ?_).trans (Finset.sum_subset hsub fun v _ hv => ?_)
    · have := Finset.mem_Ico.mp hv
      by_cases hit : c.Hits v <;> simp [hit, this.1, this.2]
    · rw [if_neg]
      rintro ⟨h1, h2, -⟩
      exact hv (Finset.mem_Ico.mpr ⟨h1, h2⟩)
  rw [hsum, PageDir.userRefs, PageDir.userRefs, ← Finset.sum_add_distrib]
  refine Finset.sum_congr rfl fun v _ => ?_
  rw [h v]
  by_cases hv : lo ≤ v ∧ v < hi ∧ ¬ c.Hits v
  · rw [if_pos hv]
    by_cases hp : (d.entry v).present = true
    · rw [if_pos ⟨hv.1, hv.2.1, hv.2.2, hp⟩]
      simp
    · rw [if_neg (by tauto), Pte.maps_of_not_present (by simpa using hp)]
  · rw [if_neg hv, if_neg (by tauto), Nat.add_zero]

lemma unsharedRefs_eq_zero (h : ∀ v, lo ≤ v → v < hi → c.Hits v → (d.entry v).present = false)
    (x : Nat) : unsharedRefs c d lo hi x = 0 := by
  refine Finset.sum_eq_zero fun v hv => ?_
  obtain ⟨h1, h2⟩ := Finset.mem_Ico.mp hv
  split_ifs with hit
  · exact Pte.maps_of_not_present (h v h1 h2 hit) x
  · rfl

/-- No reference to a shared page is dropped where no page is mapped. -/
lemma dropped_eq_zero (hok : d.Ok) (hhi : hi ≤ KERNBASE) (hs : Mem.SharedOk m.shared)
    (h : ∀ v, lo ≤ v → v < hi → c.Hits v → (d.entry v).present = false) (x : Nat) :
    dropped c d m lo hi x = 0 := by
  unfold dropped
  split_ifs with hc
  · obtain ⟨hidx, hlo, hva, -, hx⟩ := hc
    rw [(hok c.va (by omega)).ppn_zero (h c.va hlo hva ⟨hidx, rfl⟩), one, if_neg]
    rintro rfl
    exact hx (Mem.shmRef_zero hs)
  · rfl

/-- `deallocuvm` returns exactly if it gets past the shared page. -/
lemma deallocuvm_returns_iff {oldsz newsz : Nat} (hle : newsz ≤ oldsz) (hold : pgUp oldsz ≤ KERNBASE)
    (hok : d.Ok) (hs : Mem.SharedOk m.shared)
    (hin : ∀ v < KERNBASE, (d.entry v).present = true → m.InRange (d.entry v).ppn) :
    (∃ d' m', deallocuvm c d oldsz newsz m = .ok (newsz, d', m')) ↔
      ∀ w, pgUp newsz ≤ w → w < pgUp oldsz → Passable c d (pgUp newsz) w := by
  unfold deallocuvm
  by_cases hge : oldsz ≤ newsz
  · obtain rfl : newsz = oldsz := by omega
    rw [if_pos hge]
    exact iff_of_true ⟨d, m, rfl⟩ fun w h1 h2 => by omega
  · rw [if_neg hge]
    constructor
    · rintro ⟨d', m', h⟩
      obtain ⟨r, hr, -⟩ := bind_eq_ok.mp h
      exact deallocPages_passable (Nat.le_add_left _ _) r hr
    · intro h
      have hclear : Clearable c (pgUp newsz) (pgUp oldsz) d m :=
        ⟨fun w _ h2 => hok w (by omega), fun w _ h2 => hin w (by omega), hs, h⟩
      obtain ⟨⟨d', m'⟩, hr⟩ := deallocPages_returns (n := pgUp oldsz) hclear
      rw [hr]
      exact ⟨d', m', rfl⟩

/-- `deallocuvm` makes all pages from the new size up to the old one inaccessible exactly if none of
them is lazy and the shared page of the current process is not among them. -/
theorem deallocuvm_unmaps_iff {oldsz newsz : Nat} (hle : newsz ≤ oldsz)
    (hold : oldsz ≤ KERNBASE * PGSIZE) (hok : d.Ok) (hs : Mem.SharedOk m.shared)
    (hin : ∀ v < KERNBASE, (d.entry v).present = true → m.InRange (d.entry v).ppn) :
    (∃ d' m', deallocuvm c d oldsz newsz m = .ok (newsz, d', m') ∧
      Shrunk c (pgUp newsz) (pgUp oldsz) d m d' m') ↔ Shrinkable c d (pgUp newsz) (pgUp oldsz) := by
  have htop : pgUp oldsz ≤ KERNBASE := by
    rw [← pgUp_mul KERNBASE]
    exact pgUp_mono hold
  constructor
  · rintro ⟨d', m', hd, h⟩
    obtain ⟨-, hemptied⟩ := deallocuvm_emptied _ hd
    -- an entry that was not cleared is as it was, and not accessible
    have hkept : ∀ v, pgUp newsz ≤ v → v < pgUp oldsz → (c.Hits v ∨ (d.entry v).present = false) →
        (d.entry v).mapped = false := by
      intro v h1 h2 hv
      have hgone := h.gone v h1 h2
      rw [hemptied v, if_neg] at hgone
      · exact hgone
      · rintro ⟨-, -, hit, hp⟩
        exact hv.elim hit fun hno => by simp [hp] at hno
    have hpass := (deallocuvm_returns_iff hle htop hok hs hin).mp ⟨d', m', hd⟩
    intro v h1 h2
    refine ⟨?_, hpass v h1 h2, fun hit => ?_⟩
    · cases hp : (d.entry v).present with
      | true => exact (hok v (by omega)).not_both hp
      | false =>
        have := hkept v h1 h2 (Or.inr hp)
        simpa [Pte.mapped, hp] using this
    · have := hkept v h1 h2 (Or.inl hit)
      simp only [Pte.mapped, Bool.or_eq_false_iff] at this
      exact this.1
  · intro h
    obtain ⟨d', m', hd⟩ := (deallocuvm_returns_iff hle htop hok hs hin).mpr
      fun w h1 h2 => (h w h1 h2).2.1
    have hshared : ∀ v, pgUp newsz ≤ v → v < pgUp oldsz → c.Hits v →
        (d.entry v).present = false := fun v h1 h2 => (h v h1 h2).2.2
    have hzero : ∀ x, dropped c d m (pgUp newsz) (pgUp oldsz) x = 0 :=
      dropped_eq_zero hok htop hs hshared
    have hunshared := unsharedRefs_eq_zero hshared
    have hemptied : Emptied c (pgUp newsz) (pgUp oldsz) d d' := (deallocuvm_emptied _ hd).2
    have hdone : Deallocated c (pgUp newsz) (pgUp oldsz) d m d' m' := deallocuvm_ensures htop hs _ hd
    refine ⟨d', m', hd, fun v h1 h2 => ?_, fun x => ?_, fun x => ?_, fun v hv => ?_⟩
    · obtain ⟨hlazy, -, hit⟩ := h v h1 h2
      rw [hemptied v]
      split_ifs with hv
      · rfl
      · have hp : (d.entry v).present = false := by
          by_contra hp
          exact hv ⟨h1, h2, fun hhit => hp (hit hhit), by simpa using hp⟩
        simp [Pte.mapped, hlazy, hp]
    · have h1 := hdone.free x
      have h2 := hemptied.userRefs_add htop x
      rw [hzero, ite_self] at h1
      rw [hunshared, ite_self]
      omega
    · have h1 := hdone.shmRef x
      rw [hzero] at h1
      rw [hunshared]
      omega
    · rw [hemptied v, if_neg (by omega)]

/-! ### Small address spaces -/

/-- A directory in page 299 whose only page table, in page 300, is the first one. -/
def oneTable (pte : Nat → Pte) : PageDir := ⟨299, fun i => if i = 0 then some ⟨300, pte⟩ else none⟩

lemma oneTable_entry (pte : Nat → Pte) (v : Nat) :
    (oneTable pte).entry v = if v < NPTENTRIES then pte v else 0 := by
  unfold PageDir.entry PageDir.walk oneTable
  by_cases hv : v < NPTENTRIES
  · simp [hv, Nat.div_eq_of_lt hv, Nat.mod_eq_of_lt hv]
  · have hdiv : v / NPTENTRIES ≠ 0 := by
      simp only [NPTENTRIES] at hv ⊢
      omega
    simp [hv, hdiv]

lemma oneTable_ok {pte : Nat → Pte} (h : ∀ j, (pte j).Ok) : (oneTable pte).Ok := by
  intro v _
  rw [oneTable_entry]
  split_ifs
  · exact h v
  · exact Pte.ok_zero

lemma zeroMem_sharedOk : Mem.SharedOk zeroMem.shared :=
  ⟨fun _ => ⟨fun _ => rfl, fun _ => rfl⟩, fun _ _ _ h => absurd rfl h⟩

/-- Page 0 is mapped to page 301. -/
def firstMapped : PageDir := oneTable fun j => if j = 0 then (⟨true, true⟩ : Perm).pte 301 else 0

lemma firstMapped_entry (v : Nat) :
    firstMapped.entry v = if v = 0 then (⟨true, true⟩ : Perm).pte 301 else 0 := by
  rw [firstMapped, oneTable_entry]
  by_cases hv : v = 0
  · subst hv
    rfl
  · simp [hv]

lemma firstMapped_ok : firstMapped.Ok := by
  refine oneTable_ok fun j => ?_
  split_ifs
  · exact Perm.pte_ok _ _
  · exact Pte.ok_zero

/-- Shrinking a process of one page to nothing frees the page. -/
theorem deallocuvm_unmaps_first :
    ∃ d' m', deallocuvm ⟨none, 0⟩ firstMapped PGSIZE 0 zeroMem = .ok (0, d', m') ∧
      Shrunk ⟨none, 0⟩ (pgUp 0) (pgUp PGSIZE) firstMapped zeroMem d' m' := by
  refine (deallocuvm_unmaps_iff (Nat.zero_le _) ?_ firstMapped_ok zeroMem_sharedOk
    fun v _ hp => ?_).mpr fun v _ _ => ⟨?_, fun hit => absurd rfl hit.1, fun hit => absurd rfl hit.1⟩
  · rw [KERNBASE_eq]
    decide
  · rw [firstMapped_entry] at hp ⊢
    split_ifs at hp ⊢
    exact ⟨by decide, by decide⟩
  · rw [firstMapped_entry]
    split_ifs <;> rfl

/-- A process of one page grows lazily by one page and shrinks again: the page is lazy as before, and
the next access to it is handled. -/
theorem lazy_page_survives_shrinking :
    ∃ d₁ d₂, allocuvmLazy firstMapped PGSIZE (2 * PGSIZE) zeroMem = .ok (2 * PGSIZE, d₁, zeroMem) ∧
      deallocuvm ⟨none, 0⟩ d₁ (2 * PGSIZE) PGSIZE zeroMem = .ok (PGSIZE, d₂, zeroMem) ∧
      (d₂.entry 1).lazy = true := by
  have hK : ¬ KERNBASE * PGSIZE ≤ 2 * PGSIZE := by
    rw [KERNBASE_eq]
    decide
  refine ⟨firstMapped.set 1 lazyUserPte, firstMapped.set 1 lazyUserPte, ?_, rfl, rfl⟩
  rw [allocuvmLazy, if_neg hK]
  rfl

end Xv6
