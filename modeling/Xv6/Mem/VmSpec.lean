import Xv6.Mem.Vm

/-!
# What the functions of `vm.c` do to pages

For every function one specification: which entries of a directory it changes, and how it moves
physical pages between the free list and the directory. The accounting is by counting: for each
physical page `x`, `d.refs x` uses by the directory and `m.free x` occurrences on the free list.
-/

namespace Xv6

open Fallible Count

variable {c : ShmField} {d d' : PageDir} {m m' : Mem} {v w x y n : Nat}

/-! ### Page tables -/

/-- The directory has taken page tables from the free list, and its entries are the same. -/
structure Extends (d : PageDir) (m : Mem) (d' : PageDir) (m' : Mem) : Prop where
  tables : ∀ x, d'.tableRefs x + m'.free x = d.tableRefs x + m.free x
  entry : ∀ w, d'.entry w = d.entry w
  hasTable : ∀ w, d.HasTable w → d'.HasTable w
  takes : m.Takes m'
  shared : m'.shared = m.shared
  layout : m'.layout = m.layout

lemma Extends.refl (d : PageDir) (m : Mem) : Extends d m d m :=
  ⟨fun _ => rfl, fun _ => rfl, fun _ h => h, .refl m, rfl, rfl⟩

lemma Extends.userRefs (h : Extends d m d' m') (x : Nat) : d'.userRefs x = d.userRefs x :=
  PageDir.userRefs_congr (fun v _ => h.entry v) x

lemma Extends.refs (h : Extends d m d' m') (x : Nat) :
    d'.refs x + m'.free x = d.refs x + m.free x := by
  have := h.tables x
  have := h.userRefs x
  unfold PageDir.refs
  omega

lemma walkpgdir_extends {ok : Bool} (hv : v < NVPAGES) (h : walkpgdir d v m = (ok, d', m')) :
    Extends d m d' m' ∧ (ok = true → d'.HasTable v) ∧
      (ok = false → m.freelist = [] ∧ d' = d ∧ ¬ d.HasTable v) := by
  unfold walkpgdir at h
  split at h
  · next t ht =>
    simp only [Prod.mk.injEq] at h
    obtain ⟨rfl, rfl, rfl⟩ := h
    exact ⟨.refl _ _, fun _ => by simp [PageDir.HasTable, ht], by simp⟩
  · next hnone =>
    split at h
    · next hk =>
      simp only [Prod.mk.injEq] at h
      obtain ⟨rfl, rfl, rfl⟩ := h
      obtain ⟨hl, hm⟩ := Mem.kalloc_none hk
      subst hm
      exact ⟨.refl _ _, by simp, fun _ => ⟨hl, rfl, by simp [PageDir.HasTable, hnone]⟩⟩
    · next y m₁ hk =>
      simp only [Prod.mk.injEq] at h
      obtain ⟨rfl, rfl, rfl⟩ := h
      have hi : v / NPTENTRIES < NPDENTRIES := by
        simp only [NVPAGES, NPTENTRIES, NPDENTRIES] at hv ⊢
        omega
      refine ⟨⟨fun x => ?_, fun w => PageDir.entry_addTable_zero hnone,
        fun w hw => PageDir.hasTable_addTable hw, .kalloc hk _, ?_, ?_⟩, fun _ => ?_, by simp⟩
      · have := PageDir.tableRefs_addTable (t := ⟨y, fun _ => 0⟩) hi hnone x
        have := Mem.free_kalloc hk x
        rw [Mem.free_memset]
        simp only at *
        omega
      · rw [Mem.shared_memset, Mem.shared_kalloc hk]
      · rw [Mem.layout_memset, Mem.layout_kalloc hk]
      · exact PageDir.hasTable_addTable_iff.mpr (Or.inl rfl)

/-- Kernel pages leave the page tables of user pages alone. -/
lemma walkpgdir_pde {ok : Bool} {i : Nat} (h : walkpgdir d v m = (ok, d', m'))
    (hi : i ≠ v / NPTENTRIES) : d'.pde i = d.pde i := by
  unfold walkpgdir at h
  split at h
  · simp only [Prod.mk.injEq] at h
    rw [h.2.1]
  · split at h
    · simp only [Prod.mk.injEq] at h
      rw [h.2.1]
    · simp only [Prod.mk.injEq] at h
      rw [← h.2.1]
      simp [PageDir.addTable, Function.update_of_ne hi]

lemma pde_set {i : Nat} {e : Pte} (hi : i ≠ v / NPTENTRIES) : (d.set v e).pde i = d.pde i := by
  unfold PageDir.set
  split
  · simp [Function.update_of_ne hi]
  · rfl

/-! ### Mapping pages -/

lemma maps_pte (perm : Perm) (pa x : Nat) : (perm.pte pa).maps x = one pa x := rfl

/-- Mapping one user page. If it fails, memory was short of a page table. -/
lemma mappages_one {perm : Perm} {pa : Nat} (hv : v < KERNBASE) :
    Ensures (mappages perm 1 d v pa m) fun r =>
      r.2.2.shared = m.shared ∧ r.2.2.layout = m.layout ∧
      (r.1 = true → (d.entry v).present = false ∧
        (∀ w, r.2.1.entry w = if w = v then perm.pte pa else d.entry w) ∧
        ∀ x, r.2.1.refs x + r.2.2.free x = d.refs x + m.free x + one pa x) ∧
      (r.1 = false → Extends d m r.2.1 r.2.2) ∧
      ∀ w, d.HasTable w → r.2.1.HasTable w := by
  have hv' : v < NVPAGES := by
    rw [KERNBASE_eq] at hv
    simp only [NVPAGES, NPDENTRIES, NPTENTRIES] at hv ⊢
    omega
  unfold mappages
  split
  · next d₁ m₁ hw =>
    obtain ⟨hext, -, -⟩ := walkpgdir_extends hv' hw
    exact .ok ⟨hext.shared, hext.layout, by simp, fun _ => hext, hext.hasTable⟩
  · next d₁ m₁ hw =>
    obtain ⟨hext, htable, -⟩ := walkpgdir_extends hv' hw
    split_ifs with hp
    · exact .error
    · have hold : (d.entry v).present = false := by
        rw [← hext.entry v]
        simpa using hp
      have ht := htable rfl
      refine .ok ⟨hext.shared, hext.layout, fun _ => ⟨hold, fun w => ?_, fun x => ?_⟩, by simp,
        fun w hw => PageDir.hasTable_set.mpr (hext.hasTable w hw)⟩
      · split_ifs with hwv
        · subst hwv
          exact PageDir.entry_set_self ht
        · rw [PageDir.entry_set_ne hwv, hext.entry]
      · have h1 := PageDir.userRefs_set (e := perm.pte pa) ht hv x
        have h2 := hext.refs x
        rw [hext.entry, Pte.maps_of_not_present hold, maps_pte] at h1
        show (d₁.set v (perm.pte pa)).refs x + m₁.free x = d.refs x + m.free x + one pa x
        unfold PageDir.refs at *
        rw [PageDir.tableRefs_set]
        omega

/-- Mapping kernel pages: user pages and their tables are untouched. -/
lemma mappages_kernel (perm : Perm) (pa : Nat) (hv : KERNBASE ≤ v) (hn : v + n ≤ NVPAGES) :
    Ensures (mappages perm n d v pa m) fun r =>
      (∀ x, r.2.1.tableRefs x + r.2.2.free x = d.tableRefs x + m.free x) ∧
      (∀ i < KERNBASE / NPTENTRIES, r.2.1.pde i = d.pde i) ∧
      m.Takes r.2.2 ∧ r.2.2.shared = m.shared ∧ r.2.2.layout = m.layout := by
  induction n generalizing d v pa m with
  | zero => exact .ok ⟨fun _ => rfl, fun _ _ => rfl, .refl m, rfl, rfl⟩
  | succ n ih =>
    have hdiv : ∀ i < KERNBASE / NPTENTRIES, i ≠ v / NPTENTRIES := by
      intro i hi
      rw [KERNBASE_eq] at hi hv
      simp only [NPTENTRIES] at hi hv ⊢
      omega
    unfold mappages
    split
    · next d₁ m₁ hw =>
      obtain ⟨hext, -, -⟩ := walkpgdir_extends (by omega) hw
      exact .ok ⟨hext.tables, fun i hi => walkpgdir_pde hw (hdiv i hi), hext.takes, hext.shared,
        hext.layout⟩
    · next d₁ m₁ hw =>
      obtain ⟨hext, -, -⟩ := walkpgdir_extends (by omega) hw
      split_ifs
      · exact .error
      · refine (ih _ (by omega) (by omega)).mono ?_
        rintro r ⟨h1, h2, htakes, h3, h4⟩
        refine ⟨fun x => ?_, fun i hi => ?_, hext.takes.trans htakes, h3.trans hext.shared,
          h4.trans hext.layout⟩
        · have h5 := h1 x
          rw [PageDir.tableRefs_set] at h5
          rw [h5, hext.tables x]
        · rw [h2 i hi, pde_set (hdiv i hi), walkpgdir_pde hw (hdiv i hi)]

/-! ### Freeing -/

/-- The reference that `freevm` and `deallocuvm`, going over the pages from `v` to `stop`, take from
the table of shared pages: that of the page the directory has at the current process's `shm_va`. -/
def dropped (c : ShmField) (d : PageDir) (m : Mem) (v stop x : Nat) : Nat :=
  if c.idx ≠ none ∧ v ≤ c.va ∧ c.va < stop ∧ d.HasTable c.va ∧ Mem.shmRef m.shared x ≠ 0 then
    one (d.entry c.va).ppn x
  else 0

/-- Which entries `deallocPages` clears: the present ones, but not the one at the current process's
`shm_va`. -/
def Emptied (c : ShmField) (v stop : Nat) (d d' : PageDir) : Prop :=
  ∀ w, d'.entry w =
    if v ≤ w ∧ w < stop ∧ ¬ c.Hits w ∧ (d.entry w).present = true then 0 else d.entry w

/-- How `deallocPages` accounts for pages and for references to shared pages. -/
structure Deallocated (c : ShmField) (v stop : Nat) (d : PageDir) (m : Mem) (d' : PageDir)
    (m' : Mem) : Prop where
  tables : ∀ x, d'.tableRefs x = d.tableRefs x
  sharedOk : Mem.SharedOk m'.shared
  shmRef : ∀ x, Mem.shmRef m'.shared x + dropped c d m v stop x = Mem.shmRef m.shared x
  free : ∀ x, d'.userRefs x + m'.free x = d.userRefs x + m.free x +
    if Mem.shmRef m.shared x = 1 then dropped c d m v stop x else 0
  cleared : Mem.Cleared m.shared m'.shared
  shared : (∀ x, dropped c d m v stop x = 0) → m'.shared = m.shared
  layout : m'.layout = m.layout

lemma dropped_of_lt (h : c.va < v) (stop x : Nat) : dropped c d m v stop x = 0 := by
  rw [dropped, if_neg]
  omega

/-- Moving on past a page that is not the shared one. -/
lemma dropped_succ {stop : Nat} (h : ¬ c.Hits v) (x : Nat) :
    dropped c d m (v + 1) stop x = dropped c d m v stop x := by
  unfold dropped
  congr 1
  simp only [ShmField.Hits, not_and, eq_iff_iff] at h ⊢
  constructor
  · rintro ⟨h1, h2, h3⟩
    exact ⟨h1, by omega, h3⟩
  · rintro ⟨h1, h2, h3⟩
    exact ⟨h1, by have := h h1; omega, h3⟩

lemma dropped_congr {stop : Nat} (hd : d'.HasTable c.va ↔ d.HasTable c.va)
    (he : v ≤ c.va → d'.entry c.va = d.entry c.va) (hm : m'.shared = m.shared) (x : Nat) :
    dropped c d' m' v stop x = dropped c d m v stop x := by
  simp only [dropped, hm, hd]
  split_ifs with h
  · rw [he h.2.1]
  · rfl

lemma dropped_eq_of_hits {stop : Nat} (h : c.Hits v) (hv : v < stop) (ht : d.HasTable v)
    (x : Nat) : dropped c d m v stop x =
      if Mem.shmRef m.shared x ≠ 0 then one (d.entry v).ppn x else 0 := by
  obtain ⟨hidx, rfl⟩ := h
  simp [dropped, hidx, hv, ht]

/-! #### Entries -/

lemma Emptied.refl {stop : Nat} (hv : stop ≤ v) : Emptied c v stop d d := by
  intro w
  rw [if_neg]
  omega

/-- Moving on past pages that have no entry to clear. -/
lemma Emptied.skip {stop v' : Nat} (h : Emptied c v' stop d d') (hv : v ≤ v')
    (hnone : ∀ w, v ≤ w → w < v' → c.Hits w ∨ (d.entry w).present = false) :
    Emptied c v stop d d' := by
  intro w
  rw [h w]
  by_cases hw : v ≤ w ∧ w < v'
  · rcases hnone w hw.1 hw.2 with hhit | hp
    · simp [hhit]
    · simp [hp]
  · congr 1
    simp only [eq_iff_iff]
    constructor
    · rintro ⟨h1, h2⟩
      exact ⟨by omega, h2⟩
    · rintro ⟨h1, h2⟩
      exact ⟨by omega, h2⟩

/-- Clearing one entry. -/
lemma Emptied.clear {stop : Nat} (h : Emptied c (v + 1) stop (d.set v 0) d') (hhit : ¬ c.Hits v)
    (hstop : v < stop) (hp : (d.entry v).present = true) : Emptied c v stop d d' := by
  intro w
  rw [h w]
  by_cases hwv : w = v
  · subst hwv
    rw [if_neg (by omega), PageDir.entry_set_self (PageDir.hasTable_of_present hp),
      if_pos ⟨le_rfl, hstop, hhit, hp⟩]
  · rw [PageDir.entry_set_ne hwv]
    congr 1
    simp only [eq_iff_iff]
    constructor
    · rintro ⟨h1, h2⟩
      exact ⟨by omega, h2⟩
    · rintro ⟨h1, h2⟩
      exact ⟨by omega, h2⟩

/-- The pages that share a page table with page `v`, up to where `PGADDR(PDX(a) + 1, 0, 0)` starts. -/
lemma not_hasTable_block (h : ¬ d.HasTable v) (h1 : v ≤ w)
    (h2 : w < (v / NPTENTRIES + 1) * NPTENTRIES) : ¬ d.HasTable w := by
  have hdiv : w / NPTENTRIES = v / NPTENTRIES := by
    simp only [NPTENTRIES] at h2 ⊢
    omega
  unfold PageDir.HasTable at h ⊢
  rwa [hdiv]

lemma lt_block (v : Nat) : v < (v / NPTENTRIES + 1) * NPTENTRIES := by
  simp only [NPTENTRIES]
  omega

lemma deallocPages_emptied {stop : Nat} (hn : stop ≤ v + n) :
    Ensures (deallocPages c n v stop d m) fun r => Emptied c v stop d r.1 := by
  induction n generalizing v d m with
  | zero => exact .ok (.refl (by omega))
  | succ n ih =>
    have hlt := lt_block v
    unfold deallocPages
    split
    · next hv =>
      split
      · next hhit =>
        split
        · exact .error
        · refine Ensures.bind (R := fun _ => True) (fun _ _ => trivial) fun r _ => ?_
          refine (ih (by omega)).mono fun r hr => hr.skip (Nat.le_succ v) fun w h1 h2 => Or.inl ?_
          obtain rfl : w = v := by omega
          exact hhit
      · next hhit =>
        split
        · next he =>
          refine (ih (by omega)).mono fun r hr => hr.skip hlt.le fun w h1 h2 => Or.inr ?_
          have hno := not_hasTable_block (PageDir.walk_eq_none_iff.mp he) h1 h2
          rw [PageDir.entry_of_not_hasTable hno]
          rfl
        · next e he =>
          obtain ⟨ht, rfl⟩ := PageDir.walk_eq_some_iff.mp he
          split
          · next hp =>
            split
            · exact .error
            · refine Ensures.bind (R := fun _ => True) (fun _ _ => trivial) fun m₁ _ => ?_
              exact (ih (by omega)).mono fun r hr => hr.clear hhit hv hp
          · next hp =>
            refine (ih (by omega)).mono fun r hr => hr.skip (Nat.le_succ v) fun w h1 h2 => Or.inr ?_
            obtain rfl : w = v := by omega
            simpa using hp
    · next hv => exact .ok (.refl (by omega))

/-! #### Accounting -/

lemma Deallocated.refl {stop : Nat} (h : Mem.SharedOk m.shared) (hv : stop ≤ v) :
    Deallocated c v stop d m d m := by
  have hdrop : ∀ x, dropped c d m v stop x = 0 := by
    intro x
    rw [dropped, if_neg]
    omega
  exact ⟨fun _ => rfl, h, fun x => by rw [hdrop, Nat.add_zero], fun x => by simp [hdrop], .of_eq rfl,
    fun _ => rfl, rfl⟩

/-- Moving on past pages that are not the shared one and have no entry to free. -/
lemma Deallocated.skip {stop v' : Nat} (h : Deallocated c v' stop d m d' m')
    (hdrop : ∀ x, dropped c d m v' stop x = dropped c d m v stop x) :
    Deallocated c v stop d m d' m' := by
  refine ⟨h.tables, h.sharedOk, fun x => ?_, fun x => ?_, h.cleared,
    fun hno => h.shared fun x => (hdrop x).trans (hno x), h.layout⟩
  · rw [← hdrop x]
    exact h.shmRef x
  · rw [← hdrop x]
    exact h.free x

/-- The step at a present page that is freed. -/
lemma Deallocated.freed {stop : Nat} {m₁ : Mem}
    (h : Deallocated c (v + 1) stop (d.set v 0) m₁ d' m') (hhit : ¬ c.Hits v) (hv : v < KERNBASE)
    (ht : d.HasTable v) (hp : (d.entry v).present = true)
    (hfree : ∀ x, m₁.free x = m.free x + one (d.entry v).ppn x) (hshared : m₁.shared = m.shared)
    (hlayout : m₁.layout = m.layout) : Deallocated c v stop d m d' m' := by
  have hdrop : ∀ x, dropped c (d.set v 0) m₁ (v + 1) stop x = dropped c d m v stop x := by
    intro x
    rw [← dropped_succ hhit]
    exact dropped_congr PageDir.hasTable_set
      (fun hle => PageDir.entry_set_ne (by omega)) hshared x
  refine ⟨fun x => ?_, h.sharedOk, fun x => ?_, fun x => ?_, hshared ▸ h.cleared, fun hno => ?_,
    h.layout.trans hlayout⟩
  · rw [h.tables x, PageDir.tableRefs_set]
  · have := h.shmRef x
    rw [hdrop x, hshared] at this
    exact this
  · have h1 := h.free x
    have h2 := PageDir.userRefs_set (e := 0) ht hv x
    rw [hdrop x, hshared, hfree x] at h1
    rw [Pte.maps_of_present hp, Pte.maps_zero] at h2
    omega
  · rw [← hshared]
    exact h.shared fun x => (hdrop x).trans (hno x)

/-- The step at the shared page of the current process. -/
lemma Deallocated.unshared {stop : Nat} {m₁ : Mem} (h : Deallocated c (v + 1) stop d m₁ d' m')
    (hhit : c.Hits v) (hstop : v < stop) (ht : d.HasTable v)
    (href : ∀ x, Mem.shmRef m₁.shared x +
      (if Mem.shmRef m.shared x ≠ 0 then one (d.entry v).ppn x else 0) = Mem.shmRef m.shared x)
    (hfree : ∀ x, m₁.free x = m.free x +
      if Mem.shmRef m.shared x = 1 then one (d.entry v).ppn x else 0)
    (hcleared : Mem.Cleared m.shared m₁.shared)
    (hshared : Mem.shmRef m.shared (d.entry v).ppn = 0 → m₁.shared = m.shared)
    (hlayout : m₁.layout = m.layout) : Deallocated c v stop d m d' m' := by
  have hva : c.va < v + 1 := by
    rw [← hhit.2]
    omega
  have hzero : ∀ x, dropped c d m₁ (v + 1) stop x = 0 := dropped_of_lt hva stop
  refine ⟨h.tables, h.sharedOk, fun x => ?_, fun x => ?_, hcleared.trans h.cleared, fun hno => ?_,
    h.layout.trans hlayout⟩
  · rw [dropped_eq_of_hits hhit hstop ht]
    have h1 := h.shmRef x
    have h2 := href x
    rw [hzero] at h1
    omega
  · rw [dropped_eq_of_hits hhit hstop ht]
    have h1 := h.free x
    rw [hzero, hfree x] at h1
    split_ifs at h1 ⊢ <;> omega
  · rw [h.shared hzero]
    apply hshared
    by_contra hne
    have hone := hno (d.entry v).ppn
    rw [dropped_eq_of_hits hhit hstop ht, if_pos hne] at hone
    simp [one] at hone

lemma deallocPages_ensures {stop : Nat} (hstop : stop ≤ KERNBASE) (hn : stop ≤ v + n)
    (hs : Mem.SharedOk m.shared) :
    Ensures (deallocPages c n v stop d m) fun r => Deallocated c v stop d m r.1 r.2 := by
  induction n generalizing v d m with
  | zero => exact .ok (.refl hs (by omega))
  | succ n ih =>
    have hlt := lt_block v
    unfold deallocPages
    split
    · next hv =>
      split
      · next hhit =>
        split
        · exact .error
        · next e he =>
          obtain ⟨ht, rfl⟩ := PageDir.walk_eq_some_iff.mp he
          by_cases hx : Mem.shmRef m.shared (d.entry v).ppn = 0
          · rw [Mem.shmRemove_of_shmRef_eq_zero hs hx]
            refine (ih (by omega) hs).mono fun r hr =>
              hr.unshared hhit hv ht ?_ ?_ (.of_eq rfl) (fun _ => rfl) rfl
            · intro x
              unfold one
              split_ifs <;> simp_all
            · intro x
              unfold one
              split_ifs <;> simp_all
          · refine (Mem.shmRemove_ensures hs hx).bind ?_
            rintro ⟨b, m₁⟩ ⟨-, hok, href, hfree, hcleared, hlay⟩
            refine (ih (by omega) hok).mono fun r hr =>
              hr.unshared hhit hv ht ?_ ?_ hcleared (fun h0 => absurd h0 hx) hlay
            · intro x
              have := href x
              unfold one at this ⊢
              split_ifs at this ⊢ <;> simp_all
            · intro x
              have := hfree x
              unfold one at this ⊢
              split_ifs at this ⊢ <;> simp_all
      · next hhit =>
        split
        · next he =>
          have hno := PageDir.walk_eq_none_iff.mp he
          refine (ih (by omega) hs).mono fun r hr => hr.skip ?_
          intro x
          unfold dropped
          congr 1
          simp only [eq_iff_iff]
          constructor
          · rintro ⟨h1, h2, h3⟩
            exact ⟨h1, by omega, h3⟩
          · rintro ⟨h1, h2, h3, h4, h5⟩
            refine ⟨h1, ?_, h3, h4, h5⟩
            by_contra hlt'
            exact not_hasTable_block hno h2 (by omega) h4
        · next e he =>
          obtain ⟨ht, rfl⟩ := PageDir.walk_eq_some_iff.mp he
          split
          · next hp =>
            split
            · exact .error
            · refine (Mem.kfree_ensures _ _).bind ?_
              rintro m₁ ⟨-, hfree, hshared, hlay⟩
              refine (ih (by omega) (hshared ▸ hs)).mono fun r hr => ?_
              exact hr.freed hhit (by omega) ht hp hfree hshared hlay
          · exact (ih (by omega) hs).mono fun r hr => hr.skip (dropped_succ hhit)
    · next hv => exact .ok (.refl hs (by omega))

lemma pgUp_mono {a b : Nat} (h : a ≤ b) : pgUp a ≤ pgUp b := by
  unfold pgUp PGSIZE
  omega

lemma pgUp_mul (n : Nat) : pgUp (n * PGSIZE) = n := by
  unfold pgUp PGSIZE
  omega

lemma le_pgUp_mul (a : Nat) : a ≤ pgUp a * PGSIZE := by
  unfold pgUp PGSIZE
  omega

lemma deallocuvm_emptied {oldsz newsz : Nat} :
    Ensures (deallocuvm c d oldsz newsz m) fun r =>
      r.1 = min oldsz newsz ∧ Emptied c (pgUp newsz) (pgUp oldsz) d r.2.1 := by
  unfold deallocuvm
  split
  · next h => exact .ok ⟨(Nat.min_eq_left h).symm, .refl (pgUp_mono h)⟩
  · next h =>
    refine (deallocPages_emptied (Nat.le_add_left _ _)).bind ?_
    rintro ⟨d', m'⟩ hr
    exact .pure ⟨(Nat.min_eq_right (by omega)).symm, hr⟩

lemma deallocuvm_ensures {oldsz newsz : Nat} (hold : pgUp oldsz ≤ KERNBASE)
    (hs : Mem.SharedOk m.shared) :
    Ensures (deallocuvm c d oldsz newsz m) fun r =>
      Deallocated c (pgUp newsz) (pgUp oldsz) d m r.2.1 r.2.2 := by
  unfold deallocuvm
  split
  · next h => exact .ok (.refl hs (pgUp_mono h))
  · next h =>
    refine (deallocPages_ensures hold (Nat.le_add_left _ _) hs).bind ?_
    rintro ⟨d', m'⟩ hr
    exact .pure hr

lemma freeTables_ensures (l : List Nat) :
    Ensures (freeTables d l m) fun m' =>
      (∀ x, m'.free x = m.free x + (l.map fun i => (d.pde i).elim 0 fun t => one t.page x).sum) ∧
      m'.shared = m.shared ∧ m'.layout = m.layout := by
  induction l generalizing m with
  | nil => exact .ok ⟨fun _ => rfl, rfl, rfl⟩
  | cons i l ih =>
    unfold freeTables
    split
    · next hi =>
      refine ih.mono ?_
      rintro m' ⟨h1, h2, h3⟩
      refine ⟨fun x => ?_, h2, h3⟩
      rw [h1 x]
      simp [hi]
    · next t hi =>
      refine (Mem.kfree_ensures _ _).bind ?_
      rintro m₁ ⟨-, hfree, hshared, hlay⟩
      refine ih.mono ?_
      rintro m' ⟨h1, h2, h3⟩
      refine ⟨fun x => ?_, h2.trans hshared, h3.trans hlay⟩
      rw [h1 x, hfree x]
      simp only [List.map_cons, hi, Option.elim_some, List.sum_cons]
      omega

/-- The mapping at the current process's `shm_va`, which `freevm` does not free. -/
def kept (c : ShmField) (d : PageDir) (x : Nat) : Nat :=
  if c.idx ≠ none ∧ c.va < KERNBASE then (d.entry c.va).maps x else 0

lemma Emptied.userRefs (h : Emptied c 0 KERNBASE d d') (x : Nat) : d'.userRefs x = kept c d x := by
  have hmaps : ∀ w < KERNBASE, (d'.entry w).maps x = if c.Hits w then (d.entry w).maps x else 0 := by
    intro w hw
    rw [h w]
    by_cases hhit : c.Hits w
    · simp [hhit]
    · by_cases hp : (d.entry w).present = true
      · simp [hhit, hp, hw]
      · simp [hp, Pte.maps]
  unfold PageDir.userRefs kept
  rw [Finset.sum_congr rfl fun w hw => hmaps w (Finset.mem_range.mp hw)]
  by_cases hc : c.idx ≠ none ∧ c.va < KERNBASE
  · rw [if_pos hc, Finset.sum_eq_single c.va]
    · rw [if_pos ⟨hc.1, rfl⟩]
    · intro w _ hw
      rw [if_neg fun hhit => hw hhit.2]
    · intro hn
      exact absurd (Finset.mem_range.mpr hc.2) hn
  · rw [if_neg hc]
    apply Finset.sum_eq_zero
    intro w hw
    rw [if_neg]
    rintro ⟨h1, rfl⟩
    exact hc ⟨h1, Finset.mem_range.mp hw⟩

/-- Of a registered page, `freevm` drops the reference that the mapping at `shm_va` is. -/
lemma dropped_eq_kept (hok : d.Ok) (hs : Mem.SharedOk m.shared) (hx : Mem.shmRef m.shared x ≠ 0) :
    dropped c d m 0 KERNBASE x = kept c d x := by
  have hx0 : x ≠ 0 := by
    rintro rfl
    exact hx (Mem.shmRef_zero hs)
  by_cases hc : c.idx ≠ none ∧ c.va < KERNBASE
  · rw [kept, if_pos hc]
    by_cases hp : (d.entry c.va).present = true
    · rw [dropped, if_pos ⟨hc.1, Nat.zero_le _, hc.2, PageDir.hasTable_of_present hp, hx⟩,
        Pte.maps_of_present hp]
    · have hp' : (d.entry c.va).present = false := by simpa using hp
      rw [Pte.maps_of_not_present hp', dropped, (hok c.va hc.2).ppn_zero hp']
      split_ifs
      · exact if_neg fun h => hx0 h.symm
      · rfl
  · rw [kept, if_neg hc, dropped, if_neg]
    rintro ⟨h1, -, h2, -⟩
    exact hc ⟨h1, h2⟩

/-- What `freevm` guarantees: all pages of the directory are given back, except the one at the
current process's `shm_va`. There it drops a reference to the shared page, if the page is a shared
one. -/
structure Freed (c : ShmField) (d : PageDir) (m m' : Mem) : Prop where
  sharedOk : Mem.SharedOk m'.shared
  shmRef : ∀ x, Mem.shmRef m'.shared x + dropped c d m 0 KERNBASE x = Mem.shmRef m.shared x
  free : ∀ x, m'.free x + kept c d x = m.free x + d.refs x +
    if Mem.shmRef m.shared x = 1 then dropped c d m 0 KERNBASE x else 0
  cleared : Mem.Cleared m.shared m'.shared
  shared : (∀ x, dropped c d m 0 KERNBASE x = 0) → m'.shared = m.shared
  layout : m'.layout = m.layout

lemma freevm_ensures (hs : Mem.SharedOk m.shared) : Ensures (freevm c d m) (Freed c d m) := by
  refine (deallocuvm_emptied.and (deallocuvm_ensures (by rw [pgUp_mul]) hs)).bind ?_
  rintro ⟨_, d₁, m₁⟩ ⟨⟨-, hemptied⟩, h⟩
  change Emptied c 0 (pgUp (KERNBASE * PGSIZE)) d d₁ at hemptied
  change Deallocated c 0 (pgUp (KERNBASE * PGSIZE)) d m d₁ m₁ at h
  rw [pgUp_mul] at h hemptied
  refine (freeTables_ensures _).bind ?_
  rintro m₂ ⟨hfree₂, hshared₂, hlay₂⟩
  refine (Mem.kfree_ensures _ _).mono ?_
  rintro m₃ ⟨-, hfree₃, hshared₃, hlay₃⟩
  have hshared : m₃.shared = m₁.shared := hshared₃.trans hshared₂
  refine ⟨hshared ▸ h.sharedOk, hshared ▸ h.shmRef, fun x => ?_, hshared ▸ h.cleared,
    hshared ▸ h.shared, ?_⟩
  · have h1 := h.free x
    have h2 := hemptied.userRefs x
    have h3 := h.tables x
    have h4 : d₁.tableRefs x = one d₁.page x +
        ((List.range NPDENTRIES).map fun i => (d₁.pde i).elim 0 fun t => one t.page x).sum := by
      rw [PageDir.tableRefs, sum_map_range]
    rw [hfree₃ x, hfree₂ x]
    unfold PageDir.refs
    omega
  · rw [hlay₃, hlay₂, h.layout]

/-! ### A fresh directory -/

lemma mapKernel_ensures (l : List KMap) (hl : ∀ k ∈ l, KERNBASE ≤ k.virt ∧ k.virt + k.pages ≤ NVPAGES) :
    Ensures (mapKernel l d m) fun r =>
      (∀ x, r.2.1.tableRefs x + r.2.2.free x = d.tableRefs x + m.free x) ∧
      (∀ i < KERNBASE / NPTENTRIES, r.2.1.pde i = d.pde i) ∧
      m.Takes r.2.2 ∧ r.2.2.shared = m.shared ∧ r.2.2.layout = m.layout := by
  induction l generalizing d m with
  | nil => exact .ok ⟨fun _ => rfl, fun _ _ => rfl, .refl m, rfl, rfl⟩
  | cons k l ih =>
    obtain ⟨hlo, hhi⟩ := hl k (List.mem_cons_self ..)
    have hk := mappages_kernel k.perm k.phys (d := d) (m := m) hlo hhi
    unfold mapKernel
    split
    · exact .error
    · next d₁ m₁ heq => exact .ok (hk _ heq)
    · next d₁ m₁ heq =>
      obtain ⟨h1, h2, ht, h3, h4⟩ := hk _ heq
      refine (ih fun k' hk' => hl k' (List.mem_cons_of_mem k hk')).mono ?_
      rintro r ⟨h5, h6, ht', h7, h8⟩
      refine ⟨fun x => (h5 x).trans (h1 x), fun i hi => ?_, ht.trans ht', h7.trans h3, h8.trans h4⟩
      rw [h6 i hi]
      exact h2 i hi

/-- The bounds of the parts of `kmap`, in pages. -/
lemma Layout.bounds (l : Layout) : EXTMEM < l.data ∧ l.data < PHYSTOP ∧ PHYSTOP = 57344 ∧
    EXTMEM = 256 ∧ NVPAGES = 1048576 ∧ DEVSPACE = 1040384 ∧ KERNBASE = 524288 :=
  ⟨l.data_gt, l.data_lt, rfl, rfl, rfl, rfl, KERNBASE_eq⟩

lemma kmap_bounds (l : Layout) : ∀ k ∈ kmap l, KERNBASE ≤ k.virt ∧ k.virt + k.pages ≤ NVPAGES := by
  obtain ⟨h1, h2, h3, h4, h5, h6, h7⟩ := l.bounds
  intro k hk
  simp only [kmap, List.mem_cons, List.not_mem_nil, or_false] at hk
  rcases hk with rfl | rfl | rfl | rfl <;> constructor <;> dsimp only <;> omega

/-- A directory without user pages. -/
def PageDir.Bare (d : PageDir) : Prop := ∀ i < KERNBASE / NPTENTRIES, d.pde i = none

lemma PageDir.Bare.not_hasTable (h : d.Bare) (hv : v < KERNBASE) : ¬ d.HasTable v := by
  have hi : v / NPTENTRIES < KERNBASE / NPTENTRIES := by
    rw [KERNBASE_eq] at hv ⊢
    simp only [NPTENTRIES] at hv ⊢
    omega
  simp [PageDir.HasTable, h _ hi]

lemma PageDir.Bare.entry (h : d.Bare) (hv : v < KERNBASE) : d.entry v = 0 :=
  PageDir.entry_of_not_hasTable (h.not_hasTable hv)

lemma PageDir.Bare.userRefs (h : d.Bare) (x : Nat) : d.userRefs x = 0 := by
  apply PageDir.userRefs_eq_zero
  intro v hv
  rw [h.entry hv]
  rfl

lemma PageDir.Bare.ok (h : d.Bare) : d.Ok := by
  intro v hv
  rw [h.entry hv]
  exact Pte.ok_zero

lemma PageDir.Bare.dropped (h : d.Bare) (x : Nat) : dropped c d m 0 KERNBASE x = 0 := by
  rw [Xv6.dropped, if_neg]
  rintro ⟨-, -, hlt, ht, -⟩
  exact h.not_hasTable hlt ht

lemma PageDir.Bare.kept (h : d.Bare) (x : Nat) : kept c d x = 0 := by
  unfold Xv6.kept
  split_ifs with hc
  · rw [h.entry hc.2]
    rfl
  · rfl

/-- The directory that `setupkvm` returns is the one that `mapKernel` has filled in. -/
lemma setupkvm_some {m' : Mem} (h : setupkvm c m = .ok (some d, m')) :
    ∃ y m₁, m.kalloc = (some y, m₁) ∧
      mapKernel (kmap m₁.layout) ⟨y, fun _ => none⟩ (m₁.memset y 0) = .ok (true, d, m') := by
  unfold setupkvm at h
  split at h
  · cases h
  · next y m₁ hk =>
    split at h
    · cases h
    · obtain ⟨⟨ok, d₁, m₂⟩, hmap, h⟩ := bind_eq_ok.mp h
      cases ok with
      | false =>
        obtain ⟨_, -, h⟩ := bind_eq_ok.mp h
        cases h
      | true =>
        cases h
        exact ⟨y, m₁, hk, hmap⟩

lemma setupkvm_bare : Ensures (setupkvm c m) fun r => ∀ d, r.1 = some d → d.Bare := by
  rintro ⟨_, m'⟩ h d rfl
  obtain ⟨y, m₁, -, hmap⟩ := setupkvm_some h
  exact (mapKernel_ensures _ (kmap_bounds _) _ hmap).2.1

/-- `setupkvm` makes a directory without user pages, or gives back what it took. -/
lemma setupkvm_ensures (hs : Mem.SharedOk m.shared) :
    Ensures (setupkvm c m) fun r =>
      r.2.shared = m.shared ∧ r.2.layout = m.layout ∧
      (r.1 = none → ∀ x, r.2.free x = m.free x) ∧
      ∀ d, r.1 = some d → d.Bare ∧ (∀ x, d.refs x + r.2.free x = m.free x) ∧ m.Takes r.2 := by
  unfold setupkvm
  split
  · next hk =>
    obtain ⟨-, rfl⟩ := Mem.kalloc_none hk
    exact .ok ⟨rfl, rfl, fun _ _ => rfl, by simp⟩
  · next y m₁ hk =>
    split
    · exact .error
    · have hbare : (⟨y, fun _ => none⟩ : PageDir).Bare := fun _ _ => rfl
      refine (mapKernel_ensures _ (kmap_bounds _)).bind ?_
      rintro ⟨ok, d₁, m₂⟩ ⟨h1, h2, htakes, h3, h4⟩
      simp only [Mem.shared_memset, Mem.free_memset, Mem.layout_memset] at h1 h2 h3 h4
      rw [Mem.shared_kalloc hk] at h3
      rw [Mem.layout_kalloc hk] at h4
      have hempty : ∀ x, (⟨y, fun _ => none⟩ : PageDir).tableRefs x = one y x := by
        intro x
        simp only [PageDir.tableRefs, Option.elim_none, Finset.sum_const_zero, Nat.add_zero]
      have hd₁ : d₁.Bare := fun i hi => (h2 i hi).trans (hbare i hi)
      have hcons : ∀ x, d₁.refs x + m₂.free x = m.free x := by
        intro x
        have := h1 x
        have := hempty x
        have := Mem.free_kalloc hk x
        rw [PageDir.refs, hd₁.userRefs]
        omega
      dsimp only
      split
      · refine .pure ⟨h3, h4, by simp, ?_⟩
        rintro d hd
        cases hd
        exact ⟨hd₁, hcons, (Mem.Takes.kalloc hk _).trans htakes⟩
      · refine (freevm_ensures (h3 ▸ hs)).bind ?_
        intro m₃ hfreed
        refine .pure ⟨(hfreed.shared hd₁.dropped).trans h3, hfreed.layout.trans h4,
          fun _ x => ?_, by simp⟩
        show m₃.free x = m.free x
        have h5 := hfreed.free x
        rw [hd₁.kept, hd₁.dropped, ite_self] at h5
        have := hcons x
        omega

end Xv6
