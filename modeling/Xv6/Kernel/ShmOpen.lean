import Xv6.Kernel.Mapping

/-!
# shm_open

`sys_shm_open` takes a page, maps it at the highest user page that is not present, and registers it in
the table of shared pages. `map_last_page` does not look at `PTE_LAZY`, and when the second or the
third step fails the first ones are not undone.
-/

namespace Xv6

open Fallible Count

variable {d d' : PageDir} {m m' : Mem} {perm : Perm} {v w y i n j : Nat}

/-! ### The last page that is not present -/

/-- Page `v` is the last one below `stop` that fails the test. -/
def IsLast (test : Nat → Bool) (stop v : Nat) : Prop :=
  v < stop ∧ test v = false ∧ ∀ w, v < w → w < stop → test w = true

lemma isLast_or_all (test : Nat → Bool) (stop : Nat) :
    (∃ v, IsLast test stop v) ∨ ∀ w < stop, test w = true := by
  induction stop with
  | zero => exact Or.inr fun w hw => by omega
  | succ n ih =>
    cases hn : test n with
    | false => exact Or.inl ⟨n, Nat.lt_succ_self n, hn, fun w h1 h2 => by omega⟩
    | true =>
      have htop : ∀ w, w < n + 1 → ¬ w < n → test w = true := by
        intro w h1 h2
        obtain rfl : w = n := by omega
        exact hn
      rcases ih with ⟨v, h1, h2, h3⟩ | hall
      · refine Or.inl ⟨v, by omega, h2, fun w hlt hw => ?_⟩
        by_cases hwn : w < n
        · exact h3 w hlt hwn
        · exact htop w hw hwn
      · refine Or.inr fun w hw => ?_
        by_cases hwn : w < n
        · exact hall w hwn
        · exact htop w hw hwn

lemma reverse_range_succ (n : Nat) :
    (List.range (n + 1)).reverse = n :: (List.range n).reverse := by
  rw [List.range_succ, List.reverse_append, List.reverse_singleton, List.singleton_append]

/-- The search of `lastFree`, from the last entry down. -/
lemma find_reverse_range_succ (p : Nat → Bool) (n : Nat) :
    (List.range (n + 1)).reverse.find? p =
      if p n then some n else (List.range n).reverse.find? p := by
  rw [reverse_range_succ, List.find?_cons]
  cases p n <;> rfl

lemma find_reverse_range_of_isLast {test : Nat → Bool} (h : IsLast test n v) :
    (List.range n).reverse.find? (fun j => !test j) = some v := by
  induction n with
  | zero =>
    have := h.1
    omega
  | succ n ih =>
    obtain ⟨h1, h2, h3⟩ := h
    rw [find_reverse_range_succ]
    by_cases hvn : v = n
    · subst hvn
      rw [h2]
      rfl
    · rw [h3 n (by omega) (by omega)]
      exact ih ⟨by omega, h2, fun w hlt hw => h3 w hlt (by omega)⟩

lemma find_reverse_range_eq_none {test : Nat → Bool} (h : ∀ j < n, test j = true) :
    (List.range n).reverse.find? (fun j => !test j) = none := by
  rw [List.find?_eq_none]
  intro j hj
  rw [List.mem_reverse, List.mem_range] at hj
  simp [h j hj]

/-- The entries of the directory, as tests of the page table `i`. -/
lemma entry_table {t : PageTable} (ht : d.pde i = some t) (hj : j < NPTENTRIES) :
    d.entry (i * NPTENTRIES + j) = t.pte j := by
  rw [PageDir.entry_block hj, ht]
  rfl

lemma walkpgdir_congr (h : v / NPTENTRIES = w / NPTENTRIES) : walkpgdir d v m = walkpgdir d w m := by
  unfold walkpgdir
  rw [h]

/-- The test of `map_last_page`. -/
def PageDir.present (d : PageDir) (v : Nat) : Bool := (d.entry v).present

/-- One page table of `map_last_page` in which the last page that is not present lies. -/
lemma mapInTable_isLast {d₁ : PageDir} {m₁ : Mem} (y : Nat) (perm : Perm) (hi : i < 512)
    (hlast : IsLast d.present ((i + 1) * NPTENTRIES) v) (hv : i * NPTENTRIES ≤ v) :
    (walkpgdir d v m = (true, d₁, m₁) →
      mapInTable y perm i d m = (some v, d₁.set v (perm.pte y), m₁)) ∧
    (walkpgdir d v m = (false, d₁, m₁) → mapInTable y perm i d m = (some 0, d₁, m₁)) := by
  have hN : NPTENTRIES = 1024 := rfl
  have hlt := hlast.1
  have hdiv : i * NPTENTRIES / NPTENTRIES = v / NPTENTRIES := by
    rw [hN] at hv hlt ⊢
    omega
  have hvi : v / NPTENTRIES = i := by
    rw [hN] at hv hlt ⊢
    omega
  constructor
  · intro hwalk
    have hNV : v < NVPAGES := by
      have : NVPAGES = 1048576 := rfl
      rw [hN] at hlt
      omega
    obtain ⟨hext, htable, -⟩ := walkpgdir_extends hNV hwalk
    obtain ⟨t, ht⟩ := Option.isSome_iff_exists.mp (htable rfl)
    rw [hvi] at ht
    have hfree : lastFree t.pte = some (v - i * NPTENTRIES) := by
      have hj : v - i * NPTENTRIES < NPTENTRIES := by
        rw [hN] at hv hlt ⊢
        omega
      refine find_reverse_range_of_isLast ⟨hj, ?_, fun j hj hj' => ?_⟩
      · show (t.pte (v - i * NPTENTRIES)).present = false
        rw [← entry_table ht hj, hext.entry, Nat.add_sub_cancel' hv]
        exact hlast.2.1
      · show (t.pte j).present = true
        rw [← entry_table ht hj', hext.entry]
        exact hlast.2.2 (i * NPTENTRIES + j) (by omega) (by rw [hN] at hj' ⊢; omega)
    unfold mapInTable
    rw [walkpgdir_congr hdiv, hwalk]
    simp only [ht, hfree, Nat.add_sub_cancel' hv]
  · intro hwalk
    unfold mapInTable
    rw [walkpgdir_congr hdiv, hwalk]

/-- A page table in which all pages are present is passed over. -/
lemma mapInTable_full
    (hall : ∀ w, i * NPTENTRIES ≤ w → w < (i + 1) * NPTENTRIES → d.present w = true) :
    mapInTable y perm i d m = (none, d, m) := by
  have hN : NPTENTRIES = 1024 := rfl
  have ht : d.HasTable (i * NPTENTRIES) :=
    PageDir.hasTable_of_present (hall (i * NPTENTRIES) le_rfl (by rw [hN]; omega))
  obtain ⟨t, ht'⟩ := Option.isSome_iff_exists.mp ht
  rw [Nat.mul_div_cancel _ (by decide)] at ht'
  have hfree : lastFree t.pte = none := by
    refine find_reverse_range_eq_none fun j hj => ?_
    rw [← entry_table ht' hj]
    exact hall (i * NPTENTRIES + j) (by omega) (by rw [hN] at hj ⊢; omega)
  unfold mapInTable
  rw [walkpgdir_of_hasTable ht]
  simp only [ht', hfree]

/-- `map_last_page` maps the page at the last one that is not present, or finds no memory for the page
table it needs there. -/
lemma mapLastPage_isLast {d₁ : PageDir} {m₁ : Mem} (y : Nat) (perm : Perm) (hn : n ≤ 512)
    (hlast : IsLast d.present (n * NPTENTRIES) v) :
    (walkpgdir d v m = (true, d₁, m₁) →
      mapLastPage y perm (List.range n).reverse d m = (v, d₁.set v (perm.pte y), m₁)) ∧
    (walkpgdir d v m = (false, d₁, m₁) →
      mapLastPage y perm (List.range n).reverse d m = (0, d₁, m₁)) := by
  induction n with
  | zero =>
    have := hlast.1
    omega
  | succ n ih =>
    rw [reverse_range_succ]
    simp only [mapLastPage]
    by_cases hv : n * NPTENTRIES ≤ v
    · exact ⟨fun h => by rw [(mapInTable_isLast y perm (by omega) hlast hv).1 h],
        fun h => by rw [(mapInTable_isLast y perm (by omega) hlast hv).2 h]⟩
    · have hrest : IsLast d.present (n * NPTENTRIES) v := by
        refine ⟨by omega, hlast.2.1, fun w h1 h2 => hlast.2.2 w h1 ?_⟩
        rw [Nat.succ_mul]
        omega
      rw [mapInTable_full fun w h1 h2 => hlast.2.2 w (by omega) h2]
      exact ih (by omega) hrest

lemma mapLastPage_full (hn : n ≤ 512) (hall : ∀ w < n * NPTENTRIES, d.present w = true) :
    mapLastPage y perm (List.range n).reverse d m = (0, d, m) := by
  induction n with
  | zero => rfl
  | succ n ih =>
    rw [reverse_range_succ]
    simp only [mapLastPage]
    have hrest : ∀ w < n * NPTENTRIES, d.present w = true := by
      intro w hw
      refine hall w ?_
      rw [Nat.succ_mul]
      omega
    rw [mapInTable_full fun w _ h2 => hall w h2]
    exact ih (by omega) hrest

/-! ### Registering a fresh page -/

lemma shmAdd_fresh (hy : ∀ i, (m.shared i).pa ≠ y) :
    (∃ i, (m.shared i).refCnt = 0 ∧
      m.shmAdd y = (some i, { m with shared := Function.update m.shared i ⟨y, 1⟩ })) ∨
    ((∀ i, (m.shared i).refCnt ≠ 0) ∧ m.shmAdd y = (none, m)) := by
  have hnone : (List.finRange N_SHARED_PAGES).find? (fun i => (m.shared i).pa = y) = none := by
    rw [List.find?_eq_none]
    intro i _
    simpa using hy i
  unfold Mem.shmAdd
  rw [hnone]
  cases hf : (List.finRange N_SHARED_PAGES).find? (fun i => (m.shared i).refCnt = 0) with
  | some i =>
    have hi : (m.shared i).refCnt = 0 := by simpa using List.find?_some hf
    exact Or.inl ⟨i, hi, rfl⟩
  | none =>
    refine Or.inr ⟨fun i => ?_, rfl⟩
    simpa using List.find?_eq_none.mp hf i (List.mem_finRange i)

/-- A page that is not in the table of shared pages has no entry there. -/
lemma pa_ne_of_shmRef {sh : Fin N_SHARED_PAGES → ShmEntry} (hs : Mem.SharedOk sh) (hy : y ≠ 0)
    (h : Mem.shmRef sh y = 0) (i : Fin N_SHARED_PAGES) : (sh i).pa ≠ y := by
  intro hi
  rw [Mem.shmRef_eq hs hi hy] at h
  exact hy (hi.symm.trans ((hs.zero i).mp h))

namespace Kernel

variable {k : Kernel} {p : Slot}

/-! ### Exactness -/

/-- `shm_open` has mapped a fresh page, registered with count 1, at the last user page that was neither
present nor lazy; apart from that page and new page tables, no page was taken. -/
structure Opened (p : Slot) (d : PageDir) (k : Kernel) (v : Nat) (k' : Kernel) : Prop where
  last : IsLast (fun w => (d.entry w).mapped) KERNBASE v
  fresh : ∃ y i d' m', k' = { k.setMm p { k.mm p with pgdir := some d', shm := ⟨some i, v⟩ } with
      mem := m' } ∧
    (∀ w < KERNBASE, d'.entry w = if w = v then (⟨true, true⟩ : Perm).pte y else d.entry w) ∧
    y ∈ k.mem.freelist ∧
    (∀ x, m'.free x + d'.tableRefs x + one y x = k.mem.free x + d.tableRefs x) ∧
    m'.shared = Function.update k.mem.shared i ⟨y, 1⟩

/-- User mappings and shared pages are as before, and apart from new page tables no page was taken. -/
structure Refused (p : Slot) (d : PageDir) (k k' : Kernel) : Prop where
  same : ∃ d' m', k' = k.setDir p d' m' ∧ (∀ w < KERNBASE, d'.entry w = d.entry w) ∧
    (∀ x, m'.free x + d'.tableRefs x = k.mem.free x + d.tableRefs x) ∧ m'.shared = k.mem.shared

/-- `shm_open` returns the address of the page it has opened, or 0 with nothing changed. -/
def ShmOpenExact (p : Slot) (d : PageDir) (k : Kernel) : Prop :=
  ∃ r k', shmOpen p k = .ok (r, k') ∧
    ((∃ v : Nat, v ≠ 0 ∧ r = (v * PGSIZE : Nat) ∧ Opened p d k v k') ∨ (r = 0 ∧ Refused p d k k'))

/-- No page is free, or all three steps succeed: the last user page that is not present is not lazy, is
not page 0 and has a page table, or a second page is free to make one; and the table of shared pages
has an entry left. -/
def ShmOpenFits (d : PageDir) (m : Mem) : Prop :=
  m.freelist = [] ∨ ∃ v, v ≠ 0 ∧ IsLast d.present KERNBASE v ∧ (d.entry v).lazy = false ∧
    (d.HasTable v ∨ 2 ≤ m.pages) ∧ ∃ i, (m.shared i).refCnt = 0

/-! #### What the call does, step by step -/

section Steps

variable {m₁ m₂ m₃ : Mem} (hva : (k.mm p).shm.va = 0) (hd : (k.mm p).pgdir = some d)
  (hk : k.mem.kalloc = (some y, m₁))
  (hmap : mapLastPage y ⟨true, true⟩ (List.range 512).reverse d m₁ = (v, d', m₂))

include hva

lemma shmOpen_noPage (hfree : k.mem.freelist = []) : shmOpen p k = .ok (0, k) := by
  unfold shmOpen
  rw [if_neg (not_not.mpr hva)]
  simp only [Mem.kalloc, hfree]

include hd hk hmap

lemma shmOpen_unmapped (hv : v = 0) : shmOpen p k = .ok (0, k.setDir p d' m₂) := by
  unfold shmOpen
  rw [if_neg (not_not.mpr hva)]
  simp only [hk, dir_eq hd, bind, Except.bind, hmap, if_pos hv]

lemma shmOpen_unregistered (hv : v ≠ 0) (hadd : m₂.shmAdd y = (none, m₃)) :
    shmOpen p k = .ok (0, k.setDir p d' m₃) := by
  unfold shmOpen
  rw [if_neg (not_not.mpr hva)]
  simp only [hk, dir_eq hd, bind, Except.bind, hmap, if_neg hv, hadd]

lemma shmOpen_registered {i : Fin N_SHARED_PAGES} (hv : v ≠ 0)
    (hadd : m₂.shmAdd y = (some i, m₃)) :
    shmOpen p k = .ok ((v * PGSIZE : Nat),
      { k.setMm p { k.mm p with pgdir := some d', shm := ⟨some i, v⟩ } with mem := m₃ }) := by
  unfold shmOpen
  rw [if_neg (not_not.mpr hva)]
  simp only [hk, dir_eq hd, bind, Except.bind, hmap, if_neg hv, hadd]

end Steps

/-- A page that was taken and is not a page table is lost. -/
lemma not_refused_of_lost {m₁ m₂ : Mem} (hk : k.mem.kalloc = (some y, m₁))
    (hext : Extends d m₁ d' m₂) : ¬ Refused p d k (k.setDir p d' m₂) := by
  rintro ⟨d₃, m₃, heq, -, hfree, -⟩
  obtain ⟨rfl, rfl⟩ := setDir_inj heq
  have h1 := hfree y
  have h2 := hext.tables y
  have h3 := Mem.free_kalloc hk y
  rw [one, if_pos rfl] at h3
  omega

/-- A call that has mapped the page has changed something. -/
lemma not_refused_of_mapped {m₂ : Mem} (hv : IsLast d.present KERNBASE v)
    (hentry : d'.entry v = (⟨true, true⟩ : Perm).pte y) : ¬ Refused p d k (k.setDir p d' m₂) := by
  rintro ⟨d₃, m₃, heq, hsame, -, -⟩
  obtain ⟨rfl, rfl⟩ := setDir_inj heq
  have hnot : (d.entry v).present = false := hv.2.1
  rw [← hsame v hv.1, hentry] at hnot
  cases hnot

lemma not_opened_of_zero {k' : Kernel} :
    ¬ ∃ v : Nat, v ≠ 0 ∧ (0 : Int) = (v * PGSIZE : Nat) ∧ Opened p d k v k' := by
  rintro ⟨v, hv, h, -⟩
  simp only [PGSIZE] at h
  omega

/-- The page tables that are missing for a single page. -/
lemma missing_singleton_of_hasTable (h : d.HasTable v) : missing {v / NPTENTRIES} d = 0 := by
  rw [missing, Finset.filter_singleton, if_neg]
  · rfl
  · rw [← Option.not_isSome, show (d.pde (v / NPTENTRIES)).isSome = true from h]
    decide

section Exact

variable {m₁ : Mem} (hd : (k.mm p).pgdir = some d) (hva : (k.mm p).shm.va = 0)
  (hk : k.mem.kalloc = (some y, m₁)) (hy : ∀ i, (k.mem.shared i).pa ≠ y)

include hd hva hk hy

/-- Once a page is taken, only a call that succeeds is exact. -/
lemma ShmOpenExact.succeeds (h : ShmOpenExact p d k) :
    ∃ v, v ≠ 0 ∧ IsLast d.present KERNBASE v ∧ (d.entry v).lazy = false ∧
      (d.HasTable v ∨ 2 ≤ k.mem.pages) ∧ ∃ i, (k.mem.shared i).refCnt = 0 := by
  obtain ⟨r, k', hopen, hcase⟩ := h
  have hK : KERNBASE = 512 * NPTENTRIES := KERNBASE_eq
  rcases isLast_or_all d.present KERNBASE with ⟨v, hv⟩ | hall
  · have hvN : v < NVPAGES := lt_NVPAGES hv.1
    rcases hwalk : walkpgdir d v m₁ with ⟨_ | _, d₁, m₂⟩
    · -- no page is left for the page table
      have hmap := (mapLastPage_isLast y ⟨true, true⟩ le_rfl (hK ▸ hv)).2 hwalk
      rw [shmOpen_unmapped hva hd hk hmap rfl] at hopen
      cases hopen
      exact absurd (hcase.resolve_left not_opened_of_zero).2
        (not_refused_of_lost hk (walkpgdir_extends hvN hwalk).1)
    · obtain ⟨hext, htable, -⟩ := walkpgdir_extends hvN hwalk
      have hmap := (mapLastPage_isLast y ⟨true, true⟩ le_rfl (hK ▸ hv)).1 hwalk
      have hentry : (d₁.set v ((⟨true, true⟩ : Perm).pte y)).entry v = (⟨true, true⟩ : Perm).pte y :=
        PageDir.entry_set_self (htable rfl)
      have hshared : m₂.shared = k.mem.shared := hext.shared.trans (Mem.shared_kalloc hk)
      by_cases hv0 : v = 0
      · rw [shmOpen_unmapped hva hd hk hmap hv0] at hopen
        cases hopen
        exact absurd (hcase.resolve_left not_opened_of_zero).2 (not_refused_of_mapped hv hentry)
      rcases shmAdd_fresh (m := m₂) (y := y) (fun i => by rw [hshared]; exact hy i) with
        ⟨i, hi, hadd⟩ | ⟨-, hadd⟩
      · rw [shmOpen_registered hva hd hk hmap hv0 hadd] at hopen
        cases hopen
        refine ⟨v, hv0, hv, ?_, ?_, i, hshared ▸ hi⟩
        · rcases hcase with ⟨v', -, heq, h⟩ | ⟨heq, -⟩
          · obtain rfl : v = v' := by
              simp only [PGSIZE] at heq
              omega
            have hnot := h.last.2.1
            simp only [Pte.mapped, Bool.or_eq_false_iff] at hnot
            exact hnot.2
          · simp only [PGSIZE] at heq
            omega
        · by_cases ht : d.HasTable v
          · exact Or.inl ht
          · -- the page table was made from a second page
            have h1 := walkpgdir_pages (S := {v / NPTENTRIES}) (Finset.mem_singleton_self _) hwalk
            have h2 := missing_pos (S := {v / NPTENTRIES}) (d := d) (Finset.mem_singleton_self _)
              (by simpa [PageDir.HasTable] using ht)
            have h3 := missing_singleton_of_hasTable (htable rfl)
            have h4 : k.mem.pages = m₁.pages + 1 := by
              simp only [Mem.pages, (Mem.kalloc_some hk).1, List.length_cons]
            exact Or.inr (by omega)
      · rw [shmOpen_unregistered hva hd hk hmap hv0 hadd] at hopen
        cases hopen
        exact absurd (hcase.resolve_left not_opened_of_zero).2 (not_refused_of_mapped hv hentry)
  · have hmap : mapLastPage y ⟨true, true⟩ (List.range 512).reverse d m₁ = (0, d, m₁) :=
      mapLastPage_full le_rfl (hK ▸ hall)
    rw [shmOpen_unmapped hva hd hk hmap rfl] at hopen
    cases hopen
    exact absurd (hcase.resolve_left not_opened_of_zero).2 (not_refused_of_lost hk (.refl _ _))

lemma ShmOpenExact.of_succeeds {i₀ : Fin N_SHARED_PAGES} (hv0 : v ≠ 0)
    (hv : IsLast d.present KERNBASE v) (hlazy : (d.entry v).lazy = false)
    (htable : d.HasTable v ∨ 2 ≤ k.mem.pages) (hi₀ : (k.mem.shared i₀).refCnt = 0) :
    ShmOpenExact p d k := by
  have hK : KERNBASE = 512 * NPTENTRIES := KERNBASE_eq
  have hmiss : missing {v / NPTENTRIES} d ≤ m₁.pages := by
    rcases htable with ht | h2
    · rw [missing_singleton_of_hasTable ht]
      exact Nat.zero_le _
    · have hlen : k.mem.pages = m₁.pages + 1 := by
        simp only [Mem.pages, (Mem.kalloc_some hk).1, List.length_cons]
      exact (missing_le _ _).trans (by rw [Finset.card_singleton]; omega)
  obtain ⟨d₁, m₂, hwalk, -⟩ := walkpgdir_succeeds (Finset.mem_singleton_self _) hmiss
  obtain ⟨hext, htable', -⟩ := walkpgdir_extends (lt_NVPAGES hv.1) hwalk
  have hmap := (mapLastPage_isLast y ⟨true, true⟩ le_rfl (hK ▸ hv)).1 hwalk
  have hshared : m₂.shared = k.mem.shared := hext.shared.trans (Mem.shared_kalloc hk)
  have hmem : y ∈ k.mem.freelist := (Mem.kalloc_some hk).1 ▸ List.mem_cons_self ..
  rcases shmAdd_fresh (m := m₂) (y := y) (fun i => by rw [hshared]; exact hy i) with
    ⟨i, -, hadd⟩ | ⟨hno, -⟩
  · refine ⟨_, _, shmOpen_registered hva hd hk hmap hv0 hadd, Or.inl ⟨v, hv0, rfl, ?_, y, i, _, _,
      rfl, fun w _ => ?_, hmem, fun x => ?_, by rw [hshared]⟩⟩
    · refine ⟨hv.1, ?_, fun w h1 h2 => ?_⟩
      · have hp : (d.entry v).present = false := hv.2.1
        simp [Pte.mapped, hlazy, hp]
      · have hp : (d.entry w).present = true := hv.2.2 w h1 h2
        simp [Pte.mapped, hp]
    · split_ifs with hw
      · rw [hw]
        exact PageDir.entry_set_self (htable' rfl)
      · rw [PageDir.entry_set_ne hw, hext.entry]
    · have h1 := hext.tables x
      have h2 := Mem.free_kalloc hk x
      rw [PageDir.tableRefs_set]
      show m₂.free x + _ + _ = _
      omega
  · exact absurd (hshared ▸ hi₀) (hno i₀)

end Exact

/-- For a process without a shared page, `shm_open` is exact exactly if no page is free, or all its steps
succeed and the page it chooses is not lazy. -/
theorem shmOpen_exact_iff (hd : (k.mm p).pgdir = some d) (hva : (k.mm p).shm.va = 0)
    (hs : Mem.SharedOk k.mem.shared)
    (hfree : ∀ x ∈ k.mem.freelist, x ≠ 0 ∧ Mem.shmRef k.mem.shared x = 0) :
    ShmOpenExact p d k ↔ ShmOpenFits d k.mem := by
  rcases hk : k.mem.kalloc with ⟨_ | y, m₁⟩
  · have hnil := (Mem.kalloc_none hk).1
    refine iff_of_true ⟨0, k, shmOpen_noPage hva hnil, Or.inr ⟨rfl, ⟨d, k.mem, ?_⟩⟩⟩ (Or.inl hnil)
    exact ⟨(setDir_self hd).symm, fun _ _ => rfl, fun _ => rfl, rfl⟩
  · have hcons := (Mem.kalloc_some hk).1
    obtain ⟨hy0, hyref⟩ := hfree y (hcons ▸ List.mem_cons_self ..)
    have hy := pa_ne_of_shmRef hs hy0 hyref
    constructor
    · exact fun h => Or.inr (h.succeeds hd hva hk hy)
    · rintro (h | ⟨v, hv0, hv, hlazy, htable, i, hi⟩)
      · rw [hcons] at h
        cases h
      · exact .of_succeeds hd hva hk hy hv0 hv hlazy htable hi

lemma isLast_top (h : (d.entry (KERNBASE - 1)).present = false) :
    IsLast d.present KERNBASE (KERNBASE - 1) := by
  have hK : KERNBASE = 524288 := KERNBASE_eq
  exact ⟨by omega, h, fun w h1 h2 => by omega⟩

lemma firstMapped_top : firstMapped.entry (KERNBASE - 1) = 0 := by
  have hK : KERNBASE = 524288 := KERNBASE_eq
  rw [firstMapped_entry, if_neg (by omega)]

/-- With two free pages, the process of one page opens a shared page below `KERNBASE`. -/
theorem shmOpen_exact_two_pages :
    ShmOpenExact 0 firstMapped
      (lone firstMapped PGSIZE ⟨none, 0⟩ { zeroMem with freelist := [304, 305] }) := by
  have hK : KERNBASE = 524288 := KERNBASE_eq
  refine (shmOpen_exact_iff rfl rfl zeroMem_sharedOk fun x hx => ⟨?_, ?_⟩).mpr
    (Or.inr ⟨KERNBASE - 1, by omega, isLast_top ?_, ?_, Or.inr le_rfl, 0, rfl⟩)
  · rintro rfl
    exact absurd hx (by decide)
  · refine Mem.shmRef_eq_zero fun i h => ?_
    change 0 = x at h
    subst h
    exact absurd hx (by decide)
  · rw [firstMapped_top]
    rfl
  · rw [firstMapped_top]
    rfl

/-- The last user page is lazy. -/
def lazyTop : PageDir :=
  ⟨299, fun i => if i = 511 then some ⟨300, fun j => if j = 1023 then lazyPte else 0⟩ else none⟩

/-- With the last user page lazy, `shm_open` returns its address. With one free page and no page table
for the last user page, it fails, and the free page is lost. -/
theorem shmOpen_steals_and_leaks :
    (lazyTop.entry (KERNBASE - 1)).lazy = true ∧
    (∃ k', shmOpen 0 (lone lazyTop PGSIZE ⟨none, 0⟩ { zeroMem with freelist := [304] }) =
      .ok (((KERNBASE - 1) * PGSIZE : Nat), k')) ∧
    ∃ k', shmOpen 0 (lone firstMapped PGSIZE ⟨none, 0⟩ { zeroMem with freelist := [304] }) =
      .ok (0, k') ∧ (k'.mm 0).pgdir = some firstMapped ∧ k'.mem.freelist = [] := by
  have hK : KERNBASE = 524288 := KERNBASE_eq
  have hKN : KERNBASE = 512 * NPTENTRIES := KERNBASE_eq
  have htop : lazyTop.entry (KERNBASE - 1) = lazyPte := by
    rw [hK]
    rfl
  refine ⟨by rw [htop]; rfl, ?_, ?_⟩
  · have hlast : IsLast lazyTop.present (512 * NPTENTRIES) (KERNBASE - 1) :=
      hKN ▸ isLast_top (by rw [htop]; rfl)
    have hmap := (mapLastPage_isLast 304 ⟨true, true⟩ le_rfl hlast).1
      (walkpgdir_of_hasTable (m := zeroMem) (hasTable_of_lazyPte htop))
    rcases shmAdd_fresh (m := zeroMem) (y := 304) (fun i h => by cases h) with ⟨i, -, hadd⟩ | ⟨h, -⟩
    · exact ⟨_, shmOpen_registered rfl rfl rfl hmap (by omega) hadd⟩
    · exact absurd rfl (h 0)
  · have hlast : IsLast firstMapped.present (512 * NPTENTRIES) (KERNBASE - 1) :=
      hKN ▸ isLast_top (by rw [firstMapped_top]; rfl)
    have hwalk : walkpgdir firstMapped (KERNBASE - 1) zeroMem = (false, firstMapped, zeroMem) := by
      rw [hK]
      rfl
    have hmap := (mapLastPage_isLast 304 ⟨true, true⟩ le_rfl hlast).2 hwalk
    exact ⟨_, shmOpen_unmapped rfl rfl rfl hmap rfl, rfl, rfl⟩

end Kernel

end Xv6
