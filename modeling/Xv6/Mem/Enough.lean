import Mathlib.Order.Interval.Finset.Nat
import Xv6.Mem.CopySpec
import Xv6.Mem.Release

/-!
# Enough memory

`mappages`, `setupkvm` and `copyuvm` fail only when the free list runs out. Each takes a page for
every page table it finds missing, and `copyuvm` one for every page and page table it copies; with
that many pages on the free list they succeed. Which entries and which page tables there are in a
directory that `setupkvm` has made does not depend on the free list.
-/

namespace Xv6

open Fallible Count

variable {c : ShmField} {d d' nd nd' : PageDir} {m m' : Mem} {v w n i y : Nat} {S : Finset Nat}

/-- Number of free pages. -/
def Mem.pages (m : Mem) : Nat := m.freelist.length

lemma Mem.kalloc_of_pages (h : m.pages ≠ 0) :
    ∃ y m', m.kalloc = (some y, m') ∧ m'.pages + 1 = m.pages := by
  unfold Mem.pages at *
  unfold Mem.kalloc
  cases hl : m.freelist with
  | nil => simp [hl] at h
  | cons y l => exact ⟨y, _, rfl, rfl⟩

lemma Mem.pages_kalloc (h : m.kalloc = (some y, m')) : m.pages = m'.pages + 1 := by
  simp only [Mem.pages, (Mem.kalloc_some h).1, List.length_cons]

lemma Mem.pages_kalloc_none (h : m.kalloc = (none, m')) : m.pages = 0 := by
  simp only [Mem.pages, (Mem.kalloc_none h).1, List.length_nil]

/-- How many of the page tables `S` the directory lacks. -/
def missing (S : Finset Nat) (d : PageDir) : Nat := {i ∈ S | (d.pde i).isNone = true}.card

lemma missing_le (S : Finset Nat) (d : PageDir) : missing S d ≤ S.card := Finset.card_filter_le _ _

lemma missing_addTable {t : PageTable} (hi : i ∈ S) (h : d.pde i = none) :
    missing S (d.addTable i t) + 1 = missing S d := by
  have hmem : i ∈ {k ∈ S | (d.pde k).isNone = true} := by simp [hi, h]
  have herase : {k ∈ S | ((d.addTable i t).pde k).isNone = true} =
      {k ∈ S | (d.pde k).isNone = true}.erase i := by
    ext k
    by_cases hk : k = i
    · subst hk
      simp [PageDir.addTable]
    · simp [PageDir.addTable, hk]
  rw [missing, missing, herase, Finset.card_erase_add_one hmem]

lemma missing_set {e : Pte} : missing S (d.set v e) = missing S d := by
  have hsome : ∀ k, ((d.set v e).pde k).isNone = (d.pde k).isNone := by
    intro k
    unfold PageDir.set
    cases ht : d.pde (v / NPTENTRIES) with
    | none => rfl
    | some t =>
      by_cases hk : k = v / NPTENTRIES
      · subst hk
        simp [ht]
      · simp [hk]
  simp only [missing, hsome]

/-! ### Page tables -/

lemma walkpgdir_free_le {ok : Bool} (h : walkpgdir d v m = (ok, d', m')) (x : Nat) :
    m'.free x ≤ m.free x := by
  unfold walkpgdir at h
  split at h
  · simp only [Prod.mk.injEq] at h
    rw [h.2.2]
  · split at h
    · next hk =>
      simp only [Prod.mk.injEq] at h
      rw [← h.2.2, (Mem.kalloc_none hk).2]
    · next y m₁ hk =>
      simp only [Prod.mk.injEq] at h
      have := Mem.free_kalloc hk x
      rw [← h.2.2, Mem.free_memset]
      omega

lemma walkpgdir_of_hasTable (h : d.HasTable v) : walkpgdir d v m = (true, d, m) := by
  obtain ⟨t, ht⟩ := Option.isSome_iff_exists.mp h
  unfold walkpgdir
  rw [ht]

lemma walkpgdir_succeeds (hS : v / NPTENTRIES ∈ S) (hm : missing S d ≤ m.pages) :
    ∃ d' m', walkpgdir d v m = (true, d', m') ∧ m'.pages + missing S d = m.pages + missing S d' := by
  unfold walkpgdir
  cases hp : d.pde (v / NPTENTRIES) with
  | some t => exact ⟨d, m, rfl, rfl⟩
  | none =>
    have hmiss := missing_addTable (t := ⟨0, fun _ => 0⟩) hS hp
    obtain ⟨y, m₁, hk, hlen⟩ := Mem.kalloc_of_pages (m := m) (by omega)
    have hmiss' := missing_addTable (t := ⟨y, fun _ => 0⟩) hS hp
    refine ⟨_, _, by rw [hk], ?_⟩
    show m₁.pages + missing S d = _
    omega

lemma mappages_outside {perm : Perm} {pa : Nat} (hn : v + n ≤ NVPAGES) :
    Ensures (mappages perm n d v pa m) fun r => ∀ w, w < v ∨ v + n ≤ w →
      r.2.1.entry w = d.entry w := by
  induction n generalizing d v pa m with
  | zero => exact .ok fun _ _ => rfl
  | succ n ih =>
    unfold mappages
    split
    · next d₁ m₁ hwalk => exact .ok fun w _ => (walkpgdir_extends (by omega) hwalk).1.entry w
    · next d₁ m₁ hwalk =>
      split
      · exact .error
      · refine (ih (by omega)).mono fun r hr w hw => ?_
        rw [hr w (by omega), PageDir.entry_set_ne (by omega),
          (walkpgdir_extends (by omega) hwalk).1.entry w]

/-- Mapping pages where nothing is mapped succeeds if there is memory for the missing tables. -/
lemma mappages_succeeds (perm : Perm) (pa : Nat) (hv : v + n ≤ NVPAGES)
    (hS : ∀ w, v ≤ w → w < v + n → w / NPTENTRIES ∈ S ∧ (d.entry w).present = false)
    (hm : missing S d ≤ m.pages) :
    ∃ d' m', mappages perm n d v pa m = .ok (true, d', m') ∧
      m'.pages + missing S d = m.pages + missing S d' := by
  induction n generalizing d v pa m with
  | zero => exact ⟨d, m, rfl, rfl⟩
  | succ n ih =>
    obtain ⟨hSv, hpv⟩ := hS v le_rfl (by omega)
    obtain ⟨d₁, m₁, hw, hlen⟩ := walkpgdir_succeeds hSv hm
    obtain ⟨hext, -, -⟩ := walkpgdir_extends (by omega) hw
    have hrest : ∀ w, v + 1 ≤ w → w < v + 1 + n → w / NPTENTRIES ∈ S ∧
        ((d₁.set v (perm.pte pa)).entry w).present = false := by
      intro w h1 h2
      rw [PageDir.entry_set_ne (by omega), hext.entry]
      exact hS w (by omega) (by omega)
    obtain ⟨d₂, m₂, h1, h2⟩ := ih (d := d₁.set v (perm.pte pa)) (m := m₁) (pa + 1)
      (by omega) hrest (by rw [missing_set]; omega)
    rw [missing_set] at h2
    refine ⟨d₂, m₂, ?_, by omega⟩
    unfold mappages
    simp only [hw, hext.entry v, hpv]
    exact h1

lemma mapKernel_succeeds (l : List KMap) (hl : ∀ k ∈ l, k.virt + k.pages ≤ NVPAGES)
    (hS : ∀ k ∈ l, ∀ w, k.virt ≤ w → w < k.virt + k.pages →
      w / NPTENTRIES ∈ S ∧ (d.entry w).present = false)
    (hdisj : l.Pairwise fun k k' => k.virt + k.pages ≤ k'.virt) (hm : missing S d ≤ m.pages) :
    ∃ d' m', mapKernel l d m = .ok (true, d', m') ∧
      m'.pages + missing S d = m.pages + missing S d' := by
  induction l generalizing d m with
  | nil => exact ⟨d, m, rfl, rfl⟩
  | cons k l ih =>
    obtain ⟨hk, hdisj⟩ := List.pairwise_cons.mp hdisj
    have hkl := hl k (List.mem_cons_self ..)
    obtain ⟨d₁, m₁, h1, h2⟩ := mappages_succeeds k.perm k.phys hkl (hS k (List.mem_cons_self ..)) hm
    obtain ⟨d₂, m₂, h4, h5⟩ := ih (d := d₁) (m := m₁)
      (fun k' hk' => hl k' (List.mem_cons_of_mem k hk'))
      (fun k' hk' w hw hw' => by
        have := hk k' hk'
        rw [mappages_outside hkl _ h1 w (by omega)]
        exact hS k' (List.mem_cons_of_mem k hk') w hw hw') hdisj (by omega)
    refine ⟨d₂, m₂, ?_, by omega⟩
    unfold mapKernel
    rw [h1]
    exact h4

/-- The page tables of the kernel's part of the address space. -/
def kernelTables : Finset Nat := Finset.Ico 512 568 ∪ Finset.Ico 1016 1024

lemma card_kernelTables : kernelTables.card ≤ 64 := (Finset.card_union_le _ _).trans (by simp)

lemma kmap_tables (l : Layout) : ∀ k ∈ kmap l, ∀ w, k.virt ≤ w → w < k.virt + k.pages →
    w / NPTENTRIES ∈ kernelTables := by
  obtain ⟨h1, h2, h3, h4, h5, h6, h7⟩ := l.bounds
  intro k hk w hlo hhi
  have hN : NPTENTRIES = 1024 := rfl
  rw [kernelTables, Finset.mem_union, Finset.mem_Ico, Finset.mem_Ico, hN]
  simp only [kmap, List.mem_cons, List.not_mem_nil, or_false] at hk
  rcases hk with rfl | rfl | rfl | rfl <;> dsimp only at hlo hhi <;> omega

lemma kmap_disjoint (l : Layout) :
    (kmap l).Pairwise fun k k' => k.virt + k.pages ≤ k'.virt := by
  obtain ⟨h1, h2, h3, h4, -, h6, h7⟩ := l.bounds
  simp only [kmap, List.pairwise_cons, List.mem_cons, List.not_mem_nil, or_false, forall_eq_or_imp,
    forall_eq, IsEmpty.forall_iff, implies_true, List.Pairwise.nil, and_true]
  omega

/-- 65 free pages are enough for `setupkvm`. -/
lemma setupkvm_succeeds (h : 65 ≤ m.pages) :
    ∃ d m', setupkvm c m = .ok (some d, m') ∧ m.pages ≤ m'.pages + 65 := by
  obtain ⟨y, m₁, hk, hlen⟩ := Mem.kalloc_of_pages (m := m) (by omega)
  have hmiss := (missing_le kernelTables ⟨y, fun _ => none⟩).trans card_kernelTables
  have hpages : (m₁.memset y 0).pages = m₁.pages := rfl
  obtain ⟨d, m₂, h1, h2⟩ := mapKernel_succeeds (m := m₁.memset y 0) (d := ⟨y, fun _ => none⟩)
    (kmap m₁.layout) (fun k hk => (kmap_bounds _ k hk).2)
    (fun k hk w hlo hhi => ⟨kmap_tables _ k hk w hlo hhi, rfl⟩) (kmap_disjoint _) (by omega)
  have htop : ¬ DEVSPACE < KERNBASE + PHYSTOP := by
    rw [KERNBASE_eq]
    decide
  refine ⟨d, m₂, ?_, by omega⟩
  unfold setupkvm
  rw [hk]
  simp only [if_neg htop, h1]
  rfl

/-! ### What is mapped -/

lemma mappages_maps {perm : Perm} {pa : Nat} (hn : v + n ≤ NVPAGES) :
    Ensures (mappages perm n d v pa m) fun r =>
      r.1 = true → ∀ j < n, r.2.1.entry (v + j) = perm.pte (pa + j) := by
  induction n generalizing d v pa m with
  | zero => exact .ok fun _ j hj => absurd hj (Nat.not_lt_zero j)
  | succ n ih =>
    unfold mappages
    split
    · exact .ok nofun
    · next d₁ m₁ hwalk =>
      split
      · exact .error
      · refine ((ih (by omega)).and (mappages_outside (by omega))).mono ?_
        rintro r ⟨hr, hout⟩ hok j hj
        cases j with
        | zero =>
          rw [Nat.add_zero, Nat.add_zero, hout v (.inl v.lt_succ_self)]
          exact PageDir.entry_set_self ((walkpgdir_extends (by omega) hwalk).2.1 rfl)
        | succ j =>
          rw [show v + (j + 1) = v + 1 + j by omega, hr hok j (by omega)]
          congr 1
          omega

/-- Success maps every line, and pages outside all lines are as before. -/
lemma mapKernel_maps (l : List KMap) (hl : ∀ k ∈ l, k.virt + k.pages ≤ NVPAGES)
    (hdisj : l.Pairwise fun k k' => k.virt + k.pages ≤ k'.virt) :
    Ensures (mapKernel l d m) fun r =>
      (r.1 = true → ∀ k ∈ l, ∀ j < k.pages, r.2.1.entry (k.virt + j) = k.perm.pte (k.phys + j)) ∧
        ∀ v, (∀ k ∈ l, v < k.virt ∨ k.virt + k.pages ≤ v) → r.2.1.entry v = d.entry v := by
  induction l generalizing d m with
  | nil => exact .ok ⟨fun _ => nofun, fun _ _ => rfl⟩
  | cons k l ih =>
    obtain ⟨hk, hdisj⟩ := List.pairwise_cons.mp hdisj
    have hkl := hl k List.mem_cons_self
    unfold mapKernel
    split
    · exact .error
    · next d₁ m₁ hmap =>
      exact .ok ⟨nofun, fun v hv => mappages_outside hkl _ hmap v (hv k List.mem_cons_self)⟩
    · next d₁ m₁ hmap =>
      refine (ih (fun k' hk' => hl k' (List.mem_cons_of_mem k hk')) hdisj).mono ?_
      rintro r ⟨hmaps, hout⟩
      refine ⟨fun hok k' hk' j hj => ?_, fun v hv => ?_⟩
      · rcases List.mem_cons.mp hk' with rfl | hk'
        · rw [hout _ fun k'' hk'' => .inl (by have := hk k'' hk''; omega)]
          exact mappages_maps hkl _ hmap rfl j hj
        · exact hmaps hok k' hk' j hj
      · rw [hout v fun k' hk' => hv k' (List.mem_cons_of_mem k hk')]
        exact mappages_outside hkl _ hmap v (hv k List.mem_cons_self)

lemma setupkvm_entries : Ensures (setupkvm c m) fun r => ∀ d, r.1 = some d →
    (∀ k ∈ kmap m.layout, ∀ j < k.pages, d.entry (k.virt + j) = k.perm.pte (k.phys + j)) ∧
      ∀ v, (∀ k ∈ kmap m.layout, v < k.virt ∨ k.virt + k.pages ≤ v) → d.entry v = 0 := by
  rintro ⟨_, m'⟩ h d rfl
  obtain ⟨y, m₁, hk, hmap⟩ := setupkvm_some h
  obtain ⟨hmaps, hout⟩ :=
    mapKernel_maps _ (fun k hk => (kmap_bounds _ k hk).2) (kmap_disjoint _) _ hmap
  rw [Mem.layout_kalloc hk] at hmaps hout
  exact ⟨hmaps rfl, hout⟩

/-! ### Which page tables there are -/

/-- `w` is in the page table of one of the pages from `lo` up to `hi`. -/
def SharesTable (w lo hi : Nat) : Prop := ∃ x, lo ≤ x ∧ x < hi ∧ w / NPTENTRIES = x / NPTENTRIES

lemma sharesTable_first (h : v < n) :
    SharesTable w v n ↔ w / NPTENTRIES = v / NPTENTRIES ∨ SharesTable w (v + 1) n := by
  constructor
  · rintro ⟨x, h1, h2, h3⟩
    rcases Nat.eq_or_lt_of_le h1 with rfl | hlt
    · exact Or.inl h3
    · exact Or.inr ⟨x, hlt, h2, h3⟩
  · rintro (h0 | ⟨x, h1, h2, h3⟩)
    · exact ⟨v, le_rfl, h, h0⟩
    · exact ⟨x, by omega, h2, h3⟩

lemma not_sharesTable_self : ¬ SharesTable w v v := by
  rintro ⟨x, h1, h2, -⟩
  omega

lemma walkpgdir_hasTable_iff (h : walkpgdir d v m = (true, d', m')) :
    d'.HasTable w ↔ d.HasTable w ∨ w / NPTENTRIES = v / NPTENTRIES := by
  unfold walkpgdir at h
  split at h
  · next t ht =>
    cases h
    constructor
    · exact Or.inl
    · rintro (h | heq)
      · exact h
      · unfold PageDir.HasTable
        rw [heq, ht]
        rfl
  · next hnone =>
    split at h
    · cases h
    · cases h
      rw [PageDir.hasTable_addTable_iff, or_comm]

lemma mappages_hasTable {perm : Perm} {pa : Nat} : Ensures (mappages perm n d v pa m) fun r =>
    r.1 = true → ∀ w, r.2.1.HasTable w ↔ d.HasTable w ∨ SharesTable w v (v + n) := by
  induction n generalizing d v pa m with
  | zero =>
    refine .ok fun _ w => ?_
    simp only [Nat.add_zero, not_sharesTable_self, or_false]
  | succ n ih =>
    unfold mappages
    split
    · exact .ok (by simp)
    · next d₁ m₁ hwalk =>
      split
      · exact .error
      · refine ih.mono fun r hr hok w => ?_
        rw [hr hok w, PageDir.hasTable_set, walkpgdir_hasTable_iff hwalk, or_assoc,
          sharesTable_first (by omega : v < v + (n + 1)), Nat.add_right_comm v 1 n]
        rfl

lemma mapKernel_hasTable (l : List KMap) : Ensures (mapKernel l d m) fun r =>
    r.1 = true → ∀ w, r.2.1.HasTable w ↔
      d.HasTable w ∨ ∃ k ∈ l, SharesTable w k.virt (k.virt + k.pages) := by
  induction l generalizing d m with
  | nil => exact .ok (by simp)
  | cons k l ih =>
    unfold mapKernel
    split
    · exact .error
    · exact .ok (by simp)
    · next d₁ m₁ hmap =>
      refine ih.mono fun r hr hok w => ?_
      rw [hr hok w, mappages_hasTable _ hmap rfl w, or_assoc]
      simp

/-- The page tables of the kernel's part are those of a fresh directory. -/
lemma kmap_sharesTable (l : Layout) :
    (∃ k ∈ kmap l, SharesTable w k.virt (k.virt + k.pages)) ↔ w / NPTENTRIES ∈ kernelTables := by
  constructor
  · rintro ⟨k, hk, x, h1, h2, h3⟩
    rw [h3]
    exact kmap_tables l k hk x h1 h2
  · intro h
    obtain ⟨h1, h2, h3, h4, h5, h6, h7⟩ := l.bounds
    have h8 : NPTENTRIES = 1024 := rfl
    simp only [kmap, List.mem_cons, List.not_mem_nil, or_false, exists_eq_or_imp, exists_eq_left,
      SharesTable, h8]
    rw [kernelTables, Finset.mem_union, Finset.mem_Ico, Finset.mem_Ico, h8] at h
    rcases h with ⟨hlo, hhi⟩ | ⟨hlo, hhi⟩
    · -- the last page of the table is in one of the first three parts
      by_cases hdata : w / 1024 * 1024 + 1023 < KERNBASE + l.data
      · exact Or.inr (Or.inl ⟨w / 1024 * 1024 + 1023, by omega, by omega, by omega⟩)
      · exact Or.inr (Or.inr (Or.inl ⟨w / 1024 * 1024 + 1023, by omega, by omega, by omega⟩))
    · exact Or.inr (Or.inr (Or.inr ⟨w / 1024 * 1024, by omega, by omega, by omega⟩))

lemma setupkvm_hasTable : Ensures (setupkvm c m) fun r =>
    ∀ d, r.1 = some d → ∀ w, d.HasTable w ↔ w / NPTENTRIES ∈ kernelTables := by
  rintro ⟨_, m'⟩ h d rfl w
  obtain ⟨y, m₁, -, hmap⟩ := setupkvm_some h
  rw [mapKernel_hasTable _ _ hmap rfl w, kmap_sharesTable]
  simp [PageDir.HasTable]

/-! ### Copying -/

/-- `copyuvm` takes a page for this entry. -/
def Copies (c : ShmField) (v : Nat) (e : Pte) : Prop := e.mapped = true ∧ e.lazy = false ∧ ¬ c.Hits v

instance (c : ShmField) (v : Nat) (e : Pte) : Decidable (Copies c v e) := by
  unfold Copies
  infer_instance

/-- The pages `copyuvm` takes for the entries `l` of page table `i`. -/
def entryCopies (c : ShmField) (i : Nat) (pgtable : Nat → Pte) (l : List Nat) : Nat :=
  l.countP fun j => Copies c (i * NPTENTRIES + j) (pgtable j)

/-- The pages `copyuvm` takes for page table `i`. -/
def copyNeeds (c : ShmField) (d : PageDir) (i : Nat) : Nat :=
  (d.pde i).elim 0 fun t => entryCopies c i t.pte (List.range NPTENTRIES) + 1

lemma entryCopies_cons_of (pgtable : Nat → Pte) (l : List Nat) {j : Nat}
    (h : Copies c (i * NPTENTRIES + j) (pgtable j)) :
    entryCopies c i pgtable (j :: l) = entryCopies c i pgtable l + 1 :=
  List.countP_cons_of_pos (by simpa using h)

lemma entryCopies_cons_of_not (pgtable : Nat → Pte) (l : List Nat) {j : Nat}
    (h : ¬ Copies c (i * NPTENTRIES + j) (pgtable j)) :
    entryCopies c i pgtable (j :: l) = entryCopies c i pgtable l :=
  List.countP_cons_of_neg (by simpa using h)

lemma Mem.pages_shmAdd (m : Mem) (x : Nat) : (m.shmAdd x).2.pages = m.pages := by
  unfold Mem.pages Mem.shmAdd
  split
  · rfl
  · split <;> rfl

/-- What happens to the number of free pages while the entries of a page table are copied. -/
def CopyPages (need : Nat) (ok : Bool) (m m' : Mem) : Prop :=
  if ok then m.pages = m'.pages + need else m'.pages = 0 ∧ m.pages < need

lemma CopyPages.of_eq {need : Nat} {ok : Bool} {m₁ : Mem} (h : CopyPages need ok m₁ m')
    (hm : m₁.pages = m.pages) : CopyPages need ok m m' := by
  unfold CopyPages at h ⊢
  rwa [hm] at h

lemma CopyPages.take {need : Nat} {ok : Bool} {m₁ : Mem} (h : CopyPages need ok m₁ m')
    (hm : m.pages = m₁.pages + 1) : CopyPages (need + 1) ok m m' := by
  unfold CopyPages at h ⊢
  split_ifs at h ⊢
  · omega
  · omega

lemma CopyPages.short {need : Nat} (h : m.kalloc = (none, m')) : CopyPages (need + 1) false m m' := by
  have hpages := Mem.pages_kalloc_none h
  obtain ⟨-, rfl⟩ := Mem.kalloc_none h
  exact ⟨hpages, by omega⟩

lemma copyTable_pages {pgtable new : Nat → Pte} {l : List Nat} {r : Option (Nat → Pte)}
    (h : copyTable c i pgtable l new m = (r, m')) :
    CopyPages (entryCopies c i pgtable l) r.isSome m m' := by
  induction l generalizing new m with
  | nil =>
    cases h
    rfl
  | cons j l ih =>
    simp only [copyTable] at h
    split at h
    · next hmapped =>
      rw [entryCopies_cons_of_not _ _ fun hc => by simp [hc.1] at hmapped]
      exact ih h
    · next hmapped =>
      split at h
      · next hlazy =>
        rw [entryCopies_cons_of_not _ _ fun hc => by simp [hc.2.1] at hlazy]
        exact ih h
      · next hlazy =>
        split at h
        · next hit =>
          rw [entryCopies_cons_of_not _ _ fun hc => hc.2.2 hit]
          exact (ih h).of_eq (Mem.pages_shmAdd ..)
        · next hit =>
          rw [entryCopies_cons_of _ _ ⟨by simpa using hmapped, by simpa using hlazy, hit⟩]
          split at h
          · next m₁ hk =>
            cases h
            exact .short hk
          · next y m₁ hk =>
            exact (ih h).take (show m.pages = m₁.pages + 1 from Mem.pages_kalloc hk)

lemma copyPgtable_pages {ok : Bool} (h : copyPgtable c d i nd m = (ok, nd', m')) :
    CopyPages (copyNeeds c d i) ok m m' := by
  unfold copyPgtable at h
  unfold copyNeeds
  split at h
  · next ht =>
    cases h
    rw [ht]
    rfl
  · next t ht =>
    rw [ht, Option.elim_some]
    split at h
    · next m₁ hk =>
      cases h
      exact .short hk
    · next y m₁ hk =>
      split at h
      · next m₂ heq =>
        cases h
        exact (copyTable_pages heq).take (Mem.pages_kalloc hk)
      · next pte m₂ heq =>
        cases h
        exact (copyTable_pages heq).take (Mem.pages_kalloc hk)

/-- The pages `copyuvm` takes for the page tables below `i`. -/
def copyNeedsBelow (c : ShmField) (d : PageDir) (i : Nat) : Nat :=
  ((List.range i).map fun i => copyNeeds c d i).sum

lemma copyNeedsBelow_succ : copyNeedsBelow c d (i + 1) = copyNeedsBelow c d i + copyNeeds c d i := by
  simp [copyNeedsBelow, List.range_succ]

lemma copyTables_pages {l : List Nat} {ok : Bool} (h : copyTables c d l nd m = (ok, nd', m')) :
    CopyPages (l.map fun i => copyNeeds c d i).sum ok m m' := by
  induction l generalizing nd m with
  | nil =>
    cases h
    rfl
  | cons i l ih =>
    rw [List.map_cons, List.sum_cons]
    unfold copyTables at h
    split at h
    · next nd₁ m₁ hone =>
      cases h
      have h1 : m'.pages = 0 ∧ m.pages < copyNeeds c d i := copyPgtable_pages hone
      exact ⟨h1.1, by omega⟩
    · next nd₁ m₁ hone =>
      have h1 : m.pages = m₁.pages + copyNeeds c d i := copyPgtable_pages hone
      have h2 := ih h
      unfold CopyPages at h2 ⊢
      split_ifs at h2 ⊢
      · omega
      · omega

lemma copyuvm_succeeds (h : 65 + copyNeedsBelow c d 512 ≤ m.pages) :
    ∃ nd m', copyuvm c d m = .ok (some nd, m') ∧
      m.pages ≤ m'.pages + 65 + copyNeedsBelow c d 512 := by
  obtain ⟨nd, m₁, h1, h2⟩ := setupkvm_succeeds (c := c) (m := m) (by omega)
  rcases h3 : copyTables c d (List.range 512) nd m₁ with ⟨_ | _, nd', m₂⟩
  · have h4 : m₂.pages = 0 ∧ m₁.pages < copyNeedsBelow c d 512 := copyTables_pages h3
    omega
  · have h4 : m₁.pages = m₂.pages + copyNeedsBelow c d 512 := copyTables_pages h3
    refine ⟨nd', m₂, ?_, by omega⟩
    unfold copyuvm
    rw [h1, KERNBASE_div]
    simp only [bind, Except.bind, h3]
    rfl

/-! ### Growing -/

/-- The page tables for the pages from `v` up to `w`. -/
def tablesFor (v w : Nat) : Finset Nat := (Finset.Ico v w).image (· / NPTENTRIES)

/-- The pages that `allocuvm` takes to map the pages from `v` up to `w`: one for each of them and one
for each page table that is missing. -/
def needs (d : PageDir) (v w : Nat) : Nat := (w - v) + missing (tablesFor v w) d

@[simp] lemma needs_self (d : PageDir) (v : Nat) : needs d v v = 0 := by
  simp [needs, tablesFor, missing]

lemma tablesFor_succ (h : v < w) : tablesFor v w = insert (v / NPTENTRIES) (tablesFor (v + 1) w) := by
  have hico : Finset.Ico v w = insert v (Finset.Ico (v + 1) w) := by
    ext u
    simp only [Finset.mem_Ico, Finset.mem_insert]
    omega
  rw [tablesFor, tablesFor, hico, Finset.image_insert]

lemma missing_insert (h : (d.pde i).isSome = true) : missing (insert i S) d = missing S d := by
  have hi : (d.pde i).isNone = false := by
    rw [← Option.not_isSome, h]
    rfl
  rw [missing, missing, Finset.filter_insert, if_neg (by simp [hi])]

lemma missing_pos (hi : i ∈ S) (h : d.pde i = none) : 1 ≤ missing S d := by
  have hmem : i ∈ {k ∈ S | (d.pde k).isNone = true} := by simp [hi, h]
  exact Finset.card_pos.mpr ⟨i, hmem⟩

lemma walkpgdir_pages (hS : v / NPTENTRIES ∈ S) (h : walkpgdir d v m = (true, d', m')) :
    m'.pages + missing S d = m.pages + missing S d' := by
  unfold walkpgdir at h
  split at h
  · simp only [Prod.mk.injEq, true_and] at h
    obtain ⟨rfl, rfl⟩ := h
    rfl
  · next hp =>
    split at h
    · simp at h
    · next y m₁ hk =>
      simp only [Prod.mk.injEq, true_and] at h
      obtain ⟨rfl, rfl⟩ := h
      have hmiss := missing_addTable (t := ⟨y, fun _ => 0⟩) hS hp
      have hlen := Mem.pages_kalloc hk
      show m₁.pages + missing S d = _
      omega

/-- The page tables that are missing for the rest of the range, once there is one for page `v`. -/
lemma missing_walk {d₁ : PageDir} {m₁ : Mem} {e : Pte} (h : v < w)
    (hwalk : walkpgdir d v m = (true, d₁, m₁)) (ht : d₁.HasTable v) :
    m₁.pages + missing (tablesFor v w) d =
      m.pages + missing (tablesFor (v + 1) w) (d₁.set v e) := by
  have hmem : v / NPTENTRIES ∈ tablesFor v w := by
    rw [tablesFor_succ h]
    exact Finset.mem_insert_self ..
  have h1 := walkpgdir_pages hmem hwalk
  have h2 : missing (tablesFor v w) d₁ = missing (tablesFor (v + 1) w) d₁ := by
    rw [tablesFor_succ h]
    exact missing_insert ht
  rw [missing_set]
  omega

/-- What is left of the needs once page `v` is mapped. -/
lemma needs_succ {d₁ : PageDir} {m₁ : Mem} {e : Pte} (h : v < w)
    (hw : walkpgdir d v m = (true, d₁, m₁)) (ht : d₁.HasTable v) :
    m.pages + needs (d₁.set v e) (v + 1) w + 1 = m₁.pages + needs d v w := by
  have hmissing := missing_walk (e := e) h hw ht
  unfold needs
  omega

/-- The panic of `mappages`. -/
def IsRemap (e : Fault) : Prop := e = .panic "remap"

instance : DecidablePred IsRemap := fun _ => inferInstanceAs (Decidable (_ = _))

lemma rollback_not_remap {oldsz newsz : Nat} (f : Nat × PageDir × Mem → Except Fault (Nat × PageDir × Mem))
    (hf : ∀ r, Avoids (f r) IsRemap) :
    (deallocuvm c d newsz oldsz m >>= f) ≠ .error (.panic "remap") := fun h =>
  ((deallocuvm_avoids (by decide) (by decide)).bind fun r _ => hf r) _ h rfl

/-- `allocuvm` runs into a page that is already mapped exactly if there is one in its range and memory
does not run out before it gets there. -/
lemma allocPages_remap_iff {oldsz newsz : Nat} (hv : v + n ≤ KERNBASE) :
    allocPages c oldsz newsz n v d m = .error (.panic "remap") ↔
      ∃ w, v ≤ w ∧ w < v + n ∧ (d.entry w).present = true ∧ needs d v w < m.pages := by
  induction n generalizing v d m with
  | zero =>
    constructor
    · intro h
      cases h
    · rintro ⟨w, h1, h2, -⟩
      omega
  | succ n ih =>
    have hvN : v < NVPAGES := by
      have := KERNBASE_eq
      simp only [NVPAGES, NPDENTRIES, NPTENTRIES] at this ⊢
      omega
    unfold allocPages
    split
    · next m₁ hk =>
      have hzero : m.pages = 0 := by simp [Mem.pages, (Mem.kalloc_none hk).1]
      constructor
      · intro h
        exact absurd h (rollback_not_remap _ fun _ => .pure)
      · rintro ⟨w, -, -, -, hw⟩
        omega
    · next y m₁ hk =>
      have hlen := Mem.pages_kalloc hk
      have hpages : (m₁.memset y 0).pages = m₁.pages := rfl
      rcases hwalk : walkpgdir d v (m₁.memset y 0) with ⟨_ | _, d₁, m₂⟩
      · -- no memory for a page table, so page `v` is not mapped and the loop ends here
        obtain ⟨-, -, hnone⟩ := walkpgdir_extends hvN hwalk
        obtain ⟨hfree, -, ht⟩ := hnone rfl
        simp only [mappages, hwalk, bind, Except.bind]
        constructor
        · intro h
          exact absurd h (rollback_not_remap _ fun _ => (kfree_avoids (by decide) _ _).bind fun _ _ =>
            .pure)
        · rintro ⟨w, h1, -, hp, hw⟩
          have hvw : v < w := by
            rcases Nat.eq_or_lt_of_le h1 with rfl | h
            · exact absurd (PageDir.hasTable_of_present hp) ht
            · exact h
          have hpde : d.pde (v / NPTENTRIES) = none := by
            simpa [PageDir.HasTable] using ht
          have hmem : v / NPTENTRIES ∈ tablesFor v w := by
            rw [tablesFor_succ hvw]
            exact Finset.mem_insert_self ..
          have hmiss := missing_pos hmem hpde
          have hzero : m₁.pages = 0 := congrArg List.length hfree
          unfold needs at hw
          omega
      · obtain ⟨hext, htable, -⟩ := walkpgdir_extends hvN hwalk
        simp only [mappages, hwalk, hext.entry v, bind, Except.bind]
        by_cases hp : (d.entry v).present = true
        · rw [if_pos hp]
          constructor
          · intro _
            exact ⟨v, le_rfl, by omega, hp, by rw [needs_self]; omega⟩
          · intro _
            rfl
        · rw [if_neg hp]
          dsimp only
          rw [if_pos rfl, ih (by omega)]
          constructor
          · rintro ⟨w, h1, h2, hpw, hw⟩
            have := needs_succ (e := (⟨true, true⟩ : Perm).pte y) (w := w) (by omega) hwalk (htable rfl)
            rw [PageDir.entry_set_ne (by omega), hext.entry] at hpw
            exact ⟨w, by omega, by omega, hpw, by omega⟩
          · rintro ⟨w, h1, h2, hpw, hw⟩
            have hvw : v < w := by
              rcases Nat.eq_or_lt_of_le h1 with rfl | h
              · exact absurd hpw hp
              · exact h
            have := needs_succ (e := (⟨true, true⟩ : Perm).pte y) hvw hwalk (htable rfl)
            refine ⟨w, hvw, by omega, ?_, by omega⟩
            rwa [PageDir.entry_set_ne (by omega), hext.entry]

/-- With memory for all it needs, and nothing mapped there, `allocuvm` maps its range. -/
lemma allocPages_succeeds (oldsz newsz : Nat) (hv : v + n ≤ KERNBASE)
    (hfree : ∀ w, v ≤ w → w < v + n → (d.entry w).present = false)
    (hm : needs d v (v + n) ≤ m.pages) :
    ∃ d' m', allocPages c oldsz newsz n v d m = .ok (newsz, d', m') ∧
      m'.pages + needs d v (v + n) = m.pages := by
  induction n generalizing v d m with
  | zero => exact ⟨d, m, rfl, by simp⟩
  | succ n ih =>
    have hlen : n + 1 ≤ needs d v (v + (n + 1)) := by
      unfold needs
      omega
    obtain ⟨y, m₁, hk, hpages⟩ := Mem.kalloc_of_pages (m := m) (by omega)
    have hmem : v / NPTENTRIES ∈ tablesFor v (v + (n + 1)) := by
      rw [tablesFor_succ (by omega)]
      exact Finset.mem_insert_self ..
    have hmiss : missing (tablesFor v (v + (n + 1))) d ≤ (m₁.memset y 0).pages := by
      show _ ≤ m₁.pages
      unfold needs at hm
      omega
    obtain ⟨d₁, m₂, hwalk, -⟩ := walkpgdir_succeeds hmem hmiss
    have hvN : v < NVPAGES := by
      have := KERNBASE_eq
      simp only [NVPAGES, NPDENTRIES, NPTENTRIES] at this ⊢
      omega
    obtain ⟨hext, htable, -⟩ := walkpgdir_extends hvN hwalk
    have hnext := needs_succ (e := (⟨true, true⟩ : Perm).pte y) (w := v + (n + 1)) (by omega) hwalk
      (htable rfl)
    have hpages' : (m₁.memset y 0).pages = m₁.pages := rfl
    have hshift : v + (n + 1) = v + 1 + n := by omega
    rw [hshift] at hnext hm ⊢
    obtain ⟨d', m', h1, h2⟩ := ih (v := v + 1) (d := d₁.set v ((⟨true, true⟩ : Perm).pte y)) (m := m₂)
      (by omega) (fun w hlo hhi => by
        rw [PageDir.entry_set_ne (by omega), hext.entry]
        exact hfree w (by omega) (by omega)) (by omega)
    refine ⟨d', m', ?_, by omega⟩
    simp only [allocPages, hk, mappages, hwalk, hext.entry v, hfree v le_rfl (by omega), bind,
      Except.bind]
    exact h1

end Xv6
