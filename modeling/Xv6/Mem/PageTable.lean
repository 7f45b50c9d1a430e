import Xv6.Mem.Phys

/-!
# Page directories

The two-level page tables of the x86, as values. A virtual page is named by its number, its address
divided by `PGSIZE`: page `v` is entry `v % NPTENTRIES` of the page table in entry `v / NPTENTRIES`
of the directory. A directory entry is present when it holds a page table.
-/

namespace Xv6

open Count

def NPDENTRIES : Nat := 1024

def NPTENTRIES : Nat := 1024

/-- First virtual page of the kernel. -/
@[irreducible] def KERNBASE : Nat := 0x80000000 / PGSIZE

lemma KERNBASE_eq : KERNBASE = 512 * NPTENTRIES := by
  unfold KERNBASE
  rfl

/-- A page table entry: the page it refers to, the flags `PTE_P`, `PTE_W`, `PTE_U` and `PTE_LAZY`,
and the remaining eight flag bits. -/
structure Pte where
  ppn : Nat
  present : Bool
  writable : Bool
  user : Bool
  lazy : Bool
  rest : BitVec 8
  deriving DecidableEq

namespace Pte

instance : Zero Pte := ⟨⟨0, false, false, false, false, 0⟩⟩

/-- The low twelve bits. -/
def flags (e : Pte) : Pte := { e with ppn := 0 }

/-- Present or lazily mapped. -/
def mapped (e : Pte) : Bool := e.present || e.lazy

/-- An entry as the kernel leaves it: never both present and lazy, and with an address only if it is
present. -/
structure Ok (e : Pte) : Prop where
  not_both : e.present = true → e.lazy = false
  ppn_zero : e.present = false → e.ppn = 0

/-- One when the entry maps the physical page. -/
def maps (e : Pte) (x : Nat) : Nat := if e.present then one e.ppn x else 0

@[simp] lemma maps_zero (x : Nat) : maps 0 x = 0 := rfl

lemma ok_zero : Ok 0 := ⟨fun _ => rfl, fun _ => rfl⟩

lemma maps_of_not_present {e : Pte} (h : e.present = false) (x : Nat) : e.maps x = 0 := by
  simp [maps, h]

lemma maps_of_present {e : Pte} (h : e.present = true) (x : Nat) : e.maps x = one e.ppn x := by
  simp [maps, h]

lemma maps_ne_zero {e : Pte} {x : Nat} : e.maps x ≠ 0 ↔ e.present = true ∧ e.ppn = x := by
  unfold maps one
  split_ifs <;> simp_all

end Pte

structure PageTable where
  page : Nat
  pte : Nat → Pte

structure PageDir where
  page : Nat
  pde : Nat → Option PageTable

namespace PageDir

/-- `walkpgdir` without allocation: the entry of a page, if its page table exists. -/
def walk (d : PageDir) (v : Nat) : Option Pte :=
  (d.pde (v / NPTENTRIES)).map fun t => t.pte (v % NPTENTRIES)

/-- The entry of a page, 0 if there is no page table for it. -/
def entry (d : PageDir) (v : Nat) : Pte := (d.walk v).getD 0

/-- Store through the pointer returned by `walkpgdir`. -/
def set (d : PageDir) (v : Nat) (e : Pte) : PageDir :=
  match d.pde (v / NPTENTRIES) with
  | some t =>
    { d with
      pde := Function.update d.pde (v / NPTENTRIES)
        (some { t with pte := Function.update t.pte (v % NPTENTRIES) e }) }
  | none => d

/-- Install a page table. -/
def addTable (d : PageDir) (i : Nat) (t : PageTable) : PageDir :=
  { d with pde := Function.update d.pde i (some t) }

/-- There is a page table for the page. -/
def HasTable (d : PageDir) (v : Nat) : Prop := (d.pde (v / NPTENTRIES)).isSome = true

instance (d : PageDir) (v : Nat) : Decidable (d.HasTable v) := inferInstanceAs (Decidable (_ = true))

variable {d d' : PageDir} {v w i x : Nat} {e : Pte} {t : PageTable}

lemma walk_eq_some_iff : d.walk v = some e ↔ d.HasTable v ∧ d.entry v = e := by
  unfold walk entry HasTable walk
  cases d.pde (v / NPTENTRIES) <;> simp

lemma walk_eq_none_iff : d.walk v = none ↔ ¬ d.HasTable v := by
  unfold walk HasTable
  cases d.pde (v / NPTENTRIES) <;> simp

lemma entry_of_not_hasTable (h : ¬ d.HasTable v) : d.entry v = 0 := by
  rw [entry, walk_eq_none_iff.mpr h]
  rfl

lemma hasTable_of_present (h : (d.entry v).present = true) : d.HasTable v := by
  by_contra hn
  rw [entry_of_not_hasTable hn] at h
  cases h

@[simp] lemma hasTable_set : (d.set v e).HasTable w ↔ d.HasTable w := by
  unfold HasTable set
  cases h : d.pde (v / NPTENTRIES) with
  | none => rfl
  | some t =>
    by_cases hw : w / NPTENTRIES = v / NPTENTRIES
    · simp [hw, h]
    · simp [Function.update_of_ne hw]

lemma entry_set_self (h : d.HasTable v) : (d.set v e).entry v = e := by
  unfold HasTable at h
  obtain ⟨t, ht⟩ := Option.isSome_iff_exists.mp h
  simp [entry, walk, set, ht]

lemma entry_set_ne (h : w ≠ v) : (d.set v e).entry w = d.entry w := by
  unfold set
  cases ht : d.pde (v / NPTENTRIES) with
  | none => rfl
  | some t =>
    by_cases hw : w / NPTENTRIES = v / NPTENTRIES
    · have hmod : w % NPTENTRIES ≠ v % NPTENTRIES := by
        intro he
        apply h
        rw [← Nat.div_add_mod w NPTENTRIES, ← Nat.div_add_mod v NPTENTRIES, hw, he]
      simp [entry, walk, hw, ht, Function.update_of_ne hmod]
    · simp [entry, walk, Function.update_of_ne hw]

lemma set_of_not_hasTable (h : ¬ d.HasTable v) : d.set v e = d := by
  unfold HasTable at h
  unfold set
  split
  · next ht => simp [ht] at h
  · rfl

/-- Clearing an entry leaves the pages that are still mapped where they were. -/
lemma entry_clear (hp : ((d.set v 0).entry w).present = true) :
    (d.set v 0).entry w = d.entry w := by
  by_cases hwv : w = v
  · subst hwv
    by_cases ht : d.HasTable w
    · rw [entry_set_self ht] at hp
      cases hp
    · rw [set_of_not_hasTable ht]
  · exact entry_set_ne hwv

@[simp] lemma page_set : (d.set v e).page = d.page := by
  unfold set
  split <;> rfl

/-- Installing a zeroed page table changes no entry. -/
lemma entry_addTable_zero {y : Nat} (h : d.pde i = none) :
    (d.addTable i ⟨y, fun _ => 0⟩).entry v = d.entry v := by
  by_cases hv : v / NPTENTRIES = i
  · simp [entry, walk, addTable, hv, h]
  · simp [entry, walk, addTable, Function.update_of_ne hv]

lemma hasTable_addTable (h : d.HasTable v) : (d.addTable i t).HasTable v := by
  unfold HasTable addTable at *
  by_cases hv : v / NPTENTRIES = i
  · simp [hv]
  · simpa [Function.update_of_ne hv] using h

lemma hasTable_addTable_iff : (d.addTable i t).HasTable v ↔ v / NPTENTRIES = i ∨ d.HasTable v := by
  unfold HasTable addTable
  by_cases hv : v / NPTENTRIES = i
  · simp [hv]
  · simp [hv]

/-! ### Which physical pages a directory uses -/

/-- How often a physical page serves as a page of the directory itself. -/
def tableRefs (d : PageDir) (x : Nat) : Nat :=
  one d.page x + ∑ i ∈ Finset.range NPDENTRIES, (d.pde i).elim 0 fun t => one t.page x

/-- How many present entries below `KERNBASE` map a physical page. -/
def userRefs (d : PageDir) (x : Nat) : Nat :=
  ∑ v ∈ Finset.range KERNBASE, (d.entry v).maps x

/-- All uses of a physical page by the directory. -/
def refs (d : PageDir) (x : Nat) : Nat := d.tableRefs x + d.userRefs x

lemma userRefs_congr (h : ∀ v < KERNBASE, d'.entry v = d.entry v) (x : Nat) :
    d'.userRefs x = d.userRefs x := by
  apply Finset.sum_congr rfl
  intro v hv
  rw [h v (Finset.mem_range.mp hv)]

lemma userRefs_eq_zero (h : ∀ v < KERNBASE, (d.entry v).present = false) (x : Nat) :
    d.userRefs x = 0 := by
  apply Finset.sum_eq_zero
  intro v hv
  exact Pte.maps_of_not_present (h v (Finset.mem_range.mp hv)) x

/-- Storing an entry trades the page it mapped for the new one. -/
lemma userRefs_set (h : d.HasTable v) (hv : v < KERNBASE) (x : Nat) :
    (d.set v e).userRefs x + (d.entry v).maps x = d.userRefs x + e.maps x := by
  have hsum := sum_range_of_eq_off (f := fun w => (d.entry w).maps x)
    (g := fun w => ((d.set v e).entry w).maps x) hv
    (fun w _ hw => by rw [entry_set_ne hw])
  rw [entry_set_self h] at hsum
  exact hsum

lemma userRefs_set_kernel (hv : KERNBASE ≤ v) (x : Nat) :
    (d.set v e).userRefs x = d.userRefs x :=
  userRefs_congr (fun w hw => entry_set_ne (by omega)) x

lemma tableRefs_set (x : Nat) : (d.set v e).tableRefs x = d.tableRefs x := by
  have hpde : ∀ i, ((d.set v e).pde i).elim 0 (fun t => one t.page x) =
      (d.pde i).elim 0 fun t => one t.page x := by
    intro i
    unfold set
    cases ht : d.pde (v / NPTENTRIES) with
    | none => rfl
    | some t =>
      by_cases hi : i = v / NPTENTRIES
      · subst hi
        simp [ht]
      · simp [Function.update_of_ne hi]
  simp only [tableRefs, page_set, hpde]

lemma tableRefs_addTable (hi : i < NPDENTRIES) (h : d.pde i = none) (x : Nat) :
    (d.addTable i t).tableRefs x = d.tableRefs x + one t.page x := by
  have hsum := sum_range_of_eq_off (f := fun j => (d.pde j).elim 0 fun t => one t.page x)
    (g := fun j => ((d.addTable i t).pde j).elim 0 fun t => one t.page x) hi
    (fun j _ hj => by simp [addTable, Function.update_of_ne hj])
  simp only [h, Option.elim_none] at hsum
  have hnew : ((d.addTable i t).pde i).elim 0 (fun t => one t.page x) = one t.page x := by
    simp [addTable]
  have hpage : one (d.addTable i t).page x = one d.page x := rfl
  simp only [hnew] at hsum
  unfold tableRefs
  omega

/-- How many present entries of a page table map a physical page. -/
def tableMaps (t : PageTable) (x : Nat) : Nat :=
  ∑ j ∈ Finset.range NPTENTRIES, (t.pte j).maps x

lemma entry_block {j : Nat} (hj : j < NPTENTRIES) :
    d.entry (i * NPTENTRIES + j) = (d.pde i).elim 0 fun t => t.pte j := by
  have hdiv : (i * NPTENTRIES + j) / NPTENTRIES = i := by
    simp only [NPTENTRIES] at hj ⊢
    omega
  have hmod : (i * NPTENTRIES + j) % NPTENTRIES = j := by
    simp only [NPTENTRIES] at hj ⊢
    omega
  rw [entry, walk, hdiv, hmod]
  cases d.pde i <;> rfl

lemma userRefs_eq_tables (x : Nat) :
    d.userRefs x = ∑ i ∈ Finset.range 512, (d.pde i).elim 0 fun t => tableMaps t x := by
  rw [userRefs, KERNBASE_eq, sum_range_blocks]
  apply Finset.sum_congr rfl
  intro i _
  have hblock : ∀ j ∈ Finset.range NPTENTRIES, (d.entry (i * NPTENTRIES + j)).maps x =
      ((d.pde i).elim 0 fun t => t.pte j).maps x := by
    intro j hj
    rw [entry_block (Finset.mem_range.mp hj)]
  rw [Finset.sum_congr rfl hblock]
  cases d.pde i with
  | none => simp only [Option.elim_none, Pte.maps_zero, Finset.sum_const_zero]
  | some t => simp only [Option.elim_some, tableMaps]

lemma userRefs_addTable (hi : i < 512) (h : d.pde i = none) (x : Nat) :
    (d.addTable i t).userRefs x = d.userRefs x + tableMaps t x := by
  have hsum := sum_range_of_eq_off (f := fun j => (d.pde j).elim 0 fun t => tableMaps t x)
    (g := fun j => ((d.addTable i t).pde j).elim 0 fun t => tableMaps t x) hi
    (fun j _ hj => by simp [addTable, Function.update_of_ne hj])
  have hnew : ((d.addTable i t).pde i).elim 0 (fun t => tableMaps t x) = tableMaps t x := by
    simp [addTable]
  simp only [h, Option.elim_none, hnew] at hsum
  rw [userRefs_eq_tables, userRefs_eq_tables]
  omega

lemma maps_le_userRefs (hv : v < KERNBASE) (x : Nat) : (d.entry v).maps x ≤ d.userRefs x :=
  Finset.single_le_sum (f := fun w => (d.entry w).maps x) (fun _ _ => Nat.zero_le _)
    (Finset.mem_range.mpr hv)

lemma userRefs_pos (hv : v < KERNBASE) (h : (d.entry v).present = true) :
    1 ≤ d.userRefs (d.entry v).ppn := by
  have hle := maps_le_userRefs (d := d) hv (d.entry v).ppn
  rwa [Pte.maps_of_present h, one, if_pos rfl] at hle

lemma userRefs_two_le (hv : v < KERNBASE) (hw : w < KERNBASE) (hne : w ≠ v)
    (hpv : (d.entry v).present = true) (hpw : (d.entry w).present = true)
    (h : (d.entry w).ppn = (d.entry v).ppn) : 2 ≤ d.userRefs (d.entry v).ppn := by
  have hle := Finset.sum_le_sum_of_subset (f := fun u => (d.entry u).maps (d.entry v).ppn)
    (s := {v, w}) (t := Finset.range KERNBASE) (by
      intro u hu
      rcases Finset.mem_insert.mp hu with rfl | hu
      · exact Finset.mem_range.mpr hv
      · exact Finset.mem_singleton.mp hu ▸ Finset.mem_range.mpr hw)
  have hone : one (d.entry v).ppn (d.entry v).ppn = 1 := if_pos rfl
  rw [Finset.sum_pair hne.symm, Pte.maps_of_present hpv, Pte.maps_of_present hpw, h, hone] at hle
  exact hle

lemma exists_of_userRefs_ne_zero (h : d.userRefs x ≠ 0) :
    ∃ v < KERNBASE, (d.entry v).present = true ∧ (d.entry v).ppn = x := by
  obtain ⟨v, hv, hne⟩ := Finset.exists_ne_zero_of_sum_ne_zero h
  exact ⟨v, Finset.mem_range.mp hv, Pte.maps_ne_zero.mp hne⟩

/-- The directory without user pages: every present entry below `KERNBASE` is well formed. -/
def Ok (d : PageDir) : Prop := ∀ v < KERNBASE, (d.entry v).Ok

end PageDir

end Xv6
