import Mathlib.Algebra.BigOperators.Group.Finset.Piecewise
import Xv6.Mem.CopyUvm
import Xv6.Mem.Shrink

/-!
# When memory runs out during `copyuvm`

`copyuvm` takes 65 pages for the kernel part of the child's directory, then page table by page table
one page for the table and one for each page that is copied. It installs a table in the child's
directory only when the table is complete, and the clean-up frees what is installed. So a failing
`copyuvm` gives everything back exactly if memory runs out before the first page table of the parent
or between two of them.
-/

namespace Xv6

open Fallible Count

variable {c : ShmField} {d d' nd nd' : PageDir} {m m' : Mem} {v w x y i n : Nat} {S : Finset Nat}

lemma Mem.free_of_pages (h : m.pages = 0) (x : Nat) : m.free x = 0 := by
  rw [Mem.free, List.length_eq_zero_iff.mp h]
  rfl

/-! ### The kernel part -/

/-- `mappages` takes a page for each page table that is missing. -/
lemma mappages_pages (perm : Perm) (pa : Nat)
    (hS : ∀ w, v ≤ w → w < v + n → w / NPTENTRIES ∈ S) :
    Ensures (mappages perm n d v pa m) fun r => r.1 = true →
      r.2.2.pages + missing S d = m.pages + missing S r.2.1 := by
  induction n generalizing d v pa m with
  | zero => exact .ok fun _ => rfl
  | succ n ih =>
    unfold mappages
    split
    · exact .ok fun h => absurd h Bool.false_ne_true
    · next d₁ m₁ hw =>
      split
      · exact .error
      · have hpages := walkpgdir_pages (hS v le_rfl (by omega)) hw
        refine (ih (pa + 1) fun w h1 h2 => hS w (by omega) (by omega)).mono fun r hr hok => ?_
        have h1 := hr hok
        rw [missing_set] at h1
        omega

lemma mapKernel_pages (l : List KMap)
    (hS : ∀ k ∈ l, ∀ w, k.virt ≤ w → w < k.virt + k.pages → w / NPTENTRIES ∈ S) :
    Ensures (mapKernel l d m) fun r => r.1 = true →
      r.2.2.pages + missing S d = m.pages + missing S r.2.1 := by
  induction l generalizing d m with
  | nil => exact .ok fun _ => rfl
  | cons k l ih =>
    unfold mapKernel
    split
    · exact .error
    · exact .ok fun h => absurd h Bool.false_ne_true
    · next d₁ m₁ hmap =>
      have h1 : m₁.pages + missing S d = m.pages + missing S d₁ :=
        mappages_pages k.perm k.phys (hS k (List.mem_cons_self ..)) _ hmap rfl
      refine (ih fun k' hk' => hS k' (List.mem_cons_of_mem k hk')).mono fun r hr hok => ?_
      have := hr hok
      omega

lemma missing_eq_zero (h : ∀ i ∈ S, (d.pde i).isSome = true) : missing S d = 0 := by
  rw [missing, Finset.card_eq_zero, Finset.filter_eq_empty_iff]
  intro i hi
  rw [← Option.not_isSome, h i hi]
  decide

lemma missing_empty (y : Nat) : missing kernelTables ⟨y, fun _ => none⟩ = 64 := by
  have hall : {i ∈ kernelTables | (Option.isNone (α := PageTable) none) = true} = kernelTables :=
    Finset.filter_true_of_mem fun _ _ => rfl
  show ({i ∈ kernelTables | (Option.isNone (α := PageTable) none) = true}).card = 64
  rw [hall, kernelTables, Finset.card_union_of_disjoint]
  · simp
  · rw [Finset.disjoint_left]
    intro i h1 h2
    have := Finset.mem_Ico.mp h1
    have := Finset.mem_Ico.mp h2
    omega

/-- `setupkvm` takes 65 pages. -/
lemma setupkvm_pages : Ensures (setupkvm c m) fun r => ∀ d, r.1 = some d → m.pages = r.2.pages + 65 := by
  rintro ⟨_, m'⟩ h d rfl
  obtain ⟨y, m₁, hk, hmap⟩ := setupkvm_some h
  have hmiss : missing kernelTables d = 0 := by
    refine missing_eq_zero fun i hi => ?_
    have hdiv := Nat.mul_div_cancel i (show 0 < NPTENTRIES by decide)
    have := (setupkvm_hasTable _ h d rfl (i * NPTENTRIES)).mpr (hdiv.symm ▸ hi)
    rwa [PageDir.HasTable, hdiv] at this
  have hpages := Mem.pages_kalloc hk
  have hempty := missing_empty y
  have htaken := mapKernel_pages (S := kernelTables) _ (kmap_tables _) _ hmap rfl
  change m'.pages + _ = m₁.pages + missing kernelTables d at htaken
  show m.pages = m'.pages + 65
  omega

/-! ### The page tables -/

lemma copyNeedsBelow_mono {j : Nat} (h : i ≤ j) : copyNeedsBelow c d i ≤ copyNeedsBelow c d j := by
  induction j, h using Nat.le_induction with
  | base => exact le_rfl
  | succ j _ ih =>
    rw [copyNeedsBelow_succ]
    omega

lemma copyPgtable_false_dir (h : copyPgtable c d i nd m = (false, nd', m')) : nd' = nd := by
  unfold copyPgtable at h
  split at h
  · simp at h
  · split at h
    · cases h
      rfl
    · split at h
      · cases h
        rfl
      · simp at h

/-- If `copyTables` fails, then at one of the tables, with those before it installed. -/
lemma copyTables_false_split {l : List Nat} (h : copyTables c d l nd m = (false, nd', m')) :
    ∃ l₁ i l₂ m₁, l = l₁ ++ i :: l₂ ∧ copyTables c d l₁ nd m = (true, nd', m₁) ∧
      copyPgtable c d i nd' m₁ = (false, nd', m') := by
  induction l generalizing nd m with
  | nil => simp [copyTables] at h
  | cons i l ih =>
    unfold copyTables at h
    split at h
    · next nd₁ m₁ hone =>
      cases h
      obtain rfl := copyPgtable_false_dir hone
      exact ⟨[], i, l, m, rfl, rfl, hone⟩
    · next nd₁ m₁ hone =>
      obtain ⟨l₁, i', l₂, m₂, rfl, h1, h2⟩ := ih h
      refine ⟨i :: l₁, i', l₂, m₂, rfl, ?_, h2⟩
      unfold copyTables
      rw [hone]
      exact h1

lemma range_split {l₁ l₂ : List Nat} (h : List.range n = l₁ ++ i :: l₂) : i < n ∧ l₁ = List.range i := by
  have hlen := congrArg List.length h
  simp only [List.length_range, List.length_append, List.length_cons] at hlen
  have hi : i = l₁.length := by
    have h1 : (List.range n)[l₁.length]? = some l₁.length := by
      rw [List.getElem?_range (by omega)]
    rw [h, List.getElem?_append_right le_rfl, Nat.sub_self] at h1
    simpa using h1
  refine ⟨by omega, ?_⟩
  have htake := congrArg (List.take i) h
  rw [List.take_range, Nat.min_eq_left (by omega), hi, List.take_left] at htake
  rw [hi]
  exact htake.symm

/-! ### Giving up -/

/-- With `n` free pages `copyuvm` runs out of memory before the first page table or between two of
them. -/
def StopsBetween (c : ShmField) (d : PageDir) (n : Nat) : Prop :=
  n < 65 ∨ ∃ i < 512, (d.pde i).isSome = true ∧ n = 65 + copyNeedsBelow c d i

/-- The number of pages left over at page table `i` decides. -/
lemma stopsBetween_iff {k : Nat} (hi : i < 512) (ht : (d.pde i).isSome = true)
    (hn : n = k + 65 + copyNeedsBelow c d i) (hk : k < copyNeeds c d i) :
    StopsBetween c d n ↔ k = 0 := by
  constructor
  · rintro (hlt | ⟨j, -, -, hj⟩)
    · omega
    · rcases Nat.lt_trichotomy j i with hlt | rfl | hlt
      · have := copyNeedsBelow_mono (c := c) (d := d) hlt.le
        omega
      · omega
      · have := copyNeedsBelow_mono (c := c) (d := d) hlt
        rw [copyNeedsBelow_succ] at this
        omega
  · rintro rfl
    exact Or.inr ⟨i, hi, ht, by omega⟩

lemma not_stopsBetween (hn : 65 + copyNeedsBelow c d 512 ≤ n) : ¬ StopsBetween c d n := by
  rintro (hlt | ⟨i, hi, ht, hj⟩)
  · omega
  · have h1 := copyNeedsBelow_mono (c := c) (d := d) (Nat.succ_le_of_lt hi)
    rw [copyNeedsBelow_succ] at h1
    obtain ⟨t, ht⟩ := Option.isSome_iff_exists.mp ht
    have h2 : copyNeeds c d i = entryCopies c i t.pte (List.range NPTENTRIES) + 1 := by
      rw [copyNeeds, ht, Option.elim_some]
    omega

/-- A table of shared pages with the same references, from which entries may have been cleared, is the
same. -/
lemma shared_eq {sh sh₁ sh₂ : Fin N_SHARED_PAGES → ShmEntry} (hs : Mem.SharedOk sh)
    (hs₂ : Mem.SharedOk sh₂) (hpa : ∀ k, (sh₁ k).pa = (sh k).pa) (hc : Mem.Cleared sh₁ sh₂)
    (href : ∀ x, Mem.shmRef sh₂ x = Mem.shmRef sh x) : sh₂ = sh := by
  have hpa₂ : ∀ k, (sh₂ k).pa = (sh k).pa := by
    intro k
    rcases hc k with h | h
    · exact h.trans (hpa k)
    · -- a cleared entry leaves no reference to its page
      by_contra hne
      have hk0 : (sh k).pa ≠ 0 := fun h0 => hne (h.trans h0.symm)
      have h1 := href (sh k).pa
      rw [Mem.shmRef_eq hs rfl hk0, Mem.shmRef_eq_zero] at h1
      · exact hk0 ((hs.zero k).mp h1.symm)
      · intro j hj
        have hjk : j ≠ k := by
          rintro rfl
          exact hne hj
        rcases hc j with h' | h'
        · rw [hpa j] at h'
          exact hjk (hs.distinct j k (h'.symm.trans hj) (by rw [← h', hj]; exact hk0))
        · exact hk0 (hj.symm.trans h')
  funext k
  have hcnt : (sh₂ k).refCnt = (sh k).refCnt := by
    by_cases h0 : (sh k).pa = 0
    · rw [(hs.zero k).mpr h0, (hs₂.zero k).mpr ((hpa₂ k).trans h0)]
    · have h1 := href (sh k).pa
      rwa [Mem.shmRef_eq hs rfl h0, Mem.shmRef_eq hs₂ (hpa₂ k) h0] at h1
  have h1 := hpa₂ k
  cases h2 : sh₂ k
  cases h3 : sh k
  simp_all

/-! ### The tables installed so far -/

/-- A page table shares the page at `shm_va` if it is the one for that address. -/
lemma tableSharing_eq (x : Nat) : tableSharing c d i x =
    if c.idx ≠ none ∧ c.va / NPTENTRIES = i then (d.entry c.va).maps x else 0 := by
  have hN : NPTENTRIES = 1024 := rfl
  unfold tableSharing
  rw [sum_map_range]
  split_ifs with hc
  · obtain ⟨hidx, rfl⟩ := hc
    have hva : c.va / NPTENTRIES * NPTENTRIES + c.va % NPTENTRIES = c.va := Nat.div_add_mod' ..
    rw [Finset.sum_eq_single (c.va % NPTENTRIES), sharing, hva, if_pos ⟨hidx, rfl⟩]
    · intro j _ hj
      refine if_neg ?_
      rintro ⟨-, h⟩
      omega
    · intro h
      exact absurd (Finset.mem_range.mpr (Nat.mod_lt _ (by decide))) h
  · refine Finset.sum_eq_zero fun j hj => if_neg ?_
    rintro ⟨hidx, h⟩
    have := Finset.mem_range.mp hj
    exact hc ⟨hidx, by rw [hN] at *; omega⟩

lemma sum_tableSharing_below (x : Nat) : ((List.range i).map fun k => tableSharing c d k x).sum =
    if c.idx ≠ none ∧ c.va / NPTENTRIES < i then (d.entry c.va).maps x else 0 := by
  simp only [tableSharing_eq, sum_map_range]
  by_cases hidx : c.idx ≠ none
  · simp only [hidx, true_and, ne_eq, not_false_eq_true, Finset.sum_ite_eq, Finset.mem_range]
  · simp only [hidx, false_and, if_false, Finset.sum_const_zero]

/-- The child's directory with the first `i` page tables installed. -/
structure Installed (c : ShmField) (d : PageDir) (i : Nat) (nd : PageDir) (m m' : Mem) : Prop where
  below : ∀ v, v / NPTENTRIES < i → EntryCopied c v (d.entry v) (nd.entry v) m m'
  above : ∀ v < KERNBASE, i ≤ v / NPTENTRIES → ¬ nd.HasTable v

lemma DirCopied.installed (h : DirCopied c d (List.range i) nd m nd' m') (hbare : nd.Bare) :
    Installed c d i nd' m m' := by
  refine ⟨fun v hv => ?_, fun v hv hi ht => ?_⟩
  · have := h.entry _ (List.mem_range.mpr hv) (v % NPTENTRIES) (Nat.mod_lt _ (by decide))
    rwa [Nat.div_add_mod' v NPTENTRIES] at this
  · unfold PageDir.HasTable at ht
    rw [h.rest _ (by simpa using hi)] at ht
    exact hbare.not_hasTable hv ht

lemma Installed.ok (h : Installed c d i nd m m') (hok : d.Ok) : nd.Ok := by
  intro v hv
  by_cases hi : v / NPTENTRIES < i
  · have hcopy := h.below v hi
    have hp := Pte.present_of_flags hcopy.flags
    have hl : (nd.entry v).lazy = (d.entry v).lazy := by
      show (nd.entry v).flags.lazy = (d.entry v).flags.lazy
      rw [hcopy.flags]
    refine ⟨fun hpn => ?_, fun hpn => ?_⟩
    · rw [hl]
      exact (hok v hv).not_both (hp ▸ hpn)
    · rw [hp] at hpn
      cases hld : (d.entry v).lazy with
      | true => exact hcopy.lazy hld
      | false =>
        rw [hcopy.same hpn hld]
        exact (hok v hv).ppn_zero hpn
  · rw [PageDir.entry_of_not_hasTable (h.above v hv (by omega))]
    exact Pte.ok_zero

lemma lt_of_div_lt (hi : i ≤ 512) (hv : v / NPTENTRIES < i) : v < KERNBASE := by
  have hK : KERNBASE = 524288 := KERNBASE_eq
  simp only [NPTENTRIES] at hv
  omega

/-- The shared page that the child's directory has is the one whose count was raised. -/
lemma Installed.kept (h : Installed c d i nd m m') (hi : i ≤ 512) (x : Nat) : kept c nd x =
    if c.idx ≠ none ∧ c.va / NPTENTRIES < i then (d.entry c.va).maps x else 0 := by
  unfold Xv6.kept
  by_cases hc : c.idx ≠ none ∧ c.va / NPTENTRIES < i
  · rw [if_pos hc, if_pos ⟨hc.1, lt_of_div_lt hi hc.2⟩]
    have hcopy := h.below c.va hc.2
    cases hp : (d.entry c.va).present with
    | true => rw [hcopy.shared hp ⟨hc.1, rfl⟩]
    | false =>
      have hpn : (nd.entry c.va).present = false := (Pte.present_of_flags hcopy.flags).trans hp
      rw [Pte.maps_of_not_present hp, Pte.maps_of_not_present hpn]
  · rw [if_neg hc]
    split_ifs with hva
    · rw [PageDir.entry_of_not_hasTable (h.above c.va hva.2 (by
        by_contra hlt
        exact hc ⟨hva.1, by omega⟩))]
      rfl
    · rfl

/-! ### What is lost -/

/-- However far `copyTable` gets, the table of shared pages stays well formed. -/
lemma copyTable_sharedOk {l : List Nat} {pgtable new : Nat → Pte} {r : Option (Nat → Pte)}
    (hr : CopyReady c d m) (hd : ∀ j ∈ l, pgtable j = d.entry (i * NPTENTRIES + j))
    (hl : ∀ j ∈ l, i * NPTENTRIES + j < KERNBASE)
    (h : copyTable c i pgtable l new m = (r, m')) : Mem.SharedOk m'.shared := by
  induction l generalizing new m with
  | nil =>
    cases h
    exact hr.sharedOk
  | cons j l ih =>
    have hd' : ∀ k ∈ l, pgtable k = d.entry (i * NPTENTRIES + k) :=
      fun k hk => hd k (List.mem_cons_of_mem j hk)
    have hl' : ∀ k ∈ l, i * NPTENTRIES + k < KERNBASE := fun k hk => hl k (List.mem_cons_of_mem j hk)
    have hv := hl j (List.mem_cons_self ..)
    simp only [copyTable, hd j (List.mem_cons_self ..)] at h
    split at h
    · exact ih hr hd' hl' h
    · next hmapped =>
      split at h
      · exact ih hr hd' hl' h
      · next hlazy =>
        have hp : (d.entry (i * NPTENTRIES + j)).present = true := by
          simpa [Pte.mapped, hlazy] using hmapped
        split at h
        · next hit =>
          exact ih (hr.copying (PageCopied.of_hits hr hv hp hit).copying) hd' hl' h
        · next hit =>
          split at h
          · next m₁ hk =>
            cases h
            obtain ⟨-, rfl⟩ := Mem.kalloc_none hk
            exact hr.sharedOk
          · next y m₁ hk =>
            exact ih (hr.copying (PageCopied.of_kalloc hr hv hp hit hk).copying) hd' hl' h

lemma copyPgtable_sharedOk {ok : Bool} (hr : CopyReady c d m) (hi : i < 512)
    (h : copyPgtable c d i nd m = (ok, nd', m')) : Mem.SharedOk m'.shared := by
  unfold copyPgtable at h
  split at h
  · cases h
    exact hr.sharedOk
  · next t ht =>
    have hd : ∀ j ∈ List.range NPTENTRIES, t.pte j = d.entry (i * NPTENTRIES + j) := by
      intro j hj
      rw [PageDir.entry_block (List.mem_range.mp hj), ht]
      rfl
    have hl : ∀ j ∈ List.range NPTENTRIES, i * NPTENTRIES + j < KERNBASE :=
      fun j hj => block_lt hi (List.mem_range.mp hj)
    split at h
    · next m₁ hk =>
      cases h
      obtain ⟨-, rfl⟩ := Mem.kalloc_none hk
      exact hr.sharedOk
    · next y m₁ hk =>
      split at h
      · next m₂ heq =>
        cases h
        exact copyTable_sharedOk (hr.kalloc hk) hd hl heq
      · next pte m₂ heq =>
        cases h
        exact copyTable_sharedOk (hr.kalloc hk) hd hl heq

lemma copyTable_layout {l : List Nat} {pgtable new : Nat → Pte} {r : Option (Nat → Pte)}
    (h : copyTable c i pgtable l new m = (r, m')) : m'.layout = m.layout := by
  induction l generalizing new m with
  | nil =>
    cases h
    rfl
  | cons j l ih =>
    simp only [copyTable] at h
    split at h
    · exact ih h
    · split at h
      · exact ih h
      · split at h
        · rw [ih h]
          unfold Mem.shmAdd
          split
          · rfl
          · split <;> rfl
        · split at h
          · next m₁ hk =>
            cases h
            rw [(Mem.kalloc_none hk).2]
          · next y m₁ hk =>
            exact (ih h).trans (show m₁.layout = m.layout from Mem.layout_kalloc hk)

lemma copyPgtable_layout {ok : Bool} (h : copyPgtable c d i nd m = (ok, nd', m')) :
    m'.layout = m.layout := by
  unfold copyPgtable at h
  split at h
  · cases h
    rfl
  · split at h
    · next m₁ hk =>
      cases h
      rw [(Mem.kalloc_none hk).2]
    · next y m₁ hk =>
      split at h
      · next m₂ heq =>
        cases h
        exact (copyTable_layout heq).trans (Mem.layout_kalloc hk)
      · next pte m₂ heq =>
        cases h
        exact (copyTable_layout heq).trans (Mem.layout_kalloc hk)

/-- Without a free page the copying of a page table stops at once. -/
lemma copyPgtable_false_of_pages (hm : m.pages = 0)
    (h : copyPgtable c d i nd m = (false, nd', m')) : m' = m := by
  unfold copyPgtable at h
  split at h
  · simp at h
  · split at h
    · next m₁ hk =>
      cases h
      exact (Mem.kalloc_none hk).2
    · next y m₁ hk =>
      have := Mem.pages_kalloc hk
      omega

lemma copyPgtable_false_table (h : copyPgtable c d i nd m = (false, nd', m')) :
    (d.pde i).isSome = true := by
  unfold copyPgtable at h
  split at h
  · simp at h
  · next t ht => rw [ht, Option.isSome_some]

/-- `copyuvm` fails at page table `i`: those before it are installed in `nd`. -/
structure FailsAt (c : ShmField) (d : PageDir) (m : Mem) (i : Nat) (nd : PageDir) (m₁ m₂ : Mem) :
    Prop where
  lt : i < 512
  table : (d.pde i).isSome = true
  installed : Installed c d i nd m m₁
  refs : ∀ x, nd.refs x + m₁.free x = m.free x + kept c nd x
  copying : Copying (kept c nd) m m₁
  pages : m.pages = m₁.pages + 65 + copyNeedsBelow c d i
  stops : copyPgtable c d i nd m₁ = (false, nd, m₂)

lemma failsAt_of_copyTables {m₁ m₂ : Mem} (hr : CopyReady c d m)
    (hsetup : setupkvm c m = .ok (some nd, m₁))
    (hcopy : copyTables c d (List.range 512) nd m₁ = (false, nd', m₂)) :
    ∃ i m₀, FailsAt c d m i nd' m₀ m₂ := by
  obtain ⟨hshared, hlay, -, hsome⟩ := setupkvm_ensures hr.sharedOk _ hsetup
  obtain ⟨hbare, hrefs, htakes⟩ := hsome nd rfl
  dsimp only at hshared hlay hrefs htakes
  have hcopy₁ : Copying (fun _ => 0) m m₁ :=
    ⟨htakes, fun x => by have := hrefs x; omega, fun x => by rw [hshared, Nat.add_zero],
      fun k => by rw [hshared], hshared ▸ hr.sharedOk, hlay⟩
  have hpages₁ : m.pages = m₁.pages + 65 := setupkvm_pages _ hsetup nd rfl
  obtain ⟨l₁, i, l₂, m₀, hl, hdone, hstop⟩ := copyTables_false_split hcopy
  obtain ⟨hi, rfl⟩ := range_split hl
  have hpde : ∀ k ∈ List.range i, nd.pde k = none := by
    intro k hk
    have := List.mem_range.mp hk
    exact hbare k (by rw [KERNBASE_div]; omega)
  have hdir := copyTables_true (hr.copying hcopy₁) (fun k hk => by have := List.mem_range.mp hk; omega)
    hpde List.nodup_range hdone
  have hinst := hdir.installed hbare
  have hsum : ∀ x, ((List.range i).map fun k => tableSharing c d k x).sum = kept c nd' x := by
    intro x
    rw [hinst.kept hi.le, sum_tableSharing_below]
  refine ⟨i, m₀, hi, copyPgtable_false_table hstop, ⟨fun v hv => ?_, hinst.above⟩, fun x => ?_,
    (hcopy₁.trans hdir.copying).congr fun x => by rw [hsum, Nat.zero_add], ?_, hstop⟩
  · exact (hinst.below v hv).earlier hcopy₁.takes hcopy₁.free_le (hr.notFree v (lt_of_div_lt hi.le hv))
  · have h1 := hdir.refs x
    have h2 := hrefs x
    rw [hsum] at h1
    omega
  · have h1 : m₁.pages = m₀.pages + copyNeedsBelow c d i := copyTables_pages hdone
    omega

/-- If `copyuvm` gives up, then while it sets up the kernel part or at a page table. -/
lemma copyuvm_fails (hr : CopyReady c d m) (h : copyuvm c d m = .ok (none, m')) :
    (m.pages < 65 ∧ (∀ x, m'.free x = m.free x) ∧ m'.shared = m.shared) ∨
      ∃ i nd m₁ m₂, FailsAt c d m i nd m₁ m₂ ∧ freevm c nd m₂ = .ok m' := by
  obtain ⟨⟨r, m₁⟩, hsetup, h⟩ := bind_eq_ok.mp h
  cases r with
  | none =>
    cases h
    obtain ⟨hshared, -, hnone, -⟩ := setupkvm_ensures hr.sharedOk _ hsetup
    refine Or.inl ⟨?_, hnone rfl, hshared⟩
    by_contra hpages
    obtain ⟨nd, m₂, heq, -⟩ := setupkvm_succeeds (c := c) (m := m) (by omega)
    rw [heq] at hsetup
    cases hsetup
  | some nd =>
    dsimp only at h
    rw [KERNBASE_div] at h
    split at h
    · cases h
    · next nd' m₂ hcopy =>
      obtain ⟨m₃, hfree, h⟩ := bind_eq_ok.mp h
      cases h
      obtain ⟨i, m₀, hfail⟩ := failsAt_of_copyTables hr hsetup hcopy
      exact Or.inr ⟨i, nd', m₀, m₂, hfail, hfree⟩

/-- With no shared page, and memory for the kernel part, `copyuvm` returns. -/
lemma copyuvm_returns (hr : CopyReady c d m) (hidx : c.idx = none) (hpages : 65 ≤ m.pages)
    (hin : ∀ x ∈ m.freelist, m.InRange x) : ∃ r, copyuvm c d m = .ok r := by
  obtain ⟨nd, m₁, hsetup, -⟩ := setupkvm_succeeds (c := c) hpages
  unfold copyuvm
  rw [hsetup, KERNBASE_div]
  rcases hcopy : copyTables c d (List.range 512) nd m₁ with ⟨_ | _, nd', m₂⟩
  · obtain ⟨i, m₀, hfail⟩ := failsAt_of_copyTables hr hsetup hcopy
    have hlay : m₂.layout = m.layout :=
      (copyPgtable_layout hfail.stops).trans hfail.copying.layout
    have hs₂ := copyPgtable_sharedOk (hr.copying hfail.copying) hfail.lt hfail.stops
    have hrefs : ∀ x, nd'.refs x ≠ 0 → m₂.InRange x := by
      intro x hx
      have h1 := hfail.refs x
      rw [kept, if_neg fun hc => hc.1 hidx] at h1
      exact (hin x (Mem.free_ne_zero.mp (by omega))).congr hlay
    obtain ⟨m₃, hm₃⟩ := freevm_succeeds (c := c) hs₂ hrefs fun v _ hit => absurd hidx hit.1
    simp only [bind, Except.bind, hcopy, hm₃]
    exact ⟨_, rfl⟩
  · simp only [bind, Except.bind, hcopy]
    exact ⟨_, rfl⟩

/-- A failing `copyuvm` gives all pages back and leaves the reference counts as they were if memory
runs out before or between the page tables; otherwise a page is lost. -/
lemma copyuvm_short (hr : CopyReady c d m) (hok : d.Ok) (h : copyuvm c d m = .ok (none, m')) :
    (StopsBetween c d m.pages ∧ (∀ x, m'.free x = m.free x) ∧ m'.shared = m.shared) ∨
      (¬ StopsBetween c d m.pages ∧ ∃ x, m.free x ≠ 0 ∧ m'.free x = 0) := by
  rcases copyuvm_fails hr h with ⟨hpages, hfree, hshared⟩ | ⟨i, nd, m₁, m₂, hfail, hfreed⟩
  · exact Or.inl ⟨Or.inl hpages, hfree, hshared⟩
  · have hready := hr.copying hfail.copying
    have hs₂ := copyPgtable_sharedOk hready hfail.lt hfail.stops
    have hpages : m₂.pages = 0 ∧ m₁.pages < copyNeeds c d i := copyPgtable_pages hfail.stops
    have hiff := stopsBetween_iff hfail.lt hfail.table hfail.pages hpages.2
    have hfreed := freevm_ensures hs₂ _ hfreed
    by_cases hzero : m₁.pages = 0
    · obtain rfl := copyPgtable_false_of_pages hzero hfail.stops
      refine Or.inl ⟨hiff.mpr hzero, ?_⟩
      -- the child's directory has one reference to the shared page, besides those there were
      have hreg : ∀ x, kept c nd x ≠ 0 → Mem.shmRef m.shared x ≠ 0 := by
        intro x hx
        rw [hfail.installed.kept hfail.lt.le] at hx
        split_ifs at hx with hc
        · obtain ⟨hp, rfl⟩ := Pte.maps_ne_zero.mp hx
          exact hr.registered hc.1 (lt_of_div_lt hfail.lt.le hc.2) hp
        · exact absurd rfl hx
      have hdrop : ∀ x, dropped c nd m₂ 0 KERNBASE x = kept c nd x := by
        intro x
        by_cases hx : Mem.shmRef m₂.shared x = 0
        · rw [dropped, if_neg fun hc => hc.2.2.2.2 hx]
          by_contra hne
          have := hfail.copying.shmRef x
          have := hreg x fun h => hne h.symm
          omega
        · exact dropped_eq_kept (hfail.installed.ok hok) hs₂ hx
      have href : ∀ x, Mem.shmRef m'.shared x = Mem.shmRef m.shared x := by
        intro x
        have h1 := hfreed.shmRef x
        rw [hdrop, hfail.copying.shmRef] at h1
        omega
      refine ⟨fun x => ?_, shared_eq hr.sharedOk hfreed.sharedOk hfail.copying.pa hfreed.cleared href⟩
      have h1 := hfreed.free x
      have h2 := hfail.refs x
      have h3 := hreg x
      rw [hdrop, hfail.copying.shmRef] at h1
      split_ifs at h1
      · omega
      · omega
    · refine Or.inr ⟨fun hstop => hzero (hiff.mp hstop), ?_⟩
      obtain ⟨y, m₀, hk, -⟩ := Mem.kalloc_of_pages hzero
      have hy := Mem.free_kalloc hk y
      rw [one, if_pos rfl] at hy
      -- the page taken for the table that was not completed
      have hym : m.free y ≠ 0 := by
        have := hfail.copying.free_le y
        omega
      refine ⟨y, hym, ?_⟩
      have hkept : kept c nd y = 0 := by
        by_contra hne
        rw [hfail.installed.kept hfail.lt.le] at hne
        split_ifs at hne with hc
        · obtain ⟨hp, rfl⟩ := Pte.maps_ne_zero.mp hne
          exact hym (hr.notFree c.va (lt_of_div_lt hfail.lt.le hc.2) hp)
        · exact hne rfl
      have hrefs : nd.refs y = 0 := by
        have h1 := hfail.refs y
        have h2 := hr.free_le y
        omega
      have hdrop : dropped c nd m₂ 0 KERNBASE y = 0 := by
        by_cases hx : Mem.shmRef m₂.shared y = 0
        · rw [dropped, if_neg fun hc => hc.2.2.2.2 hx]
        · rw [dropped_eq_kept (hfail.installed.ok hok) hs₂ hx, hkept]
      have h1 := hfreed.free y
      rw [hdrop, ite_self, hrefs, Mem.free_of_pages hpages.1] at h1
      omega

/-- What `copyuvm` takes if it succeeds. -/
lemma copyuvm_pages (h : copyuvm c d m = .ok (some nd, m')) :
    m.pages = m'.pages + 65 + copyNeedsBelow c d 512 := by
  obtain ⟨⟨r, m₁⟩, hsetup, h⟩ := bind_eq_ok.mp h
  cases r with
  | none => cases h
  | some nd₁ =>
    have hpages₁ : m.pages = m₁.pages + 65 := setupkvm_pages _ hsetup nd₁ rfl
    dsimp only at h
    rw [KERNBASE_div] at h
    split at h
    · next nd' m₂ hcopy =>
      have hpages₂ : m₁.pages = m₂.pages + copyNeedsBelow c d 512 := copyTables_pages hcopy
      obtain ⟨-, rfl⟩ : nd' = nd ∧ m₂ = m' := by simpa [pure, Except.pure] using h
      omega
    · obtain ⟨m₃, -, h⟩ := bind_eq_ok.mp h
      cases h

end Xv6
