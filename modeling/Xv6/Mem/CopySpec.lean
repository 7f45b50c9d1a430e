import Xv6.Mem.UserSpec

/-!
# What `copyuvm` does

The two loops of `copyuvm` go over the parent's page tables and entries. For one entry the child's
is a copy with a fresh page, a copy that shares the page, a lazy entry, or the parent's own entry if
that maps nothing. The specification is stated entry by entry and carried through the loops together
with the accounting of pages.
-/

namespace Xv6

open Fallible Count

variable {c : ShmField} {d nd nd' : PageDir} {m m' m'' : Mem} {v x y i j : Nat} {e e' : Pte}

/-! ### One entry -/

/-- The child's entry `e'` for the parent's entry `e`: the memory is `m` before and `m'` after. -/
structure EntryCopied (c : ShmField) (v : Nat) (e e' : Pte) (m m' : Mem) : Prop where
  flags : e'.flags = e.flags
  lazy : e.lazy = true → e'.ppn = 0
  same : e.present = false → e.lazy = false → e' = e
  shared : e.present = true → c.Hits v → e' = e
  fresh : e.present = true → ¬ c.Hits v →
    m.free e'.ppn ≠ 0 ∧ m'.free e'.ppn = 0 ∧ m'.bytes e'.ppn = m.bytes e.ppn

lemma Pte.present_of_flags (h : e'.flags = e.flags) : e'.present = e.present := by
  show e'.flags.present = e.flags.present
  rw [h]

lemma EntryCopied.later (h : EntryCopied c v e e' m m') (ht : m'.Takes m'') :
    EntryCopied c v e e' m m'' := by
  refine ⟨h.flags, h.lazy, h.same, h.shared, fun hp hc => ?_⟩
  obtain ⟨h1, h2, h3⟩ := h.fresh hp hc
  obtain ⟨h4, h5⟩ := ht _ h2
  exact ⟨h1, h4, h5.trans h3⟩

lemma EntryCopied.earlier (h : EntryCopied c v e e' m' m'') (ht : m.Takes m')
    (hle : ∀ x, m'.free x ≤ m.free x) (hnot : e.present = true → m.free e.ppn = 0) :
    EntryCopied c v e e' m m'' := by
  refine ⟨h.flags, h.lazy, h.same, h.shared, fun hp hc => ?_⟩
  obtain ⟨h1, h2, h3⟩ := h.fresh hp hc
  refine ⟨?_, h2, h3.trans (ht _ (hnot hp)).2⟩
  have := hle e'.ppn
  omega

/-- What `copyuvm` relies on: every entry is present or lazy but not both, no page of the parent is
free, no page is on the free list twice, and the page at the current process's `shm_va` is a shared
one. -/
structure CopyReady (c : ShmField) (d : PageDir) (m : Mem) : Prop where
  not_both : ∀ v < KERNBASE, (d.entry v).present = true → (d.entry v).lazy = false
  notFree : ∀ v < KERNBASE, (d.entry v).present = true → m.free (d.entry v).ppn = 0
  free_le : ∀ x, m.free x ≤ 1
  sharedOk : Mem.SharedOk m.shared
  registered : c.idx ≠ none → c.va < KERNBASE → (d.entry c.va).present = true →
    Mem.shmRef m.shared (d.entry c.va).ppn ≠ 0

/-- The page that the entry shares with the child. -/
def sharing (c : ShmField) (d : PageDir) (v x : Nat) : Nat :=
  if c.Hits v then (d.entry v).maps x else 0

/-- How the memory changes while copying: pages leave the free list, `s x` references to the shared
page `x` are added. -/
structure Copying (s : Nat → Nat) (m m' : Mem) : Prop where
  takes : m.Takes m'
  free_le : ∀ x, m'.free x ≤ m.free x
  shmRef : ∀ x, Mem.shmRef m'.shared x = Mem.shmRef m.shared x + s x
  pa : ∀ k, (m'.shared k).pa = (m.shared k).pa
  sharedOk : Mem.SharedOk m'.shared
  layout : m'.layout = m.layout

lemma Copying.refl (hs : Mem.SharedOk m.shared) : Copying (fun _ => 0) m m :=
  ⟨.refl m, fun _ => le_rfl, fun _ => (Nat.add_zero _).symm, fun _ => rfl, hs, rfl⟩

lemma Copying.trans {s s' : Nat → Nat} (h : Copying s m m') (h' : Copying s' m' m'') :
    Copying (fun x => s x + s' x) m m'' := by
  refine ⟨h.takes.trans h'.takes, fun x => (h'.free_le x).trans (h.free_le x), fun x => ?_,
    fun k => (h'.pa k).trans (h.pa k), h'.sharedOk, h'.layout.trans h.layout⟩
  rw [h'.shmRef x, h.shmRef x, Nat.add_assoc]

lemma Copying.congr {s s' : Nat → Nat} (h : Copying s m m') (hs : ∀ x, s x = s' x) :
    Copying s' m m' :=
  ⟨h.takes, h.free_le, fun x => hs x ▸ h.shmRef x, h.pa, h.sharedOk, h.layout⟩

/-- Taking a page to copy to. -/
lemma Copying.kalloc (hs : Mem.SharedOk m.shared) (hk : m.kalloc = (some y, m')) (g : Nat → UInt8) :
    Copying (fun _ => 0) m { m' with bytes := Function.update m'.bytes y g } := by
  have hsh := Mem.shared_kalloc hk
  refine ⟨.kalloc hk g, fun x => ?_, fun x => ?_, fun k => ?_, ?_, ?_⟩
  · have := Mem.free_kalloc hk x
    show m'.free x ≤ m.free x
    omega
  · show Mem.shmRef m'.shared x = _
    rw [hsh, Nat.add_zero]
  · show (m'.shared k).pa = _
    rw [hsh]
  · show Mem.SharedOk m'.shared
    exact hsh ▸ hs
  · show m'.layout = m.layout
    exact Mem.layout_kalloc hk

lemma CopyReady.copying {s : Nat → Nat} (h : CopyReady c d m) (hm : Copying s m m') :
    CopyReady c d m' := by
  refine ⟨h.not_both, fun v hv hp => (hm.takes _ (h.notFree v hv hp)).1,
    fun x => (hm.free_le x).trans (h.free_le x), hm.sharedOk, fun hi hva hp => ?_⟩
  have := h.registered hi hva hp
  rw [hm.shmRef]
  omega

/-- One entry has been copied, and its pages are accounted for. -/
structure PageCopied (c : ShmField) (d : PageDir) (v : Nat) (e' : Pte) (m m' : Mem) : Prop where
  entry : EntryCopied c v (d.entry v) e' m m'
  free : ∀ x, e'.maps x + m'.free x = m.free x + sharing c d v x
  copying : Copying (sharing c d v) m m'

lemma sharing_of_not_present (h : (d.entry v).present = false) (x : Nat) : sharing c d v x = 0 := by
  unfold sharing
  split_ifs
  · exact Pte.maps_of_not_present h x
  · rfl

/-- An entry that maps nothing. -/
lemma PageCopied.of_not_present (hr : CopyReady c d m) (hp : (d.entry v).present = false)
    (hl : (d.entry v).lazy = true → e'.ppn = 0) (hs : (d.entry v).lazy = false → e' = d.entry v)
    (hf : e'.flags = (d.entry v).flags) : PageCopied c d v e' m m := by
  have hp' : e'.present = false := (Pte.present_of_flags hf).trans hp
  refine ⟨⟨hf, hl, fun _ h => hs h, fun h => ?_, fun h => ?_⟩, fun x => ?_,
    (Copying.refl hr.sharedOk).congr fun x => (sharing_of_not_present hp x).symm⟩
  · simp [hp] at h
  · simp [hp] at h
  · rw [sharing_of_not_present hp, Pte.maps_of_not_present hp', Nat.zero_add, Nat.add_zero]

lemma Mem.shmAdd_registered (h : Mem.SharedOk m.shared) (hx : Mem.shmRef m.shared x ≠ 0) :
    Copying (one x) m (m.shmAdd x).2 ∧ (m.shmAdd x).2.freelist = m.freelist := by
  have hx0 : x ≠ 0 := by
    rintro rfl
    exact hx (Mem.shmRef_zero h)
  cases ha : m.shmAdd x with
  | mk r m' =>
    cases r with
    | none =>
      obtain ⟨k, hk, -⟩ := Mem.exists_of_shmRef_ne_zero hx
      unfold Mem.shmAdd at ha
      split at ha
      · simp at ha
      · next hnone =>
        have := List.find?_eq_none.mp hnone k (List.mem_finRange k)
        simp [hk] at this
    | some k =>
      obtain ⟨h1, h2, h3, h4⟩ := Mem.shmAdd_some h hx0 ha
      have hfree : m'.freelist = m.freelist := by rw [h3]
      have hpa : ∀ k, (m'.shared k).pa = (m.shared k).pa := by
        intro k
        obtain ⟨k', hk', -⟩ := Mem.exists_of_shmRef_ne_zero hx
        unfold Mem.shmAdd at ha
        split at ha
        · next k'' hfind =>
          simp only [Prod.mk.injEq] at ha
          rw [← ha.2]
          by_cases hkk : k = k''
          · subst hkk
            simp
          · simp [hkk]
        · next hnone =>
          have := List.find?_eq_none.mp hnone k' (List.mem_finRange k')
          simp [hk'] at this
      refine ⟨⟨fun z hz => ⟨?_, ?_⟩, fun z => ?_, h4, hpa, h1, by rw [h3]⟩, hfree⟩
      · unfold Mem.free at hz ⊢
        rw [hfree]
        exact hz
      · show m'.bytes z = m.bytes z
        rw [h3]
      · unfold Mem.free
        rw [hfree]

/-- The entry of the shared page. -/
lemma PageCopied.of_hits (hr : CopyReady c d m) (hv : v < KERNBASE) (hp : (d.entry v).present = true)
    (hc : c.Hits v) : PageCopied c d v (d.entry v) m (m.shmAdd (d.entry v).ppn).2 := by
  have hreg : Mem.shmRef m.shared (d.entry v).ppn ≠ 0 := by
    have := hc.2 ▸ hr.registered hc.1
    exact this hv hp
  obtain ⟨hcopy, hfree⟩ := Mem.shmAdd_registered hr.sharedOk hreg
  have hshare : ∀ x, one (d.entry v).ppn x = sharing c d v x := by
    intro x
    rw [sharing, if_pos hc, Pte.maps_of_present hp]
  refine ⟨⟨rfl, fun hl => ?_, fun _ _ => rfl, fun _ _ => rfl, fun _ hn => absurd hc hn⟩, fun x => ?_,
    hcopy.congr hshare⟩
  · simp [hr.not_both v hv hp] at hl
  · rw [← hshare, Pte.maps_of_present hp, Mem.free, hfree, ← Mem.free, Nat.add_comm]

/-- A page of the child's own. -/
lemma PageCopied.of_kalloc (hr : CopyReady c d m) (hv : v < KERNBASE)
    (hp : (d.entry v).present = true) (hc : ¬ c.Hits v) (hk : m.kalloc = (some y, m')) :
    PageCopied c d v { d.entry v with ppn := y } m (m'.copyPage y (d.entry v).ppn) := by
  have hshare : ∀ x, sharing c d v x = 0 := fun x => if_neg hc
  have hfree := Mem.free_kalloc hk
  have hy : one y y = 1 := if_pos rfl
  refine ⟨⟨rfl, fun hl => ?_, fun h => ?_, fun _ h => absurd h hc, fun _ _ => ⟨?_, ?_, ?_⟩⟩,
    fun x => ?_, (Copying.kalloc hr.sharedOk hk _).congr fun x => (hshare x).symm⟩
  · simp [hr.not_both v hv hp] at hl
  · simp [hp] at h
  · have := hfree y
    show m.free y ≠ 0
    omega
  · have := hfree y
    have := hr.free_le y
    show m'.free y = 0
    omega
  · rw [(Mem.kalloc_some hk).2]
    simp [Mem.copyPage]
  · have hmaps : ({ d.entry v with ppn := y } : Pte).maps x = one y x :=
      Pte.maps_of_present (e := { d.entry v with ppn := y }) hp x
    have := hfree x
    rw [hshare, hmaps, Mem.free_copyPage]
    omega

/-! ### One page table -/

/-- Entries `l` of page table `i` have been copied. -/
structure TableCopied (c : ShmField) (d : PageDir) (i : Nat) (l : List Nat) (new new' : Nat → Pte)
    (m m' : Mem) : Prop where
  rest : ∀ j, j ∉ l → new' j = new j
  entry : ∀ j ∈ l,
    EntryCopied c (i * NPTENTRIES + j) (d.entry (i * NPTENTRIES + j)) (new' j) m m'
  free : ∀ x, (l.map fun j => (new' j).maps x).sum + m'.free x =
    m.free x + (l.map fun j => sharing c d (i * NPTENTRIES + j) x).sum
  copying : Copying (fun x => (l.map fun j => sharing c d (i * NPTENTRIES + j) x).sum) m m'

/-- Copying goes on after the first entry. -/
lemma PageCopied.cons {l : List Nat} {new new' : Nat → Pte} (hr : CopyReady c d m)
    (hv : i * NPTENTRIES + j < KERNBASE)
    (h : PageCopied c d (i * NPTENTRIES + j) e' m m') (hj : j ∉ l) (hnew : new j = e')
    (hl : ∀ k ∈ l, i * NPTENTRIES + k < KERNBASE)
    (ht : TableCopied c d i l new new' m' m'') {old : Nat → Pte}
    (hold : ∀ k, k ≠ j → new k = old k) : TableCopied c d i (j :: l) old new' m m'' := by
  have hj' : new' j = e' := (ht.rest j hj).trans hnew
  refine ⟨fun k hk => ?_, fun k hk => ?_, fun x => ?_, ?_⟩
  · simp only [List.mem_cons, not_or] at hk
    rw [ht.rest k hk.2, hold k hk.1]
  · rcases List.mem_cons.mp hk with rfl | hk
    · rw [hj']
      exact h.entry.later ht.copying.takes
    · exact (ht.entry k hk).earlier h.copying.takes h.copying.free_le (hr.notFree _ (hl k hk))
  · have h1 := h.free x
    have h2 := ht.free x
    simp only [List.map_cons, List.sum_cons, hj']
    omega
  · exact (h.copying.trans ht.copying).congr fun x => by simp

lemma copyTable_some {l : List Nat} {pgtable new new' : Nat → Pte} (hr : CopyReady c d m)
    (hd : ∀ j ∈ l, pgtable j = d.entry (i * NPTENTRIES + j)) (hnew : ∀ j ∈ l, new j = pgtable j)
    (hl : ∀ j ∈ l, i * NPTENTRIES + j < KERNBASE) (hnodup : l.Nodup)
    (h : copyTable c i pgtable l new m = (some new', m')) :
    TableCopied c d i l new new' m m' := by
  induction l generalizing new m with
  | nil =>
    simp only [copyTable, Prod.mk.injEq, Option.some.injEq] at h
    obtain ⟨rfl, rfl⟩ := h
    exact ⟨fun _ _ => rfl, by simp, fun x => by simp,
      (Copying.refl hr.sharedOk).congr fun x => by simp⟩
  | cons j l ih =>
    obtain ⟨hj, hnodup⟩ := List.nodup_cons.mp hnodup
    have hv := hl j (List.mem_cons_self ..)
    have hl' : ∀ k ∈ l, i * NPTENTRIES + k < KERNBASE := fun k hk => hl k (List.mem_cons_of_mem j hk)
    have hd' : ∀ k ∈ l, pgtable k = d.entry (i * NPTENTRIES + k) :=
      fun k hk => hd k (List.mem_cons_of_mem j hk)
    have hnew' : ∀ e, ∀ k ∈ l, Function.update new j e k = pgtable k := by
      intro e k hk
      have hkj : k ≠ j := by
        rintro rfl
        exact hj hk
      rw [Function.update_of_ne hkj]
      exact hnew k (List.mem_cons_of_mem j hk)
    have hold : ∀ e, ∀ k, k ≠ j → Function.update new j e k = new k :=
      fun e k hk => Function.update_of_ne hk e new
    have he : pgtable j = d.entry (i * NPTENTRIES + j) := hd j (List.mem_cons_self ..)
    simp only [copyTable, he] at h
    split at h
    · next hm =>
      have hm' : (d.entry (i * NPTENTRIES + j)).present = false ∧
          (d.entry (i * NPTENTRIES + j)).lazy = false := by simpa [Pte.mapped] using hm
      have hcopied : PageCopied c d (i * NPTENTRIES + j) (d.entry (i * NPTENTRIES + j)) m m :=
        .of_not_present hr hm'.1 (by simp [hm'.2]) (fun _ => rfl) rfl
      exact hcopied.cons hr hv hj ((hnew j (List.mem_cons_self ..)).trans he) hl'
        (ih hr hd' (fun k hk => hnew k (List.mem_cons_of_mem j hk)) hl' hnodup h) fun _ _ => rfl
    · next hm =>
      split at h
      · next hlazy =>
        have hp : (d.entry (i * NPTENTRIES + j)).present = false := by
          by_contra hp
          rw [hr.not_both _ hv (by simpa using hp)] at hlazy
          cases hlazy
        have hcopied : PageCopied c d (i * NPTENTRIES + j)
            (d.entry (i * NPTENTRIES + j)).flags m m :=
          .of_not_present hr hp (fun _ => rfl) (by simp [hlazy]) rfl
        exact hcopied.cons hr hv hj (Function.update_self ..) hl'
          (ih hr hd' (hnew' _) hl' hnodup h) (hold _)
      · next hlazy =>
        have hp : (d.entry (i * NPTENTRIES + j)).present = true := by
          simpa [Pte.mapped, hlazy] using hm
        split at h
        · next hc =>
          have hcopied := PageCopied.of_hits hr hv hp hc
          exact hcopied.cons hr hv hj (Function.update_self ..) hl'
            (ih (hr.copying hcopied.copying) hd' (hnew' _) hl' hnodup h) (hold _)
        · next hc =>
          split at h
          · simp at h
          · next y m₁ hk =>
            have hcopied := PageCopied.of_kalloc hr hv hp hc hk
            exact hcopied.cons hr hv hj (Function.update_self ..) hl'
              (ih (hr.copying hcopied.copying) hd' (hnew' _) hl' hnodup h) (hold _)

/-- If `copyTable` runs out of memory before it gets to the shared page, no reference was added. -/
lemma copyTable_none {l : List Nat} {pgtable new : Nat → Pte} (hs : Mem.SharedOk m.shared)
    (hlast : l.Pairwise fun a _ => ¬ c.Hits (i * NPTENTRIES + a))
    (h : copyTable c i pgtable l new m = (none, m')) : Copying (fun _ => 0) m m' := by
  induction l generalizing new m with
  | nil => simp [copyTable] at h
  | cons j l ih =>
    obtain ⟨hj, hlast⟩ := List.pairwise_cons.mp hlast
    simp only [copyTable] at h
    split at h
    · exact ih hs hlast h
    · split at h
      · exact ih hs hlast h
      · split at h
        · next hc =>
          cases l with
          | nil => simp [copyTable] at h
          | cons k l => exact absurd hc (hj k (List.mem_cons_self ..))
        · split at h
          · next m₁ hk =>
            simp only [Prod.mk.injEq, true_and] at h
            obtain ⟨-, rfl⟩ := Mem.kalloc_none hk
            exact h ▸ .refl hs
          · next y m₁ hk =>
            have hcopy := Copying.kalloc hs hk (m₁.bytes (pgtable j).ppn)
            exact hcopy.trans (ih hcopy.sharedOk hlast h)

/-! ### The directory -/

/-- What the entries of page table `i` share with the child. -/
def tableSharing (c : ShmField) (d : PageDir) (i x : Nat) : Nat :=
  ((List.range NPTENTRIES).map fun j => sharing c d (i * NPTENTRIES + j) x).sum

/-- Page tables `l` have been copied. -/
structure DirCopied (c : ShmField) (d : PageDir) (l : List Nat) (nd : PageDir) (m : Mem)
    (nd' : PageDir) (m' : Mem) : Prop where
  rest : ∀ i, i ∉ l → nd'.pde i = nd.pde i
  table : ∀ i ∈ l, (nd'.pde i).isSome = (d.pde i).isSome
  entry : ∀ i ∈ l, ∀ j < NPTENTRIES, EntryCopied c (i * NPTENTRIES + j)
    (d.entry (i * NPTENTRIES + j)) (nd'.entry (i * NPTENTRIES + j)) m m'
  refs : ∀ x, nd'.refs x + m'.free x =
    nd.refs x + m.free x + (l.map fun i => tableSharing c d i x).sum
  copying : Copying (fun x => (l.map fun i => tableSharing c d i x).sum) m m'

lemma block_lt (hi : i < 512) (hj : j < NPTENTRIES) : i * NPTENTRIES + j < KERNBASE := by
  rw [KERNBASE_eq]
  simp only [NPTENTRIES] at hj ⊢
  omega

lemma EntryCopied.zero : EntryCopied c v 0 0 m m' :=
  ⟨rfl, fun _ => rfl, fun _ _ => rfl, fun _ _ => rfl, fun h => by cases h⟩

lemma tableSharing_of_pde (h : d.pde i = none) (x : Nat) : tableSharing c d i x = 0 := by
  unfold tableSharing
  rw [sum_map_range]
  apply Finset.sum_eq_zero
  intro j hj
  apply sharing_of_not_present
  rw [PageDir.entry_block (Finset.mem_range.mp hj), h]
  rfl

lemma refs_addTable {t : PageTable} (hi : i < 512) (h : nd.pde i = none) (x : Nat) :
    (nd.addTable i t).refs x = nd.refs x + one t.page x + PageDir.tableMaps t x := by
  have h1 := PageDir.tableRefs_addTable (t := t) (Nat.lt_of_lt_of_le hi (by decide)) h x
  have h2 := PageDir.userRefs_addTable (t := t) hi h x
  unfold PageDir.refs
  omega

/-- Copying one page table and installing it. -/
lemma TableCopied.install {t : PageTable} {pte : Nat → Pte} {m₁ : Mem} (hi : i < 512)
    (hnd : nd.pde i = none) (ht : d.pde i = some t) (hr : CopyReady c d m)
    (hk : m.kalloc = (some y, m₁))
    (h : TableCopied c d i (List.range NPTENTRIES) t.pte pte m₁ m') :
    DirCopied c d [i] nd m (nd.addTable i ⟨y, pte⟩) m' := by
  have hcopy : Copying (fun _ => 0) m m₁ := by
    have := Copying.kalloc hr.sharedOk hk (m₁.bytes y)
    rwa [Function.update_eq_self] at this
  have hpde : (nd.addTable i ⟨y, pte⟩).pde i = some ⟨y, pte⟩ := by simp [PageDir.addTable]
  refine ⟨fun k hk => ?_, fun k hk => ?_, fun k hk j hj => ?_, fun x => ?_, ?_⟩
  · have hki : k ≠ i := by simpa using hk
    simp [PageDir.addTable, Function.update_of_ne hki]
  · obtain rfl : k = i := by simpa using hk
    rw [hpde, ht]
    rfl
  · obtain rfl : k = i := by simpa using hk
    have hentry := h.entry j (List.mem_range.mpr hj)
    rw [PageDir.entry_block (d := nd.addTable k ⟨y, pte⟩) hj, hpde]
    exact hentry.earlier hcopy.takes hcopy.free_le (hr.notFree _ (block_lt hi hj))
  · have h1 := refs_addTable (t := ⟨y, pte⟩) hi hnd x
    have h2 := h.free x
    have h3 := Mem.free_kalloc hk x
    rw [sum_map_range, ← tableSharing] at h2
    unfold PageDir.tableMaps at h1
    simp only [List.map_cons, List.map_nil, List.sum_cons, List.sum_nil] at h1 ⊢
    omega
  · exact (hcopy.trans h.copying).congr fun x => by simp [tableSharing]

lemma DirCopied.skip (ht : d.pde i = none) (hnd : nd.pde i = none) (hr : CopyReady c d m) :
    DirCopied c d [i] nd m nd m := by
  refine ⟨fun _ _ => rfl, fun k hk => ?_, fun k hk j hj => ?_, fun x => ?_,
    (Copying.refl hr.sharedOk).congr fun x => ?_⟩
  · obtain rfl : k = i := by simpa using hk
    rw [ht, hnd]
  · obtain rfl : k = i := by simpa using hk
    rw [PageDir.entry_block hj, PageDir.entry_block hj, ht, hnd]
    exact .zero
  · simp [tableSharing_of_pde ht]
  · simp [tableSharing_of_pde ht]

lemma DirCopied.cons {l : List Nat} {nd'' : PageDir} (h : DirCopied c d [i] nd m nd' m')
    (h' : DirCopied c d l nd' m' nd'' m'') (hi : i ∉ l) (hr : CopyReady c d m)
    (hl : ∀ k ∈ l, k < 512) : DirCopied c d (i :: l) nd m nd'' m'' := by
  have hkeep : nd''.pde i = nd'.pde i := h'.rest i hi
  refine ⟨fun k hk => ?_, fun k hk => ?_, fun k hk j hj => ?_, fun x => ?_, ?_⟩
  · simp only [List.mem_cons, not_or] at hk
    rw [h'.rest k hk.2, h.rest k (by simpa using hk.1)]
  · rcases List.mem_cons.mp hk with rfl | hk
    · rw [hkeep]
      exact h.table k (by simp)
    · exact h'.table k hk
  · rcases List.mem_cons.mp hk with rfl | hk
    · rw [PageDir.entry_block (d := nd'') hj, hkeep, ← PageDir.entry_block hj]
      exact (h.entry k (by simp) j hj).later h'.copying.takes
    · exact (h'.entry k hk j hj).earlier h.copying.takes h.copying.free_le
        (hr.notFree _ (block_lt (hl k hk) hj))
  · have h1 := h.refs x
    have h2 := h'.refs x
    simp only [List.map_cons, List.map_nil, List.sum_cons, List.sum_nil] at h1 ⊢
    omega
  · exact (h.copying.trans h'.copying).congr fun x => by simp

lemma copyTable_block {t : PageTable} {pte : Nat → Pte} (hi : i < 512) (ht : d.pde i = some t)
    (hr : CopyReady c d m)
    (h : copyTable c i t.pte (List.range NPTENTRIES) t.pte m = (some pte, m')) :
    TableCopied c d i (List.range NPTENTRIES) t.pte pte m m' := by
  refine copyTable_some hr (fun j hj => ?_) (fun _ _ => rfl)
    (fun j hj => block_lt hi (List.mem_range.mp hj)) List.nodup_range h
  rw [PageDir.entry_block (List.mem_range.mp hj), ht]
  rfl

lemma CopyReady.kalloc (hr : CopyReady c d m) (hk : m.kalloc = (some y, m')) : CopyReady c d m' := by
  have := Copying.kalloc hr.sharedOk hk (m'.bytes y)
  rw [Function.update_eq_self] at this
  exact hr.copying this

lemma copyPgtable_true (hr : CopyReady c d m) (hi : i < 512) (hnd : nd.pde i = none)
    (h : copyPgtable c d i nd m = (true, nd', m')) : DirCopied c d [i] nd m nd' m' := by
  unfold copyPgtable at h
  split at h
  · next ht =>
    simp only [Prod.mk.injEq, true_and] at h
    obtain ⟨rfl, rfl⟩ := h
    exact .skip ht hnd hr
  · next t ht =>
    split at h
    · simp at h
    · next y m₁ hk =>
      rcases hcopy : copyTable c i t.pte (List.range NPTENTRIES) t.pte m₁ with ⟨_ | pte, m₂⟩
      · simp [hcopy] at h
      · simp only [hcopy, Prod.mk.injEq, true_and] at h
        obtain ⟨rfl, rfl⟩ := h
        exact (copyTable_block hi ht (hr.kalloc hk) hcopy).install hi hnd ht hr hk

/-- If memory runs out at a page table, then before its shared page, provided that page is the last. -/
lemma copyPgtable_false (hs : Mem.SharedOk m.shared)
    (hlast : (List.range NPTENTRIES).Pairwise fun a _ => ¬ c.Hits (i * NPTENTRIES + a))
    (h : copyPgtable c d i nd m = (false, nd', m')) : Copying (fun _ => 0) m m' ∧ nd' = nd := by
  unfold copyPgtable at h
  split at h
  · simp at h
  · next t ht =>
    split at h
    · next m₁ hk =>
      simp only [Prod.mk.injEq, true_and] at h
      obtain ⟨rfl, rfl⟩ := h
      obtain ⟨-, rfl⟩ := Mem.kalloc_none hk
      exact ⟨.refl hs, rfl⟩
    · next y m₁ hk =>
      rcases hcopy : copyTable c i t.pte (List.range NPTENTRIES) t.pte m₁ with ⟨_ | pte, m₂⟩
      · simp only [hcopy, Prod.mk.injEq, true_and] at h
        obtain ⟨rfl, rfl⟩ := h
        have hcopy₁ := Copying.kalloc hs hk (m₁.bytes y)
        rw [Function.update_eq_self] at hcopy₁
        exact ⟨hcopy₁.trans (copyTable_none hcopy₁.sharedOk hlast hcopy), rfl⟩
      · simp [hcopy] at h

lemma DirCopied.pde_eq_none {l : List Nat} (h : DirCopied c d [i] nd m nd' m') (hi : i ∉ l)
    (hnd : ∀ k ∈ l, nd.pde k = none) : ∀ k ∈ l, nd'.pde k = none := by
  intro k hk
  have hki : k ∉ [i] := by
    rw [List.mem_singleton]
    rintro rfl
    exact hi hk
  rw [h.rest k hki]
  exact hnd k hk

lemma copyTables_true {l : List Nat} (hr : CopyReady c d m) (hl : ∀ i ∈ l, i < 512)
    (hnd : ∀ i ∈ l, nd.pde i = none) (hnodup : l.Nodup)
    (h : copyTables c d l nd m = (true, nd', m')) : DirCopied c d l nd m nd' m' := by
  induction l generalizing nd m with
  | nil =>
    simp only [copyTables, Prod.mk.injEq, true_and] at h
    obtain ⟨rfl, rfl⟩ := h
    exact ⟨fun _ _ => rfl, by simp, by simp, fun x => by simp,
      (Copying.refl hr.sharedOk).congr fun x => by simp⟩
  | cons i l ih =>
    obtain ⟨hi, hnodup⟩ := List.nodup_cons.mp hnodup
    have hl' : ∀ k ∈ l, k < 512 := fun k hk => hl k (List.mem_cons_of_mem i hk)
    unfold copyTables at h
    split at h
    · simp at h
    · next nd₁ m₁ hcopy =>
      have hone := copyPgtable_true hr (hl i (List.mem_cons_self ..)) (hnd i (List.mem_cons_self ..))
        hcopy
      have hnd₁ := hone.pde_eq_none hi fun k hk => hnd k (List.mem_cons_of_mem i hk)
      exact hone.cons (ih (hr.copying hone.copying) hl' hnd₁ hnodup h) hi hr hl'

/-- If `copyTables` runs out of memory, and the shared page is the last one, then no reference was
added and the child has no page table for that page. -/
lemma copyTables_false {l : List Nat} (hr : CopyReady c d m) (hl : ∀ i ∈ l, i < 512)
    (hnd : ∀ i ∈ l, nd.pde i = none) (hnodup : l.Nodup)
    (hlast : l.Pairwise fun a _ => ∀ j < NPTENTRIES, ¬ c.Hits (a * NPTENTRIES + j))
    (hlast' : ∀ i ∈ l, (List.range NPTENTRIES).Pairwise fun a _ => ¬ c.Hits (i * NPTENTRIES + a))
    (h : copyTables c d l nd m = (false, nd', m')) :
    Copying (fun _ => 0) m m' ∧ (∀ x, nd'.refs x + m'.free x ≤ nd.refs x + m.free x) ∧
      ∀ i, (∃ j < NPTENTRIES, c.Hits (i * NPTENTRIES + j)) → nd'.pde i = nd.pde i := by
  induction l generalizing nd m with
  | nil => simp [copyTables] at h
  | cons i l ih =>
    obtain ⟨hi, hnodup⟩ := List.nodup_cons.mp hnodup
    obtain ⟨hfirst, hlast⟩ := List.pairwise_cons.mp hlast
    have hl' : ∀ k ∈ l, k < 512 := fun k hk => hl k (List.mem_cons_of_mem i hk)
    unfold copyTables at h
    split at h
    · next nd₁ m₁ hcopy =>
      simp only [Prod.mk.injEq, true_and] at h
      obtain ⟨rfl, rfl⟩ := h
      obtain ⟨h1, rfl⟩ := copyPgtable_false hr.sharedOk (hlast' i (List.mem_cons_self ..)) hcopy
      exact ⟨h1, fun x => Nat.add_le_add_left (h1.free_le x) _, fun _ _ => rfl⟩
    · next nd₁ m₁ hcopy =>
      -- another table follows, so this one does not hold the shared page
      obtain ⟨k, hkl⟩ : ∃ k, k ∈ l := by
        cases l with
        | nil => simp [copyTables] at h
        | cons k l => exact ⟨k, List.mem_cons_self ..⟩
      have hno : ∀ x, tableSharing c d i x = 0 := by
        intro x
        unfold tableSharing
        rw [sum_map_range]
        apply Finset.sum_eq_zero
        intro j hj
        exact if_neg (hfirst k hkl j (Finset.mem_range.mp hj))
      have hone := copyPgtable_true hr (hl i (List.mem_cons_self ..)) (hnd i (List.mem_cons_self ..))
        hcopy
      have hnd₁ := hone.pde_eq_none hi fun k hk => hnd k (List.mem_cons_of_mem i hk)
      obtain ⟨h1, h2, h3⟩ := ih (hr.copying hone.copying) hl' hnd₁ hnodup hlast
        (fun k hk => hlast' k (List.mem_cons_of_mem i hk)) h
      refine ⟨(hone.copying.trans h1).congr fun x => by simp [hno], fun x => ?_, fun k' hk' => ?_⟩
      · have := h2 x
        have := hone.refs x
        simp only [List.map_cons, List.map_nil, List.sum_cons, List.sum_nil, hno] at this
        omega
      · rw [h3 k' hk']
        apply hone.rest
        rw [List.mem_singleton]
        rintro rfl
        obtain ⟨j, hj, hhit⟩ := hk'
        exact hfirst k hkl j hj hhit

/-! ### The whole address space -/

lemma KERNBASE_div : KERNBASE / NPTENTRIES = 512 := by
  rw [KERNBASE_eq]
  rfl

/-- All the page tables together share the page at the current process's `shm_va`. -/
lemma sum_tableSharing (x : Nat) :
    ((List.range 512).map fun i => tableSharing c d i x).sum = kept c d x := by
  have hsum : ((List.range 512).map fun i => tableSharing c d i x).sum =
      ∑ v ∈ Finset.range KERNBASE, sharing c d v x := by
    rw [KERNBASE_eq, sum_range_blocks, sum_map_range]
    apply Finset.sum_congr rfl
    intro i _
    rw [tableSharing, sum_map_range]
  rw [hsum]
  unfold kept
  by_cases hc : c.idx ≠ none ∧ c.va < KERNBASE
  · rw [if_pos hc, Finset.sum_eq_single c.va]
    · exact if_pos ⟨hc.1, rfl⟩
    · intro w _ hw
      exact if_neg fun hhit => hw hhit.2
    · intro hn
      exact absurd (Finset.mem_range.mpr hc.2) hn
  · rw [if_neg hc]
    apply Finset.sum_eq_zero
    intro w hw
    apply if_neg
    rintro ⟨h1, rfl⟩
    exact hc ⟨h1, Finset.mem_range.mp hw⟩

/-- The child's directory `nd` is a copy of the parent's. -/
structure Copied (c : ShmField) (d : PageDir) (m : Mem) (nd : PageDir) (m' : Mem) : Prop where
  entry : ∀ v < KERNBASE, EntryCopied c v (d.entry v) (nd.entry v) m m'
  table : ∀ i < 512, (nd.pde i).isSome = (d.pde i).isSome
  refs : ∀ x, nd.refs x + m'.free x = m.free x + kept c d x
  copying : Copying (kept c d) m m'

/-! ### Flags -/

/-- Whatever it meets, `copyTable` keeps the flags of every entry. -/
lemma copyTable_flags {l : List Nat} {pgtable new new' : Nat → Pte}
    (hnew : ∀ j ∈ l, (new j).flags = (pgtable j).flags)
    (h : copyTable c i pgtable l new m = (some new', m')) (j : Nat) :
    (new' j).flags = (new j).flags := by
  induction l generalizing new m with
  | nil =>
    simp only [copyTable, Prod.mk.injEq, Option.some.injEq] at h
    rw [h.1]
  | cons a l ih =>
    have hl : ∀ j ∈ l, (new j).flags = (pgtable j).flags := fun j hj =>
      hnew j (List.mem_cons_of_mem a hj)
    have hset : ∀ {e : Pte} {m₁ : Mem}, e.flags = (pgtable a).flags →
        copyTable c i pgtable l (Function.update new a e) m₁ = (some new', m') →
        (new' j).flags = (new j).flags := by
      intro e m₁ he hcopy
      have hupdate : ∀ b, (Function.update new a e b).flags = (new b).flags := by
        intro b
        by_cases hb : b = a
        · subst hb
          rw [Function.update_self, he, hnew b (List.mem_cons_self ..)]
        · rw [Function.update_of_ne hb]
      rw [ih (fun b hb => (hupdate b).trans (hl b hb)) hcopy, hupdate j]
    simp only [copyTable] at h
    split at h
    · exact ih hl h
    · split at h
      · exact hset (e := (pgtable a).flags) rfl h
      · split at h
        · exact hset rfl h
        · split at h
          · simp at h
          · next y m₁ _ => exact hset (e := { pgtable a with ppn := y }) rfl h

lemma copyPgtable_flags (hnd : nd.pde i = none) (h : copyPgtable c d i nd m = (true, nd', m')) :
    (∀ k, k ≠ i → nd'.pde k = nd.pde k) ∧ ∀ j < NPTENTRIES,
      (nd'.entry (i * NPTENTRIES + j)).flags = (d.entry (i * NPTENTRIES + j)).flags := by
  unfold copyPgtable at h
  split at h
  · next ht =>
    simp only [Prod.mk.injEq, true_and] at h
    obtain ⟨rfl, -⟩ := h
    refine ⟨fun _ _ => rfl, fun j hj => ?_⟩
    rw [PageDir.entry_block hj, PageDir.entry_block hj, ht, hnd]
  · next t ht =>
    split at h
    · simp at h
    · next y m₁ _ =>
      rcases hcopy : copyTable c i t.pte (List.range NPTENTRIES) t.pte m₁ with ⟨_ | pte, m₂⟩
      · simp [hcopy] at h
      · simp only [hcopy, Prod.mk.injEq, true_and] at h
        obtain ⟨rfl, -⟩ := h
        refine ⟨fun k hk => by simp [PageDir.addTable, Function.update_of_ne hk], fun j hj => ?_⟩
        rw [PageDir.entry_block hj, PageDir.entry_block hj, ht]
        simp only [PageDir.addTable, Function.update_self, Option.elim_some]
        exact copyTable_flags (fun _ _ => rfl) hcopy j

lemma copyTables_flags {l : List Nat} (hnd : ∀ i ∈ l, nd.pde i = none) (hnodup : l.Nodup)
    (h : copyTables c d l nd m = (true, nd', m')) :
    (∀ k, k ∉ l → nd'.pde k = nd.pde k) ∧ ∀ i ∈ l, ∀ j < NPTENTRIES,
      (nd'.entry (i * NPTENTRIES + j)).flags = (d.entry (i * NPTENTRIES + j)).flags := by
  induction l generalizing nd m with
  | nil =>
    simp only [copyTables, Prod.mk.injEq, true_and] at h
    exact ⟨fun _ _ => by rw [h.1], by simp⟩
  | cons i l ih =>
    obtain ⟨hi, hnodup⟩ := List.nodup_cons.mp hnodup
    unfold copyTables at h
    rcases hone : copyPgtable c d i nd m with ⟨_ | _, nd₁, m₁⟩
    · simp [hone] at h
    · simp only [hone] at h
      obtain ⟨hrest, hflags⟩ := copyPgtable_flags (hnd i (List.mem_cons_self ..)) hone
      have hnd₁ : ∀ k ∈ l, nd₁.pde k = none := by
        intro k hk
        rw [hrest k fun hki => hi (hki ▸ hk)]
        exact hnd k (List.mem_cons_of_mem i hk)
      obtain ⟨hrest', hflags'⟩ := ih hnd₁ hnodup h
      refine ⟨fun k hk => ?_, fun k hk j hj => ?_⟩
      · simp only [List.mem_cons, not_or] at hk
        rw [hrest' k hk.2, hrest k hk.1]
      · rcases List.mem_cons.mp hk with rfl | hk
        · rw [PageDir.entry_block (d := nd') hj, hrest' k hi, ← PageDir.entry_block hj]
          exact hflags j hj
        · exact hflags' k hk j hj

/-- The child has the flags of the parent everywhere. -/
lemma copyuvm_flags : Ensures (copyuvm c d m) fun r =>
    ∀ nd, r.1 = some nd → ∀ v < KERNBASE, (nd.entry v).flags = (d.entry v).flags := by
  refine setupkvm_bare.bind ?_
  rintro ⟨_ | nd, m₁⟩ hbare
  · exact .pure (by simp)
  · have hbare := hbare nd rfl
    rcases hcopy : copyTables c d (List.range (KERNBASE / NPTENTRIES)) nd m₁ with ⟨_ | _, nd', m₂⟩
    · simp only [hcopy]
      exact Ensures.bind (R := fun _ => True) (fun _ _ => trivial) fun _ _ => .pure (by simp)
    · simp only [hcopy]
      refine .pure fun nd'' hnd v hv => ?_
      cases hnd
      have hmem : v / NPTENTRIES ∈ List.range (KERNBASE / NPTENTRIES) := by
        rw [List.mem_range, KERNBASE_div]
        rw [KERNBASE_eq] at hv
        simp only [NPTENTRIES] at hv ⊢
        omega
      have hmod : v % NPTENTRIES < NPTENTRIES := Nat.mod_lt _ (by decide)
      have hv' : v / NPTENTRIES * NPTENTRIES + v % NPTENTRIES = v := by
        simp only [NPTENTRIES]
        omega
      have hflags := (copyTables_flags (fun i hi => hbare i (List.mem_range.mp hi))
        List.nodup_range hcopy).2 _ hmem _ hmod
      rwa [hv'] at hflags

/-- Pages may have been lost from the free list, and the shared pages are the same. -/
structure Mem.Lost (m m' : Mem) : Prop where
  free_le : ∀ x, m'.free x ≤ m.free x
  shmRef : ∀ x, Mem.shmRef m'.shared x = Mem.shmRef m.shared x
  pa : ∀ k, (m'.shared k).pa = (m.shared k).pa
  sharedOk : Mem.SharedOk m'.shared
  layout : m'.layout = m.layout

lemma Mem.Lost.of_shared (hs : Mem.SharedOk m.shared) (hfree : ∀ x, m'.free x ≤ m.free x)
    (hshared : m'.shared = m.shared) (hlayout : m'.layout = m.layout) : m.Lost m' :=
  ⟨hfree, fun x => by rw [hshared], fun k => by rw [hshared], hshared ▸ hs, hlayout⟩

lemma Copying.lost (h : Copying (fun _ => 0) m m') : m.Lost m' :=
  ⟨h.free_le, fun x => (h.shmRef x).trans (Nat.add_zero _), h.pa, h.sharedOk, h.layout⟩

/-- Freeing a directory, built from the free list of `m'`, that has no shared page. -/
lemma freevm_lost (hs : Mem.SharedOk m.shared) (hdrop : ∀ x, dropped c d m 0 KERNBASE x = 0)
    (href : ∀ x, d.refs x + m.free x ≤ m'.free x) (hlost : m'.Lost m) :
    Ensures (freevm c d m) fun m'' => m'.Lost m'' := by
  refine (freevm_ensures hs).mono fun m'' h => ?_
  have hshared := h.shared hdrop
  refine ⟨fun x => ?_, fun x => ?_, fun k => ?_, h.sharedOk, h.layout.trans hlost.layout⟩
  · have := h.free x
    have := href x
    rw [hdrop, ite_self] at *
    omega
  · rw [hshared, hlost.shmRef]
  · rw [hshared, hlost.pa]

/-- With the last page below `KERNBASE` as the shared one, the loops meet it last. -/
lemma not_hits_of_lt (hc : c.idx = none ∨ c.va = KERNBASE - 1) (hv : v + 1 < KERNBASE) :
    ¬ c.Hits v := by
  rintro ⟨h1, h2⟩
  rcases hc with hc | hc
  · exact h1 hc
  · omega

lemma pairwise_tables (hc : c.idx = none ∨ c.va = KERNBASE - 1) :
    (List.range 512).Pairwise fun a _ => ∀ j < NPTENTRIES, ¬ c.Hits (a * NPTENTRIES + j) := by
  refine List.pairwise_lt_range.imp_of_mem ?_
  intro a b _ hb hab j hj
  apply not_hits_of_lt hc
  have hb' : b < 512 := List.mem_range.mp hb
  rw [KERNBASE_eq]
  simp only [NPTENTRIES] at hj ⊢
  clear hb hc
  omega

lemma pairwise_entries (hc : c.idx = none ∨ c.va = KERNBASE - 1) (hi : i < 512) {n : Nat}
    (hn : n ≤ NPTENTRIES) : (List.range n).Pairwise fun a _ => ¬ c.Hits (i * NPTENTRIES + a) := by
  refine List.pairwise_lt_range.imp_of_mem ?_
  intro a b _ hb hab
  apply not_hits_of_lt hc
  have := block_lt hi (Nat.lt_of_lt_of_le (List.mem_range.mp hb) hn)
  omega

/-- `copyuvm` makes a copy, or gives up; if it gives up, and the current process has no shared page or
has it as its last page, the shared pages are as they were. -/
lemma copyuvm_ensures (hr : CopyReady c d m) :
    Ensures (copyuvm c d m) fun r =>
      (∀ nd, r.1 = some nd → Copied c d m nd r.2) ∧
      (r.1 = none → c.idx = none ∨ c.va = KERNBASE - 1 → m.Lost r.2) := by
  refine (setupkvm_ensures hr.sharedOk).bind ?_
  rintro ⟨_ | nd, m₁⟩ ⟨hshared, hlay, hnone, hsome⟩
  · refine .pure ⟨by simp, fun _ _ => ?_⟩
    exact .of_shared hr.sharedOk (fun x => (hnone rfl x).le) hshared hlay
  · obtain ⟨hbare, hrefs, htakes⟩ := hsome nd rfl
    dsimp only at *
    have hcopy₁ : Copying (fun _ => 0) m m₁ :=
      ⟨htakes, fun x => by have := hrefs x; omega, fun x => by rw [hshared, Nat.add_zero],
        fun k => by rw [hshared], hshared ▸ hr.sharedOk, hlay⟩
    have hl : ∀ i ∈ List.range 512, i < 512 := fun i hi => List.mem_range.mp hi
    have hpde : ∀ i ∈ List.range 512, nd.pde i = none := by
      intro i hi
      apply hbare
      rw [KERNBASE_div]
      exact hl i hi
    rw [KERNBASE_div]
    rcases hcopy : copyTables c d (List.range 512) nd m₁ with ⟨_ | _, nd', m₂⟩
    · by_cases hc : c.idx = none ∨ c.va = KERNBASE - 1
      · obtain ⟨h1, h2, h3⟩ := copyTables_false (hr.copying hcopy₁) hl hpde List.nodup_range
          (pairwise_tables hc) (fun i hi => pairwise_entries hc (hl i hi) le_rfl) hcopy
        have hlost := (hcopy₁.trans h1).lost
        have hno : c.idx ≠ none → ¬ nd'.HasTable c.va := by
          intro hidx
          have hva : c.va = KERNBASE - 1 := hc.resolve_left hidx
          have hblock : c.va / NPTENTRIES = 511 ∧ 511 * NPTENTRIES + (NPTENTRIES - 1) = c.va := by
            rw [hva, KERNBASE_eq]
            decide
          have hrest := h3 511 ⟨NPTENTRIES - 1, by decide, hidx, hblock.2⟩
          unfold PageDir.HasTable
          rw [hblock.1, hrest, hpde 511 (by simp)]
          simp
        have hdrop : ∀ x, dropped c nd' m₂ 0 KERNBASE x = 0 := by
          intro x
          rw [dropped, if_neg]
          rintro ⟨hidx, -, -, htable, -⟩
          exact hno hidx htable
        refine (freevm_lost hlost.sharedOk hdrop (fun x => ?_) hlost).bind fun m₃ hm₃ =>
          .pure ⟨by simp, fun _ _ => hm₃⟩
        have := h2 x
        have := hrefs x
        omega
      · refine Ensures.bind (R := fun _ => True) (fun _ _ => trivial) fun m₃ _ =>
          .pure ⟨by simp, fun _ h => absurd h hc⟩
    · have h := copyTables_true (hr.copying hcopy₁) hl hpde List.nodup_range hcopy
      refine .pure ⟨fun nd'' hnd'' => ?_, by simp⟩
      obtain rfl : nd' = nd'' := by simpa using hnd''
      refine ⟨fun v hv => ?_, fun i hi => h.table i (List.mem_range.mpr hi), fun x => ?_,
        (hcopy₁.trans h.copying).congr fun x => by rw [Nat.zero_add, sum_tableSharing]⟩
      · have hv' : v / NPTENTRIES < 512 ∧ v % NPTENTRIES < NPTENTRIES := by
          rw [KERNBASE_eq] at hv
          simp only [NPTENTRIES] at hv ⊢
          omega
        have := h.entry (v / NPTENTRIES) (List.mem_range.mpr hv'.1) (v % NPTENTRIES) hv'.2
        rw [Nat.div_add_mod' v NPTENTRIES] at this
        exact this.earlier hcopy₁.takes hcopy₁.free_le (hr.notFree v hv)
      · have h1 := h.refs x
        have h2 := hrefs x
        rw [sum_tableSharing] at h1
        show nd'.refs x + m₂.free x = _
        omega

end Xv6
