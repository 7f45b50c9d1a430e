import Xv6.Mem.Enough

/-!
# Fork copies the address space

The child's directory made by `copyuvm` against the parent's: the same flags everywhere, pages of its
own with the same contents, the shared page shared once more, lazy pages still lazy. The counts
reported by `numvp` and `numpp` are those of the parent.
-/

namespace Xv6

open Fallible Count

variable {c : ShmField} {d nd : PageDir} {m m' : Mem}

/-! ### Counting entries -/

/-- Two directories with page tables in the same places, whose entries agree on the test. -/
lemma countEntries_congr {p : Pte → Bool} (ht : ∀ i < 512, (nd.pde i).isSome = (d.pde i).isSome)
    (hp : ∀ v < KERNBASE, p (nd.entry v) = p (d.entry v)) :
    countEntries p nd = countEntries p d := by
  unfold countEntries
  refine congrArg List.sum (List.map_congr_left fun i hi => ?_)
  have hi512 : i < 512 := List.mem_range.mp hi
  have hentry : ∀ j < NPTENTRIES, p ((nd.pde i).elim 0 fun t => t.pte j) =
      p ((d.pde i).elim 0 fun t => t.pte j) := by
    intro j hj
    rw [← PageDir.entry_block hj, ← PageDir.entry_block hj]
    exact hp _ (block_lt hi512 hj)
  have hsome := ht i hi512
  cases hn : nd.pde i with
  | none =>
    cases hd : d.pde i with
    | none => rfl
    | some t => simp [hn, hd] at hsome
  | some t' =>
    cases hd : d.pde i with
    | none => simp [hn, hd] at hsome
    | some t =>
      simp only [hn, hd, Option.elim_some] at hentry ⊢
      rw [List.filter_congr fun j hj => hentry j (List.mem_range.mp hj)]

/-! ### The child -/

/-- The address space of the child, with directory `nd` and memory `m'`, is a copy of the parent's,
with directory `d` and memory `m`. -/
structure ChildCopy (c : ShmField) (d : PageDir) (m : Mem) (nd : PageDir) (m' : Mem) : Prop where
  /-- The flag bits are those of the parent. -/
  flags : ∀ v < KERNBASE, (nd.entry v).flags = (d.entry v).flags
  /-- A page is fresh: it was free, and serves nowhere else in the parent or the child. -/
  fresh : ∀ v < KERNBASE, (d.entry v).present = true → (c.va ≠ 0 → v ≠ c.va) →
    (nd.entry v).ppn ∈ m.freelist ∧
    (∀ w < KERNBASE, (d.entry w).present = true → (d.entry w).ppn ≠ (nd.entry v).ppn) ∧
    (∀ w < KERNBASE, (nd.entry w).present = true → w ≠ v → (nd.entry w).ppn ≠ (nd.entry v).ppn) ∧
    nd.tableRefs (nd.entry v).ppn = 0
  /-- It has the contents of the parent's page. -/
  bytes : ∀ v < KERNBASE, (d.entry v).present = true → (c.va ≠ 0 → v ≠ c.va) →
    ∀ o < PGSIZE, m'.bytes (nd.entry v).ppn o = m.bytes (d.entry v).ppn o
  /-- The shared page is the parent's. -/
  shared : c.va ≠ 0 → (nd.entry c.va).ppn = (d.entry c.va).ppn
  /-- It has one more reference, and the other shared pages have the references they had. -/
  refCnt : ∀ i, (m'.shared i).pa = (m.shared i).pa ∧ (m'.shared i).refCnt = (m.shared i).refCnt +
    if c.va ≠ 0 ∧ (m.shared i).pa = (d.entry c.va).ppn then 1 else 0
  /-- Lazy pages are lazy, without a page. -/
  lazy : ∀ v < KERNBASE, (d.entry v).lazy = true →
    (nd.entry v).lazy = true ∧ (nd.entry v).present = false ∧ (nd.entry v).ppn = 0
  /-- Every page that was not free, those of the parent among them, has the contents it had. -/
  parent : ∀ x, x ∉ m.freelist → m'.bytes x = m.bytes x
  numvp : numvp nd = numvp d
  numpp : numpp nd = numpp d

/-- The reference counts after a copy that shares the page at `shm_va`. -/
lemma Copying.refCnt (hs : Mem.SharedOk m.shared) {s : Nat → Nat} (h : Copying s m m')
    (i : Fin N_SHARED_PAGES) (hs0 : s 0 = 0) :
    (m'.shared i).refCnt = (m.shared i).refCnt + s (m.shared i).pa := by
  by_cases hpa : (m.shared i).pa = 0
  · rw [hpa, hs0, (hs.zero i).mpr hpa, (h.sharedOk.zero i).mpr ((h.pa i).trans hpa)]
  · have h1 := h.shmRef (m.shared i).pa
    rw [Mem.shmRef_eq hs rfl hpa, Mem.shmRef_eq h.sharedOk (h.pa i) hpa] at h1
    exact h1

/-- If `copyuvm` succeeds, the child's address space is a copy of the parent's. The parent has pages
that are present or lazy, no page of the parent is on the free list, and no page is on it twice; its
`shm_va` is 0 or the address of a page in the table of shared pages. -/
theorem copyuvm_copies
    (hpte : ∀ v < KERNBASE, (d.entry v).present = true → (d.entry v).lazy = false)
    (hown : ∀ v < KERNBASE, (d.entry v).present = true → (d.entry v).ppn ∉ m.freelist)
    (hfree : m.freelist.Nodup) (hshared : Mem.SharedOk m.shared)
    (hidx : c.idx ≠ none ↔ c.va ≠ 0)
    (hshm : c.va ≠ 0 → c.va < KERNBASE ∧ (d.entry c.va).present = true ∧
      ∃ i, (m.shared i).pa = (d.entry c.va).ppn ∧ (m.shared i).refCnt ≠ 0)
    (h : copyuvm c d m = .ok (some nd, m')) : ChildCopy c d m nd m' := by
  have hready : CopyReady c d m := by
    refine ⟨hpte, fun v hv hp => Mem.free_eq_zero.mpr (hown v hv hp),
      fun x => List.nodup_iff_count_le_one.mp hfree x, hshared, fun hi _ _ => ?_⟩
    obtain ⟨-, -, i, hpa, href⟩ := hshm (hidx.mp hi)
    rw [Mem.shmRef_eq hshared hpa fun h0 => href ((hshared.zero i).mpr (hpa.trans h0))]
    exact href
  have hcopied : Copied c d m nd m' := (copyuvm_ensures hready _ h).1 nd rfl
  -- outside `shm_va` the child has a page of its own
  have hfresh : ∀ v < KERNBASE, (d.entry v).present = true → (c.va ≠ 0 → v ≠ c.va) →
      m.free (nd.entry v).ppn ≠ 0 ∧ m'.bytes (nd.entry v).ppn = m.bytes (d.entry v).ppn := by
    intro v hv hp hva
    have := (hcopied.entry v hv).fresh hp fun hhit => hva (hidx.mp hhit.1) hhit.2
    exact ⟨this.1, this.2.2⟩
  have hkept : ∀ x, kept c d x = if c.va ≠ 0 ∧ x = (d.entry c.va).ppn then 1 else 0 := by
    intro x
    unfold kept
    by_cases hva : c.va ≠ 0
    · obtain ⟨hlt, hp, -⟩ := hshm hva
      rw [if_pos ⟨hidx.mpr hva, hlt⟩, Pte.maps_of_present hp, one]
      simp only [hva, ne_eq, not_false_eq_true, true_and, eq_comm]
    · rw [if_neg fun hc => hva (hidx.mp hc.1), if_neg fun hc => hva hc.1]
  refine ⟨fun v hv => (hcopied.entry v hv).flags, fun v hv hp hva => ?_, fun v hv hp hva o _ => ?_,
    fun hva => ?_, fun i => ⟨hcopied.copying.pa i, ?_⟩, fun v hv hl => ?_, fun x hx => ?_, ?_, ?_⟩
  · obtain ⟨hmem, -⟩ := hfresh v hv hp hva
    have hparent : ∀ w < KERNBASE, (d.entry w).present = true →
        (d.entry w).ppn ≠ (nd.entry v).ppn := by
      intro w hw hpw heq
      exact hown w hw hpw (heq ▸ Mem.free_ne_zero.mp hmem)
    -- the page was on the free list once, and is not the shared one
    have hrefs : nd.refs (nd.entry v).ppn ≤ 1 := by
      have h1 := hcopied.refs (nd.entry v).ppn
      have h2 := hready.free_le (nd.entry v).ppn
      rw [hkept, if_neg] at h1
      · omega
      · rintro ⟨hne, heq⟩
        obtain ⟨hlt, hpva, -⟩ := hshm hne
        exact hparent c.va hlt hpva heq.symm
    have hpn : (nd.entry v).present = true :=
      (Pte.present_of_flags (hcopied.entry v hv).flags).trans hp
    have hpos := PageDir.userRefs_pos hv hpn
    unfold PageDir.refs at hrefs
    refine ⟨Mem.free_ne_zero.mp hmem, hparent, fun w hw hpw hne heq => ?_, by omega⟩
    have := PageDir.userRefs_two_le hv hw hne hpn hpw heq
    omega
  · rw [(hfresh v hv hp hva).2]
  · obtain ⟨hlt, hp, -⟩ := hshm hva
    rw [(hcopied.entry c.va hlt).shared hp ⟨hidx.mpr hva, rfl⟩]
  · have hzero : kept c d 0 = 0 := by
      rw [hkept, if_neg]
      rintro ⟨hne, heq⟩
      obtain ⟨-, -, i, hpa, href⟩ := hshm hne
      exact href ((hshared.zero i).mpr (hpa.trans heq.symm))
    rw [hcopied.copying.refCnt hshared i hzero, hkept]
  · have hcopy := hcopied.entry v hv
    have hp : (d.entry v).present = false := by
      by_contra hp
      rw [hpte v hv (by simpa using hp)] at hl
      cases hl
    refine ⟨?_, (Pte.present_of_flags hcopy.flags).trans hp, hcopy.lazy hl⟩
    show (nd.entry v).flags.lazy = true
    rw [hcopy.flags]
    exact hl
  · exact (hcopied.copying.takes x (Mem.free_eq_zero.mpr hx)).2
  · unfold numvp
    rw [countEntries_congr hcopied.table]
    intro v hv
    show (nd.entry v).flags.mapped = (d.entry v).flags.mapped
    rw [(hcopied.entry v hv).flags]
  · unfold numpp
    rw [countEntries_congr hcopied.table]
    intro v hv
    exact Pte.present_of_flags (hcopied.entry v hv).flags

/-! ### An address space with every kind of page -/

/-- The last page table below `KERNBASE`: an ordinary page, a guard page, a lazy page, and the shared
page at the end. -/
def mixedTable : PageTable where
  page := 300
  pte := fun j =>
    if j = 0 then ⟨301, true, true, true, false, 0⟩
    else if j = 1 then ⟨302, true, true, false, false, 0⟩
    else if j = 2 then lazyPte
    else if j = 1023 then ⟨303, true, true, true, false, 0⟩
    else 0

def mixedDir : PageDir := ⟨304, fun i => if i = 511 then some mixedTable else none⟩

/-- Memory of a machine in which page 303 is shared, with 3000 free pages. -/
def mixedMem : Mem where
  layout := ⟨264, 280, small_data_gt, small_data_lt, small_data_le⟩
  freelist := List.range' 1024 3000
  shared := fun i => if i.val = 0 then ⟨303, 1⟩ else ⟨0, 0⟩
  bytes := fun x _ => UInt8.ofNat x

lemma mixedDir_entry (v : Nat) :
    mixedDir.entry v = if v / 1024 = 511 then mixedTable.pte (v % 1024) else 0 := by
  unfold PageDir.entry PageDir.walk mixedDir NPTENTRIES
  by_cases h : v / 1024 = 511
  · simp [h]
  · simp [h]

lemma mixedDir_present {v : Nat} (h : (mixedDir.entry v).present = true) :
    (mixedDir.entry v).lazy = false ∧ (mixedDir.entry v).ppn < 1024 := by
  rw [mixedDir_entry] at h ⊢
  by_cases hv : v / 1024 = 511
  · rw [if_pos hv] at h ⊢
    unfold mixedTable at h ⊢
    dsimp only at h ⊢
    split_ifs at h ⊢
    · exact ⟨rfl, by decide⟩
    · exact ⟨rfl, by decide⟩
    · cases h
    · exact ⟨rfl, by decide⟩
  · rw [if_neg hv] at h
    cases h

lemma mixedMem_sharedOk : Mem.SharedOk mixedMem.shared := by
  refine ⟨fun i => ?_, fun i j hij hi => ?_⟩
  · unfold mixedMem
    dsimp only
    split_ifs <;> simp
  · unfold mixedMem at hij hi
    dsimp only at hij hi
    split_ifs at hij hi <;> simp_all

lemma mixedDir_needs : copyNeedsBelow ⟨some 0, 524287⟩ mixedDir 512 ≤ 1025 := by decide +kernel

/-- `copyuvm` succeeds on the mixed address space and copies it. -/
theorem copyuvm_copies_mixed :
    ∃ nd m', copyuvm ⟨some 0, 524287⟩ mixedDir mixedMem = .ok (some nd, m') ∧
      ChildCopy ⟨some 0, 524287⟩ mixedDir mixedMem nd m' := by
  have hpages : mixedMem.pages = 3000 := List.length_range'
  obtain ⟨nd, m', h, -⟩ :=
    copyuvm_succeeds (c := ⟨some 0, 524287⟩) (d := mixedDir) (m := mixedMem) (by
      have := mixedDir_needs
      omega)
  refine ⟨nd, m', h, copyuvm_copies (fun v _ hp => (mixedDir_present hp).1) (fun v _ hp hmem => ?_)
    List.nodup_range' mixedMem_sharedOk (by simp) (fun _ => ⟨?_, ?_, 0, ?_, ?_⟩) h⟩
  · have h1 := (mixedDir_present hp).2
    have h2 := List.mem_range'_1.mp hmem
    omega
  · rw [KERNBASE_eq]
    decide
  · rw [mixedDir_entry]
    rfl
  · rw [mixedDir_entry]
    rfl
  · decide

end Xv6
