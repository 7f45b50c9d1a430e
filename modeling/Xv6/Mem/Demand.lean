import Xv6.Mem.UserSpec

/-!
# Demand paging

A page can be obtained eagerly, by `allocuvm`, or be marked with `PTE_LAZY` by `mmap` or
`allocuvm_lazy` and filled in by the page-fault branch of `trap`. Here the two are compared: what a
process reads from a page that it has not written yet. `allocuvm` clears the page; the page-fault
branch hands out the page at the head of the free list as it is.
-/

namespace Xv6

open Fallible

variable {c : ShmField} {d d' : PageDir} {m m' : Mem} {v w n y o : Nat}

/-- The entry `PTE_W | PTE_U | PTE_LAZY`. -/
def lazyUserPte : Pte := ⟨0, false, true, true, true, 0⟩

/-- The loop of `allocuvm_lazy` over `n` pages from page `v` on. -/
def lazyPages : Nat → Nat → PageDir → Mem → Except Fault (PageDir × Mem)
  | 0, _, d, m => .ok (d, m)
  | n + 1, v, d, m =>
    match walkpgdir d v m with
    | (false, _, _) => .error (.panic "allocuvm_lazy")
    | (true, d, m) => lazyPages n (v + 1) (d.set v lazyUserPte) m

/-- `allocuvm_lazy`: the new size, or 0 on error. -/
def allocuvmLazy (d : PageDir) (oldsz newsz : Nat) (m : Mem) : Except Fault (Nat × PageDir × Mem) :=
  if KERNBASE * PGSIZE ≤ newsz then
    .ok (0, d, m)
  else if newsz < oldsz then
    .ok (oldsz, d, m)
  else do
    let (d, m) ← lazyPages (pgUp newsz - pgUp oldsz) (pgUp oldsz) d m
    pure (newsz, d, m)

/-- The byte that a process reads at offset `o` of page `v`; `none` if the access faults. -/
def loadByte (d : PageDir) (m : Mem) (v o : Nat) : Option UInt8 :=
  if (d.entry v).present && (d.entry v).user then some (m.bytes (d.entry v).ppn o) else none

/-! ### Pages marked lazy -/

/-- A page that a process has obtained but not touched. -/
def PageDir.Pending (d : PageDir) (v : Nat) : Prop :=
  (d.entry v).lazy = true ∧ (d.entry v).present = false

lemma PageDir.Pending.hasTable (h : d.Pending v) : d.HasTable v := by
  by_contra hn
  have := h.1
  rw [PageDir.entry_of_not_hasTable hn] at this
  cases this

lemma lt_NVPAGES (h : v < KERNBASE) : v < NVPAGES := by
  rw [KERNBASE_eq] at h
  exact h.trans (by decide)

lemma pending_of_entry {e : Pte} (h : d.entry v = e) (hl : e.lazy = true) (hp : e.present = false) :
    d.Pending v := by
  subst h
  exact ⟨hl, hp⟩

/-- One page is marked, then the `n` pages after it. -/
lemma pending_cons {d₁ d₂ : PageDir} {m₁ : Mem} {e : Pte} (hext : Extends d m d₁ m₁)
    (ht : d₁.HasTable v) (hl : e.lazy = true) (hp : e.present = false)
    (hin : ∀ w, v + 1 ≤ w → w < v + 1 + n → d₂.Pending w)
    (hout : ∀ w, w < v + 1 ∨ v + 1 + n ≤ w → d₂.entry w = (d₁.set v e).entry w) :
    (∀ w, v ≤ w → w < v + (n + 1) → d₂.Pending w) ∧
      ∀ w, w < v ∨ v + (n + 1) ≤ w → d₂.entry w = d.entry w := by
  constructor
  · intro w h1 h2
    rcases Nat.eq_or_lt_of_le h1 with rfl | hlt
    · exact pending_of_entry ((hout v (by omega)).trans (PageDir.entry_set_self ht)) hl hp
    · exact hin w hlt (by omega)
  · intro w hw
    rw [hout w (by omega), PageDir.entry_set_ne (by omega), hext.entry]

/-- Every page of a range that `mmap` accepts is pending. -/
lemma mmapPages_pending (hv : v + n ≤ KERNBASE) :
    Ensures (mmapPages n v d m) fun r => r.1 = true →
      (∀ w, v ≤ w → w < v + n → r.2.1.Pending w) ∧
        ∀ w, w < v ∨ v + n ≤ w → r.2.1.entry w = d.entry w := by
  induction n generalizing d m v with
  | zero => exact .ok fun _ => ⟨fun w h1 h2 => by omega, fun _ _ => rfl⟩
  | succ n ih =>
    unfold mmapPages
    split
    · exact .error
    · next d₁ m₁ hw =>
      obtain ⟨hext, htable, -⟩ := walkpgdir_extends (lt_NVPAGES (by omega)) hw
      split
      · exact .ok fun h => by cases h
      · refine (ih (d := d₁.set v lazyPte) (m := m₁) (v := v + 1) (by omega)).mono ?_
        rintro ⟨ok, d₂, m₂⟩ hrest hok
        obtain ⟨hin, hout⟩ := hrest hok
        exact pending_cons hext (htable rfl) rfl rfl hin hout

lemma lazyPages_pending (hv : v + n ≤ KERNBASE) :
    Ensures (lazyPages n v d m) fun r =>
      (∀ w, v ≤ w → w < v + n → r.1.Pending w) ∧
        ∀ w, w < v ∨ v + n ≤ w → r.1.entry w = d.entry w := by
  induction n generalizing d m v with
  | zero => exact .ok ⟨fun w h1 h2 => by omega, fun _ _ => rfl⟩
  | succ n ih =>
    unfold lazyPages
    split
    · exact .error
    · next d₁ m₁ hw =>
      obtain ⟨hext, htable, -⟩ := walkpgdir_extends (lt_NVPAGES (by omega)) hw
      refine (ih (d := d₁.set v lazyUserPte) (m := m₁) (v := v + 1) (by omega)).mono ?_
      rintro ⟨d₂, m₂⟩ ⟨hin, hout⟩
      exact pending_cons hext (htable rfl) rfl rfl hin hout

/-- Every page of the range that `allocuvm_lazy` adds is pending. -/
theorem allocuvmLazy_pending {oldsz newsz : Nat} (hle : oldsz ≤ newsz) :
    Ensures (allocuvmLazy d oldsz newsz m) fun r =>
      r.1 ≠ 0 → ∀ w, pgUp oldsz ≤ w → w < pgUp newsz → r.2.1.Pending w := by
  unfold allocuvmLazy
  split
  · exact .ok fun h => absurd rfl h
  · next hnew =>
    rw [if_neg (by omega)]
    have hup := pgUp_mono hle
    have htop : pgUp newsz ≤ KERNBASE := pgUp_le_KERNBASE (by omega)
    refine (lazyPages_pending (by omega)).bind ?_
    rintro ⟨d₁, m₁⟩ ⟨hin, -⟩
    exact .pure fun _ w h1 h2 => hin w h1 (by omega)

/-! ### What is read from a page before it is written -/

/-- The first touch of a pending page maps the head of the free list there, contents and all. -/
lemma pageFault_pending {l : List Nat} (hpend : d.Pending v) (hm : m.freelist = y :: l) :
    pageFault d v m =
      .ok (true, d.set v ((⟨true, true⟩ : Perm).pte y), { m with freelist := l }) := by
  have hwalk := PageDir.walk_eq_some_iff.mpr ⟨hpend.hasTable, rfl⟩
  simp only [pageFault, hwalk, hpend.1, if_true, Mem.kalloc, hm]

/-- `allocuvm` of the same page takes the same physical page, and clears it. -/
lemma allocuvm_pending {l : List Nat} (hv : v < KERNBASE) (hpend : d.Pending v)
    (hm : m.freelist = y :: l) :
    allocuvm c d (v * PGSIZE) (v * PGSIZE + 1) m =
      .ok (v * PGSIZE + 1, d.set v ((⟨true, true⟩ : Perm).pte y),
        ({ m with freelist := l } : Mem).memset y 0) := by
  have hlt : ¬ KERNBASE * PGSIZE ≤ v * PGSIZE + 1 := by
    have := Nat.mul_le_mul_right PGSIZE (Nat.succ_le_of_lt hv)
    rw [Nat.succ_mul] at this
    have hP : PGSIZE = 4096 := rfl
    omega
  have hup : pgUp (v * PGSIZE + 1) = v + 1 := by
    simp only [pgUp, PGSIZE]
    omega
  obtain ⟨t, ht⟩ := Option.isSome_iff_exists.mp hpend.hasTable
  rw [allocuvm, if_neg hlt, if_neg (by omega), pgUp_mul, hup, Nat.add_sub_cancel_left]
  simp only [allocPages, Mem.kalloc, hm, mappages, walkpgdir, ht, hpend.2, bind, Except.bind]
  rfl

lemma loadByte_mapped {perm : Perm} (ht : d.HasTable v) (hu : perm.user = true) :
    loadByte (d.set v (perm.pte y)) m v o = some (m.bytes y o) := by
  rw [loadByte, PageDir.entry_set_self ht]
  simp only [Perm.pte, hu, Bool.and_self, if_true]

/-- A page obtained lazily reads like one obtained eagerly, which reads as zero, exactly if the page
at the head of the free list holds zeros when it is first touched. -/
theorem demandPaging_refines_iff {l : List Nat} (hv : v < KERNBASE) (hpend : d.Pending v)
    (hm : m.freelist = y :: l) :
    ∃ d₁ m₁ d₂ m₂, pageFault d v m = .ok (true, d₁, m₁) ∧
      allocuvm c d (v * PGSIZE) (v * PGSIZE + 1) m = .ok (v * PGSIZE + 1, d₂, m₂) ∧
      (∀ o, loadByte d₂ m₂ v o = some 0) ∧
      ((∀ o < PGSIZE, loadByte d₁ m₁ v o = loadByte d₂ m₂ v o) ↔ ∀ o < PGSIZE, m.bytes y o = 0) := by
  refine ⟨_, _, _, _, pageFault_pending hpend hm, allocuvm_pending hv hpend hm, fun o => ?_, ?_⟩
  · rw [loadByte_mapped hpend.hasTable rfl]
    simp [Mem.memset]
  · refine forall_congr' fun o => forall_congr' fun _ => ?_
    rw [loadByte_mapped hpend.hasTable rfl, loadByte_mapped hpend.hasTable rfl]
    simp [Mem.memset]

/-- A machine whose memory holds zeros and whose free list is empty. -/
def zeroMem : Mem :=
  ⟨⟨264, 280, small_data_gt, small_data_lt, small_data_le⟩, [], fun _ => ⟨0, 0⟩, fun _ _ => 0⟩

/-- A directory without page tables, in page 299. -/
def emptyDir : PageDir := ⟨299, fun _ => none⟩

/-- With a page that nobody has used yet at the head of the free list, page 3 reads as zero. -/
theorem demandPaging_refines_unused_page :
    ∃ d₁ m₁ d₂ m₂, mmapPages 1 3 emptyDir { zeroMem with freelist := [300, 301] } =
        .ok (true, d₁, m₁) ∧ pageFault d₁ 3 m₁ = .ok (true, d₂, m₂) ∧
      ∀ o < PGSIZE, loadByte d₂ m₂ 3 o = some 0 := by
  have hmark : ∃ d₁ m₁, mmapPages 1 3 emptyDir { zeroMem with freelist := [300, 301] } =
      .ok (true, d₁, m₁) ∧ m₁.freelist = [301] ∧ m₁.bytes 301 = fun _ => 0 := ⟨_, _, rfl, rfl, rfl⟩
  obtain ⟨d₁, m₁, hmmap, hfree, hzero⟩ := hmark
  have hK : 4 ≤ KERNBASE := by
    rw [KERNBASE_eq]
    decide
  obtain ⟨hpend, -⟩ := mmapPages_pending hK _ hmmap rfl
  obtain ⟨d₂, m₂, d₃, m₃, hfault, -, heager, hiff⟩ :=
    demandPaging_refines_iff (c := ⟨none, 0⟩) (v := 3) (by omega) (hpend 3 le_rfl (by decide)) hfree
  refine ⟨d₁, m₁, d₂, m₂, hmmap, hfault, fun o ho => ?_⟩
  rw [hiff.mpr (fun o _ => by rw [hzero]) o ho, heager o]

/-- Pages 300 and 301 are freed, `mmap` takes page 301 for a page table, and the first touch of the
page it marked reads the junk that `kfree` left in page 300. -/
theorem lazy_page_reads_junk :
    ∃ m₁ m₂ d₃ m₃ d₄ m₄ d₅ m₅, zeroMem.kfree 300 = .ok m₁ ∧ m₁.kfree 301 = .ok m₂ ∧
      mmapPages 1 3 emptyDir m₂ = .ok (true, d₃, m₃) ∧ pageFault d₃ 3 m₃ = .ok (true, d₄, m₄) ∧
      loadByte d₄ m₄ 3 4 = some 1 ∧
      allocuvm ⟨none, 0⟩ d₃ (3 * PGSIZE) (3 * PGSIZE + 1) m₃ = .ok (3 * PGSIZE + 1, d₅, m₅) ∧
      loadByte d₅ m₅ 3 4 = some 0 := by
  have hstart : ∃ m₁ m₂ d₃ m₃, zeroMem.kfree 300 = .ok m₁ ∧ m₁.kfree 301 = .ok m₂ ∧
      mmapPages 1 3 emptyDir m₂ = .ok (true, d₃, m₃) ∧ m₃.freelist = [300] ∧
      m₃.bytes 300 4 = 1 := ⟨_, _, _, _, rfl, rfl, rfl, rfl, rfl⟩
  obtain ⟨m₁, m₂, d₃, m₃, h₁, h₂, hmmap, hfree, hjunk⟩ := hstart
  have hK : 4 ≤ KERNBASE := by
    rw [KERNBASE_eq]
    decide
  have hpend := (mmapPages_pending hK _ hmmap rfl).1 3 le_rfl (by decide)
  refine ⟨m₁, m₂, d₃, m₃, _, _, _, _, h₁, h₂, hmmap, pageFault_pending hpend hfree, ?_,
    allocuvm_pending (by omega) hpend hfree, ?_⟩
  · rw [loadByte_mapped hpend.hasTable rfl]
    exact congrArg some hjunk
  · rw [loadByte_mapped hpend.hasTable rfl]
    simp [Mem.memset]

end Xv6
