import Xv6.Lib.Count
import Xv6.Lib.Fallible
import Xv6.Proc.Table

/-!
# Physical memory

`kalloc.c` and the table of shared pages of `sh_mem.c`. A physical page is named by its number, that
is, its address divided by `PGSIZE`.
-/

namespace Xv6

open Fallible Count

/-- Bytes of a page. -/
def PGSIZE : Nat := 4096

/-- First page at the top of physical memory. -/
def PHYSTOP : Nat := 0xE000000 / PGSIZE

/-- First page of extended memory. -/
def EXTMEM : Nat := 0x100000 / PGSIZE

/-- The address at which the kernel sees a physical page. -/
def P2V (y : Nat) : Nat := 0x80000000 + y * PGSIZE

/-- Maximum number of shared pages. -/
def N_SHARED_PAGES : Nat := 64

instance : NeZero N_SHARED_PAGES := ⟨by decide⟩

/-- Where the linker put the kernel: `data` is the page of the symbol `data`, and `kernelEnd` the
first page above the symbol `end`. -/
structure Layout where
  data : Nat
  kernelEnd : Nat
  data_gt : EXTMEM < data
  data_lt : data < PHYSTOP
  data_le_end : data ≤ kernelEnd

/-! The bounds for a small kernel, with `data` in page 264 and `end` in page 280. -/

lemma small_data_gt : EXTMEM < 264 := by decide

lemma small_data_lt : 264 < PHYSTOP := by decide

lemma small_data_le : 264 ≤ 280 := by decide

/-- `shared_memory_t`. -/
structure ShmEntry where
  pa : Nat
  refCnt : Nat
  deriving DecidableEq

/-- The four bytes of a word. -/
def wordBytes (a : Nat) : List UInt8 :=
  [UInt8.ofNat a, UInt8.ofNat (a / 256), UInt8.ofNat (a / 65536), UInt8.ofNat (a / 16777216)]

/-- The free list, the table of shared pages, and the contents of all pages. -/
structure Mem where
  layout : Layout
  freelist : List Nat
  shared : Fin N_SHARED_PAGES → ShmEntry
  bytes : Nat → Nat → UInt8

namespace Mem

/-! ### Pages -/

def kalloc (m : Mem) : Option Nat × Mem :=
  match m.freelist with
  | [] => (none, m)
  | y :: l => (some y, { m with freelist := l })

/-- `memset(P2V(y), c, PGSIZE)`. -/
def memset (m : Mem) (y : Nat) (c : UInt8) : Mem :=
  { m with bytes := Function.update m.bytes y fun _ => c }

/-- `memmove` of a whole page. -/
def copyPage (m : Mem) (dst src : Nat) : Mem :=
  { m with bytes := Function.update m.bytes dst (m.bytes src) }

/-- Store the bytes `bs` in page `y` from offset `off` on. -/
def write (m : Mem) (y off : Nat) (bs : List UInt8) : Mem :=
  { m with
    bytes := Function.update m.bytes y fun o =>
      if off ≤ o ∧ o < off + bs.length then bs.getD (o - off) 0 else m.bytes y o }

/-- The page as `kfree` leaves it: filled with junk, with the pointer to the next free page, or 0, in
its first word. -/
def junk (y : Nat) (m : Mem) : Mem :=
  (m.memset y 1).write y 0 (wordBytes (m.freelist.head?.elim 0 P2V))

def kfree (y : Nat) (m : Mem) : Except Fault Mem :=
  if y < m.layout.kernelEnd ∨ PHYSTOP ≤ y then
    .error (.panic "kfree")
  else
    .ok { m.junk y with freelist := y :: m.freelist }

/-- How often a page is on the free list. -/
def free (m : Mem) (x : Nat) : Nat := m.freelist.count x

variable {m m' : Mem} {x y z : Nat}

lemma free_ne_zero : m.free x ≠ 0 ↔ x ∈ m.freelist := by
  rw [free, ne_eq, List.count_eq_zero, not_not]

lemma free_eq_zero : m.free x = 0 ↔ x ∉ m.freelist := List.count_eq_zero

lemma kalloc_none (h : m.kalloc = (none, m')) : m.freelist = [] ∧ m' = m := by
  unfold kalloc at h
  split at h
  · next hl =>
    cases h
    exact ⟨hl, rfl⟩
  · simp at h

lemma kalloc_some (h : m.kalloc = (some y, m')) :
    m.freelist = y :: m'.freelist ∧ m' = { m with freelist := m'.freelist } := by
  unfold kalloc at h
  split at h
  · simp at h
  · next hl =>
    simp only [Prod.mk.injEq, Option.some.injEq] at h
    obtain ⟨rfl, rfl⟩ := h
    exact ⟨hl, rfl⟩

lemma free_kalloc (h : m.kalloc = (some y, m')) (x : Nat) :
    m.free x = m'.free x + one y x := by
  simp [free, (kalloc_some h).1, List.count_cons, one]

lemma shared_kalloc (h : m.kalloc = (some y, m')) : m'.shared = m.shared := by
  rw [(kalloc_some h).2]

lemma layout_kalloc (h : m.kalloc = (some y, m')) : m'.layout = m.layout := by
  rw [(kalloc_some h).2]

@[simp] lemma free_memset (m : Mem) (y : Nat) (c : UInt8) : (m.memset y c).free = m.free := rfl

@[simp] lemma shared_memset (m : Mem) (y : Nat) (c : UInt8) : (m.memset y c).shared = m.shared := rfl

@[simp] lemma layout_memset (m : Mem) (y : Nat) (c : UInt8) : (m.memset y c).layout = m.layout := rfl

@[simp] lemma free_copyPage (m : Mem) (y z : Nat) : (m.copyPage y z).free = m.free := rfl

/-- Only pages from the free list have been taken and written. -/
def Takes (m m' : Mem) : Prop := ∀ x, m.free x = 0 → m'.free x = 0 ∧ m'.bytes x = m.bytes x

lemma Takes.refl (m : Mem) : m.Takes m := fun _ h => ⟨h, rfl⟩

lemma Takes.trans {m'' : Mem} (h : m.Takes m') (h' : m'.Takes m'') : m.Takes m'' := by
  intro x hx
  obtain ⟨h1, h2⟩ := h x hx
  obtain ⟨h3, h4⟩ := h' x h1
  exact ⟨h3, h4.trans h2⟩

/-- Taking a page and writing to it. -/
lemma Takes.kalloc (h : m.kalloc = (some y, m')) (g : Nat → UInt8) :
    m.Takes { m' with bytes := Function.update m'.bytes y g } := by
  intro x hx
  have hfree := free_kalloc h x
  have hxy : x ≠ y := by
    rintro rfl
    simp [one] at hfree
    omega
  refine ⟨?_, ?_⟩
  · show m'.free x = 0
    omega
  · rw [(kalloc_some h).2]
    simp [Function.update_of_ne hxy]

/-- A page that was freed lies in the range of `kalloc`. -/
def InRange (m : Mem) (x : Nat) : Prop := m.layout.kernelEnd ≤ x ∧ x < PHYSTOP

lemma InRange.ne_zero (h : m.InRange x) : x ≠ 0 := by
  have := m.layout.data_gt
  have := m.layout.data_le_end
  have := h.1
  omega

lemma InRange.congr (h : m.InRange x) (hl : m'.layout = m.layout) : m'.InRange x := by
  unfold InRange at *
  rwa [hl]

lemma kfree_ensures (y : Nat) (m : Mem) :
    Ensures (kfree y m) fun m' => m.InRange y ∧ (∀ x, m'.free x = m.free x + one y x) ∧
      m'.shared = m.shared ∧ m'.layout = m.layout := by
  unfold kfree
  split_ifs with h
  · exact .error
  · refine .ok ⟨⟨by omega, by omega⟩, fun x => ?_, rfl, rfl⟩
    simp [free, List.count_cons, one]

lemma kfree_eq_ok (h : m.InRange y) :
    kfree y m = .ok { m.junk y with freelist := y :: m.freelist } := by
  have : ¬ (y < m.layout.kernelEnd ∨ PHYSTOP ≤ y) := by
    have := h.1
    have := h.2
    omega
  rw [kfree, if_neg this]

/-! ### Shared pages -/

def shmAdd (pa : Nat) (m : Mem) : Option (Fin N_SHARED_PAGES) × Mem :=
  match (List.finRange N_SHARED_PAGES).find? (fun i => (m.shared i).pa = pa) with
  | some i =>
    (some i, { m with
      shared := Function.update m.shared i ⟨(m.shared i).pa, (m.shared i).refCnt + 1⟩ })
  | none =>
    match (List.finRange N_SHARED_PAGES).find? (fun i => (m.shared i).refCnt = 0) with
    | some i => (some i, { m with shared := Function.update m.shared i ⟨pa, 1⟩ })
    | none => (none, m)

/-- `shm_remove`; the result is whether the page was found. -/
def shmRemove (pa : Nat) (m : Mem) : Except Fault (Bool × Mem) :=
  match (List.finRange N_SHARED_PAGES).find?
      (fun i => (m.shared i).pa = pa ∧ (m.shared i).refCnt ≠ 0) with
  | some i =>
    if (m.shared i).refCnt - 1 = 0 then do
      let m ← kfree pa { m with shared := Function.update m.shared i ⟨0, 0⟩ }
      pure (true, m)
    else
      pure (true, { m with
        shared := Function.update m.shared i ⟨(m.shared i).pa, (m.shared i).refCnt - 1⟩ })
  | none => pure (false, m)

/-- Entries in use have distinct pages, and only entries in use have one. -/
structure SharedOk (sh : Fin N_SHARED_PAGES → ShmEntry) : Prop where
  zero : ∀ i, (sh i).refCnt = 0 ↔ (sh i).pa = 0
  distinct : ∀ i j, (sh i).pa = (sh j).pa → (sh i).pa ≠ 0 → i = j

/-- The reference count of a page in the table of shared pages. -/
def shmRef (sh : Fin N_SHARED_PAGES → ShmEntry) (x : Nat) : Nat :=
  ∑ i, if (sh i).pa = x then (sh i).refCnt else 0

/-- Free pages are different pages of the memory that `kalloc` manages, and no shared pages. -/
structure FreeOk (m : Mem) : Prop where
  sharedOk : SharedOk m.shared
  once : ∀ x, m.free x ≤ 1
  inRange : ∀ x, m.free x ≠ 0 → m.InRange x
  unshared : ∀ x, m.free x ≠ 0 → shmRef m.shared x = 0

variable {sh : Fin N_SHARED_PAGES → ShmEntry} {i : Fin N_SHARED_PAGES}

lemma shmRef_eq (h : SharedOk sh) (hi : (sh i).pa = x) (hx : x ≠ 0) : shmRef sh x = (sh i).refCnt := by
  unfold shmRef
  rw [Finset.sum_eq_single i]
  · rw [if_pos hi]
  · intro j _ hji
    rw [if_neg]
    intro hj
    exact hji (h.distinct j i (hj.trans hi.symm) (hj ▸ hx))
  · exact fun hn => absurd (Finset.mem_univ i) hn

lemma shmRef_eq_zero (hx : ∀ i, (sh i).pa ≠ x) : shmRef sh x = 0 := by
  apply Finset.sum_eq_zero
  intro i _
  rw [if_neg (hx i)]

lemma shmRef_zero (h : SharedOk sh) : shmRef sh 0 = 0 := by
  apply Finset.sum_eq_zero
  intro i _
  split_ifs with hi
  · exact (h.zero i).mpr hi
  · rfl

lemma exists_of_shmRef_ne_zero (h : shmRef sh x ≠ 0) : ∃ i, (sh i).pa = x ∧ (sh i).refCnt ≠ 0 := by
  by_contra hno
  push Not at hno
  apply h
  apply Finset.sum_eq_zero
  intro i _
  split_ifs with hi
  · exact hno i hi
  · rfl

/-- Changing one entry of the table. -/
lemma shmRef_update (sh : Fin N_SHARED_PAGES → ShmEntry) (i : Fin N_SHARED_PAGES) (e : ShmEntry)
    (x : Nat) : shmRef (Function.update sh i e) x + (if (sh i).pa = x then (sh i).refCnt else 0) =
      shmRef sh x + if e.pa = x then e.refCnt else 0 := by
  have h := Count.sum_update (fun _ (e : ShmEntry) => if e.pa = x then e.refCnt else 0) sh i e
  unfold shmRef
  omega

/-- Changing the count of an entry in use, but not its page. -/
lemma SharedOk.update_refCnt (h : SharedOk sh) (hi : (sh i).pa ≠ 0) {n : Nat} (hn : n ≠ 0) :
    SharedOk (Function.update sh i ⟨(sh i).pa, n⟩) := by
  have hpa : ∀ k, (Function.update sh i ⟨(sh i).pa, n⟩ k).pa = (sh k).pa := by
    intro k
    by_cases hk : k = i
    · subst hk
      simp
    · rw [Function.update_of_ne hk]
  refine ⟨fun k => ?_, fun k l hkl hk => ?_⟩
  · by_cases hki : k = i
    · subst hki
      simp [hi, hn]
    · rw [Function.update_of_ne hki]
      exact h.zero k
  · rw [hpa, hpa] at hkl
    rw [hpa] at hk
    exact h.distinct k l hkl hk

/-- `shm_add` of a page counts one more reference to it. -/
lemma shmAdd_some (h : SharedOk m.shared) (hx : x ≠ 0) (ha : m.shmAdd x = (some i, m')) :
    SharedOk m'.shared ∧ (m'.shared i).pa = x ∧ m' = { m with shared := m'.shared } ∧
      ∀ z, shmRef m'.shared z = shmRef m.shared z + one x z := by
  unfold shmAdd at ha
  split at ha
  · next j hj =>
    simp only [Prod.mk.injEq, Option.some.injEq] at ha
    obtain ⟨rfl, rfl⟩ := ha
    have hpa : (m.shared j).pa = x := by simpa using List.find?_some hj
    refine ⟨h.update_refCnt (hpa ▸ hx) (Nat.succ_ne_zero _), by simpa using hpa, rfl, fun z => ?_⟩
    · have := shmRef_update m.shared j ⟨(m.shared j).pa, (m.shared j).refCnt + 1⟩ z
      simp only [hpa] at this
      unfold one
      dsimp only
      rw [hpa]
      split_ifs at this ⊢ <;> omega
  · next hnone =>
    split at ha
    · next j hj =>
      simp only [Prod.mk.injEq, Option.some.injEq] at ha
      obtain ⟨rfl, rfl⟩ := ha
      have hzero : (m.shared j).refCnt = 0 := by simpa using List.find?_some hj
      have hpa := (h.zero j).mp hzero
      have hfresh : ∀ k, (m.shared k).pa ≠ x := by
        intro k
        simpa using List.find?_eq_none.mp hnone k (List.mem_finRange k)
      refine ⟨⟨fun k => ?_, fun k l hkl hk => ?_⟩, by simp, rfl, fun z => ?_⟩
      · by_cases hkj : k = j
        · subst hkj
          simp [hx]
        · simpa [hkj] using h.zero k
      · by_cases hkj : k = j <;> by_cases hlj : l = j
        · rw [hkj, hlj]
        · simp [hkj, hlj] at hkl
          exact absurd hkl.symm (hfresh l)
        · simp [hkj, hlj] at hkl
          exact absurd hkl (hfresh k)
        · simp only [ne_eq, hkj, not_false_eq_true, Function.update_of_ne, hlj] at hkl hk
          exact h.distinct k l hkl hk
      · have := shmRef_update m.shared j ⟨x, 1⟩ z
        simp only [hpa, hzero, ite_self, Nat.add_zero] at this
        exact this
    · simp at ha

/-- `shm_add` leaves the entries in use at their pages. -/
lemma shmAdd_keeps (ha : m.shmAdd x = (some i, m')) (j : Fin N_SHARED_PAGES)
    (hj : (m.shared j).refCnt ≠ 0) :
    (m'.shared j).refCnt ≠ 0 ∧ (m'.shared j).pa = (m.shared j).pa := by
  unfold shmAdd at ha
  split at ha
  · next k _ =>
    simp only [Prod.mk.injEq, Option.some.injEq] at ha
    obtain ⟨rfl, rfl⟩ := ha
    by_cases hjk : j = k
    · subst hjk
      simp
    · simp [hjk, hj]
  · split at ha
    · next k hk =>
      simp only [Prod.mk.injEq, Option.some.injEq] at ha
      obtain ⟨rfl, rfl⟩ := ha
      have hjk : j ≠ k := by
        rintro rfl
        exact hj (by simpa using List.find?_some hk)
      simp [hjk, hj]
    · simp at ha

/-- `shm_add` fails only when all entries are in use for other pages. -/
lemma shmAdd_none (ha : m.shmAdd x = (none, m')) :
    m' = m ∧ ∀ i, (m.shared i).refCnt ≠ 0 := by
  unfold shmAdd at ha
  split at ha
  · simp at ha
  · split at ha
    · simp at ha
    · next hnone =>
      simp only [Prod.mk.injEq, true_and] at ha
      refine ⟨ha.symm, fun k => ?_⟩
      simpa using List.find?_eq_none.mp hnone k (List.mem_finRange k)

/-- `shm_remove` of a page that is not shared changes nothing. -/
lemma shmRemove_of_shmRef_eq_zero (h : SharedOk m.shared) (hx : shmRef m.shared x = 0) :
    shmRemove x m = .ok (false, m) := by
  unfold shmRemove
  split
  · next i hi =>
    have hp : (m.shared i).pa = x ∧ (m.shared i).refCnt ≠ 0 := by
      simpa using List.find?_some hi
    have hne : x ≠ 0 := by
      rintro rfl
      exact hp.2 ((h.zero i).mpr hp.1)
    rw [shmRef_eq h hp.1 hne] at hx
    exact absurd hx hp.2
  · rfl

/-- Entries of the table may have been cleared, but none was given another page. -/
def Cleared (sh sh' : Fin N_SHARED_PAGES → ShmEntry) : Prop :=
  ∀ i, (sh' i).pa = (sh i).pa ∨ (sh' i).pa = 0

lemma Cleared.trans {sh₁ sh₂ sh₃ : Fin N_SHARED_PAGES → ShmEntry} (h : Cleared sh₁ sh₂)
    (h' : Cleared sh₂ sh₃) : Cleared sh₁ sh₃ := by
  intro i
  rcases h' i with hi | hi
  · rw [hi]
    exact h i
  · exact Or.inr hi

lemma Cleared.of_eq {sh sh' : Fin N_SHARED_PAGES → ShmEntry} (h : sh' = sh) : Cleared sh sh' :=
  fun i => Or.inl (by rw [h])

/-- `shm_remove` of a shared page counts one reference less, and frees the page with the last. -/
lemma shmRemove_ensures (h : SharedOk m.shared) (hx : shmRef m.shared x ≠ 0) :
    Ensures (shmRemove x m) fun r => r.1 = true ∧ SharedOk r.2.shared ∧
      (∀ z, shmRef r.2.shared z + one x z = shmRef m.shared z) ∧
      (∀ z, r.2.free z = m.free z + if shmRef m.shared x = 1 then one x z else 0) ∧
      Cleared m.shared r.2.shared ∧ r.2.layout = m.layout := by
  have hx0 : x ≠ 0 := by
    rintro rfl
    exact hx (shmRef_zero h)
  unfold shmRemove
  split
  · next i hi =>
    have hp : (m.shared i).pa = x ∧ (m.shared i).refCnt ≠ 0 := by
      simpa using List.find?_some hi
    have href := shmRef_eq h hp.1 hx0
    split
    · next hone =>
      refine (kfree_ensures _ _).bind fun m' hm' => .pure ⟨rfl, ?_, ?_, ?_, ?_, hm'.2.2.2⟩
      · rw [hm'.2.2.1]
        refine ⟨fun k => ?_, fun k l hkl hk => ?_⟩
        · by_cases hki : k = i
          · subst hki
            simp
          · simpa [hki] using h.zero k
        · have hki : k ≠ i := by
            rintro rfl
            simp at hk
          have hli : l ≠ i := by
            rintro rfl
            simp [hki] at hkl hk
            exact hk hkl
          simp only [ne_eq, hki, not_false_eq_true, Function.update_of_ne, hli] at hkl hk
          exact h.distinct k l hkl hk
      · intro z
        have hu := shmRef_update m.shared i ⟨0, 0⟩ z
        rw [hm'.2.2.1]
        simp only [hp.1, ite_self, Nat.add_zero] at hu
        have hone' : (m.shared i).refCnt = 1 := by
          have := hp.2
          omega
        rw [hone'] at hu
        exact hu
      · intro z
        have hone' : shmRef m.shared x = 1 := by
          have := hp.2
          omega
        rw [if_pos hone', hm'.2.1 z]
        rfl
      · intro k
        rw [hm'.2.2.1]
        by_cases hki : k = i
        · subst hki
          simp
        · simp [hki]
    · next hone =>
      refine .pure ⟨rfl, h.update_refCnt (hp.1 ▸ hx0) hone, fun z => ?_, fun z => ?_, fun k => ?_, rfl⟩
      · have hu := shmRef_update m.shared i ⟨(m.shared i).pa, (m.shared i).refCnt - 1⟩ z
        simp only [hp.1] at hu
        unfold one
        dsimp only
        rw [hp.1]
        split_ifs at hu ⊢ <;> omega
      · rw [if_neg (by omega)]
        rfl
      · by_cases hki : k = i
        · subst hki
          simp
        · simp [hki]
  · next hnone =>
    obtain ⟨i, hi, hr⟩ := exists_of_shmRef_ne_zero hx
    have := List.find?_eq_none.mp hnone i (List.mem_finRange i)
    simp [hi] at this
    exact absurd this hr

end Mem

end Xv6
