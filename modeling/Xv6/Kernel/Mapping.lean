import Xv6.Kernel.Calls
import Xv6.Kernel.Faults

/-!
# mmap and munmap

Both calls work on their range page by page and stop in the middle when they meet a page they cannot
handle: `mmap` one that is present, `munmap` one without a page table. What was done up to there is not
undone. Both compute the end of the range in 32 bits, so that a range that runs over the end of the
address space looks empty and is accepted.
-/

namespace Xv6

open Fallible Count

variable {d d' : PageDir} {m m' : Mem} {v w u n : Nat}

/-! ### The loop of mmap -/

lemma hasTable_of_lazyPte (h : d.entry v = lazyPte) : d.HasTable v := by
  by_contra hno
  rw [PageDir.entry_of_not_hasTable hno] at h
  cases h

/-- `mmap` reaches the end of its range exactly if no page there is present and memory suffices for the
page tables that are missing. -/
lemma mmapPages_succeeds_iff (hv : v + n ≤ KERNBASE) :
    (∃ d' m', mmapPages n v d m = .ok (true, d', m')) ↔
      (∀ w, v ≤ w → w < v + n → (d.entry w).present = false) ∧
        missing (tablesFor v (v + n)) d ≤ m.pages := by
  induction n generalizing v d m with
  | zero =>
    refine iff_of_true ⟨d, m, rfl⟩ ⟨fun w h1 h2 => by omega, ?_⟩
    simp [tablesFor, missing]
  | succ n ih =>
    have hshift : v + (n + 1) = v + 1 + n := by omega
    have hmem : v / NPTENTRIES ∈ tablesFor v (v + (n + 1)) := by
      rw [tablesFor_succ (by omega)]
      exact Finset.mem_insert_self ..
    unfold mmapPages
    rcases hwalk : walkpgdir d v m with ⟨_ | _, d₁, m₁⟩
    · obtain ⟨-, -, hnone⟩ := walkpgdir_extends (lt_NVPAGES (by omega)) hwalk
      obtain ⟨hfree, -, ht⟩ := hnone rfl
      have hpos := missing_pos hmem (d := d) (by simpa [PageDir.HasTable] using ht)
      constructor
      · rintro ⟨d', m', h⟩
        cases h
      · rintro ⟨-, h⟩
        simp only [Mem.pages, hfree, List.length_nil] at h
        omega
    · obtain ⟨hext, htable, -⟩ := walkpgdir_extends (lt_NVPAGES (by omega)) hwalk
      have hnext := missing_walk (w := v + (n + 1)) (e := lazyPte) (by omega) hwalk (htable rfl)
      dsimp only
      rw [hext.entry v]
      by_cases hp : (d.entry v).present = true
      · rw [if_pos hp]
        constructor
        · rintro ⟨d', m', h⟩
          cases h
        · rintro ⟨h, -⟩
          simp [h v le_rfl (by omega)] at hp
      · rw [if_neg hp, ih (by omega), ← hshift]
        refine and_congr ⟨fun h w h1 h2 => ?_, fun h w h1 h2 => ?_⟩ (by omega)
        · rcases Nat.eq_or_lt_of_le h1 with rfl | hlt
          · simpa using hp
          · have := h w hlt h2
            rwa [PageDir.entry_set_ne (by omega), hext.entry] at this
        · rw [PageDir.entry_set_ne (by omega), hext.entry]
          exact h w (by omega) h2

/-- `mmap` gives up at the first present page; the pages before it are lazy by then. -/
lemma mmapPages_stops (hv : v + n ≤ KERNBASE) :
    Ensures (mmapPages n v d m) fun r => r.1 = false →
      ∃ u, v ≤ u ∧ u < v + n ∧ (d.entry u).present = true ∧
        ∀ w, v ≤ w → w < u → r.2.1.entry w = lazyPte := by
  induction n generalizing v d m with
  | zero => exact .ok fun h => by cases h
  | succ n ih =>
    unfold mmapPages
    split
    · exact .error
    · next d₁ m₁ hwalk =>
      obtain ⟨hext, htable, -⟩ := walkpgdir_extends (lt_NVPAGES (by omega)) hwalk
      split
      · next hp =>
        refine .ok fun _ => ⟨v, le_rfl, by omega, hext.entry v ▸ hp, fun w h1 h2 => by omega⟩
      · refine ((ih (by omega)).and (mmapPages_ensures (by omega))).mono ?_
        rintro ⟨ok, d₂, m₂⟩ ⟨hstop, -, hrest⟩ hok
        obtain ⟨u, h1, h2, hp, hlazy⟩ := hstop hok
        rw [PageDir.entry_set_ne (by omega), hext.entry] at hp
        refine ⟨u, by omega, by omega, hp, fun w hw hwu => ?_⟩
        rcases Nat.eq_or_lt_of_le hw with rfl | hlt
        · have := hrest v
          rw [PageDir.entry_set_self (htable rfl)] at this
          exact this.elim id And.right
        · exact hlazy w hlt hwu

/-- If all pages before the present one are marked already, marking them changes nothing. -/
lemma mmapPages_unchanged (h1 : v ≤ u) (h2 : u < v + n) (hp : (d.entry u).present = true)
    (hlazy : ∀ w, v ≤ w → w < u → d.entry w = lazyPte) :
    ∃ d', mmapPages n v d m = .ok (false, d', m) ∧ ∀ w, d'.entry w = d.entry w := by
  induction n generalizing v d with
  | zero => omega
  | succ n ih =>
    unfold mmapPages
    rcases Nat.eq_or_lt_of_le h1 with rfl | hlt
    · rw [walkpgdir_of_hasTable (PageDir.hasTable_of_present hp)]
      dsimp only
      rw [if_pos hp]
      exact ⟨d, rfl, fun _ => rfl⟩
    · have hv := hlazy v le_rfl hlt
      have ht := hasTable_of_lazyPte hv
      have hsame : ∀ w, (d.set v lazyPte).entry w = d.entry w := by
        intro w
        by_cases hw : w = v
        · rw [hw, PageDir.entry_set_self ht, hv]
        · exact PageDir.entry_set_ne hw
      obtain ⟨d', hd', hentry⟩ := ih (d := d.set v lazyPte) hlt (by omega) (by rwa [hsame])
        fun w hw hwu => by rw [hsame, hlazy w (by omega) hwu]
      rw [walkpgdir_of_hasTable ht]
      dsimp only
      rw [hv]
      exact ⟨d', hd', fun w => (hentry w).trans (hsame w)⟩

/-! ### The loop of munmap -/

/-- `munmap` returns if the pages it frees can be freed. -/
lemma munmapPages_returns (hv : v + n ≤ KERNBASE)
    (hin : ∀ w < KERNBASE, (d.entry w).present = true → m.InRange (d.entry w).ppn) :
    ∃ r, munmapPages n v d m = .ok r := by
  induction n generalizing v d m with
  | zero => exact ⟨_, rfl⟩
  | succ n ih =>
    have hclear : ∀ w < KERNBASE, ((d.set v 0).entry w).present = true →
        m.InRange ((d.set v 0).entry w).ppn := by
      intro w hw hp
      have hsame := PageDir.entry_clear hp
      rw [hsame] at hp ⊢
      exact hin w hw hp
    unfold munmapPages
    split
    · exact ⟨_, rfl⟩
    · next e hwalk =>
      obtain ⟨-, rfl⟩ := PageDir.walk_eq_some_iff.mp hwalk
      split
      · next hp =>
        rw [Mem.kfree_eq_ok (hin v (by omega) hp)]
        exact ih (by omega) hclear
      · exact ih (by omega) hclear

/-- It fails exactly if a page table is missing. -/
lemma munmapPages_fails_iff :
    Ensures (munmapPages n v d m) fun r =>
      r.1 = false ↔ ∃ w, v ≤ w ∧ w < v + n ∧ ¬ d.HasTable w := by
  induction n generalizing v d m with
  | zero =>
    refine .ok (iff_of_false (by simp) ?_)
    rintro ⟨w, h1, h2, -⟩
    omega
  | succ n ih =>
    -- one page with a page table, then the rest
    have hstep : ∀ {d₁ : PageDir} {b : Bool}, d.HasTable v → (∀ w, d₁.HasTable w ↔ d.HasTable w) →
        (b = false ↔ ∃ w, v + 1 ≤ w ∧ w < v + 1 + n ∧ ¬ d₁.HasTable w) →
        (b = false ↔ ∃ w, v ≤ w ∧ w < v + (n + 1) ∧ ¬ d.HasTable w) := by
      intro d₁ b ht hsame hb
      rw [hb]
      constructor
      · rintro ⟨w, h1, h2, h3⟩
        exact ⟨w, by omega, by omega, fun h => h3 ((hsame w).mpr h)⟩
      · rintro ⟨w, h1, h2, h3⟩
        have hne : w ≠ v := by
          rintro rfl
          exact h3 ht
        exact ⟨w, by omega, by omega, fun h => h3 ((hsame w).mp h)⟩
    unfold munmapPages
    split
    · next hwalk =>
      exact .ok (iff_of_true rfl ⟨v, le_rfl, by omega, PageDir.walk_eq_none_iff.mp hwalk⟩)
    · next e hwalk =>
      obtain ⟨ht, rfl⟩ := PageDir.walk_eq_some_iff.mp hwalk
      split
      · exact Ensures.bind (R := fun _ => True) (fun _ _ => trivial) fun m₁ _ =>
          ih.mono fun r hr => hstep ht (fun w => PageDir.hasTable_set) hr
      · exact ih.mono fun r hr => hstep ht (fun w => PageDir.hasTable_set) hr

/-- Where only empty entries are visited nothing changes. -/
lemma munmapPages_unchanged (hzero : ∀ w, Visited d v n w → d.entry w = 0) :
    ∃ ok d', munmapPages n v d m = .ok (ok, d', m) ∧ ∀ w, d'.entry w = d.entry w := by
  induction n generalizing v d with
  | zero => exact ⟨true, d, rfl, fun _ => rfl⟩
  | succ n ih =>
    unfold munmapPages
    cases hwalk : d.walk v with
    | none => exact ⟨false, d, rfl, fun _ => rfl⟩
    | some e =>
      obtain ⟨ht, rfl⟩ := PageDir.walk_eq_some_iff.mp hwalk
      have hv : d.entry v = 0 :=
        hzero v ⟨le_rfl, by omega, fun u hu hu' => (Nat.le_antisymm hu hu') ▸ ht⟩
      have hsame : ∀ w, (d.set v 0).entry w = d.entry w := by
        intro w
        by_cases hw : w = v
        · rw [hw, PageDir.entry_set_self ht, hv]
        · exact PageDir.entry_set_ne hw
      obtain ⟨ok, d', hd', hentry⟩ := ih (d := d.set v 0) (v := v + 1) fun w hw => by
        have hne : w ≠ v := by
          rintro rfl
          have := hw.1
          omega
        rw [hsame]
        exact hzero w ((visited_succ ht hne fun u => PageDir.hasTable_set).mp hw)
      dsimp only
      rw [hv]
      exact ⟨ok, d', hd', fun w => (hentry w).trans (hsame w)⟩

/-! ### The range -/

/-- A range that ends below `KERNBASE` is the one the loops run over. -/
lemma rangePages_eq {start n : Nat} (hs : start % PGSIZE = 0)
    (h : start + pgUp n * PGSIZE ≤ KERNBASE * PGSIZE) :
    rangePages start n = pgUp n ∧ start / PGSIZE + pgUp n ≤ KERNBASE := by
  have hK : KERNBASE * PGSIZE < 2 ^ 32 := by
    rw [KERNBASE_eq]
    decide
  have hend : rangeEnd start n = start + pgUp n * PGSIZE := Nat.mod_eq_of_lt (by omega)
  simp only [rangePages, hend, PGSIZE] at hs h ⊢
  omega

/-- A range that ends above `KERNBASE` and passes the checks runs over the end of the address space,
and the loops do nothing. -/
lemma rangePages_eq_zero {start n : Nat} (hr : rangeEnd start n ≤ KERNBASE * PGSIZE)
    (hs : start < 2 ^ 32) (hn : n < 2 ^ 31) (h : ¬ start + pgUp n * PGSIZE ≤ KERNBASE * PGSIZE) :
    rangePages start n = 0 := by
  have hK : KERNBASE * PGSIZE = 2147483648 := by
    rw [KERNBASE_eq]
    rfl
  have hup : pgUp n * PGSIZE ≤ 2 ^ 31 := by
    simp only [pgUp, PGSIZE]
    omega
  unfold rangePages
  unfold rangeEnd at hr ⊢
  rw [Nat.sub_eq_zero_of_le, Nat.zero_div]
  omega

namespace Kernel

variable {k : Kernel} {p : Slot} {start : UInt32} {n : Int32}

/-! ### Exactness -/

/-- No user entry has changed and no page was freed. -/
def Untouched (d : PageDir) (m : Mem) (d' : PageDir) (m' : Mem) : Prop :=
  (∀ v < KERNBASE, d'.entry v = d.entry v) ∧ ∀ x, m'.free x ≤ m.free x

/-- `mmap` returns 0 with all pages of the range lazy, or -1 with nothing changed. -/
def MmapExact (p : Slot) (start : UInt32) (n : Int32) (d : PageDir) (k : Kernel) : Prop :=
  ∃ r d' m', mmap p start n k = .ok (r, k.setDir p d' m') ∧ (r = 0 ∨ r = -1) ∧
    (r = 0 → start.toNat + pgUp n.toInt.toNat * PGSIZE ≤ KERNBASE * PGSIZE ∧
      (∀ v, start.toNat / PGSIZE ≤ v → v < start.toNat / PGSIZE + pgUp n.toInt.toNat →
        d'.Pending v) ∧
      ∀ v, v < start.toNat / PGSIZE ∨ start.toNat / PGSIZE + pgUp n.toInt.toNat ≤ v →
        d'.entry v = d.entry v) ∧
    (r = -1 → Untouched d k.mem d' m')

/-- `munmap` returns 0, or -1 with nothing changed. -/
def MunmapExact (p : Slot) (start : UInt32) (n : Int32) (d : PageDir) (k : Kernel) : Prop :=
  ∃ r d' m', munmap p start n k = .ok (r, k.setDir p d' m') ∧ (r = 0 ∨ r = -1) ∧
    (r = -1 → Untouched d k.mem d' m')

/-- The range of `mmap` ends below `KERNBASE`, and either no page of it is present and there is memory
for the page tables it lacks, or all pages before the first present one are already marked as `mmap`
would mark them. -/
def MmapFits (start n : Nat) (d : PageDir) (m : Mem) : Prop :=
  start + pgUp n * PGSIZE ≤ KERNBASE * PGSIZE ∧
    (((∀ v, start / PGSIZE ≤ v → v < start / PGSIZE + pgUp n → (d.entry v).present = false) ∧
        missing (tablesFor (start / PGSIZE) (start / PGSIZE + pgUp n)) d ≤ m.pages) ∨
      ∃ u, start / PGSIZE ≤ u ∧ u < start / PGSIZE + pgUp n ∧ (d.entry u).present = true ∧
        ∀ v, start / PGSIZE ≤ v → v < u → d.entry v = lazyPte)

/-- Every page in the range of `munmap` has a page table, or all entries before the first page without
one are empty. -/
def MunmapFits (start n : Nat) (d : PageDir) : Prop :=
  (∀ v, start / PGSIZE ≤ v → v < start / PGSIZE + rangePages start n → d.HasTable v) ∨
    ∀ v, Visited d (start / PGSIZE) (rangePages start n) v → d.entry v = 0

lemma mmap_eq (hd : (k.mm p).pgdir = some d) (hr : RangeOk start.toNat n.toInt) :
    mmap p start n k = (do
      let (ok, d, m) ←
        mmapPages (rangePages start.toNat n.toInt.toNat) (start.toNat / PGSIZE) d k.mem
      .ok (if ok then 0 else -1, k.setDir p d m)) := by
  unfold mmap
  rw [if_pos hr, dir_eq hd]
  rfl

lemma munmap_eq (hd : (k.mm p).pgdir = some d) (hr : RangeOk start.toNat n.toInt) :
    munmap p start n k = (do
      let (ok, d, m) ←
        munmapPages (rangePages start.toNat n.toInt.toNat) (start.toNat / PGSIZE) d k.mem
      .ok (if ok then 0 else -1, k.setDir p d m)) := by
  unfold munmap
  rw [if_pos hr, dir_eq hd]
  rfl

/-- What is returned after the loop of `mmap` or `munmap`. -/
lemma exists_result_iff {x : Except Fault (Bool × PageDir × Mem)}
    {Q : Int → PageDir → Mem → Prop} :
    (∃ r d' m', (do
        let (ok, d, m) ← x
        .ok (if ok then 0 else -1, k.setDir p d m)) = .ok (r, k.setDir p d' m') ∧
        (r = 0 ∨ r = -1) ∧ Q r d' m') ↔
      ∃ ok d' m', x = .ok (ok, d', m') ∧ Q (if ok then 0 else -1) d' m' := by
  constructor
  · rintro ⟨r, d', m', h, -, hQ⟩
    obtain ⟨⟨ok, d₁, m₁⟩, hx, h⟩ := bind_eq_ok.mp h
    obtain ⟨hr, hk⟩ := Prod.mk.inj (Except.ok.inj h)
    obtain ⟨rfl, rfl⟩ := setDir_inj hk
    exact ⟨ok, d₁, m₁, hx, hr ▸ hQ⟩
  · rintro ⟨ok, d', m', rfl, hQ⟩
    exact ⟨_, d', m', rfl, by cases ok <;> simp, hQ⟩

/-- What the loop of `mmap` must do for the call to be exact. -/
lemma mmapExact_iff (hd : (k.mm p).pgdir = some d) (hr : RangeOk start.toNat n.toInt) :
    MmapExact p start n d k ↔ ∃ ok d' m',
      mmapPages (rangePages start.toNat n.toInt.toNat) (start.toNat / PGSIZE) d k.mem =
        .ok (ok, d', m') ∧
      (ok = true → start.toNat + pgUp n.toInt.toNat * PGSIZE ≤ KERNBASE * PGSIZE ∧
        (∀ v, start.toNat / PGSIZE ≤ v → v < start.toNat / PGSIZE + pgUp n.toInt.toNat →
          d'.Pending v) ∧
        ∀ v, v < start.toNat / PGSIZE ∨ start.toNat / PGSIZE + pgUp n.toInt.toNat ≤ v →
          d'.entry v = d.entry v) ∧
      (ok = false → Untouched d k.mem d' m') := by
  unfold MmapExact
  rw [mmap_eq hd hr, exists_result_iff]
  refine exists₃_congr fun ok d' m' => and_congr_right fun _ => ?_
  cases ok <;> simp

lemma munmapExact_iff (hd : (k.mm p).pgdir = some d) (hr : RangeOk start.toNat n.toInt) :
    MunmapExact p start n d k ↔ ∃ ok d' m',
      munmapPages (rangePages start.toNat n.toInt.toNat) (start.toNat / PGSIZE) d k.mem =
        .ok (ok, d', m') ∧ (ok = false → Untouched d k.mem d' m') := by
  unfold MunmapExact
  rw [munmap_eq hd hr, exists_result_iff]
  refine exists₃_congr fun ok d' m' => and_congr_right fun _ => ?_
  cases ok <;> simp

lemma mmap_fits_iff (hd : (k.mm p).pgdir = some d) (hr : RangeOk start.toNat n.toInt) :
    MmapExact p start n d k ↔ MmapFits start.toNat n.toInt.toNat d k.mem := by
  rw [mmapExact_iff hd hr]
  obtain ⟨-, halign, hend⟩ := hr
  by_cases hfit : start.toNat + pgUp n.toInt.toNat * PGSIZE ≤ KERNBASE * PGSIZE
  · obtain ⟨hpages, htop⟩ := rangePages_eq halign hfit
    rw [hpages, MmapFits, and_iff_right hfit]
    constructor
    · rintro ⟨ok, d', m', hloop, -, h1⟩
      cases ok with
      | true => exact Or.inl ((mmapPages_succeeds_iff htop).mp ⟨d', m', hloop⟩)
      | false =>
        obtain ⟨u, hlo, hhi, hp, hlazy⟩ := mmapPages_stops htop _ hloop rfl
        refine Or.inr ⟨u, hlo, hhi, hp, fun v hv hvu => ?_⟩
        rw [← (h1 rfl).1 v (by omega)]
        exact hlazy v hv hvu
    · rintro (hfree | ⟨u, hlo, hhi, hp, hlazy⟩)
      · obtain ⟨d', m', hloop⟩ := (mmapPages_succeeds_iff htop).mpr hfree
        obtain ⟨hin, hout⟩ := mmapPages_pending htop _ hloop rfl
        exact ⟨true, d', m', hloop, fun _ => ⟨hfit, hin, hout⟩, fun h => absurd h (by decide)⟩
      · obtain ⟨d', hloop, hsame⟩ := mmapPages_unchanged (m := k.mem) hlo hhi hp hlazy
        exact ⟨false, d', k.mem, hloop, fun h => absurd h (by decide),
          fun _ => ⟨fun v _ => hsame v, fun _ => le_rfl⟩⟩
  · -- the end of the range wraps around
    have hn : n.toInt.toNat < 2 ^ 31 := by
      have := n.toInt_lt
      omega
    rw [rangePages_eq_zero hend start.toNat_lt hn hfit]
    refine iff_of_false ?_ fun h => hfit h.1
    rintro ⟨ok, d', m', hloop, h0, -⟩
    cases hloop
    exact hfit (h0 rfl).1

lemma munmap_fits_iff (hd : (k.mm p).pgdir = some d) (hr : RangeOk start.toNat n.toInt)
    (hin : ∀ v < KERNBASE, (d.entry v).present = true → k.mem.InRange (d.entry v).ppn) :
    MunmapExact p start n d k ↔ MunmapFits start.toNat n.toInt.toNat d := by
  rw [munmapExact_iff hd hr]
  constructor
  · rintro ⟨ok, d', m', hloop, h1⟩
    cases ok with
    | true =>
      refine Or.inl fun v hlo hhi => ?_
      by_contra hno
      exact absurd ((munmapPages_fails_iff _ hloop).mpr ⟨v, hlo, hhi, hno⟩) (by simp)
    | false =>
      refine Or.inr fun v hv => ?_
      have hle : v < KERNBASE := by
        rcases range_le hr with h | h
        · have := hv.2.1
          omega
        · have := hv.1
          have := hv.2.1
          omega
      rw [← (h1 rfl).1 v hle]
      exact (munmapPages_range hr _ hloop).visited v hv
  · rintro (htables | hzero)
    · have hreturns : ∃ r, munmapPages (rangePages start.toNat n.toInt.toNat)
          (start.toNat / PGSIZE) d k.mem = .ok r := by
        rcases range_le hr with h | h
        · exact munmapPages_returns h hin
        · rw [h]
          exact ⟨_, rfl⟩
      obtain ⟨⟨ok, d', m'⟩, hloop⟩ := hreturns
      refine ⟨ok, d', m', hloop, fun hok => ?_⟩
      obtain ⟨w, hlo, hhi, hno⟩ := (munmapPages_fails_iff _ hloop).mp hok
      exact absurd (htables w hlo hhi) hno
    · obtain ⟨ok, d', hloop, hsame⟩ := munmapPages_unchanged (m := k.mem) hzero
      exact ⟨ok, d', k.mem, hloop, fun _ => ⟨fun v _ => hsame v, fun _ => le_rfl⟩⟩

/-- `mmap` and `munmap`, with arguments that pass their checks, are exact exactly if their ranges are
ones they can handle from the first page to the last. -/
theorem mapping_exact_iff (hd : (k.mm p).pgdir = some d) (hr : RangeOk start.toNat n.toInt)
    (hin : ∀ v < KERNBASE, (d.entry v).present = true → k.mem.InRange (d.entry v).ppn) :
    (MmapExact p start n d k ↔ MmapFits start.toNat n.toInt.toNat d k.mem) ∧
      (MunmapExact p start n d k ↔ MunmapFits start.toNat n.toInt.toNat d) :=
  ⟨mmap_fits_iff hd hr, munmap_fits_iff hd hr hin⟩

/-- A process of one page maps page 1, and unmaps it. -/
theorem mapping_exact_second_page :
    MmapExact 0 4096 4096 firstMapped (lone firstMapped PGSIZE ⟨none, 0⟩ zeroMem) ∧
      MunmapExact 0 4096 4096 firstMapped (lone firstMapped PGSIZE ⟨none, 0⟩ zeroMem) := by
  have hK : KERNBASE = 524288 := KERNBASE_eq
  have hend : ((4096 : UInt32).toNat + pgUp (4096 : Int32).toInt.toNat * PGSIZE) = 8192 := rfl
  have hrange : RangeOk (4096 : UInt32).toNat (4096 : Int32).toInt := by
    refine ⟨by decide, by decide, ?_⟩
    rw [hK]
    decide
  have hexact := mapping_exact_iff (p := 0) (k := lone firstMapped PGSIZE ⟨none, 0⟩ zeroMem)
    (d := firstMapped) rfl hrange fun v _ hp => by
      rw [firstMapped_entry] at hp ⊢
      split_ifs at hp ⊢
      exact ⟨by decide, by decide⟩
  refine ⟨hexact.1.mpr ⟨by rw [hend, hK]; decide, Or.inl ⟨fun v h1 h2 => ?_, ?_⟩⟩,
    hexact.2.mpr (Or.inl fun v h1 h2 => ?_)⟩
  · change 1 ≤ v at h1
    rw [firstMapped_entry, if_neg (by omega)]
    rfl
  · decide
  · change v < 2 at h2
    change 1 ≤ v at h1
    obtain rfl : v = 1 := by omega
    rfl

/-- `mmap(0xFFFFF000, 4096)` returns 0 without mapping anything. In a process of two pages of which
the second is present, `mmap(0, 8192)` fails and leaves page 0 lazy. And `munmap(0x3FF000, 8192)` of a
process whose first page table is the only one fails after it has unmapped page 1023. -/
theorem mapping_not_exact :
    (∃ k', mmap 0 0xFFFFF000 4096 (lone firstMapped PGSIZE ⟨none, 0⟩ zeroMem) = .ok (0, k')) ∧
    (∃ k' d', mmap 0 0 8192 (lone (oneTable fun j => if j = 1 then (⟨true, true⟩ : Perm).pte 301 else 0)
        PGSIZE ⟨none, 0⟩ zeroMem) = .ok (-1, k') ∧ (k'.mm 0).pgdir = some d' ∧ d'.Pending 0) ∧
    ∃ k', munmap 0 0x3FF000 8192 (lone (oneTable fun j => if j = 1023 then
        (⟨true, true⟩ : Perm).pte 301 else 0) PGSIZE ⟨none, 0⟩ zeroMem) = .ok (-1, k') ∧
      k'.mem.freelist = [301] := by
  have hK : KERNBASE = 524288 := KERNBASE_eq
  have hwrap : rangePages (0xFFFFF000 : UInt32).toNat (4096 : Int32).toInt.toNat = 0 := by decide
  have htwo : rangePages (0 : UInt32).toNat (8192 : Int32).toInt.toNat = 2 := by decide
  have hlast : rangePages (0x3FF000 : UInt32).toNat (8192 : Int32).toInt.toNat = 2 := by decide
  have hpage : (0x3FF000 : UInt32).toNat / PGSIZE = 1023 := by decide
  refine ⟨?_, ?_, ?_⟩
  · rw [mmap_eq rfl ⟨by decide, by decide, by rw [hK]; decide⟩, hwrap]
    exact ⟨_, rfl⟩
  · rw [mmap_eq rfl ⟨by decide, by decide, by rw [hK]; decide⟩, htwo]
    exact ⟨_, _, rfl, rfl, rfl, rfl⟩
  · rw [munmap_eq rfl ⟨by decide, by decide, by rw [hK]; decide⟩, hlast, hpage]
    exact ⟨_, rfl, rfl⟩

end Kernel

end Xv6
