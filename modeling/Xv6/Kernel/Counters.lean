import Mathlib.Algebra.BigOperators.Group.Finset.Piecewise
import Xv6.Kernel.Mapping

/-!
# The page counters

`numvp` and `numpp` count the mapped and the present entries below `KERNBASE`, page table by page
table. What `mmap`, `munmap` and a page fault do to them depends only on the entries of the range
they work on: both counters are cardinalities of sets of pages, and a call that changes entries only
inside a set of pages trades the count of that set before for its count after.
-/

namespace Xv6

open Fallible Count TransitionSystem

variable {d d' : PageDir} {m m' : Mem} {test : Pte → Bool} {s : Finset Nat} {v w n : Nat}

/-! ### Counting pages of a set -/

/-- How many pages of a set lie below `KERNBASE` and have an entry that passes a test. -/
def userPages (test : Pte → Bool) (d : PageDir) (s : Finset Nat) : Nat :=
  (s.filter fun v => v < KERNBASE ∧ test (d.entry v) = true).card

/-- Counting table by table is counting pages. -/
lemma countEntries_eq (h0 : test 0 = false) (d : PageDir) :
    countEntries test d = userPages test d (Finset.range KERNBASE) := by
  have hpages : userPages test d (Finset.range KERNBASE) =
      ∑ v ∈ Finset.range KERNBASE, if test (d.entry v) = true then 1 else 0 := by
    rw [userPages, Finset.card_filter]
    refine Finset.sum_congr rfl fun v hv => ?_
    simp only [Finset.mem_range.mp hv, true_and]
  rw [hpages, KERNBASE_eq, sum_range_blocks, countEntries, sum_map_range]
  refine Finset.sum_congr rfl fun i _ => ?_
  have hblock : ∀ j ∈ Finset.range NPTENTRIES,
      (if test (d.entry (i * NPTENTRIES + j)) = true then 1 else 0) =
        if test ((d.pde i).elim 0 fun t => t.pte j) = true then 1 else 0 := by
    intro j hj
    rw [PageDir.entry_block (Finset.mem_range.mp hj)]
  rw [Finset.sum_congr rfl hblock, ← Finset.card_filter]
  cases d.pde i with
  | none => simp [h0]
  | some t =>
    change _ = (Multiset.filter (fun j => test (t.pte j) = true)
      (List.range NPTENTRIES : Multiset Nat)).card
    rw [Multiset.filter_coe, Multiset.coe_card]
    simp only [Bool.decide_eq_true]

/-- Pages of two directories that agree on the test. -/
lemma userPages_congr (h : ∀ v ∈ s, v < KERNBASE → test (d'.entry v) = test (d.entry v)) :
    userPages test d' s = userPages test d s := by
  unfold userPages
  congr 1
  refine Finset.filter_congr fun v hv => ?_
  constructor
  · rintro ⟨hlt, ht⟩
    exact ⟨hlt, h v hv hlt ▸ ht⟩
  · rintro ⟨hlt, ht⟩
    exact ⟨hlt, (h v hv hlt).symm ▸ ht⟩

lemma userPages_eq_zero (h : ∀ v ∈ s, v < KERNBASE → test (d.entry v) = false) :
    userPages test d s = 0 := by
  rw [userPages, Finset.card_eq_zero, Finset.filter_eq_empty_iff]
  rintro v hv ⟨hlt, ht⟩
  simp [h v hv hlt] at ht

lemma userPages_eq_card (h : ∀ v ∈ s, v < KERNBASE ∧ test (d.entry v) = true) :
    userPages test d s = s.card := by
  rw [userPages, Finset.filter_true_of_mem h]

/-- The pages of a set and the other pages. -/
lemma userPages_split (test : Pte → Bool) (d : PageDir) (s : Finset Nat) :
    userPages test d s + userPages test d (Finset.range KERNBASE \ s) =
      userPages test d (Finset.range KERNBASE) := by
  unfold userPages
  rw [← Finset.card_union_of_disjoint]
  · congr 1
    ext v
    simp only [Finset.mem_union, Finset.mem_filter, Finset.mem_sdiff, Finset.mem_range]
    tauto
  · refine Finset.disjoint_filter_filter ?_
    exact Finset.disjoint_sdiff

/-- A change of entries inside a set trades its count before for its count after. -/
lemma countEntries_trade (h0 : test 0 = false)
    (h : ∀ v < KERNBASE, v ∉ s → test (d'.entry v) = test (d.entry v)) :
    countEntries test d' + userPages test d s = countEntries test d + userPages test d' s := by
  have hrest : userPages test d' (Finset.range KERNBASE \ s) =
      userPages test d (Finset.range KERNBASE \ s) :=
    userPages_congr fun v hv hlt => h v hlt (Finset.mem_sdiff.mp hv).2
  rw [countEntries_eq h0, countEntries_eq h0, ← userPages_split test d s,
    ← userPages_split test d' s, hrest]
  omega

/-- Both counters after a change of entries inside a set. -/
lemma counters_trade (s : Finset Nat) (h : ∀ v < KERNBASE, v ∉ s → d'.entry v = d.entry v) :
    numvp d' + userPages Pte.mapped d s = numvp d + userPages Pte.mapped d' s ∧
      numpp d' + userPages Pte.present d s = numpp d + userPages Pte.present d' s := by
  have hvp : countEntries Pte.mapped d' + userPages Pte.mapped d s =
      countEntries Pte.mapped d + userPages Pte.mapped d' s :=
    countEntries_trade rfl fun v hv hs => by rw [h v hv hs]
  have hpp : countEntries Pte.present d' + userPages Pte.present d s =
      countEntries Pte.present d + userPages Pte.present d' s :=
    countEntries_trade rfl fun v hv hs => by rw [h v hv hs]
  unfold numvp numpp
  omega

/-- Both counters are the same if the entries agree on their tests. -/
lemma counters_congr (h : ∀ v < KERNBASE, (d'.entry v).mapped = (d.entry v).mapped ∧
    (d'.entry v).present = (d.entry v).present) : numvp d' = numvp d ∧ numpp d' = numpp d := by
  unfold numvp numpp
  rw [countEntries_eq rfl, countEntries_eq rfl, countEntries_eq rfl, countEntries_eq rfl]
  refine ⟨congrArg (· + 1) (userPages_congr fun v _ hv => (h v hv).1), ?_⟩
  exact congrArg (· + 1) (userPages_congr fun v _ hv => (h v hv).2)

lemma Pte.present_of_not_mapped {e : Pte} (h : e.mapped = false) : e.present = false :=
  (Bool.or_eq_false_iff.mp h).1

lemma numpp_le_numvp (d : PageDir) : numpp d ≤ numvp d := by
  unfold numpp numvp
  rw [countEntries_eq rfl, countEntries_eq rfl]
  refine Nat.succ_le_succ (Finset.card_le_card fun v hv => ?_)
  obtain ⟨hs, hlt, hp⟩ := Finset.mem_filter.mp hv
  exact Finset.mem_filter.mpr ⟨hs, hlt, by rw [Pte.mapped, hp, Bool.true_or]⟩

/-! ### The three loops -/

/-- The pages of `[start, start + PGROUNDUP(n))`. -/
def pageRange (start : UInt32) (n : Int32) : Finset Nat :=
  Finset.Ico (start.toNat / PGSIZE) (start.toNat / PGSIZE + pgUp n.toInt.toNat)

/-- Pages outside its range are of no concern to `mmap`, also if it fails. -/
lemma mmapPages_frame (hv : v + n ≤ KERNBASE) :
    Ensures (mmapPages n v d m) fun r => ∀ w, w < v ∨ v + n ≤ w → r.2.1.entry w = d.entry w := by
  induction n generalizing d m v with
  | zero => exact .ok fun _ _ => rfl
  | succ n ih =>
    unfold mmapPages
    split
    · exact .error
    · next d₁ m₁ hwalk =>
      obtain ⟨hext, -, -⟩ := walkpgdir_extends (lt_NVPAGES (by omega)) hwalk
      split
      · exact .ok fun w _ => hext.entry w
      · refine (ih (by omega)).mono fun r hr w hw => ?_
        rw [hr w (by omega), PageDir.entry_set_ne (by omega), hext.entry]

/-- A page that was pending counts as mapped before and after it is filled in. -/
lemma pageFault_counts (hv : v < KERNBASE) (hpend : d.Pending v) :
    Ensures (pageFault d v m) fun r => r.1 = true →
      numpp r.2.1 = numpp d + 1 ∧ numvp r.2.1 = numvp d := by
  refine pageFault_entries.mono ?_
  rintro ⟨ok, d', m'⟩ ⟨hrest, hpresent⟩ hok
  have hp := hpresent hok
  have hmem : ∀ w ∈ ({v} : Finset Nat), w = v := fun w hw => Finset.mem_singleton.mp hw
  obtain ⟨hvp, hpp⟩ := counters_trade {v} fun w _ hw =>
    hrest w fun h => hw (Finset.mem_singleton.mpr h)
  have hlazy : (d.entry v).mapped = true := by rw [Pte.mapped, hpend.1, Bool.or_true]
  have hfilled : (d'.entry v).mapped = true := by rw [Pte.mapped, hp, Bool.true_or]
  rw [userPages_eq_zero fun w hw _ => by rw [hmem w hw, hpend.2],
    userPages_eq_card fun w hw => by rw [hmem w hw]; exact ⟨hv, hp⟩] at hpp
  rw [userPages_eq_card fun w hw => by rw [hmem w hw]; exact ⟨hv, hlazy⟩,
    userPages_eq_card fun w hw => by rw [hmem w hw]; exact ⟨hv, hfilled⟩] at hvp
  rw [Finset.card_singleton] at hpp hvp
  exact ⟨hpp, Nat.add_right_cancel hvp⟩

namespace Kernel

variable {k k' : Kernel} {p : Slot} {start : UInt32} {n : Int32} {lo hi : Nat}

lemma mem_pageRange : v ∈ pageRange start n ↔
    start.toNat / PGSIZE ≤ v ∧ v < start.toNat / PGSIZE + pgUp n.toInt.toNat := Finset.mem_Ico

/-- The call failed its checks, or it ran its loop. -/
lemma range_cases {r : Int} {x : Except Fault (Bool × PageDir × Mem)}
    {call : Except Fault (Int × Kernel)}
    (hrun : RangeOk start.toNat n.toInt → call = (do
      let (ok, d, m) ← x
      .ok (if ok then 0 else -1, k.setDir p d m)))
    (hfail : ¬ RangeOk start.toNat n.toInt → call = .ok (-1, k)) (h : call = .ok (r, k')) :
    (¬ RangeOk start.toNat n.toInt ∧ r = -1 ∧ k' = k) ∨
      (RangeOk start.toNat n.toInt ∧ ∃ ok d' m', x = .ok (ok, d', m') ∧
        r = (if ok then 0 else -1) ∧ k' = k.setDir p d' m') := by
  by_cases hr : RangeOk start.toNat n.toInt
  · rw [hrun hr] at h
    obtain ⟨⟨ok, d', m'⟩, hloop, h⟩ := bind_eq_ok.mp h
    cases h
    exact Or.inr ⟨hr, ok, d', m', hloop, rfl, rfl⟩
  · rw [hfail hr] at h
    cases h
    exact Or.inl ⟨hr, rfl, rfl⟩

lemma mmap_fails (hr : ¬ RangeOk start.toNat n.toInt) : mmap p start n k = .ok (-1, k) := if_neg hr

lemma munmap_fails (hr : ¬ RangeOk start.toNat n.toInt) : munmap p start n k = .ok (-1, k) :=
  if_neg hr

@[simp] lemma setDir_pgdir (k : Kernel) (p : Slot) (d : PageDir) (m : Mem) :
    ((k.setDir p d m).mm p).pgdir = some d := by
  simp [setDir, setMm]

/-- A range that ends below `KERNBASE`, page by page. -/
lemma pageRange_lt (halign : start.toNat % PGSIZE = 0)
    (hfit : start.toNat + pgUp n.toInt.toNat * PGSIZE ≤ KERNBASE * PGSIZE) :
    ∀ v ∈ pageRange start n, v < KERNBASE := by
  intro v hv
  have := (rangePages_eq halign hfit).2
  have := (mem_pageRange.mp hv).2
  omega

/-- What a completed `mmap` has done. -/
lemma mmap_completed (hd : (k.mm p).pgdir = some d) (h : mmap p start n k = .ok (0, k'))
    (hfit : start.toNat + pgUp n.toInt.toNat * PGSIZE ≤ KERNBASE * PGSIZE) :
    ∃ d', (k'.mm p).pgdir = some d' ∧ (∀ v ∈ pageRange start n, v < KERNBASE ∧ d'.Pending v) ∧
      ∀ v, v ∉ pageRange start n → d'.entry v = d.entry v := by
  rcases range_cases (mmap_eq hd) mmap_fails h with ⟨-, h0, -⟩ | ⟨hr, ok, d', m', hloop, h0, rfl⟩
  · exact absurd h0 (by decide)
  · obtain ⟨hpages, htop⟩ := rangePages_eq hr.2.1 hfit
    cases ok with
    | false => exact absurd h0 (by decide)
    | true =>
      rw [hpages] at hloop
      obtain ⟨hin, hout⟩ := mmapPages_pending htop _ hloop rfl
      refine ⟨d', setDir_pgdir .., fun v hv => ?_, fun v hv => hout v ?_⟩
      · exact ⟨pageRange_lt hr.2.1 hfit v hv,
          hin v (mem_pageRange.mp hv).1 (mem_pageRange.mp hv).2⟩
      · rw [mem_pageRange] at hv
        omega

/-- What a completed `munmap` has done below `KERNBASE`. -/
lemma munmap_completed (hd : (k.mm p).pgdir = some d) (h : munmap p start n k = .ok (0, k')) :
    ∃ d', (k'.mm p).pgdir = some d' ∧
      (∀ v ∈ pageRange start n, v < KERNBASE → d'.entry v = 0) ∧
      ∀ v < KERNBASE, v ∉ pageRange start n → d'.entry v = d.entry v := by
  rcases range_cases (munmap_eq hd) munmap_fails h with ⟨-, h0, -⟩ | ⟨hr, ok, d', m', hloop, h0, rfl⟩
  · exact absurd h0 (by decide)
  cases ok with
  | false => exact absurd h0 (by decide)
  | true =>
    refine ⟨d', setDir_pgdir .., ?_⟩
    have hun := munmapPages_range hr _ hloop
    by_cases hfit : start.toNat + pgUp n.toInt.toNat * PGSIZE ≤ KERNBASE * PGSIZE
    · obtain ⟨hpages, htop⟩ := rangePages_eq hr.2.1 hfit
      rw [hpages] at hun hloop
      have htable : ∀ u, start.toNat / PGSIZE ≤ u → u < start.toNat / PGSIZE + pgUp n.toInt.toNat →
          d.HasTable u := by
        intro u h1 h2
        by_contra hno
        exact absurd ((munmapPages_fails_iff _ hloop).mpr ⟨u, h1, h2, hno⟩) (by simp)
      constructor
      · intro v hv _
        obtain ⟨h1, h2⟩ := mem_pageRange.mp hv
        exact hun.visited v ⟨h1, h2, fun u hu hu' => htable u hu (by omega)⟩
      · intro v _ hv
        exact hun.rest v fun hvis => hv (mem_pageRange.mpr ⟨hvis.1, hvis.2.1⟩)
    · -- the end of the range wraps around: the whole range lies in the kernel's half
      have hn : n.toInt.toNat < 2 ^ 31 := by
        have := n.toInt_lt
        omega
      have hzero := rangePages_eq_zero hr.2.2 start.toNat_lt hn hfit
      have hhigh : KERNBASE ≤ start.toNat / PGSIZE := by
        have hend := hr.2.2
        have hK : KERNBASE = 524288 := KERNBASE_eq
        have hlt := start.toNat_lt
        simp only [rangeEnd, hK, pgUp, PGSIZE] at hfit hend hlt ⊢
        omega
      rw [hzero] at hun
      constructor
      · intro v hv hlt
        have := (mem_pageRange.mp hv).1
        omega
      · intro v _ _
        exact hun.rest v fun hvis => by
          have := hvis.1
          have := hvis.2.1
          omega

/-! ### Runs inside a region -/

/-- The calls by which process `p` maps, touches and unmaps pages from `lo` up to `hi`. -/
def Action.Within (p : Slot) (lo hi : Nat) : Action → Prop
  | .mmap q start n | .munmap q start n =>
    q = p ∧ ∀ v ∈ pageRange start n, lo ≤ v ∧ v < hi
  | .fault q addr => q = p ∧ lo ≤ addr.toNat / PGSIZE ∧ addr.toNat / PGSIZE < hi
  | _ => False

/-- The directory of `p` agrees with `d` outside the region. -/
def SameOutside (p : Slot) (lo hi : Nat) (d : PageDir) (k : Kernel) : Prop :=
  ∃ d', (k.mm p).pgdir = some d' ∧ ∀ v < KERNBASE, v < lo ∨ hi ≤ v → d'.entry v = d.entry v

/-- One more change, inside a set of pages of the region. -/
lemma SameOutside.change {d₁ : PageDir} (hd : (k.mm p).pgdir = some d₁)
    (h : SameOutside p lo hi d k) (hd' : (k'.mm p).pgdir = some d')
    (hs : ∀ v ∈ s, lo ≤ v ∧ v < hi) (hrest : ∀ v < KERNBASE, v ∉ s → d'.entry v = d₁.entry v) :
    SameOutside p lo hi d k' := by
  obtain ⟨d₂, hd₂, hsame⟩ := h
  obtain rfl := Option.some.inj (hd.symm.trans hd₂)
  refine ⟨d', hd', fun v hv hout => ?_⟩
  rw [hrest v hv fun hmem => ?_, hsame v hv hout]
  have := hs v hmem
  omega

/-- The pages over which the loops run belong to the range. -/
lemma rangePages_le (hr : RangeOk start.toNat n.toInt) :
    rangePages start.toNat n.toInt.toNat ≤ pgUp n.toInt.toNat := by
  by_cases hfit : start.toNat + pgUp n.toInt.toNat * PGSIZE ≤ KERNBASE * PGSIZE
  · exact (rangePages_eq hr.2.1 hfit).1.le
  · have hn : n.toInt.toNat < 2 ^ 31 := by
      have := n.toInt_lt
      omega
    rw [rangePages_eq_zero hr.2.2 start.toNat_lt hn hfit]
    exact Nat.zero_le _

lemma mmap_frame {r : Int} (hd : (k.mm p).pgdir = some d) (h : mmap p start n k = .ok (r, k')) :
    ∃ d', (k'.mm p).pgdir = some d' ∧ ∀ v, v ∉ pageRange start n → d'.entry v = d.entry v := by
  rcases range_cases (mmap_eq hd) mmap_fails h with ⟨-, -, rfl⟩ | ⟨hr, ok, d', m', hloop, -, rfl⟩
  · exact ⟨d, hd, fun _ _ => rfl⟩
  · refine ⟨d', setDir_pgdir .., fun v hv => ?_⟩
    have hle := rangePages_le hr
    rw [mem_pageRange] at hv
    rcases range_le hr with htop | hzero
    · exact mmapPages_frame htop _ hloop v (by omega)
    · rw [hzero] at hloop
      cases hloop
      rfl

lemma munmap_frame {r : Int} (hd : (k.mm p).pgdir = some d) (h : munmap p start n k = .ok (r, k')) :
    ∃ d', (k'.mm p).pgdir = some d' ∧ ∀ v, v ∉ pageRange start n → d'.entry v = d.entry v := by
  rcases range_cases (munmap_eq hd) munmap_fails h with ⟨-, -, rfl⟩ | ⟨hr, ok, d', m', hloop, -, rfl⟩
  · exact ⟨d, hd, fun _ _ => rfl⟩
  · refine ⟨d', setDir_pgdir .., fun v hv => ?_⟩
    have hle := rangePages_le hr
    refine (munmapPages_range hr _ hloop).rest v fun hvis => hv (mem_pageRange.mpr ⟨hvis.1, ?_⟩)
    have := hvis.2.1
    omega

/-- A fault changes one entry, also if the process exits. -/
lemma fault_frame {r : Int} {addr : UInt32} (hlive : k.Live p) (hd : (k.mm p).pgdir = some d)
    (h : fault p addr k = .ok (r, k')) :
    ∃ d', (k'.mm p).pgdir = some d' ∧ ∀ v, v ≠ addr.toNat / PGSIZE → d'.entry v = d.entry v := by
  cases fault_ensures hlive _ h with
  | handled hd₁ hfault =>
    obtain rfl := Option.some.inj (hd.symm.trans hd₁)
    exact ⟨_, setDir_pgdir .., (pageFault_entries _ hfault).1⟩
  | exited hd₁ hfault harmless =>
    obtain rfl := Option.some.inj (hd.symm.trans hd₁)
    refine ⟨_, ?_, (pageFault_entries _ hfault).1⟩
    rw [harmless.only.pgdir]
    exact setDir_pgdir ..

/-- A call inside the region changes nothing outside. -/
lemma SameOutside.step {a : Action} (h : SameOutside p lo hi d k)
    (hstep : Step (Action.Within p lo hi) k a k') : SameOutside p lo hi d k' := by
  obtain ⟨hwithin, henabled, r, hperform⟩ := hstep
  obtain ⟨d₁, hd₁, -⟩ := id h
  cases a with
  | mmap q start n =>
    obtain ⟨rfl, hin⟩ := hwithin
    obtain ⟨d', hd', hrest⟩ := mmap_frame hd₁ hperform
    exact h.change hd₁ hd' hin fun v _ => hrest v
  | munmap q start n =>
    obtain ⟨rfl, hin⟩ := hwithin
    obtain ⟨d', hd', hrest⟩ := munmap_frame hd₁ hperform
    exact h.change hd₁ hd' hin fun v _ => hrest v
  | fault q addr =>
    obtain ⟨rfl, hin⟩ := hwithin
    have hlive : k.Live q := by
      rw [Live, henabled.1 q rfl]
      decide
    obtain ⟨d', hd', hrest⟩ := fault_frame hlive hd₁ hperform
    refine h.change (s := {addr.toNat / PGSIZE}) hd₁ hd' (fun v hv => ?_) fun v _ hv => ?_
    · rwa [Finset.mem_singleton.mp hv]
    · exact hrest v fun heq => hv (Finset.mem_singleton.mpr heq)
  | _ => exact hwithin.elim

lemma SameOutside.run {tr : List (Kernel × Action)} (hd : (k.mm p).pgdir = some d)
    (hrun : Run (Step (Action.Within p lo hi)) k tr k') : SameOutside p lo hi d k' := by
  induction hrun with
  | refl => exact ⟨d, hd, fun _ _ _ => rfl⟩
  | tail _ hstep ih => exact ih.step hstep

/-- Nothing of the region is mapped. -/
def Vacant (lo hi : Nat) (d : PageDir) : Prop :=
  ∀ v, lo ≤ v → v < hi → (d.entry v).mapped = false

/-- The counters are back where they were if nothing of the region is mapped any more. -/
lemma counters_restored {tr : List (Kernel × Action)} (hd : (k.mm p).pgdir = some d)
    (hvacant : Vacant lo hi d) (hrun : Run (Step (Action.Within p lo hi)) k tr k')
    (hd' : (k'.mm p).pgdir = some d') (hvacant' : Vacant lo hi d') :
    numvp d' = numvp d ∧ numpp d' = numpp d := by
  obtain ⟨d₂, hd₂, hsame⟩ := SameOutside.run hd hrun
  obtain rfl := Option.some.inj (hd'.symm.trans hd₂)
  refine counters_congr fun v hv => ?_
  by_cases hin : lo ≤ v ∧ v < hi
  · have h1 := hvacant v hin.1 hin.2
    have h2 := hvacant' v hin.1 hin.2
    rw [h1, h2, Pte.present_of_not_mapped h1, Pte.present_of_not_mapped h2]
    exact ⟨rfl, rfl⟩
  · rw [hsame v hv (by omega)]
    exact ⟨rfl, rfl⟩

/-! ### What the calls do to the counters -/

lemma mmap_counts (hd : (k.mm p).pgdir = some d) (h : mmap p start n k = .ok (0, k'))
    (hfit : start.toNat + pgUp n.toInt.toNat * PGSIZE ≤ KERNBASE * PGSIZE)
    (hfree : ∀ v ∈ pageRange start n, (d.entry v).mapped = false) :
    ∃ d', (k'.mm p).pgdir = some d' ∧ numvp d' = numvp d + pgUp n.toInt.toNat ∧
      numpp d' = numpp d := by
  obtain ⟨d', hd', hin, hout⟩ := mmap_completed hd h hfit
  obtain ⟨hvp, hpp⟩ := counters_trade (pageRange start n) fun v _ hv => hout v hv
  rw [userPages_eq_zero fun v hv _ => hfree v hv, userPages_eq_card fun v hv => ?_] at hvp
  · rw [userPages_eq_zero fun v hv _ => Pte.present_of_not_mapped (hfree v hv),
      userPages_eq_zero fun v hv _ => (hin v hv).2.2] at hpp
    rw [pageRange, Nat.card_Ico, Nat.add_sub_cancel_left] at hvp
    exact ⟨d', hd', hvp, hpp⟩
  · obtain ⟨hlt, hpend⟩ := hin v hv
    rw [Pte.mapped, hpend.1, Bool.or_true]
    exact ⟨hlt, rfl⟩

lemma munmap_counts (hd : (k.mm p).pgdir = some d) (h : munmap p start n k = .ok (0, k')) :
    ∃ d', (k'.mm p).pgdir = some d' ∧
      numvp d' + userPages Pte.mapped d (pageRange start n) = numvp d ∧
      numpp d' + userPages Pte.present d (pageRange start n) = numpp d := by
  obtain ⟨d', hd', hin, hout⟩ := munmap_completed hd h
  obtain ⟨hvp, hpp⟩ := counters_trade (pageRange start n) hout
  rw [userPages_eq_zero (d := d') fun v hv hlt => by rw [hin v hv hlt]; rfl] at hvp hpp
  exact ⟨d', hd', hvp, hpp⟩

/-- A region is mapped, used and unmapped again. -/
lemma round_trip_counts {k₁ k₂ : Kernel} {tr : List (Kernel × Action)}
    (hd : (k.mm p).pgdir = some d) (hmmap : mmap p start n k = .ok (0, k₁))
    (hfit : start.toNat + pgUp n.toInt.toNat * PGSIZE ≤ KERNBASE * PGSIZE)
    (hfree : ∀ v ∈ pageRange start n, (d.entry v).mapped = false)
    (hrun : Run (Step (Action.Within p (start.toNat / PGSIZE)
      (start.toNat / PGSIZE + pgUp n.toInt.toNat))) k₁ tr k₂)
    (hmunmap : munmap p start n k₂ = .ok (0, k')) :
    ∃ d', (k'.mm p).pgdir = some d' ∧ numvp d' = numvp d ∧ numpp d' = numpp d := by
  obtain ⟨d₁, hd₁, hpend, hout₁⟩ := mmap_completed hd hmmap hfit
  obtain ⟨d₂, hd₂, hout₂⟩ := SameOutside.run hd₁ hrun
  obtain ⟨d₃, hd₃, hzero, hout₃⟩ := munmap_completed hd₂ hmunmap
  refine ⟨d₃, hd₃, counters_congr fun v hv => ?_⟩
  by_cases hin : v ∈ pageRange start n
  · have h1 := hfree v hin
    rw [hzero v hin hv, h1, Pte.present_of_not_mapped h1]
    exact ⟨rfl, rfl⟩
  · have hmem := mem_pageRange.not.mp hin
    rw [hout₃ v hv hin, hout₂ v hv (by omega), hout₁ v hin]
    exact ⟨rfl, rfl⟩

/-- A directory in which the last page of the address space is mapped, as it is in every directory
of a process: it belongs to the memory-mapped devices. -/
def lastMapped : PageDir :=
  ⟨300, fun i => if i = 1023 then
    some ⟨301, fun j => if j = 1023 then (⟨true, false⟩ : Perm).pte 0xFFFFF else 0⟩ else none⟩

end Kernel

end Xv6
