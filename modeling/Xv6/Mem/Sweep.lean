import Xv6.Mem.Shrink

/-!
# The sweep over an address space

The loop of `deallocuvm` on 32-bit addresses, as the source runs it, with the addresses at which it
finds a page table. It does what `deallocPages` does on page numbers, which never wrap around.
-/

namespace Xv6

open Fallible

/-- `PDX(a)` -/
def PDX (a : Nat) : Nat := a / 2 ^ 22 % 2 ^ 10

/-- `PGADDR(d, t, o)` -/
def PGADDR (d t o : Nat) : Nat := (d * 2 ^ 22 + t * 2 ^ 12 + o) % 2 ^ 32

/-- `PGROUNDUP(sz)` -/
def PGROUNDUP (sz : Nat) : Nat := (sz + (PGSIZE - 1)) % 2 ^ 32 / PGSIZE * PGSIZE

/-- What the loop of `deallocuvm` does to a page whose entry is `e`. -/
def deallocPage (c : ShmField) (v : Nat) (e : Pte) (d : PageDir) (m : Mem) :
    Except Fault (PageDir × Mem) :=
  if c.Hits v then do
    let (_, m) ← m.shmRemove e.ppn
    pure (d, m)
  else if e.present then
    if e.ppn = 0 then .error (.panic "kfree")
    else do
      let m ← m.kfree e.ppn
      pure (d.set v 0, m)
  else .ok (d, m)

/-- The loop from address `a` on, if it ends within `n` iterations. -/
def deallocLoop (c : ShmField) (oldsz : Nat) :
    Nat → Nat → PageDir → Mem → Except Fault (Option (List Nat × PageDir × Mem))
  | 0, a, d, m => .ok (if a < oldsz then none else some ([], d, m))
  | n + 1, a, d, m =>
    if a < oldsz then
      match d.walk (a / PGSIZE) with
      | none =>
        if c.Hits (a / PGSIZE) then .error .nullDeref
        else
          -- the loop adds the page that is subtracted here
          deallocLoop c oldsz n
            (((PGADDR (PDX a + 1) 0 0 + (2 ^ 32 - PGSIZE)) % 2 ^ 32 + PGSIZE) % 2 ^ 32) d m
      | some e => do
        let (d, m) ← deallocPage c (a / PGSIZE) e d m
        let r ← deallocLoop c oldsz n ((a + PGSIZE) % 2 ^ 32) d m
        pure (r.map fun (l, x) => (a :: l, x))
    else .ok (some ([], d, m))

/-- The pages from `v` up to `stop` with a property, in increasing order. -/
def pagesFrom (P : Nat → Prop) [DecidablePred P] (v stop : Nat) : List Nat :=
  (List.range stop).filter fun w => v ≤ w ∧ P w

/-- The physical pages that are mapped from `v` up to `stop`. -/
def mappedFrom (d : PageDir) (v stop : Nat) : List Nat :=
  (pagesFrom (fun w => (d.entry w).present = true) v stop).map fun w => (d.entry w).ppn

variable {c : ShmField} {d : PageDir} {m : Mem} {n v w stop oldsz newsz : Nat}

/-! ### Lists of pages -/

section PagesFrom

variable {P Q : Nat → Prop} [DecidablePred P] [DecidablePred Q]

lemma pagesFrom_congr {v' : Nat} (h : ∀ w < stop, v ≤ w ∧ P w ↔ v' ≤ w ∧ Q w) :
    pagesFrom P v stop = pagesFrom Q v' stop :=
  List.filter_congr fun w hw => decide_eq_decide.mpr (h w (List.mem_range.mp hw))

lemma pagesFrom_of_le (h : stop ≤ v) : pagesFrom P v stop = [] :=
  List.filter_eq_nil_iff.mpr fun w hw => by
    have := List.mem_range.mp hw
    simp only [decide_eq_true_eq]
    omega

lemma pagesFrom_of_not (h : ¬P v) : pagesFrom P v stop = pagesFrom P (v + 1) stop :=
  pagesFrom_congr fun w _ => by
    constructor
    · rintro ⟨hw, hp⟩
      exact ⟨Nat.lt_of_le_of_ne hw fun e => h (e ▸ hp), hp⟩
    · exact fun ⟨hw, hp⟩ => ⟨Nat.le_of_succ_le hw, hp⟩

lemma pagesFrom_of (h : P v) (hv : v < stop) :
    pagesFrom P v stop = v :: pagesFrom P (v + 1) stop := by
  induction stop with
  | zero => exact absurd hv (Nat.not_lt_zero v)
  | succ stop ih =>
    rw [pagesFrom, pagesFrom, List.range_succ, List.filter_append, List.filter_append]
    rcases Nat.lt_or_eq_of_le (Nat.le_of_lt_succ hv) with hlt | rfl
    · have hih := ih hlt
      rw [pagesFrom, pagesFrom] at hih
      rw [hih, List.cons_append]
      congr 2
      refine List.filter_congr fun w hw => decide_eq_decide.mpr ?_
      rw [List.mem_singleton] at hw
      subst hw
      exact and_congr_left fun _ => ⟨fun _ => hlt, fun _ => hlt.le⟩
    · have h1 := pagesFrom_of_le (P := P) (le_refl v)
      have h2 := pagesFrom_of_le (P := P) (Nat.le_succ v)
      rw [pagesFrom] at h1 h2
      rw [h1, h2]
      simp [h]

end PagesFrom

/-- The first page behind the region of a page table. -/
def nextTable (v : Nat) : Nat := (v / NPTENTRIES + 1) * NPTENTRIES

lemma hasTable_block (hv : v ≤ w) (hw : w < nextTable v) : d.HasTable w ↔ d.HasTable v := by
  have hdiv : w / NPTENTRIES = v / NPTENTRIES := by
    simp only [nextTable, NPTENTRIES] at hw ⊢
    omega
  rw [PageDir.HasTable, PageDir.HasTable, hdiv]

/-- The jump over a missing page table skips no page of another one. -/
lemma pagesFrom_block {P : Nat → Prop} [DecidablePred P] (hP : ∀ w, P w → d.HasTable w)
    (ht : ¬d.HasTable v) : pagesFrom P v stop = pagesFrom P (nextTable v) stop := by
  have hlt : v < nextTable v := lt_block v
  refine pagesFrom_congr fun w _ => and_congr_left fun hp => ⟨fun hv => ?_, fun hw => by omega⟩
  by_contra hw
  exact ht ((hasTable_block hv (by omega)).mp (hP w hp))

lemma mappedFrom_of (hp : (d.entry v).present = true) (hv : v < stop) :
    mappedFrom d v stop = (d.entry v).ppn :: mappedFrom d (v + 1) stop := by
  rw [mappedFrom, mappedFrom,
    pagesFrom_of (P := fun w => (d.entry w).present = true) hp hv, List.map_cons]

lemma mappedFrom_of_not (hp : (d.entry v).present ≠ true) :
    mappedFrom d v stop = mappedFrom d (v + 1) stop := by
  rw [mappedFrom, pagesFrom_of_not (P := fun w => (d.entry w).present = true) hp, mappedFrom]

lemma mappedFrom_block (ht : ¬d.HasTable v) :
    mappedFrom d v stop = mappedFrom d (nextTable v) stop := by
  rw [mappedFrom, pagesFrom_block (fun _ => PageDir.hasTable_of_present) ht, mappedFrom]

lemma mappedFrom_set : mappedFrom (d.set v 0) (v + 1) stop = mappedFrom d (v + 1) stop := by
  have hset : ∀ w, v + 1 ≤ w → (d.set v 0).entry w = d.entry w := fun w hw =>
    PageDir.entry_set_ne (by omega)
  have hpages : pagesFrom (fun w => ((d.set v 0).entry w).present = true) (v + 1) stop =
      pagesFrom (fun w => (d.entry w).present = true) (v + 1) stop :=
    pagesFrom_congr fun w _ => and_congr_right fun hw => by rw [hset w hw]
  rw [mappedFrom, hpages, mappedFrom]
  refine List.map_congr_left fun w hw => ?_
  have hfrom := (List.mem_filter.mp hw).2
  rw [decide_eq_true_eq] at hfrom
  rw [hset w hfrom.1]

/-! ### One page -/

lemma deallocPage_hasTable {e : Pte} : Ensures (deallocPage c v e d m) fun r =>
    ∀ w, r.1.HasTable w ↔ d.HasTable w := by
  intro r hr
  rw [deallocPage] at hr
  split_ifs at hr
  · obtain ⟨x, -, hx⟩ := bind_eq_ok.mp hr
    cases hx
    exact fun w => Iff.rfl
  · obtain ⟨x, -, hx⟩ := bind_eq_ok.mp hr
    cases hx
    exact fun w => PageDir.hasTable_set
  · cases hr
    exact fun w => Iff.rfl

lemma deallocPages_visit {e : Pte} (hv : v < stop) (he : d.walk v = some e) :
    deallocPages c (n + 1) v stop d m =
      deallocPage c v e d m >>= fun r => deallocPages c n (v + 1) stop r.1 r.2 := by
  rw [deallocPages, if_pos hv, he, deallocPage]
  dsimp only
  split_ifs
  · cases m.shmRemove e.ppn <;> rfl
  · rfl
  · cases m.kfree e.ppn <;> rfl
  · rfl

lemma deallocPages_jump (hv : v < stop) (hhit : ¬c.Hits v) (he : d.walk v = none) :
    deallocPages c (n + 1) v stop d m = deallocPages c n (nextTable v) stop d m := by
  rw [deallocPages, if_pos hv, if_neg hhit, he, nextTable]

/-! ### The loop -/

lemma next_address (hv : v < KERNBASE) :
    ((PGADDR (PDX (v * PGSIZE) + 1) 0 0 + (2 ^ 32 - PGSIZE)) % 2 ^ 32 + PGSIZE) % 2 ^ 32 =
      nextTable v * PGSIZE := by
  rw [KERNBASE_eq] at hv
  simp only [PGADDR, PDX, nextTable, NPTENTRIES, PGSIZE] at hv ⊢
  omega

/-- On addresses the loop does what it does on page numbers: no address wraps around. -/
lemma deallocLoop_eq (hold : oldsz ≤ KERNBASE * PGSIZE) (hv : v ≤ KERNBASE)
    (hn : pgUp oldsz ≤ v + n) : deallocLoop c oldsz n (v * PGSIZE) d m =
      (deallocPages c n v (pgUp oldsz) d m).map fun r =>
        some ((pagesFrom d.HasTable v (pgUp oldsz)).map (· * PGSIZE), r) := by
  have hlt : ∀ v, v * PGSIZE < oldsz ↔ v < pgUp oldsz := fun v => by
    simp only [pgUp, PGSIZE]
    omega
  have hstop : pgUp oldsz ≤ KERNBASE := (pgUp_mono hold).trans_eq (pgUp_mul KERNBASE)
  induction n generalizing v d m with
  | zero =>
    rw [deallocLoop, if_neg fun h => absurd ((hlt v).mp h) (by omega), deallocPages,
      pagesFrom_of_le (by omega)]
    rfl
  | succ n ih =>
    by_cases hin : v < pgUp oldsz
    · have hdiv : v * PGSIZE / PGSIZE = v := Nat.mul_div_cancel v (by decide)
      rw [deallocLoop, if_pos ((hlt v).mpr hin), hdiv]
      cases he : d.walk v with
      | none =>
        have ht := PageDir.walk_eq_none_iff.mp he
        dsimp only
        by_cases hhit : c.Hits v
        · rw [if_pos hhit, deallocPages, if_pos hin, if_pos hhit, he]
          rfl
        · have hnext : nextTable v ≤ KERNBASE := by
            have hk := hin.trans_le hstop
            rw [KERNBASE_eq] at hk ⊢
            simp only [nextTable, NPTENTRIES] at hk ⊢
            omega
          have hbelow : v < nextTable v := lt_block v
          rw [if_neg hhit, next_address (hin.trans_le hstop), ih hnext (by omega),
            deallocPages_jump hin hhit he, pagesFrom_block (fun _ h => h) ht]
      | some e =>
        have ht := (PageDir.walk_eq_some_iff.mp he).1
        rw [deallocPages_visit hin he, pagesFrom_of ht hin]
        dsimp only
        cases hr : deallocPage c v e d m with
        | error f => rfl
        | ok r =>
          have haddr : (v * PGSIZE + PGSIZE) % 2 ^ 32 = (v + 1) * PGSIZE := by
            have hk := hin.trans_le hstop
            rw [KERNBASE_eq] at hk
            simp only [NPTENTRIES, PGSIZE] at hk ⊢
            omega
          have htables : pagesFrom r.1.HasTable (v + 1) (pgUp oldsz) =
              pagesFrom d.HasTable (v + 1) (pgUp oldsz) :=
            pagesFrom_congr fun w _ => and_congr_right fun _ => deallocPage_hasTable r hr w
          rw [ok_bind, ok_bind, haddr, ih (by omega) (by omega), htables]
          cases deallocPages c n (v + 1) (pgUp oldsz) r.1 r.2 <;> rfl
    · rw [deallocLoop, if_neg fun h => hin ((hlt v).mp h), deallocPages, if_neg hin,
        pagesFrom_of_le (by omega)]
      rfl

/-! ### What is freed -/

/-- A directory and a memory after the mapped pages from `v` up to `stop` were put on the free list,
the last one first. -/
structure Swept (v stop : Nat) (d : PageDir) (m : Mem) (d' : PageDir) (m' : Mem) : Prop where
  freelist : m'.freelist = (mappedFrom d v stop).reverse ++ m.freelist
  layout : m'.layout = m.layout
  page : d'.page = d.page
  tables : ∀ i, (d'.pde i).map PageTable.page = (d.pde i).map PageTable.page

lemma page_set {e : Pte} (i : Nat) :
    ((d.set v e).pde i).map PageTable.page = (d.pde i).map PageTable.page := by
  rw [PageDir.set]
  split
  · next t ht =>
    dsimp only
    by_cases hi : i = v / NPTENTRIES
    · subst hi
      rw [Function.update_self, ht]
      rfl
    · rw [Function.update_of_ne hi]
  · rfl

lemma deallocPages_swept (hc : ∀ v, ¬c.Hits v)
    (hin : ∀ w, v ≤ w → w < stop → (d.entry w).present = true → m.InRange (d.entry w).ppn)
    (hn : stop ≤ v + n) :
    ∃ r, deallocPages c n v stop d m = .ok r ∧ Swept v stop d m r.1 r.2 := by
  induction n generalizing v d m with
  | zero =>
    refine ⟨(d, m), rfl, ?_, rfl, rfl, fun _ => rfl⟩
    rw [mappedFrom, pagesFrom_of_le (by omega)]
    rfl
  | succ n ih =>
    by_cases hv : v < stop
    · cases he : d.walk v with
      | none =>
        have hlt : v < nextTable v := lt_block v
        obtain ⟨r, hr, hs⟩ := ih (v := nextTable v) (fun w hw => hin w (by omega)) (by omega)
        refine ⟨r, deallocPages_jump hv (hc v) he ▸ hr, ?_, hs.layout, hs.page, hs.tables⟩
        rw [mappedFrom_block (PageDir.walk_eq_none_iff.mp he), hs.freelist]
      | some e =>
        obtain ⟨ht, rfl⟩ := PageDir.walk_eq_some_iff.mp he
        rw [deallocPages_visit hv he, deallocPage, if_neg (hc v)]
        by_cases hp : (d.entry v).present = true
        · have hy := hin v le_rfl hv hp
          rw [if_pos hp, if_neg hy.ne_zero, Mem.kfree_eq_ok hy]
          obtain ⟨r, hr, hs⟩ := ih (v := v + 1) (d := d.set v 0)
            (m := { m.junk (d.entry v).ppn with freelist := (d.entry v).ppn :: m.freelist })
            (fun w hw hws => by
              rw [PageDir.entry_set_ne (by omega)]
              exact hin w (by omega) hws) (by omega)
          refine ⟨r, hr, ?_, hs.layout, ?_, fun i => (hs.tables i).trans (page_set i)⟩
          · rw [hs.freelist, mappedFrom_set, mappedFrom_of hp hv]
            simp
          · rw [hs.page, PageDir.set]
            split <;> rfl
        · rw [if_neg hp]
          obtain ⟨r, hr, hs⟩ := ih (v := v + 1) (fun w hw => hin w (by omega)) (by omega)
          refine ⟨r, hr, ?_, hs.layout, hs.page, hs.tables⟩
          rw [hs.freelist, mappedFrom_of_not hp]
    · refine ⟨(d, m), by rw [deallocPages, if_neg hv], ?_, rfl, rfl, fun _ => rfl⟩
      rw [mappedFrom, pagesFrom_of_le (by omega)]
      rfl

lemma freeTables_freelist (l : List Nat) (h : ∀ i ∈ l, ∀ t, d.pde i = some t → m.InRange t.page) :
    ∃ m', freeTables d l m = .ok m' ∧ m'.layout = m.layout ∧ m'.freelist =
      (l.filterMap fun i => (d.pde i).map PageTable.page).reverse ++ m.freelist := by
  induction l generalizing m with
  | nil => exact ⟨m, rfl, rfl, rfl⟩
  | cons i l ih =>
    have hl := fun j hj => h j (List.mem_cons_of_mem i hj)
    cases ht : d.pde i with
    | none =>
      obtain ⟨m', hm', hlay, hfree⟩ := ih hl
      refine ⟨m', by rw [freeTables, ht, hm'], hlay, ?_⟩
      rw [hfree, List.filterMap_cons, ht]
      rfl
    | some t =>
      obtain ⟨m', hm', hlay, hfree⟩ :=
        ih (m := { m.junk t.page with freelist := t.page :: m.freelist }) hl
      refine ⟨m', ?_, hlay, ?_⟩
      · rw [freeTables, ht]
        dsimp only
        rw [Mem.kfree_eq_ok (h i List.mem_cons_self t ht)]
        exact hm'
      · rw [hfree, List.filterMap_cons, ht]
        simp

/-- For a current process without a shared page, `deallocuvm` ends, comes to every page of its range
that has a page table once and in increasing order, clears the entries that are present there and
puts their pages on the free list; and `freevm` puts there the pages below `KERNBASE`, those of the
page tables and the directory, each once for each reference. -/
theorem deallocuvm_sweeps (c : ShmField) (d : PageDir) (m : Mem) (oldsz newsz : Nat)
    (hc : c.idx = none) (hle : newsz ≤ oldsz) (hold : oldsz ≤ KERNBASE * PGSIZE)
    (hin : ∀ v < KERNBASE, (d.entry v).present = true → m.InRange (d.entry v).ppn) :
    (∃ n d' m', deallocLoop c oldsz n (PGROUNDUP newsz) d m = .ok (some
        ((pagesFrom d.HasTable (pgUp newsz) (pgUp oldsz)).map (· * PGSIZE), d', m')) ∧
      deallocuvm c d oldsz newsz m = .ok (newsz, d', m') ∧
      (∀ v, d'.entry v = if pgUp newsz ≤ v ∧ v < pgUp oldsz ∧ (d.entry v).present = true then 0
        else d.entry v) ∧
      m'.freelist = (mappedFrom d (pgUp newsz) (pgUp oldsz)).reverse ++ m.freelist) ∧
    ((∀ i < NPDENTRIES, ∀ t, d.pde i = some t → m.InRange t.page) → m.InRange d.page →
      ∃ m', freevm c d m = .ok m' ∧ m'.freelist =
        d.page :: ((List.range NPDENTRIES).filterMap fun i => (d.pde i).map PageTable.page).reverse
          ++ ((mappedFrom d 0 KERNBASE).reverse ++ m.freelist)) := by
  have hhit : ∀ v, ¬c.Hits v := fun v h => h.1 hc
  have hstop : pgUp oldsz ≤ KERNBASE := (pgUp_mono hold).trans_eq (pgUp_mul KERNBASE)
  have hnew : pgUp newsz ≤ pgUp oldsz := pgUp_mono hle
  constructor
  · obtain ⟨⟨d', m'⟩, hr, hs⟩ := deallocPages_swept (n := pgUp oldsz) (v := pgUp newsz) hhit
      (fun w _ hw => hin w (hw.trans_le hstop)) (Nat.le_add_left _ _)
    have hround : PGROUNDUP newsz = pgUp newsz * PGSIZE := by
      rw [KERNBASE_eq] at hold
      simp only [PGROUNDUP, pgUp, PGSIZE, NPTENTRIES] at hold ⊢
      omega
    refine ⟨pgUp oldsz, d', m', ?_, ?_, fun v => ?_, hs.freelist⟩
    · rw [hround, deallocLoop_eq hold (hnew.trans hstop) (Nat.le_add_left _ _), hr]
      rfl
    · rw [deallocuvm]
      split_ifs with hge
      · obtain rfl := le_antisymm hle hge
        have hnone : deallocPages c (pgUp newsz) (pgUp newsz) (pgUp newsz) d m = .ok (d, m) := by
          cases hk : pgUp newsz with
          | zero => rfl
          | succ k => rw [deallocPages, if_neg (Nat.lt_irrefl _)]
        rw [hnone] at hr
        cases hr
        rfl
      · rw [hr]
        rfl
    · rw [deallocPages_emptied (Nat.le_add_left _ _) _ hr v]
      simp only [hhit, not_false_eq_true, true_and]
  · intro htables hpage
    obtain ⟨⟨d₁, m₁⟩, h₁, hs⟩ := deallocPages_swept (n := KERNBASE) (v := 0) hhit
      (fun w _ hw => hin w hw) (Nat.le_add_left _ _)
    have hpages : ∀ i t, d₁.pde i = some t → ∃ t', d.pde i = some t' ∧ t'.page = t.page := by
      intro i t ht
      have hmap := hs.tables i
      rw [ht, Option.map_some] at hmap
      exact Option.map_eq_some_iff.mp hmap.symm
    obtain ⟨m₂, h₂, hlay, hfree⟩ := freeTables_freelist (d := d₁) (m := m₁) (List.range NPDENTRIES)
      fun i hi t ht => by
        obtain ⟨t', ht', hpage⟩ := hpages i t ht
        exact hpage ▸ (htables i (List.mem_range.mp hi) t' ht').congr hs.layout
    have hdir : m₂.InRange d₁.page := hs.page ▸ hpage.congr (hlay.trans hs.layout)
    have hdealloc : deallocuvm c d (KERNBASE * PGSIZE) 0 m = .ok (0, d₁, m₁) := by
      rw [deallocuvm, if_neg (by rw [KERNBASE_eq]; decide), pgUp_mul, show pgUp 0 = 0 from rfl, h₁]
      rfl
    refine ⟨_, bind_eq_ok.mpr ⟨_, hdealloc, bind_eq_ok.mpr ⟨_, h₂, Mem.kfree_eq_ok hdir⟩⟩, ?_⟩
    dsimp only
    rw [hfree, hs.freelist, hs.page]
    simp only [hs.tables, List.cons_append]

/-- The first and the third page table exist, in pages 300 and 302; the last page of the former and
the first one of the latter are mapped. -/
def gapDir : PageDir := ⟨299, fun i =>
  if i = 0 then some ⟨300, fun j => if j = 1023 then (⟨true, true⟩ : Perm).pte 301 else 0⟩
  else if i = 2 then some ⟨302, fun j => if j = 0 then (⟨true, true⟩ : Perm).pte 303 else 0⟩
  else none⟩

lemma gapDir_entry (v : Nat) : gapDir.entry v = if v = 1023 then (⟨true, true⟩ : Perm).pte 301
    else if v = 2048 then (⟨true, true⟩ : Perm).pte 303 else 0 := by
  have hN : NPTENTRIES = 1024 := rfl
  by_cases h1 : v = 1023
  · subst h1
    rfl
  · by_cases h2 : v = 2048
    · subst h2
      rfl
    · rw [if_neg h1, if_neg h2]
      simp only [PageDir.entry, PageDir.walk, gapDir, hN]
      by_cases h0 : v / 1024 = 0
      · simp [h0, show v % 1024 ≠ 1023 by omega]
      · by_cases h2 : v / 1024 = 2
        · simp [h2, show v % 1024 ≠ 0 by omega]
        · simp [h0, h2]

lemma gapDir_present (hp : (gapDir.entry v).present = true) : v = 1023 ∨ v = 2048 := by
  rw [gapDir_entry] at hp
  split_ifs at hp with h1 h2
  · exact Or.inl h1
  · exact Or.inr h2

lemma gapDir_ok : gapDir.Ok := by
  intro v _
  rw [gapDir_entry]
  split_ifs
  · exact Perm.pte_ok _ _
  · exact Perm.pte_ok _ _
  · exact Pte.ok_zero

lemma mappedFrom_gapDir (hv : v ≤ 1023) (hstop : 2048 < stop) :
    mappedFrom gapDir v stop = [301, 303] := by
  have hskip : ∀ {a b}, (∀ w, a ≤ w → w < b → w ≠ 1023 ∧ w ≠ 2048) → a ≤ b →
      mappedFrom gapDir a stop = mappedFrom gapDir b stop := by
    intro a b hno hle
    rw [mappedFrom, mappedFrom]
    refine congrArg _ (pagesFrom_congr fun w _ => and_congr_left fun hp => ?_)
    have := gapDir_present hp
    have := hno w
    omega
  rw [hskip (b := 1023) (by omega) hv, mappedFrom_of (by decide) (by omega),
    hskip (b := 2048) (by omega) (by omega), mappedFrom_of (by decide) hstop,
    hskip (b := max 2049 stop) (by omega) (by omega), mappedFrom, pagesFrom_of_le (by omega)]
  rfl

/-- The sweep from the last page of the first table jumps over the missing one. -/
theorem deallocuvm_sweeps_gap :
    (∃ n d' m', deallocLoop ⟨none, 0⟩ (2049 * PGSIZE) n (PGROUNDUP (1023 * PGSIZE)) gapDir zeroMem =
        .ok (some ([1023 * PGSIZE, 2048 * PGSIZE], d', m')) ∧ m'.freelist = [303, 301]) ∧
      ∃ m', freevm ⟨none, 0⟩ gapDir zeroMem = .ok m' ∧ m'.freelist = [299, 302, 300, 303, 301] := by
  have hK := KERNBASE_eq
  obtain ⟨⟨n, d', m', hloop, -, -, hfree⟩, hvm⟩ := deallocuvm_sweeps ⟨none, 0⟩ gapDir zeroMem
    (2049 * PGSIZE) (1023 * PGSIZE) rfl (by decide) (by rw [hK]; decide) fun v _ hp => by
      rcases gapDir_present hp with rfl | rfl <;> exact ⟨by decide, by decide⟩
  rw [pgUp_mul, pgUp_mul] at hloop hfree
  have hpages : pagesFrom gapDir.HasTable 1023 2049 = [1023, 2048] := by decide +kernel
  rw [hpages] at hloop
  rw [mappedFrom_gapDir le_rfl (by decide)] at hfree
  obtain ⟨m'', hfreed, hlist⟩ := hvm (fun i _ t ht => by
    dsimp only [gapDir] at ht
    split_ifs at ht <;> cases ht <;> exact ⟨by decide, by decide⟩) ⟨by decide, by decide⟩
  have htables : ((List.range NPDENTRIES).filterMap fun i => (gapDir.pde i).map PageTable.page) =
      [300, 302] := by decide +kernel
  rw [htables, mappedFrom_gapDir (by decide) (by rw [hK]; decide)] at hlist
  exact ⟨⟨n, d', m', hloop, hfree⟩, m'', hfreed, hlist⟩

end Xv6
