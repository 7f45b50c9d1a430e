import Xv6.User.HeapRun

/-!
# Requests of every size

`malloc` for all 32-bit sizes. The rounding to units wraps at the last seven sizes, and `morecore`
hands the bytes it wants to `sbrk` as an `int`: from `2 ^ 28` units on that is negative, or 0, and
`growproc` takes memory away, or leaves it, and still succeeds. `morecore` then puts a block on the
free list that begins where the memory of the process ended.
-/

namespace Xv6

namespace Malloc

open Words Extent

variable {base fuel nbytes nunits p prevp r : Nat} {s s' : State} {enough : Bool}

namespace Signed

/-- The first address that a process of `sz` bytes may not use. -/
def KERNBASE : Nat := 2 ^ 31

/-- `PGROUNDUP(sz)`. -/
def PGROUNDUP (sz : Nat) : Nat := (sz + 4095) / 4096 * 4096

/-- What is left of the chunk `c` in a process of `sz` bytes. -/
def cut (sz : Nat) (c : Extent) : Extent := ⟨c.start, min c.len (sz - c.start)⟩

/-- `sbrk` with the 32 bits `n` of its argument, as `growproc` does it; `enough` says whether there
are pages for a larger process. The answer `none` is -1. -/
def sbrk (n : Nat) (enough : Bool) (s : State) : Option (Option Nat × State) :=
  if n = 0 then
    some (some s.brk, s)
  else if n < 2 ^ 31 then
    -- `allocuvm`
    if s.brk + n < KERNBASE ∧ enough then
      some (some s.brk, { s with brk := s.brk + n, chunks := ⟨s.brk, n⟩ :: s.chunks })
    else
      some (none, s)
  else
    -- `deallocuvm`, which returns the old size if the new one is not smaller
    let newsz := wrap (s.brk + n)
    if newsz ≥ s.brk then
      some (some s.brk, s)
    else if newsz = 0 then
      -- all pages are gone, and the text of the program with them
      none
    else
      some (some s.brk, { s with brk := newsz, chunks := s.chunks.map (cut newsz) })

/-- `morecore`. If the new header lies in a page of the process then `sbrk` has freed no page, for
the header begins at the old end; otherwise the store kills the process. -/
def morecore (fuel nu : Nat) (enough : Bool) (s : State) : Option (Nat × State) :=
  let nu := moreUnits nu
  match sbrk (wrap (nu * HEADER)) enough s with
  | none => none
  | some (none, s) => some (0, s)
  | some (some hp, s) =>
    if hp + HEADER ≤ PGROUNDUP s.brk then
      (free fuel (plus hp 1) { s with mem := setSize s.mem hp nu }).map fun s => (s.freep, s)
    else
      none

/-- The loop of `malloc`, which may call `morecore` once. -/
def mallocLoop (nunits : Nat) : Nat → Option Bool → Nat → Nat → State → Option (Nat × State)
  | 0, _, _, _, _ => none
  | fuel + 1, enough, prevp, p, s =>
    if size s.mem p ≥ nunits then
      some (take nunits prevp p s)
    else if p = s.freep then
      match enough with
      | none => none
      | some enough =>
        match morecore fuel nunits enough s with
        | none => none
        | some (p, s) =>
          if p = 0 then some (0, s) else mallocLoop nunits fuel none p (ptr s.mem p) s
    else
      mallocLoop nunits fuel enough p (ptr s.mem p) s

def malloc (base fuel nbytes : Nat) (enough : Bool) (s : State) : Option (Nat × State) :=
  let s := start base s
  mallocLoop (unitsFor nbytes) fuel (some enough) s.freep (ptr s.mem s.freep) s

/-- The pointer `r` is 0, or behind it there are `nbytes` bytes of a block that lies in the memory
obtained from `sbrk`. -/
def Fits (nbytes r : Nat) (s : State) : Prop :=
  r = 0 ∨ nbytes + HEADER ≤ HEADER * size s.mem (r - HEADER) ∧
    ∀ x, Has ⟨r - HEADER, HEADER * size s.mem (r - HEADER)⟩ x → Covers s.chunks x

/-! ### Sizes that are positive as an `int` -/

/-- What the kernel says to a request for `n` bytes. -/
def answer (n : Nat) (enough : Bool) (s : State) : Option Nat :=
  if s.brk + n < KERNBASE ∧ enough then some s.brk else none

lemma mayAnswer (n : Nat) (enough : Bool) (s : State) : s.MayAnswer n (answer n enough s) := by
  intro p hp
  unfold answer at hp
  split at hp
  case isTrue h =>
    obtain rfl := Option.some.inj hp
    have := h.1
    simp only [KERNBASE] at this
    omega
  case isFalse => exact absurd hp (by simp)

lemma sbrk_brk {n hp : Nat} (h : Malloc.sbrk n (some hp) s = some s') : s'.brk = hp + n := by
  unfold Malloc.sbrk at h
  split at h
  case isTrue => exact (congrArg State.brk (Option.some.inj h)).symm
  case isFalse => exact absurd h (by simp)

/-- A positive request is one to the kernel for fresh memory. -/
lemma sbrk_pos {n : Nat} (hpos : 0 < n) (hint : n < 2 ^ 31) : sbrk n enough s =
    (Malloc.sbrk n (answer n enough s) s).map fun s' => (answer n enough s, s') := by
  have hmay := mayAnswer n enough s
  rw [sbrk, if_neg (Nat.ne_of_gt hpos), if_pos hint]
  by_cases hok : s.brk + n < KERNBASE ∧ enough = true
  · have hanswer : answer n enough s = some s.brk := if_pos hok
    rw [hanswer] at hmay ⊢
    rw [if_pos hok, Malloc.sbrk, if_pos ⟨hpos, hint, hmay⟩, Option.map_some]
  · have hanswer : answer n enough s = none := if_neg hok
    rw [hanswer] at hmay ⊢
    rw [if_neg hok, Malloc.sbrk, if_pos ⟨hpos, hint, hmay⟩, Option.map_some]

lemma morecore_eq (hn : nunits < 2 ^ 28) :
    morecore fuel nunits enough s =
      Malloc.morecore fuel nunits (answer (HEADER * moreUnits nunits) enough s) s := by
  have hbounds := moreUnits_bounds hn
  have hint : 0 < HEADER * moreUnits nunits ∧ HEADER * moreUnits nunits < 2 ^ 31 := by
    simp only [HEADER]
    omega
  unfold morecore Malloc.morecore
  dsimp only
  rw [wrap_moreUnits hn, sbrk_pos hint.1 hint.2]
  cases hsbrk : Malloc.sbrk (HEADER * moreUnits nunits)
      (answer (HEADER * moreUnits nunits) enough s) s with
  | none => rfl
  | some s' =>
    cases hanswer : answer (HEADER * moreUnits nunits) enough s with
    | none => rfl
    | some hp =>
      -- the header lies in the memory that the process has just got
      have htop : hp + HEADER ≤ PGROUNDUP s'.brk := by
        rw [hanswer] at hsbrk
        rw [sbrk_brk hsbrk]
        simp only [PGROUNDUP, HEADER]
        omega
      exact if_pos htop

lemma mallocLoop_none : mallocLoop nunits fuel none prevp p s =
    Malloc.mallocLoop nunits fuel none prevp p s := by
  induction fuel generalizing prevp p with
  | zero => rfl
  | succ fuel ih =>
    rw [mallocLoop, Malloc.mallocLoop, ih]

/-- Below `2 ^ 28` units the loop is the one whose requests are positive. -/
lemma mallocLoop_eq (hn : nunits < 2 ^ 28) : mallocLoop nunits fuel (some enough) prevp p s =
    Malloc.mallocLoop nunits fuel (some (answer (HEADER * moreUnits nunits) enough s)) prevp p
      s := by
  induction fuel generalizing prevp p with
  | zero => rfl
  | succ fuel ih =>
    rw [mallocLoop, Malloc.mallocLoop, ih, morecore_eq hn]
    cases Malloc.morecore fuel nunits (answer (HEADER * moreUnits nunits) enough s) s with
    | none => rfl
    | some x => simp only [mallocLoop_none]

lemma malloc_eq (hn : nbytes < 2 ^ 31 - 15) : malloc base fuel nbytes enough s =
    Malloc.malloc base fuel nbytes
      (answer (HEADER * moreUnits (unitsFor nbytes)) enough s) s := by
  have hanswer : answer (HEADER * moreUnits (unitsFor nbytes)) enough (start base s) =
      answer (HEADER * moreUnits (unitsFor nbytes)) enough s := by
    rw [answer, answer, start_brk]
  rw [malloc, Malloc.malloc, mallocLoop_eq (unitsFor_bounds hn).2.1, hanswer]

lemma Fits.of_taken (hn : nbytes < 2 ^ 31 - 15) (h : Taken base (unitsFor nbytes) r s) :
    Fits nbytes r s := by
  obtain ⟨hr, hsz, F, hok⟩ := h
  rw [State.handOut, if_neg (by omega)] at hok
  refine Or.inr ⟨hsz ▸ (unitsFor_bounds hn).2.2, fun x hx => ?_⟩
  exact hok.inside x (Or.inr ⟨_, List.mem_cons_self .., hx⟩)

/-! ### The others -/

/-- A process of `sz` bytes that has not called `malloc`. -/
def fresh (sz : Nat) : State := ⟨fun _ => 0, 0, sz, [], []⟩

lemma inv_fresh {sz : Nat} (hbase : 0 < base) (hle : base + HEADER ≤ sz) (hlt : sz < 2 ^ 32) :
    Inv base (fresh sz) :=
  Or.inl ⟨hbase, hle, hlt, rfl, rfl, rfl⟩

/-- `sbrk` succeeds, and a process of less than a page does not lose that page: the bytes taken away
are a multiple of 8, so they are never all it has. -/
lemma sbrk_large (enough : Bool) (hge : 2 ^ 28 ≤ nunits) (hle : nunits ≤ 2 ^ 29)
    (hbrk : s.brk = 4001) (hchunks : s.chunks = []) : ∃ sz, 0 < sz ∧ sz ≤ 4001 ∧
      sbrk (wrap (nunits * HEADER)) enough s = some (some 4001, { s with brk := sz }) := by
  obtain ⟨m, freep, brk, chunks, live⟩ := s
  obtain rfl : brk = 4001 := hbrk
  obtain rfl : chunks = [] := hchunks
  unfold sbrk
  split
  case isTrue => exact ⟨4001, by omega, by omega, rfl⟩
  case isFalse hne =>
    have hneg : ¬ wrap (nunits * HEADER) < 2 ^ 31 := by
      simp only [wrap, HEADER] at hne ⊢
      omega
    rw [if_neg hneg]
    dsimp only
    split
    case isTrue => exact ⟨4001, by omega, by omega, rfl⟩
    case isFalse hlt =>
      have hpos : wrap (4001 + wrap (nunits * HEADER)) ≠ 0 := by
        simp only [wrap, HEADER]
        omega
      rw [if_neg hpos]
      exact ⟨_, Nat.pos_of_ne_zero hpos, by omega, rfl⟩

/-- `free` links the block behind `base`: it touches neither `base` nor itself. -/
lemma free_large (hfreep : s.freep = 16) (hptr : ptr s.mem 16 = 16)
    (hbase : size s.mem 16 = 0) (hsize : size s.mem 4001 = nunits) :
    ∃ m, free 1 4009 s = some { s with mem := m, freep := 16 } ∧ ptr m 16 = 4001 ∧
      size m 4001 = nunits := by
  have hbp : wrap (4009 + 2 ^ 32 - HEADER) = 4001 := by decide
  have hsearch : search s.mem 4001 1 16 = some 16 := by
    rw [search, hptr, if_neg (by decide), if_pos (by decide)]
  have hnext : linkNext s.mem 16 4001 = setPtr s.mem 4001 16 := by
    have hne : plus 4001 nunits ≠ 16 := by
      simp only [plus, wrap, HEADER]
      omega
    rw [linkNext, hsize, hptr, if_neg hne]
  have hclear : Clear 4001 16 := Or.inr (by decide)
  have hprev : linkPrev (setPtr s.mem 4001 16) 16 4001 =
      setPtr (setPtr s.mem 4001 16) 16 4001 := by
    rw [linkPrev, (same_setPtr hclear).2, hbase, if_neg (by decide)]
  refine ⟨setPtr (setPtr s.mem 4001 16) 16 4001, ?_, ptr_setPtr_self (by decide), ?_⟩
  · rw [free, hbp, hfreep, hsearch, Option.map_some, hnext, hprev]
  · rw [(same_setPtr hclear.symm).2, size_setPtr_self, hsize]

/-- From `2 ^ 28` units on `malloc` returns a block behind the end of the memory. -/
lemma mallocLoop_large (enough : Bool) (hge : 2 ^ 28 ≤ nunits) (hle : nunits ≤ 2 ^ 29) :
    ∃ s', mallocLoop nunits 2 (some enough) 16 16 (start 16 (fresh 4001)) = some (4009, s') ∧
      s'.chunks = [] ∧ size s'.mem 4001 = nunits := by
  have hbase : size (start 16 (fresh 4001)).mem 16 = 0 := by decide +kernel
  have hptr : ptr (start 16 (fresh 4001)).mem 16 = 16 := by decide +kernel
  have hfreep : (start 16 (fresh 4001)).freep = 16 := rfl
  have hunits : moreUnits nunits = nunits := if_neg (by omega)
  obtain ⟨sz, hpos, hsz, hsbrk⟩ := sbrk_large (s := start 16 (fresh 4001)) enough hge hle
    rfl rfl
  have hclear : Clear 4001 16 := Or.inr (by decide)
  obtain ⟨m, hfree, hm, hmsize⟩ := free_large (s := { start 16 (fresh 4001) with
      brk := sz, mem := setSize (start 16 (fresh 4001)).mem 4001 nunits }) hfreep
    ((same_setSize hclear).1.trans hptr) ((same_setSize hclear).2.trans hbase)
    (size_setSize_self (by omega))
  have hmore : morecore 1 nunits enough (start 16 (fresh 4001)) =
      some (16, ⟨m, 16, sz, [], []⟩) := by
    have htop : 4001 + HEADER ≤ PGROUNDUP sz := by
      simp only [HEADER, PGROUNDUP]
      omega
    unfold morecore
    dsimp only
    rw [hunits, hsbrk]
    dsimp only
    rw [if_pos htop]
    exact congrArg (Option.map _) hfree
  refine ⟨(take nunits 16 4001 ⟨m, 16, sz, [], []⟩).2, ?_, ?_, ?_⟩
  · rw [mallocLoop, hbase, if_neg (by omega), if_pos hfreep.symm, hmore]
    dsimp only
    rw [if_neg (by decide), hm, mallocLoop, if_pos (Nat.le_of_eq hmsize.symm), take, if_pos hmsize]
    rfl
  · rw [take, if_pos hmsize]
  · rw [take, if_pos hmsize]
    exact (same_setPtr (Or.inl (by decide))).2.trans hmsize

/-- A block that lies outside all chunks is no block. -/
lemma not_fits (hr : r ≠ 0) (hchunks : s.chunks = []) (hsz : 0 < size s.mem (r - HEADER)) :
    ¬ Fits nbytes r s := by
  rintro (h | ⟨-, hin⟩)
  · exact hr h
  · obtain ⟨c, hc, -⟩ := hin (r - HEADER) ⟨Nat.le_refl _,
      Nat.lt_add_of_pos_right (Nat.mul_pos (by decide) hsz)⟩
    rw [hchunks] at hc
    exact absurd hc (by simp)

/-- The units of the sizes that wrap, and of those that are too large for an `int`. -/
lemma unitsFor_large (hn : nbytes < 2 ^ 32) (hge : 2 ^ 31 - 15 ≤ nbytes) :
    2 ^ 32 - 7 ≤ nbytes ∧ unitsFor nbytes = 1 ∨
      2 ^ 28 ≤ unitsFor nbytes ∧ unitsFor nbytes ≤ 2 ^ 29 := by
  simp only [unitsFor, wrap, HEADER]
  omega

/-- Some process gets a bad block for every size from `2 ^ 31 - 15` on. -/
lemma malloc_large (hn : nbytes < 2 ^ 32) (hge : 2 ^ 31 - 15 ≤ nbytes) :
    ∃ fuel r s', malloc 16 fuel nbytes true (fresh 4001) = some (r, s') ∧ ¬ Fits nbytes r s' := by
  have hstart : ∀ fuel, malloc 16 fuel nbytes true (fresh 4001) =
      mallocLoop (unitsFor nbytes) fuel (some true) 16 16 (start 16 (fresh 4001)) := by
    intro fuel
    have hptr : ptr (start 16 (fresh 4001)).mem 16 = 16 := by decide +kernel
    have hfreep : (start 16 (fresh 4001)).freep = 16 := rfl
    rw [malloc, hfreep, hptr]
  rcases unitsFor_large hn hge with ⟨hwrap, hone⟩ | ⟨h₁, h₂⟩
  · -- one unit: the header alone
    have hrun : (mallocLoop 1 4 (some true) 16 16 (start 16 (fresh 4001))).map (fun x =>
        (x.1, size x.2.mem (x.1 - HEADER))) = some (36769, 1) := by decide +kernel
    obtain ⟨⟨r, s'⟩, hs, hx⟩ := Option.map_eq_some_iff.mp hrun
    obtain ⟨rfl, hsz⟩ := Prod.mk.inj hx
    refine ⟨4, 36769, s', (hstart 4).trans (hone ▸ hs), ?_⟩
    rintro (h | ⟨h, -⟩)
    · exact absurd h (by decide)
    · rw [hsz, HEADER] at h
      omega
  · obtain ⟨s', hs, hchunks, hsz⟩ := mallocLoop_large true h₁ h₂
    refine ⟨2, 4009, s', (hstart 2).trans hs, not_fits (by decide) hchunks ?_⟩
    exact Nat.lt_of_lt_of_le (by decide) (hsz.symm ▸ h₁)

/-! ### Which sizes are safe -/

/-- `malloc` returns, for every heap and whether or not the kernel has pages, either 0 or a block
for `nbytes` bytes inside the memory obtained from `sbrk`, exactly if `nbytes < 2 ^ 31 - 15`. -/
theorem malloc_fits_iff (nbytes : Nat) (hn : nbytes < 2 ^ 32) :
    (∀ base s enough, Inv base s → s.brk < KERNBASE →
      (∃ fuel r s', malloc base fuel nbytes enough s = some (r, s')) ∧
        ∀ fuel r s', malloc base fuel nbytes enough s = some (r, s') → Fits nbytes r s') ↔
      nbytes < 2 ^ 31 - 15 := by
  constructor
  · intro h
    by_contra hge
    obtain ⟨fuel, r, s', hs, hbad⟩ := malloc_large hn (Nat.le_of_not_lt hge)
    have hinv : Inv 16 (fresh 4001) := inv_fresh (by decide) (by decide) (by decide)
    exact hbad ((h 16 (fresh 4001) true hinv (by decide)).2 fuel r s' hs)
  · intro hlt base s enough hinv _
    constructor
    · obtain ⟨fuel, r, s', hs⟩ := hinv.malloc_terminates hlt (mayAnswer _ enough s)
      exact ⟨fuel, r, s', (malloc_eq hlt).trans hs⟩
    · intro fuel r s' hs
      rw [malloc_eq hlt] at hs
      rcases hinv.malloc hlt hs with htaken | ⟨rfl, -⟩
      · exact Fits.of_taken hlt htaken
      · exact Or.inl rfl

theorem malloc_fits_hundred : Inv 16 (fresh 4096) ∧
    ∃ fuel r s', malloc 16 fuel 100 true (fresh 4096) = some (r, s') ∧ Fits 100 r s' := by
  have hinv : Inv 16 (fresh 4096) := inv_fresh (by decide) (by decide) (by decide)
  obtain ⟨⟨fuel, r, s', hs⟩, hfits⟩ :=
    (malloc_fits_iff 100 (by decide)).mpr (by decide) 16 (fresh 4096) true hinv (by decide)
  exact ⟨hinv, fuel, r, s', hs, hfits fuel r s' hs⟩

/-- A program of one page, with its stack at 8192 and four bytes more, asks for `2 ^ 31` bytes.
`sbrk(-2147483640)` leaves the memory as it is and returns 12292. -/
theorem malloc_beyond_end : Inv 2048 (fresh 12292) ∧
    ∃ s', malloc 2048 2 (2 ^ 31) true (fresh 12292) = some (12300, s') ∧ s'.brk = 12292 ∧
      s'.chunks = [] ∧ ¬ Fits (2 ^ 31) 12300 s' := by
  have hrun : (malloc 2048 2 (2 ^ 31) true (fresh 12292)).map (fun x =>
      (x.1, x.2.brk, x.2.chunks, size x.2.mem (x.1 - HEADER))) =
        some (12300, 12292, [], 2 ^ 28 + 1) := by decide +kernel
  obtain ⟨⟨r, s'⟩, hs, hx⟩ := Option.map_eq_some_iff.mp hrun
  simp only [Prod.mk.injEq] at hx
  obtain ⟨rfl, hbrk, hchunks, hsz⟩ := hx
  refine ⟨inv_fresh (by decide) (by decide) (by decide), s', hs, hbrk, hchunks, ?_⟩
  exact not_fits (by decide) hchunks (hsz.symm ▸ by decide)

end Signed

end Malloc

end Xv6
