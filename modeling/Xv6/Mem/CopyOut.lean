import Xv6.Mem.Exec
import Xv6.Mem.Shrink

/-!
# copyout

`copyout` copies a buffer to a user address page by page: it looks the page up with `uva2ka`, which
reads the entry that `walkpgdir` returns without asking whether there is a page table, and copies
what fits into the page. Here it is compared with copying byte by byte. Addresses are 32 bits wide,
so a range may run over the end of the address space.
-/

namespace Xv6

open Fallible

variable {d : PageDir} {m m' : Mem} {va n i y : Nat} {b : UInt8} {bs : List UInt8}

/-! ### Pages and bytes behind an address -/

namespace PageDir

/-- The page is present and the user may access it. -/
def UserPage (d : PageDir) (v : Nat) : Prop :=
  (d.entry v).present = true ∧ (d.entry v).user = true

instance (d : PageDir) (v : Nat) : Decidable (d.UserPage v) := inferInstanceAs (Decidable (_ ∧ _))

lemma UserPage.hasTable {v : Nat} (h : d.UserPage v) : d.HasTable v := hasTable_of_present h.1

/-- The physical page and the offset in it behind an address. -/
def place (d : PageDir) (a : Nat) : Nat × Nat := ((d.entry (a / PGSIZE)).ppn, a % PGSIZE)

end PageDir

/-- The `i`th address from `va` on, in 32 bits. -/
def addrAt (va i : Nat) : Nat := (va + i) % 2 ^ 32

lemma addrAt_zero (h : va < 2 ^ 32) : addrAt va 0 = va := Nat.mod_eq_of_lt h

lemma addrAt_succ (va i : Nat) : addrAt (addrAt va 1) i = addrAt va (i + 1) := by
  unfold addrAt
  omega

lemma uva2ka_of_hasTable (h : d.HasTable (va / PGSIZE)) :
    uva2ka d va = .ok (if d.UserPage (va / PGSIZE) then some (d.place va).1 else none) := by
  rw [uva2ka, PageDir.walk_eq_some_iff.mpr ⟨h, rfl⟩]
  exact congrArg Except.ok (if_congr (iff_of_eq (Bool.and_eq_true ..)) rfl rfl)

lemma uva2ka_of_not_hasTable (h : ¬ d.HasTable (va / PGSIZE)) :
    uva2ka d va = .error .nullDeref := by
  rw [uva2ka, PageDir.walk_eq_none_iff.mpr h]

lemma uva2ka_congr {a : Nat} (h : a / PGSIZE = va / PGSIZE) : uva2ka d a = uva2ka d va := by
  unfold uva2ka
  rw [h]

/-! ### Copying byte by byte -/

/-- `copyout`, one byte at a time. -/
def copyBytes (d : PageDir) : Nat → List UInt8 → Mem → Except Fault (Bool × Mem)
  | _, [], m => .ok (true, m)
  | va, b :: bs, m => do
    match ← uva2ka d va with
    | none => .ok (false, m)
    | some y => copyBytes d (addrAt va 1) bs (m.write y (va % PGSIZE) [b])

lemma Mem.write_nil (m : Mem) (y o : Nat) : m.write y o [] = m := by
  have hsame : (fun o' => if o ≤ o' ∧ o' < o + ([] : List UInt8).length then
      ([] : List UInt8).getD (o' - o) 0 else m.bytes y o') = m.bytes y := by
    funext o'
    exact if_neg (by simp only [List.length_nil]; omega)
  unfold Mem.write
  rw [hsame, Function.update_eq_self]

lemma Mem.bytes_write (m : Mem) (y o : Nat) (bs : List UInt8) (x o' : Nat) :
    (m.write y o bs).bytes x o' =
      if x = y ∧ o ≤ o' ∧ o' < o + bs.length then bs.getD (o' - o) 0 else m.bytes x o' := by
  unfold Mem.write
  by_cases hx : x = y
  · subst hx
    simp only [Function.update_self, true_and]
  · simp only [Function.update_of_ne hx, hx, false_and, if_false]

/-- The first byte, then the others. -/
lemma Mem.write_cons (m : Mem) (y o : Nat) (b : UInt8) (bs : List UInt8) :
    m.write y o (b :: bs) = (m.write y o [b]).write y (o + 1) bs := by
  have hbytes : (m.write y o (b :: bs)).bytes = ((m.write y o [b]).write y (o + 1) bs).bytes := by
    funext x o'
    rw [bytes_write, bytes_write, bytes_write]
    by_cases hx : x = y
    · rcases Nat.lt_trichotomy o' o with h | rfl | h
      · rw [if_neg (by omega), if_neg (by omega), if_neg (by omega)]
      · rw [if_pos ⟨hx, le_rfl, by simp⟩, if_neg (by omega), if_pos ⟨hx, le_rfl, by simp⟩]
        simp
      · have hsub : o' - o = (o' - (o + 1)) + 1 := by omega
        by_cases hlt : o' < o + 1 + bs.length
        · rw [if_pos ⟨hx, by omega, by simp only [List.length_cons]; omega⟩,
            if_pos ⟨hx, by omega, hlt⟩, hsub, List.getD_cons_succ]
        · rw [if_neg (by simp only [List.length_cons]; omega), if_neg (by omega),
            if_neg (by simp only [List.length_singleton]; omega)]
    · rw [if_neg (by tauto), if_neg (by tauto), if_neg (by tauto)]
  exact congrArg (fun f => { m with bytes := f }) hbytes

/-- Bytes within one page are stored by one `memmove`. -/
lemma copyBytes_page {bs rest : List UInt8} (hva : va < 2 ^ 32)
    (hin : va % PGSIZE + bs.length ≤ PGSIZE) (hka : uva2ka d va = .ok (some y)) :
    copyBytes d va (bs ++ rest) m =
      copyBytes d (addrAt va bs.length) rest (m.write y (va % PGSIZE) bs) := by
  induction bs generalizing va m with
  | nil => rw [List.nil_append, List.length_nil, addrAt_zero hva, Mem.write_nil]
  | cons b bs ih =>
    rw [List.cons_append, copyBytes, hka]
    change copyBytes d (addrAt va 1) (bs ++ rest) (m.write y (va % PGSIZE) [b]) = _
    rw [List.length_cons] at hin
    cases bs with
    | nil => rfl
    | cons b' bs =>
      -- the next byte is in the same page
      rw [List.length_cons] at hin
      have hnext : addrAt va 1 = va + 1 := by
        simp only [addrAt, PGSIZE] at hin ⊢
        omega
      have hmod : (va + 1) % PGSIZE = va % PGSIZE + 1 := by
        simp only [PGSIZE] at hin ⊢
        omega
      have hdiv : (va + 1) / PGSIZE = va / PGSIZE := by
        simp only [PGSIZE] at hin ⊢
        omega
      have hlt : va + 1 < 2 ^ 32 := by
        rw [← hnext]
        exact Nat.mod_lt _ (by decide)
      rw [hnext, ih hlt (by rw [hmod, List.length_cons]; omega) ((uva2ka_congr hdiv).trans hka),
        hmod, ← Mem.write_cons, ← hnext, addrAt_succ]
      rfl

/-- `copyout` is copying byte by byte. -/
lemma copyout_eq_copyBytes (hva : va < 2 ^ 32) (hn : bs.length ≤ n) :
    copyout d n va bs m = copyBytes d va bs m := by
  induction n generalizing va bs m with
  | zero =>
    obtain rfl := List.length_eq_zero_iff.mp (Nat.le_zero.mp hn)
    rfl
  | succ n ih =>
    cases bs with
    | nil => rw [copyout, if_pos rfl, copyBytes]
    | cons b bs =>
      rw [copyout, if_neg (List.cons_ne_nil b bs)]
      by_cases ht : d.HasTable (va / PGSIZE)
      · by_cases hu : d.UserPage (va / PGSIZE)
        · have hka : uva2ka d va = .ok (some (d.place va).1) := by
            rw [uva2ka_of_hasTable ht, if_pos hu]
          have hoff : va % PGSIZE < PGSIZE := Nat.mod_lt _ (by decide)
          have htake : ((b :: bs).take (PGSIZE - va % PGSIZE)).length =
              min (PGSIZE - va % PGSIZE) (b :: bs).length := List.length_take
          rw [← List.take_append_drop (PGSIZE - va % PGSIZE) (b :: bs),
            copyBytes_page hva (by omega) hka, List.take_append_drop, hka]
          change copyout d n _ _ _ = _
          rw [ih (Nat.mod_lt _ (by decide)) (by rw [List.length_drop]; omega)]
          by_cases hlast : (b :: bs).length ≤ PGSIZE - va % PGSIZE
          · rw [List.drop_eq_nil_of_le hlast, copyBytes, copyBytes]
          · have hnext : addrAt va (PGSIZE - va % PGSIZE) =
                (va / PGSIZE + 1) * PGSIZE % 2 ^ 32 := by
              have := Nat.div_add_mod va PGSIZE
              rw [addrAt, Nat.add_mul, Nat.mul_comm]
              congr 1
              omega
            rw [htake, Nat.min_eq_left (by omega), hnext]
        · rw [copyBytes, uva2ka_of_hasTable ht, if_neg hu]
          rfl
      · rw [copyBytes, uva2ka_of_not_hasTable ht]
        rfl

/-! ### What copying does to memory -/

/-- The bytes have been stored at the addresses from `va` on, in order, and nothing else has
changed: a byte that no later one was stored over is there, and a place that is not behind any of
the addresses is as it was. -/
structure CopiedOut (d : PageDir) (va : Nat) (bs : List UInt8) (m m' : Mem) : Prop where
  written : m.Written m'
  stored : ∀ i b, bs[i]? = some b →
    (∀ j, i < j → j < bs.length → d.place (addrAt va j) ≠ d.place (addrAt va i)) →
    m'.bytes (d.place (addrAt va i)).1 (d.place (addrAt va i)).2 = b
  rest : ∀ x o, (∀ i < bs.length, d.place (addrAt va i) ≠ (x, o)) → m'.bytes x o = m.bytes x o

lemma CopiedOut.nil (d : PageDir) (va : Nat) (m : Mem) : CopiedOut d va [] m m :=
  ⟨.refl m, fun i b h => by simp at h, fun _ _ _ => rfl⟩

lemma Mem.bytes_write_singleton (m : Mem) (y o : Nat) (b : UInt8) (x o' : Nat) :
    (m.write y o [b]).bytes x o' = if (y, o) = (x, o') then b else m.bytes x o' := by
  rw [bytes_write]
  by_cases h : (y, o) = (x, o')
  · obtain ⟨rfl, rfl⟩ := Prod.mk.inj h
    rw [if_pos ⟨rfl, le_rfl, by simp⟩, if_pos rfl, Nat.sub_self, List.getD_cons_zero]
  · rw [if_neg h, if_neg]
    rintro ⟨rfl, h1, h2⟩
    rw [List.length_singleton] at h2
    exact h (Prod.mk.injEq .. ▸ ⟨rfl, by omega⟩)

/-- One byte is stored, then the others. -/
lemma CopiedOut.cons (hva : va < 2 ^ 32)
    (h : CopiedOut d (addrAt va 1) bs (m.write (d.place va).1 (va % PGSIZE) [b]) m') :
    CopiedOut d va (b :: bs) m m' := by
  have hfirst : ∀ x o, (m.write (d.place va).1 (va % PGSIZE) [b]).bytes x o =
      if d.place va = (x, o) then b else m.bytes x o :=
    fun x o => Mem.bytes_write_singleton ..
  refine ⟨(Mem.Written.write ..).trans h.written, fun i c hc hlast => ?_, fun x o hout => ?_⟩
  · cases i with
    | zero =>
      obtain rfl : b = c := by simpa using hc
      rw [addrAt_zero hva] at hlast ⊢
      rw [h.rest _ _ fun i hi => ?_, hfirst, if_pos rfl]
      rw [addrAt_succ]
      exact hlast (i + 1) (by omega) (by rw [List.length_cons]; omega)
    | succ i =>
      rw [← addrAt_succ]
      refine h.stored i c (by simpa using hc) fun j hj hlen => ?_
      rw [addrAt_succ, addrAt_succ]
      exact hlast (j + 1) (by omega) (by rw [List.length_cons]; omega)
  · rw [h.rest x o fun i hi => ?_, hfirst, if_neg]
    · have := hout 0 (by simp)
      rwa [addrAt_zero hva] at this
    · rw [addrAt_succ]
      exact hout (i + 1) (by rw [List.length_cons]; omega)

/-- The bytes that come before the first page the user may not access. -/
lemma copyBytes_outcome (hva : va < 2 ^ 32) :
    Ensures (copyBytes d va bs m) fun r =>
      ∃ k ≤ bs.length, (∀ i < k, d.UserPage (addrAt va i / PGSIZE)) ∧
        (k < bs.length → ¬ d.UserPage (addrAt va k / PGSIZE)) ∧ (r.1 = true ↔ k = bs.length) ∧
        CopiedOut d va (bs.take k) m r.2 := by
  induction bs generalizing va m with
  | nil => exact .ok ⟨0, le_rfl, fun i hi => by omega, fun h => absurd h (by simp),
      iff_of_true rfl rfl, .nil d va m⟩
  | cons b bs ih =>
    unfold copyBytes
    by_cases ht : d.HasTable (va / PGSIZE)
    · rw [uva2ka_of_hasTable ht]
      by_cases hu : d.UserPage (va / PGSIZE)
      · rw [if_pos hu]
        refine (ih (Nat.mod_lt (va + 1) (by decide))).mono ?_
        rintro ⟨ok, m'⟩ ⟨k, hk, hbefore, hstop, hok, hcopied⟩
        refine ⟨k + 1, Nat.succ_le_succ hk, fun i hi => ?_, fun hlt => ?_, ?_, ?_⟩
        · cases i with
          | zero => rwa [addrAt_zero hva]
          | succ i =>
            rw [← addrAt_succ]
            exact hbefore i (Nat.lt_of_succ_lt_succ hi)
        · rw [← addrAt_succ]
          exact hstop (Nat.lt_of_succ_lt_succ hlt)
        · rw [hok, List.length_cons]
          omega
        · rw [List.take_succ_cons]
          exact .cons hva hcopied
      · rw [if_neg hu]
        refine .ok ⟨0, Nat.zero_le _, fun i hi => by omega, fun _ => ?_, ?_, ?_⟩
        · rwa [addrAt_zero hva]
        · exact iff_of_false (by simp) (by simp)
        · exact .nil d va m
    · rw [uva2ka_of_not_hasTable ht]
      exact .error

/-! ### Safety -/

/-- Every page of the range that comes before or is the first one the user may not access has a page
table. -/
def TablesReached (d : PageDir) (va n : Nat) : Prop :=
  ∀ i < n, (∀ j < i, d.UserPage (addrAt va j / PGSIZE)) → d.HasTable (addrAt va i / PGSIZE)

lemma tablesReached_succ (hva : va < 2 ^ 32) :
    TablesReached d va (n + 1) ↔ d.HasTable (va / PGSIZE) ∧
      (d.UserPage (va / PGSIZE) → TablesReached d (addrAt va 1) n) := by
  constructor
  · intro h
    refine ⟨?_, fun hu i hi hbefore => ?_⟩
    · have := h 0 (by omega) fun j hj => by omega
      rwa [addrAt_zero hva] at this
    · rw [addrAt_succ]
      refine h (i + 1) (by omega) fun j hj => ?_
      cases j with
      | zero => rwa [addrAt_zero hva]
      | succ j =>
        rw [← addrAt_succ]
        exact hbefore j (by omega)
  · rintro ⟨ht, hrest⟩ i hi hbefore
    cases i with
    | zero => rwa [addrAt_zero hva]
    | succ i =>
      have hu : d.UserPage (va / PGSIZE) := by
        have := hbefore 0 (by omega)
        rwa [addrAt_zero hva] at this
      rw [← addrAt_succ]
      refine hrest hu i (by omega) fun j hj => ?_
      rw [addrAt_succ]
      exact hbefore (j + 1) (by omega)

/-- Copying returns exactly if no entry of a page table that does not exist is read. -/
lemma copyBytes_returns_iff (hva : va < 2 ^ 32) :
    (∃ r, copyBytes d va bs m = .ok r) ↔ TablesReached d va bs.length := by
  induction bs generalizing va m with
  | nil => exact iff_of_true ⟨_, rfl⟩ fun i hi => by simp at hi
  | cons b bs ih =>
    rw [List.length_cons, tablesReached_succ hva, copyBytes]
    by_cases ht : d.HasTable (va / PGSIZE)
    · rw [uva2ka_of_hasTable ht]
      by_cases hu : d.UserPage (va / PGSIZE)
      · rw [if_pos hu]
        refine (ih (Nat.mod_lt _ (by decide))).trans ⟨fun h => ⟨ht, fun _ => h⟩, fun h => h.2 hu⟩
      · rw [if_neg hu]
        exact iff_of_true ⟨_, rfl⟩ ⟨ht, fun h => absurd h hu⟩
    · rw [uva2ka_of_not_hasTable ht]
      refine iff_of_false ?_ fun h => ht h.1
      rintro ⟨r, hr⟩
      cases hr

/-- `copyout` returns. It succeeds exactly if the user may access every page of the range, and then
the buffer has been stored there and nothing else has changed; if it fails only bytes in pages of
the range that the user may access have changed. -/
def CopyoutSafe (d : PageDir) (va : UInt32) (bs : List UInt8) (m : Mem) : Prop :=
  ∃ ok m', copyout d bs.length va.toNat bs m = .ok (ok, m') ∧
    (ok = true ↔ ∀ i < bs.length, d.UserPage (addrAt va.toNat i / PGSIZE)) ∧
    (ok = true → CopiedOut d va.toNat bs m m') ∧
    (ok = false → m.Written m' ∧ ∀ x o, m'.bytes x o ≠ m.bytes x o →
      ∃ i < bs.length, d.UserPage (addrAt va.toNat i / PGSIZE) ∧
        d.place (addrAt va.toNat i) = (x, o))

/-- `copyout` is safe exactly if the page tables it reads exist. -/
theorem copyout_safe_iff (d : PageDir) (va : UInt32) (bs : List UInt8) (m : Mem) :
    CopyoutSafe d va bs m ↔ TablesReached d va.toNat bs.length := by
  have hva := va.toNat_lt
  unfold CopyoutSafe
  rw [copyout_eq_copyBytes hva le_rfl, ← copyBytes_returns_iff (m := m) hva]
  constructor
  · rintro ⟨ok, m', h, -⟩
    exact ⟨_, h⟩
  · rintro ⟨⟨ok, m'⟩, h⟩
    obtain ⟨k, hk, hbefore, hstop, hok, hcopied⟩ := copyBytes_outcome hva _ h
    refine ⟨ok, m', h, ?_, fun htrue => ?_, fun _ => ⟨hcopied.written, fun x o hne => ?_⟩⟩
    · rw [hok]
      constructor
      · rintro rfl
        exact hbefore
      · intro hall
        by_contra hne
        exact hstop (by omega) (hall k (by omega))
    · rw [hok.mp htrue, List.take_length] at hcopied
      exact hcopied
    · by_contra hno
      refine hne (hcopied.rest x o fun i hi heq => hno ?_)
      rw [List.length_take] at hi
      exact ⟨i, by omega, hbefore i (by omega), heq⟩

/-- Two bytes go to the end of the only page of a process. -/
theorem copyout_safe_first_page : CopyoutSafe firstMapped 4094 [1, 2] zeroMem := by
  refine (copyout_safe_iff firstMapped 4094 [1, 2] zeroMem).mpr fun i hi _ => ?_
  have hpage : addrAt (4094 : UInt32).toNat i / PGSIZE = 0 := by
    rw [List.length_cons, List.length_singleton] at hi
    change (4094 + i) % 2 ^ 32 / 4096 = 0
    omega
  rw [hpage]
  rfl

/-- `exec` pushes its first argument to an address for which there is no page table. -/
lemma pushArgs_no_table {s : List UInt8} {l : List (List UInt8)} {sp : Nat}
    (h : ¬ d.HasTable ((2 ^ 32 + sp - (s.length + 1) % 2 ^ 32) % 2 ^ 32 / 4 * 4 / PGSIZE)) :
    pushArgs d (s :: l) sp [] m = .error .nullDeref := by
  have hne : s ++ [0] ≠ [] := by simp
  have hargs : ¬ MAXARG ≤ ([] : List Nat).length := by decide
  rw [pushArgs, if_neg hargs]
  dsimp only
  rw [copyout, if_neg hne, uva2ka_of_not_hasTable h]
  rfl

/-- The image of a program of one page: its page, the guard page, the stack page, and the page
tables of the kernel, without `PTE_U`, for the addresses up to `KERNBASE + PHYSTOP` and from
`DEVSPACE` on. -/
def smallImage : PageDir :=
  ⟨299, fun i =>
    if i = 0 then
      some ⟨300, fun j => if j < 3 then (⟨true, j ≠ 1⟩ : Perm).pte (301 + j) else 0⟩
    else if 512 ≤ i ∧ i < 568 ∨ 1016 ≤ i ∧ i < NPDENTRIES then
      some ⟨304, fun j => (⟨true, false⟩ : Perm).pte j⟩
    else
      none⟩

/-- `copyout` to an address without a page table reads an entry of the table that is not there.
`exec` does so when it pushes an argument of 40 MB for a program of one page: the stack pointer
wraps around to an address below `DEVSPACE`. -/
theorem copyout_reads_missing_table :
    copyout firstMapped 1 0x400000 [7] zeroMem = .error .nullDeref ∧
      pushArgs smallImage [List.replicate 0x2800000 97] (3 * PGSIZE) [] zeroMem =
        .error .nullDeref := by
  refine ⟨rfl, pushArgs_no_table ?_⟩
  rw [List.length_replicate]
  decide

end Xv6
