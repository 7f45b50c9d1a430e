import Xv6.Mem.Phys

/-!
# The table of shared pages

`sh_mem.c` by itself, with the counts of the `int` type that they have. Any calls of `shm_add` and
`shm_remove` from the zeroed table keep it a multiset of pages, as long as no count overflows.
-/

namespace Xv6.ShmTable

open TransitionSystem

abbrev Index := Fin N_SHARED_PAGES

/-- `shared_memory_t` -/
structure Entry where
  pa : UInt32
  refCnt : Int32
  deriving DecidableEq

abbrev Table := Index → Entry

def shmInit : Table := fun _ => ⟨0, 0⟩

/-- How the search of `shm_add` ends: with the entry of the page, or with `free_idx`. -/
inductive Search
  | found (i : Index)
  | absent (freeIdx : Option Index)

def search (t : Table) (pa : UInt32) : List Index → Option Index → Search
  | [], freeIdx => .absent freeIdx
  | i :: l, freeIdx =>
    if (t i).pa = pa then .found i
    else search t pa l (if freeIdx = none ∧ (t i).refCnt = 0 then some i else freeIdx)

/-- `shm_add`; `none` is -1. -/
def shmAdd (pa : UInt32) (t : Table) : Option Index × Table :=
  match search t pa (List.finRange N_SHARED_PAGES) none with
  | .found i => (some i, Function.update t i ⟨(t i).pa, (t i).refCnt + 1⟩)
  | .absent none => (none, t)
  | .absent (some i) => (some i, Function.update t i ⟨pa, 1⟩)

/-- `shm_remove`: whether the page was found, the page given to `kfree`, and the table. -/
def shmRemove (pa : UInt32) (t : Table) : Bool × Option UInt32 × Table :=
  match (List.finRange N_SHARED_PAGES).find? (fun i => (t i).pa = pa ∧ (t i).refCnt ≠ 0) with
  | none => (false, none, t)
  | some i =>
    if (t i).refCnt - 1 = 0 then (true, some pa, Function.update t i ⟨0, 0⟩)
    else (true, none, Function.update t i ⟨(t i).pa, (t i).refCnt - 1⟩)

inductive Call
  | add (pa : UInt32)
  | remove (pa : UInt32)
  deriving DecidableEq

def Call.pa : Call → UInt32
  | add pa => pa
  | remove pa => pa

def exec (t : Table) : Call → Table
  | .add pa => (shmAdd pa t).2
  | .remove pa => (shmRemove pa t).2.2

/-- A call for a page; its address is not 0. -/
def Step (t : Table) (c : Call) (t' : Table) : Prop := c.pa ≠ 0 ∧ t' = exec t c

variable {t t' : Table} {pa : UInt32} {i j : Index}

/-! ### Searching -/

lemma search_found {l : List Index} {f : Option Index} (h : search t pa l f = .found i) :
    (t i).pa = pa := by
  induction l generalizing f with
  | nil => cases h
  | cons k l ih =>
    rw [search] at h
    split_ifs at h with hk
    · cases h
      exact hk
    · exact ih h
    · exact ih h

lemma search_absent {l : List Index} {f o : Option Index} (h : search t pa l f = .absent o) :
    (∀ k ∈ l, (t k).pa ≠ pa) ∧ (o = none → f = none ∧ ∀ k ∈ l, (t k).refCnt ≠ 0) ∧
      ∀ i, o = some i → f = some i ∨ (t i).refCnt = 0 := by
  induction l generalizing f with
  | nil =>
    cases h
    exact ⟨by simp, fun ho => ⟨ho, by simp⟩, fun i ho => Or.inl ho⟩
  | cons k l ih =>
    rw [search] at h
    by_cases hk : (t k).pa = pa
    · rw [if_pos hk] at h
      cases h
    · rw [if_neg hk] at h
      obtain ⟨hpa, hnone, hsome⟩ := ih h
      refine ⟨List.forall_mem_cons.mpr ⟨hk, hpa⟩, fun ho => ?_, fun i ho => ?_⟩
      · obtain ⟨hf, hl⟩ := hnone ho
        split_ifs at hf with hfree
        rw [not_and] at hfree
        exact ⟨hf, List.forall_mem_cons.mpr ⟨hfree hf, hl⟩⟩
      · rcases hsome i ho with hf | hi
        · split_ifs at hf with hfree
          · cases hf
            exact Or.inr hfree.2
          · exact Or.inl hf
        · exact Or.inr hi

/-- What `shm_add` does: it counts the entry of the page, or takes a free entry, or finds
neither. -/
lemma shmAdd_cases (t : Table) (pa : UInt32) :
    (∃ i, (t i).pa = pa ∧
      shmAdd pa t = (some i, Function.update t i ⟨(t i).pa, (t i).refCnt + 1⟩)) ∨
    ((∀ k, (t k).pa ≠ pa) ∧ ((∃ i, (t i).refCnt = 0 ∧
        shmAdd pa t = (some i, Function.update t i ⟨pa, 1⟩)) ∨
      (∀ k, (t k).refCnt ≠ 0) ∧ shmAdd pa t = (none, t))) := by
  unfold shmAdd
  cases hs : search t pa (List.finRange N_SHARED_PAGES) none with
  | found i => exact Or.inl ⟨i, search_found hs, rfl⟩
  | absent o =>
    obtain ⟨hpa, hnone, hsome⟩ := search_absent hs
    refine Or.inr ⟨fun k => hpa k (List.mem_finRange k), ?_⟩
    cases o with
    | none => exact Or.inr ⟨fun k => (hnone rfl).2 k (List.mem_finRange k), rfl⟩
    | some i => exact Or.inl ⟨i, (hsome i rfl).resolve_left (by simp), rfl⟩

lemma shmRemove_cases (t : Table) (pa : UInt32) :
    (∃ i, (t i).pa = pa ∧ (t i).refCnt ≠ 0 ∧ shmRemove pa t =
      if (t i).refCnt - 1 = 0 then (true, some pa, Function.update t i ⟨0, 0⟩)
      else (true, none, Function.update t i ⟨(t i).pa, (t i).refCnt - 1⟩)) ∨
    ((∀ i, (t i).pa = pa → (t i).refCnt = 0) ∧ shmRemove pa t = (false, none, t)) := by
  unfold shmRemove
  cases hf : (List.finRange N_SHARED_PAGES).find?
      (fun i => (t i).pa = pa ∧ (t i).refCnt ≠ 0) with
  | none =>
    refine Or.inr ⟨fun i hi => ?_, rfl⟩
    have := List.find?_eq_none.mp hf i (List.mem_finRange i)
    simpa [hi] using this
  | some i =>
    have hi := List.find?_some hf
    rw [decide_eq_true_eq] at hi
    exact Or.inl ⟨i, hi.1, hi.2, rfl⟩

/-! ### The invariant -/

/-- Only entries in use have a page, and no two the same. -/
structure Ok (t : Table) : Prop where
  zero : ∀ i, (t i).refCnt = 0 ↔ (t i).pa = 0
  nonneg : ∀ i, 0 ≤ (t i).refCnt.toInt
  distinct : ∀ i j, (t i).pa = (t j).pa → (t i).pa ≠ 0 → i = j

/-- How often the page is in the table. -/
def refs (t : Table) (pa : UInt32) : Int := ∑ i, if (t i).pa = pa then (t i).refCnt.toInt else 0

/-- The pages of the entries in use. -/
def pages (t : Table) : Finset UInt32 :=
  (Finset.univ.filter fun i => 0 < (t i).refCnt.toInt).image fun i => (t i).pa

/-- The call does not count beyond what an `int` holds. -/
def NoOverflow (t : Table) : Call → Prop
  | .add pa => ∀ i, (t i).pa = pa → (t i).refCnt ≠ Int32.maxValue
  | .remove _ => True

lemma ok_shmInit : Ok shmInit :=
  ⟨fun _ => iff_of_true rfl rfl, fun _ => le_rfl, fun _ _ _ h => absurd rfl h⟩

lemma refs_eq (h : Ok t) (hi : (t i).pa = pa) (hpa : pa ≠ 0) : refs t pa = (t i).refCnt.toInt := by
  unfold refs
  rw [Finset.sum_eq_single i, if_pos hi]
  · intro k _ hki
    rw [if_neg]
    intro hk
    exact hki (h.distinct k i (hk.trans hi.symm) (hk ▸ hpa))
  · exact fun hn => absurd (Finset.mem_univ i) hn

lemma refs_absent (hpa : ∀ i, (t i).pa ≠ pa) : refs t pa = 0 :=
  Finset.sum_eq_zero fun i _ => if_neg (hpa i)

/-- Changing one entry of the table. -/
lemma refs_update (t : Table) (i : Index) (e : Entry) (x : UInt32) :
    refs (Function.update t i e) x = refs t x + (if x = e.pa then e.refCnt.toInt else 0) -
      if x = (t i).pa then (t i).refCnt.toInt else 0 := by
  have hsum := Count.sum_update
    (fun _ (e : Entry) => if e.pa = x then e.refCnt.toInt else 0) t i e
  unfold refs
  simp only [eq_comm (a := x)]
  omega

namespace Ok

lemma pos_iff (h : Ok t) (i : Index) : 0 < (t i).refCnt.toInt ↔ (t i).refCnt ≠ 0 := by
  have hnonneg := h.nonneg i
  rw [ne_eq, ← Int32.toInt_inj, Int32.toInt_zero]
  omega

/-- An entry gets another count and keeps its page. -/
lemma recount (h : Ok t) {n : Int32} (hi : (t i).pa ≠ 0) (hn : 0 < n.toInt) :
    Ok (Function.update t i ⟨(t i).pa, n⟩) := by
  have hpa : ∀ k, (Function.update t i ⟨(t i).pa, n⟩ k).pa = (t k).pa := by
    intro k
    rw [Function.update_apply]
    split_ifs with hk
    · rw [hk]
    · rfl
  have hcnt : ∀ k, (Function.update t i ⟨(t i).pa, n⟩ k).refCnt =
      if k = i then n else (t k).refCnt := by
    intro k
    rw [Function.update_apply]
    split_ifs <;> rfl
  have hn0 : n ≠ 0 := by
    rintro rfl
    rw [Int32.toInt_zero] at hn
    omega
  refine ⟨fun k => ?_, fun k => ?_, fun k l hkl hk => ?_⟩
  · rw [hcnt, hpa]
    split_ifs with hk
    · exact iff_of_false hn0 (hk ▸ hi)
    · exact h.zero k
  · rw [hcnt]
    split_ifs
    · exact hn.le
    · exact h.nonneg k
  · rw [hpa, hpa] at hkl
    rw [hpa] at hk
    exact h.distinct k l hkl hk

/-- A free entry gets a page that is not in the table. -/
lemma take (h : Ok t) (hpa : pa ≠ 0) (hnew : ∀ k, (t k).pa ≠ pa) :
    Ok (Function.update t i ⟨pa, 1⟩) := by
  refine ⟨fun k => ?_, fun k => ?_, fun k l hkl hk => ?_⟩
  · rw [Function.update_apply]
    split_ifs
    · exact iff_of_false (show (1 : Int32) ≠ 0 by decide) hpa
    · exact h.zero k
  · rw [Function.update_apply]
    split_ifs
    · exact (by decide : (0 : Int) ≤ (1 : Int32).toInt)
    · exact h.nonneg k
  · rw [Function.update_apply, Function.update_apply] at hkl
    rw [Function.update_apply] at hk
    split_ifs at hkl hk with hki hli hli
    · rw [hki, hli]
    · exact absurd hkl.symm (hnew l)
    · exact absurd hkl (hnew k)
    · exact h.distinct k l hkl hk

/-- An entry is given back. -/
lemma clear (h : Ok t) : Ok (Function.update t i ⟨0, 0⟩) := by
  refine ⟨fun k => ?_, fun k => ?_, fun k l hkl hk => ?_⟩
  · rw [Function.update_apply]
    split_ifs
    · exact iff_of_true rfl rfl
    · exact h.zero k
  · rw [Function.update_apply]
    split_ifs
    · exact le_rfl
    · exact h.nonneg k
  · rw [Function.update_apply, Function.update_apply] at hkl
    rw [Function.update_apply] at hk
    split_ifs at hkl hk with hki hli hli
    · exact absurd rfl hk
    · exact absurd rfl hk
    · exact absurd hkl hk
    · exact h.distinct k l hkl hk

/-- The table is full exactly when it has as many pages as entries. -/
lemma card_pages (h : Ok t) :
    (pages t).card = N_SHARED_PAGES ↔ ∀ k, (t k).refCnt ≠ 0 := by
  have hinj : Set.InjOn (fun i => (t i).pa)
      (Finset.univ.filter fun i => 0 < (t i).refCnt.toInt : Finset Index) := by
    intro k hk l _ hkl
    rw [Finset.mem_coe, Finset.mem_filter, h.pos_iff, ne_eq, h.zero] at hk
    exact h.distinct k l hkl hk.2
  rw [pages, Finset.card_image_of_injOn hinj]
  constructor
  · intro hcard k
    have huniv : (Finset.univ.filter fun i => 0 < (t i).refCnt.toInt : Finset Index) =
        Finset.univ := by
      refine Finset.eq_univ_of_card _ ?_
      rw [hcard, Fintype.card_fin]
    have hk := Finset.mem_univ k
    rw [← huniv, Finset.mem_filter, h.pos_iff] at hk
    exact hk.2
  · intro hall
    rw [Finset.filter_true_of_mem fun k _ => (h.pos_iff k).mpr (hall k), Finset.card_univ,
      Fintype.card_fin]

end Ok

/-! ### One call -/

/-- The count of an entry that is not at its maximum. -/
lemma toInt_succ {n : Int32} (hn : 0 ≤ n.toInt) (hmax : n ≠ Int32.maxValue) :
    (n + 1).toInt = n.toInt + 1 := by
  have hlt := Int32.toInt_lt n
  have hne : n.toInt ≠ 2 ^ 31 - 1 := by
    intro heq
    exact hmax (Int32.toInt_inj.mp heq)
  rw [Int32.toInt_add, Int32.toInt_one, Int.bmod_eq_of_le] <;> omega

lemma toInt_pred {n : Int32} (hn : 0 < n.toInt) : (n - 1).toInt = n.toInt - 1 := by
  have hlt := Int32.toInt_lt n
  rw [Int32.toInt_sub, Int32.toInt_one, Int.bmod_eq_of_le] <;> omega

/-- The effect of a call that succeeds in adding `n` to the count of the page. -/
structure Counted (t : Table) (pa : UInt32) (n : Int) (t' : Table) : Prop where
  ok : Ok t'
  refs : ∀ x, x ≠ 0 → refs t' x = refs t x + if x = pa then n else 0
  keeps : ∀ k, (t k).pa ≠ 0 → (t' k).pa = (t k).pa ∨ ∀ l, (t' l).pa ≠ (t k).pa

lemma Counted.refl (h : Ok t) (pa : UInt32) : Counted t pa 0 t :=
  ⟨h, fun x _ => by rw [ite_self, Int.add_zero], fun _ _ => Or.inl rfl⟩

lemma shmAdd_counted (h : Ok t) (hpa : pa ≠ 0) (hno : NoOverflow t (.add pa)) :
    Counted t pa (if (shmAdd pa t).1.isSome then 1 else 0) (shmAdd pa t).2 := by
  rcases shmAdd_cases t pa with ⟨i, hi, heq⟩ | ⟨hnew, ⟨i, hi, heq⟩ | ⟨-, heq⟩⟩ <;> rw [heq]
  · have hi0 : (t i).pa ≠ 0 := hi ▸ hpa
    have hsucc := toInt_succ (h.nonneg i) (hno i hi)
    have hnonneg := h.nonneg i
    refine ⟨h.recount hi0 (by omega), fun x hx => ?_, fun k _ => Or.inl ?_⟩
    · rw [refs_update, Option.isSome_some, if_pos rfl]
      dsimp only
      rw [hsucc, hi]
      split_ifs <;> omega
    · dsimp only
      rw [Function.update_apply]
      split_ifs with hk
      · rw [hk]
      · rfl
  · have hi0 := (h.zero i).mp hi
    refine ⟨h.take hpa hnew, fun x hx => ?_, fun k hk => Or.inl ?_⟩
    · rw [refs_update, hi0, if_neg hx, Option.isSome_some, if_pos rfl, Int.sub_zero,
        Int32.toInt_one]
    · dsimp only
      rw [Function.update_of_ne]
      rintro rfl
      exact hk hi0
  · exact Counted.refl h pa

lemma shmRemove_counted (h : Ok t) (hpa : pa ≠ 0) :
    Counted t pa (if (shmRemove pa t).1 then -1 else 0) (shmRemove pa t).2.2 := by
  rcases shmRemove_cases t pa with ⟨i, hi, hcnt, heq⟩ | ⟨-, heq⟩
  · have hpos := (h.pos_iff i).mpr hcnt
    have hpred := toInt_pred hpos
    split_ifs at heq with hlast
    · have hone : (t i).refCnt.toInt = 1 := by
        rw [← Int32.toInt_inj, hpred, Int32.toInt_zero] at hlast
        omega
      rw [heq]
      refine ⟨h.clear, fun x hx => ?_, fun k hk => ?_⟩
      · rw [refs_update, hi, hone, if_neg hx, if_pos rfl]
        split_ifs <;> omega
      · by_cases hki : k = i
        · refine Or.inr fun l hl => ?_
          dsimp only at hl
          rw [Function.update_apply] at hl
          split_ifs at hl with hli
          · exact hk hl.symm
          · exact hli ((h.distinct l k hl (hl ▸ hk)).trans hki)
        · dsimp only
          rw [Function.update_of_ne hki]
          exact Or.inl rfl
    · have hmore : 0 < ((t i).refCnt - 1).toInt := by
        rw [hpred]
        have : ((t i).refCnt - 1).toInt ≠ 0 := fun h0 =>
          hlast (Int32.toInt_inj.mp (h0.trans Int32.toInt_zero.symm))
        omega
      rw [heq]
      refine ⟨h.recount (hi ▸ hpa) hmore, fun x hx => ?_, fun k _ => Or.inl ?_⟩
      · rw [refs_update, if_pos rfl]
        dsimp only
        rw [hpred, hi]
        split_ifs <;> omega
      · dsimp only
        rw [Function.update_apply]
        split_ifs with hk
        · rw [hk]
        · rfl
  · rw [heq]
    exact Counted.refl h pa

/-! ### What the calls return -/

lemma shmAdd_eq_none_iff (h : Ok t) :
    (shmAdd pa t).1 = none ↔ (∀ k, (t k).pa ≠ pa) ∧ (pages t).card = N_SHARED_PAGES := by
  rw [h.card_pages]
  rcases shmAdd_cases t pa with ⟨i, hi, heq⟩ | ⟨hnew, ⟨i, hi, heq⟩ | ⟨hfull, heq⟩⟩ <;> rw [heq]
  · exact iff_of_false (Option.some_ne_none i) fun hc => hc.1 i hi
  · exact iff_of_false (Option.some_ne_none i) fun hc => hc.2 i hi
  · exact iff_of_true rfl ⟨hnew, hfull⟩

/-- The index that is returned is that of an entry of the page. -/
lemma shmAdd_index (hi : (shmAdd pa t).1 = some i) : ((shmAdd pa t).2 i).pa = pa := by
  rcases shmAdd_cases t pa with ⟨k, hk, heq⟩ | ⟨-, ⟨k, -, heq⟩ | ⟨-, heq⟩⟩ <;> rw [heq] at hi ⊢
  · cases hi
    dsimp only
    rw [Function.update_self, hk]
  · cases hi
    dsimp only
    rw [Function.update_self]
  · cases hi

lemma shmAdd_again (h : Ok t) (hpa : pa ≠ 0) (hi : (t i).pa = pa) : (shmAdd pa t).1 = some i := by
  rcases shmAdd_cases t pa with ⟨k, hk, heq⟩ | ⟨hnew, -⟩
  · rw [heq, h.distinct i k (hi.trans hk.symm) (hi ▸ hpa)]
  · exact absurd hi (hnew i)

/-- A page other than 0 that is in the table has a count. -/
lemma Ok.refCnt_ne_zero (h : Ok t) (hpa : pa ≠ 0) (hi : (t i).pa = pa) : (t i).refCnt ≠ 0 := by
  rw [ne_eq, h.zero, hi]
  exact hpa

lemma shmRemove_eq_false_iff (h : Ok t) (hpa : pa ≠ 0) :
    (shmRemove pa t).1 = false ↔ ∀ k, (t k).pa ≠ pa := by
  rcases shmRemove_cases t pa with ⟨i, hi, hcnt, heq⟩ | ⟨hno, heq⟩ <;> rw [heq]
  · refine iff_of_false ?_ fun hc => hc i hi
    split_ifs <;> simp
  · exact iff_of_true rfl fun k hk => h.refCnt_ne_zero hpa hk (hno k hk)

/-- `kfree` gets the page when its count drops to 0. -/
lemma shmRemove_freed (h : Ok t) (hpa : pa ≠ 0) (x : UInt32) :
    (shmRemove pa t).2.1 = some x ↔
      x = pa ∧ refs t pa ≠ 0 ∧ refs (shmRemove pa t).2.2 pa = 0 := by
  have hrefs := (shmRemove_counted h hpa).refs pa hpa
  rw [if_pos rfl] at hrefs
  rw [hrefs]
  rcases shmRemove_cases t pa with ⟨i, hi, hcnt, heq⟩ | ⟨hno, heq⟩ <;> rw [heq]
  · have hpos := (h.pos_iff i).mpr hcnt
    rw [refs_eq h hi hpa]
    by_cases hlast : (t i).refCnt - 1 = 0
    · rw [if_pos hlast]
      have hone : (t i).refCnt.toInt - 1 = 0 := by
        rw [← toInt_pred hpos, hlast, Int32.toInt_zero]
      rw [if_pos rfl, Option.some.injEq]
      constructor
      · rintro rfl
        exact ⟨rfl, by omega, by omega⟩
      · exact fun hx => hx.1.symm
    · rw [if_neg hlast]
      have hmore : (t i).refCnt.toInt - 1 ≠ 0 := by
        rw [← toInt_pred hpos]
        exact fun h0 => hlast (Int32.toInt_inj.mp (h0.trans Int32.toInt_zero.symm))
      rw [if_pos rfl]
      refine iff_of_false (Option.some_ne_none x).symm ?_
      rintro ⟨-, -, hzero⟩
      omega
  · rw [refs_absent fun k hk => h.refCnt_ne_zero hpa hk (hno k hk)]
    exact iff_of_false (Option.some_ne_none x).symm fun hc => hc.2.1 rfl

/-! ### Sequences of calls -/

/-- The calls that succeeded in adding the page. -/
def added (pa : UInt32) (tr : List (Table × Call)) : Nat :=
  tr.countP fun x => x.2 = .add pa ∧ (shmAdd pa x.1).1 ≠ none

/-- The calls that succeeded in removing the page. -/
def removed (pa : UInt32) (tr : List (Table × Call)) : Nat :=
  tr.countP fun x => x.2 = .remove pa ∧ (shmRemove pa x.1).1 = true

/-- A call returns what it should: `shm_add` fails when the table is full of other pages,
`shm_remove` when the page is not there, and `kfree` gets the page with its last reference. -/
def CallOk (t : Table) : Call → Prop
  | .add pa =>
    ((shmAdd pa t).1 = none ↔ (∀ k, (t k).pa ≠ pa) ∧ (pages t).card = N_SHARED_PAGES) ∧
      ∀ i, (shmAdd pa t).1 = some i → ((shmAdd pa t).2 i).pa = pa
  | .remove pa =>
    ((shmRemove pa t).1 = false ↔ ∀ k, (t k).pa ≠ pa) ∧
      ∀ x, (shmRemove pa t).2.1 = some x ↔
        x = pa ∧ refs t pa ≠ 0 ∧ refs (shmRemove pa t).2.2 pa = 0

lemma callOk (h : Ok t) {c : Call} (hpa : c.pa ≠ 0) : CallOk t c := by
  cases c with
  | add pa => exact ⟨shmAdd_eq_none_iff h, fun i => shmAdd_index⟩
  | remove pa => exact ⟨shmRemove_eq_false_iff h hpa, shmRemove_freed h hpa⟩

/-- By how much a call changes the count of its page. -/
def Call.amount (t : Table) : Call → Int
  | add pa => if (shmAdd pa t).1.isSome then 1 else 0
  | remove pa => if (shmRemove pa t).1 then -1 else 0

lemma counted_of_step {c : Call} (h : Ok t) (hno : NoOverflow t c) (hstep : Step t c t') :
    Counted t c.pa (c.amount t) t' := by
  obtain ⟨hpa, rfl⟩ := hstep
  cases c with
  | add pa => exact shmAdd_counted h hpa hno
  | remove pa => exact shmRemove_counted h hpa

/-- The counts are what the calls add up to. -/
lemma added_sub_removed_snoc (tr : List (Table × Call)) (t : Table) (c : Call) (x : UInt32) :
    (added x (tr ++ [(t, c)]) : Int) - removed x (tr ++ [(t, c)]) =
      added x tr - removed x tr + if x = c.pa then c.amount t else 0 := by
  simp only [added, removed, List.countP_append, List.countP_singleton, decide_eq_true_eq]
  cases c with
  | add pa =>
    by_cases hx : x = pa
    · subst hx
      simp only [true_and, reduceCtorEq, false_and, if_false, Call.amount, Call.pa, if_true,
        ← Option.isSome_iff_ne_none]
      split_ifs <;> omega
    · simp only [Call.add.injEq, Ne.symm hx, false_and, if_false, reduceCtorEq, Call.pa, hx]
      omega
  | remove pa =>
    by_cases hx : x = pa
    · subst hx
      simp only [true_and, reduceCtorEq, false_and, if_false, Call.amount, Call.pa, if_true]
      split_ifs <;> omega
    · simp only [Call.remove.injEq, Ne.symm hx, false_and, if_false, reduceCtorEq, Call.pa, hx]
      omega

lemma run_counted {tr : List (Table × Call)} (hr : Run Step shmInit tr t)
    (hno : AllSteps NoOverflow tr) :
    Ok t ∧ ∀ x, x ≠ 0 → refs t x = added x tr - removed x tr := by
  induction hr with
  | refl =>
    refine ⟨ok_shmInit, fun x hx => ?_⟩
    rw [refs_absent fun k => hx.symm]
    rfl
  | @tail tr t u c hr hc ih =>
    rw [allSteps_snoc] at hno
    obtain ⟨hok, hrefs⟩ := ih hno.1
    have hcounted := counted_of_step hok hno.2 hc
    refine ⟨hcounted.ok, fun x hx => ?_⟩
    rw [hcounted.refs x hx, hrefs x hx, added_sub_removed_snoc]

/-- While a page has references, its entry stays where it is. -/
lemma run_index {tr : List (Table × Call)} (hr : Run Step t tr t') (h : Ok t)
    (hno : AllSteps NoOverflow tr) (hpa : pa ≠ 0) (hi : (t i).pa = pa)
    (hrefs : AllStates (fun u => refs u pa ≠ 0) tr t') : Ok t' ∧ (t' i).pa = pa := by
  induction hr with
  | refl => exact ⟨h, hi⟩
  | @tail tr u v c hr hc ih =>
    rw [allSteps_snoc] at hno
    rw [allStates_snoc] at hrefs
    obtain ⟨hok, hu⟩ := ih hno.1 hrefs.1
    have hcounted := counted_of_step hok hno.2 hc
    refine ⟨hcounted.ok, ?_⟩
    rcases hcounted.keeps i (hu ▸ hpa) with hkept | hzero
    · rw [hkept, hu]
    · rw [hu] at hzero
      exact absurd (refs_absent hzero) hrefs.2

/-- As long as no count overflows, the table is a multiset of pages: entries in use have different
pages and the counts that the calls add up to, free entries have none, every call returns what it
should, and a page keeps its index until its last reference is gone. -/
theorem shm_table_multiset {tr tr' : List (Table × Call)} {t t' : Table}
    (hr : Run Step shmInit tr t) (hno : AllSteps NoOverflow tr) (hr' : Run Step t tr' t')
    (hno' : AllSteps NoOverflow tr') :
    (∀ i j, 0 < (t i).refCnt.toInt → 0 < (t j).refCnt.toInt → (t i).pa = (t j).pa → i = j) ∧
    (∀ i, (t i).pa ≠ 0 → (t i).refCnt.toInt = added (t i).pa tr - removed (t i).pa tr) ∧
    (∀ pa, pa ≠ 0 → (∀ i, (t i).pa ≠ pa) → added pa tr = removed pa tr) ∧
    (∀ i, (t i).refCnt = 0 ↔ (t i).pa = 0) ∧
    AllSteps CallOk tr ∧
    ∀ pa i, pa ≠ 0 → (t i).pa = pa → AllStates (fun u => refs u pa ≠ 0) tr' t' →
      (t' i).pa = pa ∧ (shmAdd pa t').1 = some i := by
  obtain ⟨hok, hrefs⟩ := run_counted hr hno
  refine ⟨fun i j hi _ hij => hok.distinct i j hij ?_, fun i hi => ?_, fun pa hpa habsent => ?_,
    hok.zero, ?_, fun pa i hpa hi hpresent => ?_⟩
  · rwa [ne_eq, ← hok.zero, ← ne_eq, ← hok.pos_iff]
  · rw [← hrefs _ hi, refs_eq hok rfl hi]
  · have := hrefs pa hpa
    rw [refs_absent habsent] at this
    omega
  · have hpages : AllSteps (fun _ (c : Call) => c.pa ≠ 0) tr := by
      clear hok hrefs hno hr'
      induction hr with
      | refl => exact allSteps_nil _
      | tail _ hc ih => exact (allSteps_snoc _ _ _ _).mpr ⟨ih, hc.1⟩
    have hstates := hr.allStates (fun _ _ _ h hC hstep => (counted_of_step h hC hstep).ok)
      ok_shmInit hno
    exact fun x hx => callOk (hstates.1 x hx) (hpages x hx)
  · obtain ⟨hok', hi'⟩ := run_index hr' hok hno' hpa hi hpresent
    exact ⟨hi', shmAdd_again hok' hpa hi'⟩

/-- The table with the page `0x1000` in its first entry. -/
def shared (n : Nat) : Table := Function.update shmInit ⟨0, by decide⟩ ⟨0x1000, Int32.ofNat n⟩

lemma step_shared_one : Step shmInit (.add 0x1000) (shared 1) := by
  refine ⟨(by decide : (0x1000 : UInt32) ≠ 0), ?_⟩
  have hfirst : (shmAdd 0x1000 shmInit).1 = some ⟨0, by decide⟩ := by
    decide +kernel
  rw [exec]
  rcases shmAdd_cases shmInit 0x1000 with ⟨i, hi, -⟩ | ⟨-, ⟨i, -, heq⟩ | ⟨hfull, -⟩⟩
  · exact absurd hi (by decide : (0 : UInt32) ≠ 0x1000)
  · rw [heq] at hfirst ⊢
    cases hfirst
    rfl
  · exact absurd rfl (hfull ⟨0, by decide⟩)

lemma step_shared_succ (n : Nat) : Step (shared n) (.add 0x1000) (shared (n + 1)) := by
  refine ⟨(by decide : (0x1000 : UInt32) ≠ 0), ?_⟩
  have hentry : (shared n ⟨0, by decide⟩) = ⟨0x1000, Int32.ofNat n⟩ := Function.update_self ..
  rw [exec]
  rcases shmAdd_cases (shared n) 0x1000 with ⟨i, hi, heq⟩ | ⟨hnew, -⟩
  · have hi0 : i = ⟨0, by decide⟩ := by
      by_contra hne
      rw [shared, Function.update_of_ne hne] at hi
      exact absurd hi (by decide : (0 : UInt32) ≠ 0x1000)
    rw [heq, hi0, hentry, shared, shared, Function.update_idem, Int32.ofNat_add]
    rfl
  · exact absurd (congrArg Entry.pa hentry) (hnew _)

/-- Any number of calls of `shm_add` for the same page. -/
lemma run_shared (n : Nat) : ∃ tr, Run Step shmInit tr (shared (n + 1)) ∧
    tr.map Prod.snd = List.replicate (n + 1) (.add 0x1000) := by
  induction n with
  | zero => exact ⟨_, .tail .refl step_shared_one, rfl⟩
  | succ n ih =>
    obtain ⟨tr, hr, htr⟩ := ih
    refine ⟨_, .tail hr (step_shared_succ (n + 1)), ?_⟩
    rw [List.map_append, htr, List.replicate_succ' (n := n + 1)]
    rfl

/-- One page is shared twice and given up once. -/
theorem shm_table_multiset_share : ∃ tr t, Run Step shmInit tr t ∧
    tr.map Prod.snd = [.add 0x1000, .add 0x1000, .remove 0x1000] ∧
    t ⟨0, by decide⟩ = ⟨0x1000, 1⟩ ∧ AllSteps CallOk tr := by
  have hremove : Step (shared 2) (.remove 0x1000) (exec (shared 2) (.remove 0x1000)) :=
    ⟨(by decide : (0x1000 : UInt32) ≠ 0), rfl⟩
  have hr := ((Run.refl.tail step_shared_one).tail (step_shared_succ 1)).tail hremove
  have hno₁ : NoOverflow shmInit (.add 0x1000) :=
    fun i hi => absurd hi (by decide : (0 : UInt32) ≠ 0x1000)
  have hno₂ : NoOverflow (shared 1) (.add 0x1000) := by
    intro i _
    rw [shared, Function.update_apply]
    split_ifs
    · decide
    · exact (by decide : (0 : Int32) ≠ Int32.maxValue)
  refine ⟨_, _, hr, rfl, by decide +kernel, ?_⟩
  refine (shm_table_multiset hr ?_ .refl (allSteps_nil _)).2.2.2.2.1
  exact (allSteps_snoc ..).mpr ⟨(allSteps_snoc ..).mpr
    ⟨(allSteps_snoc ..).mpr ⟨allSteps_nil _, hno₁⟩, hno₂⟩, trivial⟩

/-- After 2³¹ calls of `shm_add` for one page its count is negative. -/
theorem shm_count_overflows : ∃ tr t, Run Step shmInit tr t ∧
    tr.map Prod.snd = List.replicate (2 ^ 31) (.add 0x1000) ∧
    (t ⟨0, by decide⟩).pa = 0x1000 ∧ (t ⟨0, by decide⟩).refCnt.toInt = -2 ^ 31 := by
  obtain ⟨n, hn⟩ := Nat.exists_eq_succ_of_ne_zero (show 2 ^ 31 ≠ 0 by decide)
  have hentry : shared (n + 1) ⟨0, by decide⟩ = ⟨0x1000, Int32.ofNat (n + 1)⟩ :=
    Function.update_self ..
  obtain ⟨tr, hr, htr⟩ := run_shared n
  refine ⟨tr, _, hr, ?_, ?_, ?_⟩
  · rw [htr, hn]
  · rw [hentry]
  · rw [hentry, ← Nat.succ_eq_add_one, ← hn]
    rfl

end Xv6.ShmTable
