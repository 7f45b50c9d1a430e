import Xv6.Kernel.Faults
import Xv6.Kernel.Outcomes
import Xv6.Mem.Grow

/-!
# growproc

`growproc` should change the size of a process by exactly `n` bytes or do nothing. It computes the new
size in 32 bits, takes a returned size of 0 for a failure, and leaves the range between the two sizes
to `allocuvm` and `deallocuvm`, whatever else is mapped there.
-/

namespace Xv6

open Fallible Count

namespace Kernel

variable {k : Kernel} {p : Slot} {n : Int32} {d d' : PageDir} {m' : Mem} {v x : Nat}

/-- The state after a change of size that succeeds. -/
def resize (k : Kernel) (p : Slot) (sz : Nat) (d : PageDir) (m : Mem) : Kernel :=
  { k.setMm p { k.mm p with pgdir := some d, sz := sz } with mem := m }

lemma growproc_pos (hd : (k.mm p).pgdir = some d) (hn : 0 < n.toInt) :
    growproc p n k = (do
      let (sz', d, m) ← allocuvm (k.mm p).shm d (k.mm p).sz (newSize (k.mm p).sz n) k.mem
      if sz' = 0 then .ok (-1, k.setDir p d m) else .ok (0, k.resize p sz' d m)) := by
  unfold growproc
  rw [dir_eq hd]
  exact if_pos hn

lemma growproc_neg (hd : (k.mm p).pgdir = some d) (hn : n.toInt < 0) :
    growproc p n k = (do
      let (sz', d, m) ← deallocuvm (k.mm p).shm d (k.mm p).sz (newSize (k.mm p).sz n) k.mem
      if sz' = 0 then .ok (-1, k.setDir p d m) else .ok (0, k.resize p sz' d m)) := by
  unfold growproc
  rw [dir_eq hd]
  exact (if_neg (by omega)).trans (if_pos hn)

/-! ### Exactness -/

/-- The pages from `lo` to `hi` are present, zero-filled and user-writable, and were not present before;
all other entries are as before. -/
structure PagesAdded (lo hi : Nat) (d d' : PageDir) (m' : Mem) : Prop where
  old : ∀ v, lo ≤ v → v < hi → (d.entry v).present = false
  new : ∀ v, lo ≤ v → v < hi →
    (d'.entry v).present = true ∧ (d'.entry v).writable = true ∧ (d'.entry v).user = true
  zero : ∀ v, lo ≤ v → v < hi → ∀ o, m'.bytes (d'.entry v).ppn o = 0
  others : ∀ v, v < lo ∨ hi ≤ v → d'.entry v = d.entry v

/-- The present pages from `lo` to `hi` are unmapped and freed; all other entries are as before. -/
structure PagesRemoved (lo hi : Nat) (d : PageDir) (m : Mem) (d' : PageDir) (m' : Mem) : Prop where
  entry : ∀ v, d'.entry v =
    if lo ≤ v ∧ v < hi ∧ (d.entry v).present = true then 0 else d.entry v
  freed : ∀ x, m'.free x = m.free x + ∑ v ∈ Finset.Ico lo hi, (d.entry v).maps x

/-- The size has changed by `n`, and the pages between the two sizes accordingly. -/
structure Resized (p : Slot) (n : Int) (d : PageDir) (k : Kernel) (d' : PageDir) (m' : Mem) :
    Prop where
  nonneg : 0 ≤ (k.mm p).sz + n
  lt : (k.mm p).sz + n < (KERNBASE * PGSIZE : Nat)
  grown : 0 < n → PagesAdded (pgUp (k.mm p).sz) (pgUp ((k.mm p).sz + n).toNat) d d' m'
  shrunk : n < 0 → PagesRemoved (pgUp ((k.mm p).sz + n).toNat) (pgUp (k.mm p).sz) d k.mem d' m'
  zero : n = 0 → ∀ v, d'.entry v = d.entry v

/-- `growproc` returns 0 with the size changed by `n`, or -1 with size, mappings and, page tables apart,
free pages unchanged. -/
def GrowExact (p : Slot) (n : Int32) (d : PageDir) (k : Kernel) : Prop :=
  ∃ r k', growproc p n k = .ok (r, k') ∧
    ((r = 0 ∧ ∃ d' m', k' = k.resize p ((k.mm p).sz + n.toInt).toNat d' m' ∧
        Resized p n.toInt d k d' m') ∨
      (r = -1 ∧ ∃ d' m', k' = k.setDir p d' m' ∧ TablesOnly d k.mem d' m'))

/-- Growing from `lo` to `hi`: memory suffices and no page there is present, or it does not suffice and
rolling back restores the mappings. -/
def GrowFits (c : ShmField) (d : PageDir) (m : Mem) (lo hi : Nat) : Prop :=
  (needs d lo hi ≤ m.pages ∧ ∀ v, lo ≤ v → v < hi → (d.entry v).present = false) ∨
    (m.pages < needs d lo hi ∧ ShortFits c d m lo hi)

/-- Shrinking to the page `lo`: the shared page is not mapped there and does not stop the loop. -/
def ShrinkFits (c : ShmField) (d : PageDir) (lo hi : Nat) : Prop :=
  ∀ v, lo ≤ v → v < hi → Passable c d lo v ∧ (c.Hits v → (d.entry v).present = false)

/-- What `growproc` needs. A growth up to `KERNBASE` or beyond is refused; one below it must fit. A
process of size 0 cannot shrink; another one must not shrink below 0, and shrinking it to 0, which
counts as a failure, must not unmap anything. -/
def SizeFits (c : ShmField) (sz : Nat) (n : Int) (d : PageDir) (m : Mem) : Prop :=
  (0 < n → sz + n < (KERNBASE * PGSIZE : Nat) → GrowFits c d m (pgUp sz) (pgUp (sz + n).toNat)) ∧
    (n < 0 → sz ≠ 0 → 0 ≤ sz + n ∧
      (0 < sz + n → ShrinkFits c d (pgUp (sz + n).toNat) (pgUp sz)) ∧
      (sz + n = 0 → Restores c d m 0 0 (pgUp sz)))

lemma tablesOnly_refl (d : PageDir) (m : Mem) : TablesOnly d m d m := ⟨fun _ _ => rfl, fun _ => rfl⟩

lemma resize_inj {sz₁ sz₂ : Nat} {d₁ d₂ : PageDir} {m₁ m₂ : Mem}
    (h : k.resize p sz₁ d₁ m₁ = k.resize p sz₂ d₂ m₂) : sz₁ = sz₂ ∧ d₁ = d₂ ∧ m₁ = m₂ := by
  have hmm := congrArg (fun k : Kernel => k.mm p) h
  simp only [resize, setMm, Function.update_self, Mm.mk.injEq, Option.some.injEq] at hmm
  exact ⟨hmm.1, hmm.2.1, congrArg Kernel.mem h⟩

/-! #### Growing -/

section Grow

variable (hn : 0 < n.toInt) (hsz : (k.mm p).sz < KERNBASE * PGSIZE)
  (hd : (k.mm p).pgdir = some d)

include hn hsz

lemma newSize_pos : newSize (k.mm p).sz n = ((k.mm p).sz + n.toInt).toNat := by
  have hK : KERNBASE * PGSIZE = 2147483648 := by
    rw [KERNBASE_eq]
    rfl
  have := n.toInt_lt
  unfold newSize
  omega

include hd

/-- A growth up to `KERNBASE` is refused. -/
lemma growExact_refused (hbig : (KERNBASE * PGSIZE : Nat) ≤ (k.mm p).sz + n.toInt) :
    GrowExact p n d k := by
  have hrefuse : allocuvm (k.mm p).shm d (k.mm p).sz (newSize (k.mm p).sz n) k.mem =
      .ok (0, d, k.mem) := by
    rw [allocuvm, if_pos]
    rw [newSize_pos hn hsz]
    omega
  refine ⟨-1, k.setDir p d k.mem, ?_, Or.inr ⟨rfl, d, k.mem, rfl, tablesOnly_refl _ _⟩⟩
  rw [growproc_pos hd hn, hrefuse]
  rfl

variable (hlt : (k.mm p).sz + n.toInt < (KERNBASE * PGSIZE : Nat))

include hlt

lemma growproc_loop :
    growproc p n k = (do
      let (sz', d, m) ← allocPages (k.mm p).shm (k.mm p).sz ((k.mm p).sz + n.toInt).toNat
        (pgUp ((k.mm p).sz + n.toInt).toNat - pgUp (k.mm p).sz) (pgUp (k.mm p).sz) d k.mem
      if sz' = 0 then .ok (-1, k.setDir p d m) else .ok (0, k.resize p sz' d m)) := by
  rw [growproc_pos hd hn, newSize_pos hn hsz, allocuvm, if_neg (by omega), if_neg (by omega)]

/-- With enough memory the growth is exact exactly if no page of the range is present. -/
lemma growExact_iff_of_enough
    (henough : needs d (pgUp (k.mm p).sz) (pgUp ((k.mm p).sz + n.toInt).toNat) ≤ k.mem.pages) :
    GrowExact p n d k ↔ ∀ v, pgUp (k.mm p).sz ≤ v → v < pgUp ((k.mm p).sz + n.toInt).toNat →
      (d.entry v).present = false := by
  have htop : pgUp ((k.mm p).sz + n.toInt).toNat ≤ KERNBASE := pgUp_le_KERNBASE (by omega)
  have hup : pgUp (k.mm p).sz ≤ pgUp ((k.mm p).sz + n.toInt).toNat := pgUp_mono (by omega)
  have hsum := Nat.add_sub_cancel' hup
  have hloop := growproc_loop hn hsz hd hlt
  constructor
  · rintro ⟨r, k', hgrow, -⟩ v h1 h2
    by_contra hp
    have hpanic : allocPages (k.mm p).shm (k.mm p).sz ((k.mm p).sz + n.toInt).toNat
        (pgUp ((k.mm p).sz + n.toInt).toNat - pgUp (k.mm p).sz) (pgUp (k.mm p).sz) d k.mem =
        .error (.panic "remap") := (allocPages_remap_iff (hsum.symm ▸ htop)).mpr
      ⟨v, h1, hsum.symm ▸ h2, by simpa using hp, by
        have h3 := needs_lt_succ (d := d) h1
        have h4 := needs_mono (d := d) (v := pgUp (k.mm p).sz) (w := v + 1) h2
        omega⟩
    rw [hloop, hpanic] at hgrow
    cases hgrow
  · intro hfree
    obtain ⟨d', m', halloc, -⟩ : ∃ d' m', allocPages (k.mm p).shm (k.mm p).sz
        ((k.mm p).sz + n.toInt).toNat (pgUp ((k.mm p).sz + n.toInt).toNat - pgUp (k.mm p).sz)
        (pgUp (k.mm p).sz) d k.mem = .ok (((k.mm p).sz + n.toInt).toNat, d', m') ∧ _ :=
      allocPages_succeeds _ _ (hsum.symm ▸ htop) (hsum.symm ▸ hfree) (hsum.symm ▸ henough)
    have hne : ((k.mm p).sz + n.toInt).toNat ≠ 0 := by omega
    have hdone : Allocated (pgUp (k.mm p).sz) (pgUp ((k.mm p).sz + n.toInt).toNat) true d d' := by
      rcases allocPages_allocated htop le_rfl hsum _ halloc with ⟨-, h⟩ | ⟨h, -⟩
      · exact h
      · exact absurd h hne
    have hzero := (allocPages_zeroed htop le_rfl hsum _ halloc hne).2
    refine ⟨0, k.resize p ((k.mm p).sz + n.toInt).toNat d' m', ?_, Or.inl ⟨rfl, d', m', rfl,
      by omega, hlt, fun _ => ⟨hfree, hdone.inside rfl, fun v h1 h2 => ?_, hdone.outside⟩,
      fun h => by omega, fun h => by omega⟩⟩
    · rw [hloop, halloc]
      exact if_neg hne
    · exact hzero v h1 (hsum.symm ▸ h2)

/-- With too little memory it is exact exactly if rolling back restores the mappings. -/
lemma growExact_iff_of_short (hok : d.Ok) (hs : Mem.SharedOk k.mem.shared)
    (hin : ∀ v < KERNBASE, (d.entry v).present = true → k.mem.InRange (d.entry v).ppn)
    (hfree : ∀ x, k.mem.free x ≠ 0 → k.mem.InRange x)
    (hshort : k.mem.pages < needs d (pgUp (k.mm p).sz) (pgUp ((k.mm p).sz + n.toInt).toNat)) :
    GrowExact p n d k ↔
      ShortFits (k.mm p).shm d k.mem (pgUp (k.mm p).sz) (pgUp ((k.mm p).sz + n.toInt).toNat) := by
  have htop : pgUp ((k.mm p).sz + n.toInt).toNat ≤ KERNBASE := pgUp_le_KERNBASE (by omega)
  have hle : (k.mm p).sz ≤ ((k.mm p).sz + n.toInt).toNat := by omega
  rw [← allocPages_short_iff hle htop hshort hok hs hin hfree]
  unfold GrowExact
  rw [growproc_loop hn hsz hd hlt]
  constructor
  · rintro ⟨r, k', hgrow, hcase⟩
    obtain ⟨⟨sz', d', m'⟩, halloc, hgrow⟩ := bind_eq_ok.mp hgrow
    have hzero : sz' = 0 := allocPages_short_zero hle htop hshort _ halloc
    subst hzero
    dsimp only at hgrow
    rw [if_pos rfl] at hgrow
    cases hgrow
    rcases hcase with ⟨h, -⟩ | ⟨-, d₂, m₂, heq, hsame⟩
    · cases h
    · obtain ⟨rfl, rfl⟩ := setDir_inj heq
      exact ⟨d', m', halloc, hsame⟩
  · rintro ⟨d', m', halloc, hsame⟩
    refine ⟨-1, k.setDir p d' m', ?_, Or.inr ⟨rfl, d', m', rfl, hsame⟩⟩
    rw [halloc]
    rfl

end Grow

/-! #### Shrinking -/

section Shrink

variable (hn : n.toInt < 0) (hsz : (k.mm p).sz < KERNBASE * PGSIZE)
  (hd : (k.mm p).pgdir = some d)

include hn hsz

lemma newSize_neg (hpos : 0 ≤ (k.mm p).sz + n.toInt) :
    newSize (k.mm p).sz n = ((k.mm p).sz + n.toInt).toNat := by
  have hK : KERNBASE * PGSIZE = 2147483648 := by
    rw [KERNBASE_eq]
    rfl
  unfold newSize
  omega

/-- A new size below 0 wraps around to one above the old size. -/
lemma le_newSize (hneg : (k.mm p).sz + n.toInt < 0) : (k.mm p).sz ≤ newSize (k.mm p).sz n := by
  have hK : KERNBASE * PGSIZE = 2147483648 := by
    rw [KERNBASE_eq]
    rfl
  have := n.le_toInt
  unfold newSize
  omega

include hd

lemma growExact_iff_of_wrapped (hneg : (k.mm p).sz + n.toInt < 0) :
    GrowExact p n d k ↔ (k.mm p).sz = 0 := by
  have hsame : deallocuvm (k.mm p).shm d (k.mm p).sz (newSize (k.mm p).sz n) k.mem =
      .ok ((k.mm p).sz, d, k.mem) := if_pos (le_newSize hn hsz hneg)
  unfold GrowExact
  rw [growproc_neg hd hn, hsame]
  constructor
  · rintro ⟨r, k', hgrow, hcase⟩
    by_contra hne
    change (if (k.mm p).sz = 0 then _ else _) = _ at hgrow
    rw [if_neg hne] at hgrow
    cases hgrow
    rcases hcase with ⟨-, d', m', -, h⟩ | ⟨h, -⟩
    · have := h.nonneg
      omega
    · cases h
  · intro hz
    refine ⟨-1, k.setDir p d k.mem, ?_, Or.inr ⟨rfl, d, k.mem, rfl, tablesOnly_refl _ _⟩⟩
    exact if_pos hz

variable (hok : d.Ok) (hs : Mem.SharedOk k.mem.shared)
  (hin : ∀ v < KERNBASE, (d.entry v).present = true → k.mem.InRange (d.entry v).ppn)

include hok hs hin

/-- Shrinking to a size above 0 is exact exactly if the shared page is not in the way. -/
lemma growExact_iff_of_shrink (hpos : 0 < (k.mm p).sz + n.toInt) :
    GrowExact p n d k ↔
      ShrinkFits (k.mm p).shm d (pgUp ((k.mm p).sz + n.toInt).toNat) (pgUp (k.mm p).sz) := by
  have htop : pgUp (k.mm p).sz ≤ KERNBASE := pgUp_le_KERNBASE hsz
  have hle : ((k.mm p).sz + n.toInt).toNat ≤ (k.mm p).sz := by omega
  have hne : ((k.mm p).sz + n.toInt).toNat ≠ 0 := by omega
  have hreturns := deallocuvm_returns_iff (c := (k.mm p).shm) hle htop hok hs hin
  unfold GrowExact
  rw [growproc_neg hd hn, newSize_neg hn hsz hpos.le]
  constructor
  · rintro ⟨r, k', hgrow, hcase⟩
    obtain ⟨⟨sz', d', m'⟩, hdealloc, hgrow⟩ := bind_eq_ok.mp hgrow
    obtain ⟨hsz', hemptied⟩ := deallocuvm_emptied _ hdealloc
    have hsz' : sz' = ((k.mm p).sz + n.toInt).toNat := hsz'.trans (Nat.min_eq_right hle)
    subst hsz'
    dsimp only at hgrow
    rw [if_neg hne] at hgrow
    cases hgrow
    have hdone : Resized p n.toInt d k d' m' := by
      rcases hcase with ⟨-, d₂, m₂, heq, h⟩ | ⟨h, -⟩
      · obtain ⟨-, rfl, rfl⟩ := resize_inj heq
        exact h
      · cases h
    intro v h1 h2
    refine ⟨hreturns.mp ⟨d', m', hdealloc⟩ v h1 h2, fun hit => ?_⟩
    by_contra hp
    have hp : (d.entry v).present = true := by simpa using hp
    have h3 : d'.entry v = d.entry v := (hemptied v).trans (if_neg fun hc => hc.2.2.1 hit)
    have h4 := (hdone.shrunk hn).entry v
    rw [if_pos ⟨h1, h2, hp⟩, h3] at h4
    rw [h4] at hp
    cases hp
  · intro hfits
    obtain ⟨d', m', hdealloc⟩ := hreturns.mpr fun w h1 h2 => (hfits w h1 h2).1
    have hemptied : Emptied (k.mm p).shm (pgUp ((k.mm p).sz + n.toInt).toNat) (pgUp (k.mm p).sz) d d' :=
      (deallocuvm_emptied _ hdealloc).2
    have hdone : Deallocated (k.mm p).shm (pgUp ((k.mm p).sz + n.toInt).toNat) (pgUp (k.mm p).sz) d
      k.mem d' m' := deallocuvm_ensures htop hs _ hdealloc
    have hshared := fun v h1 h2 => (hfits v h1 h2).2
    refine ⟨0, k.resize p ((k.mm p).sz + n.toInt).toNat d' m', ?_, Or.inl ⟨rfl, d', m', rfl,
      hpos.le, by omega, fun h => by omega, fun _ => ⟨fun v => ?_, fun x => ?_⟩, fun h => by omega⟩⟩
    · rw [hdealloc]
      exact if_neg hne
    · rw [hemptied v]
      by_cases hit : (k.mm p).shm.Hits v
      · rw [if_neg fun hc => hc.2.2.1 hit, if_neg]
        rintro ⟨h1, h2, hp⟩
        rw [hshared v h1 h2 hit] at hp
        cases hp
      · simp only [hit, not_false_eq_true, true_and]
    · have h1 := hdone.free x
      have h2 := hemptied.userRefs_add htop x
      have h3 : releasedRefs (k.mm p).shm d (pgUp ((k.mm p).sz + n.toInt).toNat) (pgUp (k.mm p).sz) x =
          ∑ v ∈ Finset.Ico (pgUp ((k.mm p).sz + n.toInt).toNat) (pgUp (k.mm p).sz),
            (d.entry v).maps x := by
        refine Finset.sum_congr rfl fun v hv => ?_
        obtain ⟨h3, h4⟩ := Finset.mem_Ico.mp hv
        split_ifs with hit
        · rw [Pte.maps_of_not_present (hshared v h3 h4 hit)]
        · rfl
      rw [dropped_eq_zero hok htop hs hshared, ite_self] at h1
      omega

/-- Shrinking to size 0 is taken for a failure, so that it must not unmap anything. -/
lemma growExact_iff_of_clear (hzero : (k.mm p).sz + n.toInt = 0)
    (hfree : ∀ x, k.mem.free x ≠ 0 → k.mem.InRange x) :
    GrowExact p n d k ↔ Restores (k.mm p).shm d k.mem 0 0 (pgUp (k.mm p).sz) := by
  have htop : pgUp (k.mm p).sz ≤ KERNBASE := pgUp_le_KERNBASE hsz
  have hnew : newSize (k.mm p).sz n = 0 := by
    rw [newSize_neg hn hsz hzero.ge, hzero]
    rfl
  have hstart : Reached (pgUp 0) (pgUp 0) d k.mem d k.mem none := .start (fun _ => rfl) rfl rfl
  unfold GrowExact
  rw [growproc_neg hd hn, hnew]
  constructor
  · rintro ⟨r, k', hgrow, hcase⟩
    obtain ⟨⟨sz', d', m'⟩, hdealloc, hgrow⟩ := bind_eq_ok.mp hgrow
    have hsz' : sz' = 0 := (deallocuvm_emptied _ hdealloc).1.trans (Nat.min_eq_right (Nat.zero_le _))
    subst hsz'
    dsimp only at hgrow
    rw [if_pos rfl] at hgrow
    cases hgrow
    have hsame : TablesOnly d k.mem d' m' := by
      rcases hcase with ⟨h, -⟩ | ⟨-, d₂, m₂, heq, h⟩
      · cases h
      · obtain ⟨rfl, rfl⟩ := setDir_inj heq
        exact h
    refine restores_of_rollBack hstart (Nat.zero_le _) le_rfl htop hok hs hin hfree ?_ hsame
    rw [rollBack, hdealloc]
    rfl
  · intro hfits
    obtain ⟨d', m', hroll, hsame⟩ := rollBack_of_restores hstart (Nat.zero_le _) le_rfl
      (Nat.zero_le _) htop hok hs hin hfree hfits
    obtain ⟨⟨sz', d₂, m₂⟩, hdealloc, hrest⟩ := bind_eq_ok.mp hroll
    have hsz' : sz' = 0 := (deallocuvm_emptied _ hdealloc).1.trans (Nat.min_eq_right (Nat.zero_le _))
    subst hsz'
    cases hrest
    refine ⟨-1, k.setDir p d' m', ?_, Or.inr ⟨rfl, d', m', rfl, hsame⟩⟩
    rw [hdealloc]
    rfl

end Shrink

/-- `growproc` is exact and atomic exactly if what it needs is there. -/
theorem growproc_exact_iff (hd : (k.mm p).pgdir = some d) (hsz : (k.mm p).sz < KERNBASE * PGSIZE)
    (hok : d.Ok) (hs : Mem.SharedOk k.mem.shared)
    (hin : ∀ v < KERNBASE, (d.entry v).present = true → k.mem.InRange (d.entry v).ppn)
    (hfree : ∀ x, k.mem.free x ≠ 0 → k.mem.InRange x) :
    GrowExact p n d k ↔ SizeFits (k.mm p).shm (k.mm p).sz n.toInt d k.mem := by
  unfold SizeFits
  rcases lt_trichotomy n.toInt 0 with hneg | hzero | hpos
  · rw [and_iff_right fun h => absurd h (by omega)]
    simp only [hneg, true_imp_iff]
    rcases lt_trichotomy ((k.mm p).sz + n.toInt) 0 with hlt | heq | hgt
    · rw [growExact_iff_of_wrapped hneg hsz hd hlt]
      constructor
      · exact fun h hne => absurd h hne
      · intro h
        by_contra hne
        have := (h hne).1
        omega
    · rw [growExact_iff_of_clear hneg hsz hd hok hs hin heq hfree]
      constructor
      · exact fun h _ => ⟨heq.ge, fun h' => by omega, fun _ => h⟩
      · exact fun h => (h (by omega)).2.2 heq
    · rw [growExact_iff_of_shrink hneg hsz hd hok hs hin hgt]
      constructor
      · exact fun h _ => ⟨hgt.le, fun _ => h, fun h' => by omega⟩
      · exact fun h => (h (by omega)).2.1 hgt
  · refine iff_of_true ⟨0, k, ?_, Or.inl ⟨rfl, d, k.mem, ?_, ?_⟩⟩
      ⟨fun h => by omega, fun h => by omega⟩
    · unfold growproc
      rw [dir_eq hd]
      exact (if_neg (by omega)).trans (if_neg (by omega))
    · have hsame := setDir_self hd
      rw [hzero, Int.add_zero, Int.toNat_natCast]
      exact hsame.symm
    · exact ⟨by omega, by omega, fun h => by omega, fun h => by omega, fun _ _ => rfl⟩
  · rw [and_iff_left fun h => absurd h (by omega)]
    simp only [hpos, true_imp_iff]
    by_cases hlt : (k.mm p).sz + n.toInt < (KERNBASE * PGSIZE : Nat)
    · rw [imp_iff_right hlt, GrowFits]
      by_cases henough :
          needs d (pgUp (k.mm p).sz) (pgUp ((k.mm p).sz + n.toInt).toNat) ≤ k.mem.pages
      · rw [growExact_iff_of_enough hpos hsz hd hlt henough]
        constructor
        · exact fun h => Or.inl ⟨henough, h⟩
        · rintro (⟨-, h⟩ | ⟨h, -⟩)
          · exact h
          · omega
      · rw [growExact_iff_of_short hpos hsz hd hlt hok hs hin hfree (by omega)]
        constructor
        · exact fun h => Or.inr ⟨by omega, h⟩
        · rintro (⟨h, -⟩ | ⟨-, h⟩)
          · omega
          · exact h
    · exact iff_of_true (growExact_refused hpos hsz hd (by omega)) fun h => absurd h hlt

lemma firstMapped_inRange {l : List Nat} (v : Nat) (hp : (firstMapped.entry v).present = true) :
    Mem.InRange { zeroMem with freelist := l } (firstMapped.entry v).ppn := by
  rw [firstMapped_entry] at hp ⊢
  split_ifs at hp ⊢
  exact ⟨(by decide : (280 : Nat) ≤ 301), by decide⟩

/-- A process of one page grows by the one page that is free. -/
theorem growproc_exact_one_page :
    GrowExact 0 4096 firstMapped
      (lone firstMapped PGSIZE ⟨none, 0⟩ { zeroMem with freelist := [304] }) := by
  have hK : KERNBASE = 524288 := KERNBASE_eq
  refine (growproc_exact_iff rfl (by rw [hK]; decide) firstMapped_ok zeroMem_sharedOk
    (fun v _ hp => firstMapped_inRange v hp) fun x hx => ?_).mpr
    ⟨fun _ _ => Or.inl ⟨by decide, fun v h1 h2 => ?_⟩, fun h => absurd h (by decide)⟩
  · have hx : x ∈ [304] := Mem.free_ne_zero.mp hx
    rw [List.mem_singleton.mp hx]
    exact ⟨(by decide : (280 : Nat) ≤ 304), by decide⟩
  · change 1 ≤ v at h1
    rw [firstMapped_entry, if_neg (by omega)]
    rfl

/-- A process of one page, in page 301. Shrunk by its whole size, it is told that this failed, but its
page is gone. Shrunk by two pages, it is told that this succeeded, but its size is the same. And a
process with a page mapped at page 2 that grows by two pages when no memory is left loses that page. -/
theorem growproc_not_exact :
    (∃ k', growproc 0 (-4096) (lone firstMapped PGSIZE ⟨none, 0⟩ zeroMem) = .ok (-1, k') ∧
      (k'.mm 0).sz = PGSIZE ∧ k'.mem.freelist = [301]) ∧
    (∃ k', growproc 0 (-8192) (lone firstMapped PGSIZE ⟨none, 0⟩ zeroMem) = .ok (0, k') ∧
      (k'.mm 0).sz = PGSIZE) ∧
    ∃ k', growproc 0 8192 (lone (oneTable fun j => if j = 2 then (⟨true, true⟩ : Perm).pte 301 else 0)
        PGSIZE ⟨none, 0⟩ zeroMem) = .ok (-1, k') ∧ k'.mem.freelist = [301] := by
  have hK : KERNBASE * PGSIZE = 2147483648 := by
    rw [KERNBASE_eq]
    rfl
  have h₁ : newSize PGSIZE (-4096) = 0 := by decide
  have h₂ : newSize PGSIZE (-8192) = 4294963200 := by decide
  have h₃ : newSize PGSIZE 8192 = 12288 := by decide
  refine ⟨?_, ?_, ?_⟩
  · rw [growproc_neg rfl (by decide)]
    change ∃ k', (deallocuvm _ _ _ (newSize PGSIZE (-4096)) _ >>= _) = _ ∧ _
    rw [h₁]
    exact ⟨_, rfl, rfl, rfl⟩
  · rw [growproc_neg rfl (by decide)]
    change ∃ k', (deallocuvm _ _ PGSIZE (newSize PGSIZE (-8192)) _ >>= _) = _ ∧ _
    rw [h₂, deallocuvm, if_pos (by decide)]
    exact ⟨_, rfl, rfl⟩
  · rw [growproc_pos rfl (by decide)]
    change ∃ k', (allocuvm _ _ PGSIZE (newSize PGSIZE 8192) _ >>= _) = _ ∧ _
    rw [h₃, allocuvm, if_neg (by omega), if_neg (by decide)]
    exact ⟨_, rfl, rfl⟩

end Kernel

end Xv6
