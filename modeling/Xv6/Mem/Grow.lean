import Xv6.Mem.Enough
import Xv6.Mem.Shrink

/-!
# Growing an address space

The loop of `allocuvm`, page by page: it maps zeroed pages, and when memory runs out it calls
`deallocuvm` on the whole range, not only on the pages it has mapped. The pages of the range that other
calls have mapped are therefore freed too, lazy pages that were overwritten are not restored, and the
shared page is treated as such whether the growth mapped it or not.
-/

namespace Xv6

open Fallible Count

variable {c : ShmField} {d d' d₁ : PageDir} {m m' m₁ : Mem} {v w u x y n lo hi top : Nat}
  {held : Option Nat}

/-! ### What growing needs -/

lemma tablesFor_subset (h : w ≤ u) : tablesFor v w ⊆ tablesFor v u :=
  Finset.image_subset_image (Finset.Ico_subset_Ico_right h)

lemma missing_mono {S T : Finset Nat} (h : S ⊆ T) (d : PageDir) : missing S d ≤ missing T d :=
  Finset.card_le_card (Finset.filter_subset_filter _ h)

lemma needs_mono (h : w ≤ u) : needs d v w ≤ needs d v u := by
  have := missing_mono (tablesFor_subset (v := v) h) d
  unfold needs
  omega

lemma needs_lt_succ (h : v ≤ w) : needs d v w < needs d v (w + 1) := by
  have := missing_mono (tablesFor_subset (v := v) (Nat.le_add_right w 1)) d
  unfold needs
  omega

/-- One more page whose page table exists. -/
lemma needs_succ_of_hasTable (h : v ≤ w) (ht : d.HasTable w) :
    needs d v (w + 1) = needs d v w + 1 := by
  have htables : tablesFor v (w + 1) = insert (w / NPTENTRIES) (tablesFor v w) := by
    have hico : Finset.Ico v (w + 1) = insert w (Finset.Ico v w) := by
      ext u
      simp only [Finset.mem_Ico, Finset.mem_insert]
      omega
    rw [tablesFor, tablesFor, hico, Finset.image_insert]
  rw [needs, needs, htables, missing_insert ht]
  omega

/-- Memory suffices to map the pages from `lo` up to and including `w`. -/
def Reaches (d : PageDir) (m : Mem) (lo w : Nat) : Prop := needs d lo (w + 1) ≤ m.pages

/-! ### Zeroed pages -/

/-- What is zero stays zero. -/
def Mem.KeepsZero (m m' : Mem) : Prop := ∀ x o, m.bytes x o = 0 → m'.bytes x o = 0

lemma Mem.KeepsZero.trans {m'' : Mem} (h : m.KeepsZero m') (h' : m'.KeepsZero m'') :
    m.KeepsZero m'' := fun x o hx => h' x o (h x o hx)

lemma kalloc_bytes {r : Option Nat} (h : m.kalloc = (r, m')) : m'.bytes = m.bytes := by
  cases r with
  | none => rw [(Mem.kalloc_none h).2]
  | some y => rw [(Mem.kalloc_some h).2]

lemma memset_keepsZero (m : Mem) (y : Nat) : m.KeepsZero (m.memset y 0) := by
  intro x o hx
  by_cases hxy : x = y
  · subst hxy
    simp [Mem.memset]
  · simpa [Mem.memset, hxy] using hx

lemma walkpgdir_keepsZero {ok : Bool} (h : walkpgdir d v m = (ok, d', m')) : m.KeepsZero m' := by
  unfold walkpgdir at h
  split at h
  · simp only [Prod.mk.injEq] at h
    rw [← h.2.2]
    exact fun _ _ hx => hx
  · split at h
    · next hk =>
      simp only [Prod.mk.injEq] at h
      rw [← h.2.2]
      exact fun x o hx => by rw [kalloc_bytes hk]; exact hx
    · next y m₁ hk =>
      simp only [Prod.mk.injEq] at h
      rw [← h.2.2]
      intro x o hx
      apply memset_keepsZero
      rw [kalloc_bytes hk]
      exact hx

lemma mappages_one_keepsZero {perm : Perm} {pa : Nat} :
    Ensures (mappages perm 1 d v pa m) fun r => m.KeepsZero r.2.2 := by
  unfold mappages
  split
  · next hw => exact .ok (walkpgdir_keepsZero hw)
  · next hw =>
    split
    · exact .error
    · exact .ok (walkpgdir_keepsZero hw)

/-- Growing that succeeds maps pages that hold zeros. -/
lemma allocPages_zeroed {oldsz newsz : Nat} (hnew : pgUp newsz ≤ KERNBASE) (hv : pgUp oldsz ≤ v)
    (hn : v + n = pgUp newsz) :
    Ensures (allocPages c oldsz newsz n v d m) fun r => r.1 ≠ 0 → m.KeepsZero r.2.2 ∧
      ∀ w, v ≤ w → w < v + n → ∀ o, r.2.2.bytes (r.2.1.entry w).ppn o = 0 := by
  induction n generalizing v d m with
  | zero => exact .ok fun _ => ⟨fun _ _ hx => hx, fun w h1 h2 => by omega⟩
  | succ n ih =>
    intro r hr hne
    obtain ⟨y, m₁, d₁, m₂, hk, hmap, hr⟩ := allocPages_succ_eq_ok hr hne
    obtain ⟨-, hentry, -⟩ := (mappages_one (by omega) _ hmap).2.2.1 rfl
    have hall := allocPages_allocated hnew (by omega) (by omega) r hr
    obtain ⟨hkeep, hbytes⟩ := ih (by omega) (by omega) r hr hne
    have hkeep' : (m₁.memset y 0).KeepsZero r.2.2 := (mappages_one_keepsZero _ hmap).trans hkeep
    refine ⟨fun x o hx => hkeep' x o (memset_keepsZero _ _ x o ?_), fun w h1 h2 o => ?_⟩
    · rw [kalloc_bytes hk]
      exact hx
    · rcases Nat.eq_or_lt_of_le h1 with rfl | hlt
      · have hout : r.2.1.entry v = (⟨true, true⟩ : Perm).pte y := by
          rcases hall with ⟨-, h⟩ | ⟨h, -⟩
          · rw [h.outside v (by omega), hentry v, if_pos rfl]
          · exact absurd h hne
        rw [hout]
        exact hkeep' y o (by simp [Mem.memset])
      · exact hbytes w hlt (by omega) o

/-! ### Running out of memory -/

/-- The uses of a page that is held in a local variable. -/
def heldRefs (held : Option Nat) (x : Nat) : Nat := held.elim 0 fun y => one y x

/-- The loop of `allocuvm`, entered at page `lo`, has mapped the pages below `top` and holds a page it
could not map. -/
structure Reached (lo top : Nat) (d : PageDir) (m : Mem) (d₁ : PageDir) (m₁ : Mem)
    (held : Option Nat) : Prop where
  mapped : ∀ w, lo ≤ w → w < top → ∃ y, m.free y ≠ 0 ∧ d₁.entry w = (⟨true, true⟩ : Perm).pte y
  old : ∀ w, lo ≤ w → w < top → (d.entry w).present = false
  others : ∀ w, w < lo ∨ top ≤ w → d₁.entry w = d.entry w
  hasTable : ∀ w, d₁.HasTable w ↔
    d.HasTable w ∨ ∃ u, lo ≤ u ∧ u < top ∧ u / NPTENTRIES = w / NPTENTRIES
  refs : ∀ x, d₁.refs x + m₁.free x + heldRefs held x = d.refs x + m.free x
  held_free : ∀ y, held = some y → m.free y ≠ 0
  shared : m₁.shared = m.shared
  layout : m₁.layout = m.layout

/-- The end of `allocuvm` when memory has run out. -/
def rollBack (c : ShmField) (oldsz newsz : Nat) (held : Option Nat) (d : PageDir) (m : Mem) :
    Except Fault (Nat × PageDir × Mem) := do
  let (_, d, m) ← deallocuvm c d newsz oldsz m
  let m ← held.elim (.ok m) fun y => m.kfree y
  pure (0, d, m)

lemma Reached.start (hk : ∀ x, m₁.free x + heldRefs held x = m.free x) (hs : m₁.shared = m.shared)
    (hl : m₁.layout = m.layout) : Reached v v d m d m₁ held := by
  refine ⟨fun w h1 h2 => by omega, fun w h1 h2 => by omega, fun _ _ => rfl, fun w => ?_, fun x => ?_,
    fun y hy => ?_, hs, hl⟩
  · constructor
    · exact Or.inl
    · rintro (h | ⟨u, h1, h2, -⟩)
      · exact h
      · omega
  · have := hk x
    omega
  · have := hk y
    rw [hy, heldRefs, Option.elim_some, one, if_pos rfl] at this
    omega

/-- One page is mapped, then the pages up to `top`. -/
lemma Reached.step {m₂ : Mem} (hk : m.kalloc = (some y, m'))
    (hwalk : walkpgdir d v (m'.memset y 0) = (true, d', m₂)) (hv : v < KERNBASE) (hvt : v < top)
    (hold : (d.entry v).present = false)
    (h : Reached (v + 1) top (d'.set v ((⟨true, true⟩ : Perm).pte y)) m₂ d₁ m₁ held) :
    Reached v top d m d₁ m₁ held := by
  obtain ⟨hext, htable, -⟩ := walkpgdir_extends (lt_NVPAGES hv) hwalk
  have ht := htable rfl
  have hfree := Mem.free_kalloc hk
  have hle := walkpgdir_free_le hwalk
  have hmono : ∀ z, m₂.free z ≠ 0 → m.free z ≠ 0 := by
    intro z hz
    have h1 := hfree z
    have h2 := hle z
    rw [Mem.free_memset] at h2
    omega
  refine ⟨fun w h1 h2 => ?_, fun w h1 h2 => ?_, fun w hw => ?_, fun w => ?_, fun x => ?_,
    fun z hz => hmono z (h.held_free z hz), ?_, ?_⟩
  · rcases Nat.eq_or_lt_of_le h1 with rfl | hlt
    · refine ⟨y, ?_, (h.others v (by omega)).trans (PageDir.entry_set_self ht)⟩
      have := hfree y
      rw [one, if_pos rfl] at this
      omega
    · obtain ⟨z, hz, he⟩ := h.mapped w hlt h2
      exact ⟨z, hmono z hz, he⟩
  · rcases Nat.eq_or_lt_of_le h1 with rfl | hlt
    · exact hold
    · have := h.old w hlt h2
      rwa [PageDir.entry_set_ne (by omega), hext.entry] at this
  · rw [h.others w (by omega), PageDir.entry_set_ne (by omega), hext.entry]
  · rw [h.hasTable w, PageDir.hasTable_set]
    constructor
    · rintro (hw | ⟨u, h1, h2, h3⟩)
      · by_cases hblock : w / NPTENTRIES = v / NPTENTRIES
        · exact Or.inr ⟨v, le_rfl, hvt, hblock.symm⟩
        · left
          unfold PageDir.HasTable at hw ⊢
          rwa [walkpgdir_pde hwalk hblock] at hw
      · exact Or.inr ⟨u, by omega, h2, h3⟩
    · rintro (hw | ⟨u, h1, h2, h3⟩)
      · exact Or.inl (hext.hasTable w hw)
      · rcases Nat.eq_or_lt_of_le h1 with rfl | hlt
        · left
          unfold PageDir.HasTable at ht ⊢
          rwa [← h3]
        · exact Or.inr ⟨u, hlt, h2, h3⟩
  · have h1 := h.refs x
    have h2 := PageDir.userRefs_set (e := (⟨true, true⟩ : Perm).pte y) ht hv x
    have h3 := hext.refs x
    have h4 := hfree x
    rw [hext.entry, Pte.maps_of_not_present hold, maps_pte] at h2
    rw [Mem.free_memset] at h3
    unfold PageDir.refs at *
    rw [PageDir.tableRefs_set] at h1
    omega
  · rw [h.shared, hext.shared, Mem.shared_memset, Mem.shared_kalloc hk]
  · rw [h.layout, hext.layout, Mem.layout_memset, Mem.layout_kalloc hk]

/-- When memory does not suffice for the whole range, and no present page is met before, the loop maps
the pages that memory suffices for and rolls back. -/
lemma allocPages_short (oldsz newsz : Nat) (hv : v + n ≤ KERNBASE)
    (hpres : ∀ w, v ≤ w → w < v + n → (d.entry w).present = true → m.pages ≤ needs d v w)
    (hshort : m.pages < needs d v (v + n)) :
    ∃ top d₁ m₁ held, v ≤ top ∧ top < v + n ∧ needs d v top ≤ m.pages ∧ ¬ Reaches d m v top ∧
      Reached v top d m d₁ m₁ held ∧
      allocPages c oldsz newsz n v d m = rollBack c oldsz newsz held d₁ m₁ := by
  induction n generalizing v d m with
  | zero => simp at hshort
  | succ n ih =>
    have hvK : v < KERNBASE := by omega
    rcases hk : m.kalloc with ⟨_ | y, m'⟩
    · obtain ⟨hnil, rfl⟩ := Mem.kalloc_none hk
      have hzero : m'.pages = 0 := by rw [Mem.pages, hnil, List.length_nil]
      refine ⟨v, d, m', none, le_rfl, by omega, by simp, ?_, .start (fun _ => rfl) rfl rfl, ?_⟩
      · have := needs_lt_succ (d := d) (le_refl v)
        unfold Reaches
        omega
      · unfold allocPages
        rw [hk]
        rfl
    · have hlen : m.pages = m'.pages + 1 := by
        simp only [Mem.pages, (Mem.kalloc_some hk).1, List.length_cons]
      rcases hwalk : walkpgdir d v (m'.memset y 0) with ⟨_ | _, d', m₂⟩
      · obtain ⟨-, -, hnone⟩ := walkpgdir_extends (lt_NVPAGES hvK) hwalk
        obtain ⟨hnil, rfl, ht⟩ := hnone rfl
        have hm₂ : m₂ = m'.memset y 0 := by
          unfold walkpgdir at hwalk
          rw [show d'.pde (v / NPTENTRIES) = none by simpa [PageDir.HasTable] using ht] at hwalk
          simp only [Mem.kalloc, hnil, Prod.mk.injEq, true_and] at hwalk
          exact hwalk.symm
        subst hm₂
        have hzero : m'.pages = 0 := by
          change m'.freelist = [] at hnil
          rw [Mem.pages, hnil, List.length_nil]
        refine ⟨v, d', m'.memset y 0, some y, le_rfl, by omega, by simp, ?_,
          .start (fun x => (Mem.free_kalloc hk x).symm)
            (show m'.shared = m.shared from Mem.shared_kalloc hk)
            (show m'.layout = m.layout from Mem.layout_kalloc hk), ?_⟩
        · have hone := missing_pos (S := tablesFor v (v + 1)) (d := d') (i := v / NPTENTRIES)
            (by rw [tablesFor_succ (Nat.lt_succ_self v)]; exact Finset.mem_insert_self ..)
            (by simpa [PageDir.HasTable] using ht)
          unfold Reaches needs
          omega
        · unfold allocPages
          simp only [hk, mappages, hwalk]
          rfl
      · obtain ⟨hext, htable, -⟩ := walkpgdir_extends (lt_NVPAGES hvK) hwalk
        have hpages : (m'.memset y 0).pages = m'.pages := rfl
        have hold : (d.entry v).present = false := by
          by_contra hp
          have := hpres v le_rfl (by omega) (by simpa using hp)
          rw [needs_self] at this
          omega
        -- what is left of the range needs as much less as there is less memory
        have hneeds : ∀ w, v < w →
            m.pages + needs (d'.set v ((⟨true, true⟩ : Perm).pte y)) (v + 1) w =
              m₂.pages + needs d v w := by
          intro w hw
          have := needs_succ (e := (⟨true, true⟩ : Perm).pte y) hw hwalk (htable rfl)
          omega
        have hshift : v + 1 + n = v + (n + 1) := by omega
        obtain ⟨top, d₁, m₁, held, h1, h2, h3, h4, h5, h6⟩ :=
          ih (v := v + 1) (d := d'.set v ((⟨true, true⟩ : Perm).pte y)) (m := m₂) (by omega)
            (fun w hw hw' hp => by
              rw [PageDir.entry_set_ne (by omega), hext.entry] at hp
              have := hpres w (by omega) (by omega) hp
              have := hneeds w (by omega)
              omega)
            (by
              have := hneeds (v + 1 + n) (by omega)
              rw [hshift] at this ⊢
              omega)
        refine ⟨top, d₁, m₁, held, by omega, by omega, ?_, fun h => h4 ?_,
          h5.step hk hwalk hvK (by omega) hold, ?_⟩
        · have := hneeds top (by omega)
          omega
        · have := hneeds (top + 1) (by omega)
          unfold Reaches at h ⊢
          omega
        · rw [← h6]
          simp only [allocPages, hk, mappages, hwalk, hext.entry v, hold, bind, Except.bind]
          rfl

/-! ### When rolling back undoes the growth -/

/-- The user mappings are the same, and pages were taken for page tables only. -/
structure TablesOnly (d : PageDir) (m : Mem) (d' : PageDir) (m' : Mem) : Prop where
  entry : ∀ w < KERNBASE, d'.entry w = d.entry w
  tables : ∀ x, m'.free x + d'.tableRefs x = m.free x + d.tableRefs x

/-- Once the pages from `lo` up to `top` have been mapped, `deallocuvm` over the range from `lo` to `hi`
restores the mappings: the pages that were mapped had been empty and are not the shared page; of the
others none is present, except the shared page if others share it, and that does not stop the loop. -/
def Restores (c : ShmField) (d : PageDir) (m : Mem) (lo top hi : Nat) : Prop :=
  ∀ w, lo ≤ w → w < hi →
    (w < top → d.entry w = 0 ∧ ¬ c.Hits w) ∧
    (top ≤ w → Passable c d lo w ∧
      ((d.entry w).present = true → c.Hits w ∧ Mem.shmRef m.shared (d.entry w).ppn ≠ 1))

/-- Memory runs out between `lo` and `hi`, and rolling back restores the mappings. -/
def ShortFits (c : ShmField) (d : PageDir) (m : Mem) (lo hi : Nat) : Prop :=
  ∀ w, lo ≤ w → w < hi →
    (Reaches d m lo w → d.entry w = 0 ∧ ¬ c.Hits w) ∧
    (¬ Reaches d m lo w → Passable c d lo w ∧
      ((d.entry w).present = true → c.Hits w ∧ Mem.shmRef m.shared (d.entry w).ppn ≠ 1))

lemma shortFits_iff (hreach : ∀ w, lo ≤ w → w < hi → (Reaches d m lo w ↔ w < top)) :
    ShortFits c d m lo hi ↔ Restores c d m lo top hi := by
  refine forall_congr' fun w => forall_congr' fun h1 => forall_congr' fun h2 => ?_
  rw [hreach w h1 h2, Nat.not_lt]

lemma Reached.ok (h : Reached lo top d m d₁ m₁ held) (hok : d.Ok) : d₁.Ok := by
  intro w hw
  by_cases hwt : lo ≤ w ∧ w < top
  · obtain ⟨y, -, he⟩ := h.mapped w hwt.1 hwt.2
    rw [he]
    exact Perm.pte_ok _ _
  · rw [h.others w (by omega)]
    exact hok w hw

lemma Reached.inRange (h : Reached lo top d m d₁ m₁ held)
    (hin : ∀ v < KERNBASE, (d.entry v).present = true → m.InRange (d.entry v).ppn)
    (hfree : ∀ x, m.free x ≠ 0 → m.InRange x) (hw : w < KERNBASE)
    (hp : (d₁.entry w).present = true) : m₁.InRange (d₁.entry w).ppn := by
  refine Mem.InRange.congr (m := m) ?_ h.layout
  by_cases hwt : lo ≤ w ∧ w < top
  · obtain ⟨y, hy, he⟩ := h.mapped w hwt.1 hwt.2
    rw [he]
    exact hfree y hy
  · rw [h.others w (by omega)] at hp ⊢
    exact hin w hw hp

/-- The page tables made by the growth do not help the loop past the shared page. -/
lemma Reached.passable_iff (h : Reached lo top d m d₁ m₁ held) (hlo : lo ≤ top) (hw : top ≤ w) :
    Passable c d₁ lo w ↔ Passable c d lo w := by
  unfold Passable
  rw [h.hasTable w]
  refine imp_congr_right fun _ => ⟨?_, fun hp => hp.imp_left Or.inl⟩
  rintro ((ht | ⟨u, h1, h2, h3⟩) | hne)
  · exact Or.inl ht
  · refine Or.inr ⟨by omega, fun hmod => ?_⟩
    simp only [NPTENTRIES] at h3 hmod
    omega
  · exact Or.inr hne

lemma Reached.passable (h : Reached lo top d m d₁ m₁ held) (h1 : lo ≤ w) (h2 : w < top) :
    Passable c d₁ lo w := by
  obtain ⟨y, -, he⟩ := h.mapped w h1 h2
  exact fun _ => Or.inl (PageDir.hasTable_of_present (by rw [he]; rfl))

/-- The pages that rolling back gives back: all that were taken, and with them the shared page if the
reference dropped was the last one. -/
lemma Reached.rolledBack {d₂ : PageDir} {m₂ m₃ : Mem} (h : Reached lo top d m d₁ m₁ held)
    (hdone : Deallocated c lo hi d₁ m₁ d₂ m₂) (hm₃ : ∀ x, m₃.free x = m₂.free x + heldRefs held x)
    (hsame : ∀ w < KERNBASE, d₂.entry w = d.entry w) (x : Nat) :
    m₃.free x + d₂.tableRefs x = m.free x + d.tableRefs x +
      if Mem.shmRef m.shared x = 1 then dropped c d₁ m₁ lo hi x else 0 := by
  have h1 := h.refs x
  have h2 := hdone.free x
  have h3 := hdone.tables x
  have h4 := PageDir.userRefs_congr hsame x
  have h5 := hm₃ x
  rw [h.shared] at h2
  unfold PageDir.refs at h1
  omega

lemma giveBack_free (held : Option Nat) (m : Mem) :
    Ensures (held.elim (.ok m) fun y => m.kfree y) fun m' =>
      ∀ x, m'.free x = m.free x + heldRefs held x := by
  cases held with
  | none => exact .ok fun _ => rfl
  | some y => exact (Mem.kfree_ensures y m).mono fun m' h => h.2.1

section RollBack

variable {oldsz newsz : Nat} (h : Reached (pgUp oldsz) top d m d₁ m₁ held) (hle : oldsz ≤ newsz)
  (hlo : pgUp oldsz ≤ top) (hhi : top ≤ pgUp newsz) (hK : pgUp newsz ≤ KERNBASE)
  (hok : d.Ok) (hs : Mem.SharedOk m.shared)
  (hin : ∀ v < KERNBASE, (d.entry v).present = true → m.InRange (d.entry v).ppn)
  (hfree : ∀ x, m.free x ≠ 0 → m.InRange x)

include h hle hlo hK hok hs hin hfree

lemma restores_of_rollBack {m' : Mem}
    (hroll : rollBack c oldsz newsz held d₁ m₁ = .ok (0, d', m')) (hsame : TablesOnly d m d' m') :
    Restores c d m (pgUp oldsz) top (pgUp newsz) := by
  have hs₁ : Mem.SharedOk m₁.shared := h.shared ▸ hs
  obtain ⟨⟨sz, d₂, m₂⟩, hdealloc, hrest⟩ := bind_eq_ok.mp hroll
  obtain ⟨m₃, hback, hrest⟩ := bind_eq_ok.mp hrest
  cases hrest
  obtain ⟨hsz, hemptied⟩ := deallocuvm_emptied _ hdealloc
  have hsz : sz = oldsz := hsz.trans (Nat.min_eq_right hle)
  have hdone : Deallocated c (pgUp oldsz) (pgUp newsz) d₁ m₁ d' m₂ :=
    deallocuvm_ensures hK hs₁ _ hdealloc
  have hpass := (deallocuvm_returns_iff hle hK (h.ok hok) hs₁
    fun v hv hp => h.inRange hin hfree hv hp).mp ⟨d', m₂, hsz ▸ hdealloc⟩
  have hcount := h.rolledBack hdone (giveBack_free held m₂ _ hback) hsame.entry
  have hentry : ∀ w < KERNBASE, d.entry w = if pgUp oldsz ≤ w ∧ w < pgUp newsz ∧ ¬ c.Hits w ∧
      (d₁.entry w).present = true then 0 else d₁.entry w := by
    intro w hw
    rw [← hsame.entry w hw]
    exact hemptied w
  intro w h1 h2
  have hwK : w < KERNBASE := by omega
  have hew := hentry w hwK
  constructor
  · intro hwt
    obtain ⟨y, -, hy⟩ := h.mapped w h1 hwt
    by_cases hit : c.Hits w
    · -- the page at `shm_va` was mapped and is not unmapped
      rw [if_neg (by tauto), hy] at hew
      have := h.old w h1 hwt
      rw [hew] at this
      cases this
    · rw [if_pos ⟨h1, h2, hit, by rw [hy]; rfl⟩] at hew
      exact ⟨hew, hit⟩
  · intro hwt
    refine ⟨(h.passable_iff hlo (by omega)).mp (hpass w h1 h2), fun hp => ?_⟩
    have hold : d₁.entry w = d.entry w := h.others w (by omega)
    have hit : c.Hits w := by
      by_contra hit
      rw [if_pos ⟨h1, h2, hit, hold ▸ hp⟩] at hew
      rw [hew] at hp
      cases hp
    refine ⟨hit, fun hone => ?_⟩
    have hx := hcount (d.entry w).ppn
    have hdrop : dropped c d₁ m₁ (pgUp oldsz) (pgUp newsz) (d.entry w).ppn = 1 := by
      have hne : Mem.shmRef m₁.shared (d.entry w).ppn ≠ 0 := by
        rw [h.shared, hone]
        exact Nat.one_ne_zero
      obtain ⟨hidx, hva⟩ := hit
      rw [dropped, ← hva, if_pos ⟨hidx, h1, h2, PageDir.hasTable_of_present (hold ▸ hp), hne⟩, hold,
        one, if_pos rfl]
    rw [if_pos hone, hdrop] at hx
    have := hsame.tables (d.entry w).ppn
    omega

include hhi

lemma rollBack_of_restores (hfits : Restores c d m (pgUp oldsz) top (pgUp newsz)) :
    ∃ d' m', rollBack c oldsz newsz held d₁ m₁ = .ok (0, d', m') ∧ TablesOnly d m d' m' := by
  have hs₁ : Mem.SharedOk m₁.shared := h.shared ▸ hs
  have hpass : ∀ w, pgUp oldsz ≤ w → w < pgUp newsz → Passable c d₁ (pgUp oldsz) w := by
    intro w h1 h2
    by_cases hwt : w < top
    · exact h.passable h1 hwt
    · exact (h.passable_iff hlo (by omega)).mpr ((hfits w h1 h2).2 (by omega)).1
  obtain ⟨d₂, m₂, hdealloc⟩ := (deallocuvm_returns_iff hle hK (h.ok hok) hs₁
    fun v hv hp => h.inRange hin hfree hv hp).mpr hpass
  obtain ⟨-, hemptied⟩ := deallocuvm_emptied _ hdealloc
  have hdone : Deallocated c (pgUp oldsz) (pgUp newsz) d₁ m₁ d₂ m₂ :=
    deallocuvm_ensures hK hs₁ _ hdealloc
  have hback : ∃ m₃, (held.elim (.ok m₂) fun y => m₂.kfree y) = .ok m₃ := by
    cases hheld : held with
    | none => exact ⟨m₂, rfl⟩
    | some y =>
      have hy : m.InRange y := hfree y (h.held_free y hheld)
      exact ⟨_, Mem.kfree_eq_ok (hy.congr (hdone.layout.trans h.layout))⟩
  obtain ⟨m₃, hm₃⟩ := hback
  have hsame : ∀ w < KERNBASE, d₂.entry w = d.entry w := by
    intro w _
    rw [hemptied w]
    by_cases hwR : pgUp oldsz ≤ w ∧ w < pgUp newsz
    · have hw := hfits w hwR.1 hwR.2
      by_cases hwt : w < top
      · obtain ⟨hzero, hit⟩ := hw.1 hwt
        obtain ⟨y, -, hy⟩ := h.mapped w hwR.1 hwt
        rw [if_pos ⟨hwR.1, hwR.2, hit, by rw [hy]; rfl⟩, hzero]
      · have hold : d₁.entry w = d.entry w := h.others w (by omega)
        rw [if_neg, hold]
        rintro ⟨-, -, hit, hp⟩
        exact hit ((hw.2 (by omega)).2 (hold ▸ hp)).1
    · rw [if_neg (by tauto)]
      exact h.others w (by omega)
  refine ⟨d₂, m₃, ?_, hsame, fun x => ?_⟩
  · change (deallocuvm c d₁ newsz oldsz m₁ >>= _) = _
    rw [hdealloc]
    change ((held.elim (.ok m₂) fun y => m₂.kfree y) >>= _) = _
    rw [hm₃]
    rfl
  · rw [h.rolledBack hdone (giveBack_free held m₂ _ hm₃) hsame x]
    split_ifs with hone
    · -- the reference that is dropped is not the last one
      have hzero : dropped c d₁ m₁ (pgUp oldsz) (pgUp newsz) x = 0 := by
        unfold dropped
        split_ifs with hc
        · obtain ⟨hidx, h1, h2, -, -⟩ := hc
          have hw := hfits c.va h1 h2
          have hwt : ¬ c.va < top := fun hlt => (hw.1 hlt).2 ⟨hidx, rfl⟩
          rw [h.others c.va (by omega), one, if_neg]
          rintro rfl
          cases hp : (d.entry c.va).present with
          | true => exact ((hw.2 (by omega)).2 hp).2 hone
          | false =>
            rw [(hok c.va (by omega)).ppn_zero hp, Mem.shmRef_zero hs] at hone
            cases hone
        · rfl
      rw [hzero, Nat.add_zero]
    · exact Nat.add_zero _

end RollBack

lemma rollBack_zero {oldsz newsz : Nat} :
    Ensures (rollBack c oldsz newsz held d m) fun r => r.1 = 0 := by
  refine Ensures.bind (R := fun _ => True) (fun _ _ => trivial) fun _ _ => ?_
  exact Ensures.bind (R := fun _ => True) (fun _ _ => trivial) fun _ _ => .pure rfl

section Short

variable {oldsz newsz : Nat} (hle : oldsz ≤ newsz) (hK : pgUp newsz ≤ KERNBASE)
  (hshort : m.pages < needs d (pgUp oldsz) (pgUp newsz))

include hle hK hshort

/-- With too little memory for the whole range, either a present page makes `mappages` panic or the loop
rolls back. -/
lemma allocPages_short_cases :
    (∃ w, pgUp oldsz ≤ w ∧ w < pgUp newsz ∧ (d.entry w).present = true ∧
      Reaches d m (pgUp oldsz) w ∧
      allocPages c oldsz newsz (pgUp newsz - pgUp oldsz) (pgUp oldsz) d m =
        .error (.panic "remap")) ∨
    ∃ top d₁ m₁ held, pgUp oldsz ≤ top ∧ top < pgUp newsz ∧
      (∀ w, pgUp oldsz ≤ w → w < pgUp newsz → (Reaches d m (pgUp oldsz) w ↔ w < top)) ∧
      Reached (pgUp oldsz) top d m d₁ m₁ held ∧
      allocPages c oldsz newsz (pgUp newsz - pgUp oldsz) (pgUp oldsz) d m =
        rollBack c oldsz newsz held d₁ m₁ := by
  have hup := pgUp_mono hle
  have hsum : pgUp oldsz + (pgUp newsz - pgUp oldsz) = pgUp newsz := by omega
  by_cases hpres : ∀ w, pgUp oldsz ≤ w → w < pgUp oldsz + (pgUp newsz - pgUp oldsz) →
      (d.entry w).present = true → m.pages ≤ needs d (pgUp oldsz) w
  · obtain ⟨top, d₁, m₁, held, h1, h2, h3, h4, h5, h6⟩ :=
      allocPages_short (c := c) oldsz newsz (by omega) hpres (by rwa [hsum])
    refine Or.inr ⟨top, d₁, m₁, held, h1, by omega, fun w hw _ => ?_, h5, h6⟩
    unfold Reaches at h4 ⊢
    constructor
    · intro hw'
      by_contra hge
      have := needs_mono (d := d) (v := pgUp oldsz) (w := top + 1) (u := w + 1) (by omega)
      omega
    · intro hlt
      have := needs_mono (d := d) (v := pgUp oldsz) (w := w + 1) (u := top) (by omega)
      omega
  · push Not at hpres
    obtain ⟨w, h1, h2, hp, hlt⟩ := hpres
    refine Or.inl ⟨w, h1, by omega, hp, ?_, ?_⟩
    · unfold Reaches
      rw [needs_succ_of_hasTable h1 (PageDir.hasTable_of_present hp)]
      omega
    · exact (allocPages_remap_iff (by omega)).mpr ⟨w, h1, h2, hp, hlt⟩

lemma allocPages_short_zero :
    Ensures (allocPages c oldsz newsz (pgUp newsz - pgUp oldsz) (pgUp oldsz) d m)
      fun r => r.1 = 0 := by
  rcases allocPages_short_cases (c := c) hle hK hshort with ⟨w, -, -, -, -, hpanic⟩ |
    ⟨top, d₁, m₁, held, -, -, -, -, hroll⟩
  · rw [hpanic]
    exact .error
  · rw [hroll]
    exact rollBack_zero

/-- With too little memory for the whole range, growing fails and changes nothing, page tables apart,
exactly if rolling back restores the mappings. -/
lemma allocPages_short_iff (hok : d.Ok) (hs : Mem.SharedOk m.shared)
    (hin : ∀ v < KERNBASE, (d.entry v).present = true → m.InRange (d.entry v).ppn)
    (hfree : ∀ x, m.free x ≠ 0 → m.InRange x) :
    (∃ d' m', allocPages c oldsz newsz (pgUp newsz - pgUp oldsz) (pgUp oldsz) d m = .ok (0, d', m') ∧
      TablesOnly d m d' m') ↔ ShortFits c d m (pgUp oldsz) (pgUp newsz) := by
  rcases allocPages_short_cases (c := c) hle hK hshort with ⟨w, h1, h2, hp, hreach, hpanic⟩ |
    ⟨top, d₁, m₁, held, h1, h2, hreach, hreached, hroll⟩
  · rw [hpanic]
    refine iff_of_false ?_ fun hfits => ?_
    · rintro ⟨d', m', h, -⟩
      cases h
    · rw [((hfits w h1 h2).1 hreach).1] at hp
      cases hp
  · rw [hroll, shortFits_iff hreach]
    constructor
    · rintro ⟨d', m', h, hsame⟩
      exact restores_of_rollBack hreached hle h1 hK hok hs hin hfree h hsame
    · exact rollBack_of_restores hreached hle h1 h2.le hK hok hs hin hfree

end Short

end Xv6
