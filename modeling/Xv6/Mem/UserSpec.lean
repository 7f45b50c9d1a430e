import Xv6.Mem.VmSpec

/-!
# Growing, shrinking and editing an address space

What `allocuvm`, `deallocuvm` and the loops of `mmap`, `munmap` and the page-fault handler do to the
directory of a process when they meet no shared page: pages move between the free list and the
directory, and none comes to be in both. `allocuvm` and `deallocuvm` lose no page either.
-/

namespace Xv6

open Fallible Count

variable {c : ShmField} {d d' d'' : PageDir} {m m' m'' : Mem} {v w x y n : Nat}

/-- Pages have moved between the directory and the free list, and the table of shared pages is the
same. -/
structure Moved (d : PageDir) (m : Mem) (d' : PageDir) (m' : Mem) : Prop where
  refs : ∀ x, d'.refs x + m'.free x ≤ d.refs x + m.free x
  ok : d.Ok → d'.Ok
  shared : m'.shared = m.shared
  layout : m'.layout = m.layout

lemma Moved.refl (d : PageDir) (m : Mem) : Moved d m d m := ⟨fun _ => le_rfl, id, rfl, rfl⟩

lemma Moved.trans (h : Moved d m d' m') (h' : Moved d' m' d'' m'') : Moved d m d'' m'' :=
  ⟨fun x => (h'.refs x).trans (h.refs x), h'.ok ∘ h.ok, h'.shared.trans h.shared,
    h'.layout.trans h.layout⟩

lemma PageDir.Ok.congr (h : d.Ok) (he : ∀ w, d'.entry w = d.entry w) : d'.Ok := by
  intro v hv
  rw [he v]
  exact h v hv

lemma PageDir.Ok.set {e : Pte} (h : d.Ok) (he : e.Ok) : (d.set v e).Ok := by
  intro w hw
  by_cases hwv : w = v
  · subst hwv
    by_cases ht : d.HasTable w
    · rw [PageDir.entry_set_self ht]
      exact he
    · rw [PageDir.set_of_not_hasTable ht]
      exact h w hw
  · rw [PageDir.entry_set_ne hwv]
    exact h w hw

lemma Perm.pte_ok (perm : Perm) (pa : Nat) : (perm.pte pa).Ok := ⟨fun _ => rfl, by simp [Perm.pte]⟩

lemma lazyPte_ok : lazyPte.Ok := ⟨by simp [lazyPte], fun _ => rfl⟩

lemma Extends.moved (h : Extends d m d' m') : Moved d m d' m' :=
  ⟨fun x => (h.refs x).le, fun hok => hok.congr h.entry, h.shared, h.layout⟩

/-- Storing an entry that maps nothing in place of one that maps nothing. -/
lemma Moved.set_unmapped {e : Pte} (hv : v < KERNBASE) (hold : (d.entry v).present = false)
    (he : e.Ok) (hnew : e.present = false) : Moved d m (d.set v e) m := by
  refine ⟨fun x => ?_, fun hok => hok.set he, rfl, rfl⟩
  by_cases ht : d.HasTable v
  · have := PageDir.userRefs_set (e := e) ht hv x
    rw [Pte.maps_of_not_present hold, Pte.maps_of_not_present hnew] at this
    unfold PageDir.refs
    rw [PageDir.tableRefs_set]
    omega
  · rw [PageDir.set_of_not_hasTable ht]

/-- A page from the free list is mapped where nothing was mapped. -/
lemma Moved.set_kalloc {perm : Perm} (hv : v < KERNBASE) (ht : d.HasTable v)
    (hold : (d.entry v).present = false) (hk : m.kalloc = (some y, m')) :
    Moved d m (d.set v (perm.pte y)) m' := by
  refine ⟨fun x => ?_, fun hok => hok.set (perm.pte_ok y), Mem.shared_kalloc hk,
    Mem.layout_kalloc hk⟩
  have h1 := PageDir.userRefs_set (e := perm.pte y) ht hv x
  have h2 := Mem.free_kalloc hk x
  rw [Pte.maps_of_not_present hold, maps_pte] at h1
  unfold PageDir.refs
  rw [PageDir.tableRefs_set]
  omega

/-- A mapped page is given back. -/
lemma Moved.kfree_set (hv : v < KERNBASE) (hp : (d.entry v).present = true)
    (hfree : ∀ x, m'.free x = m.free x + one (d.entry v).ppn x) (hshared : m'.shared = m.shared)
    (hlayout : m'.layout = m.layout) : Moved d m (d.set v 0) m' := by
  refine ⟨fun x => ?_, fun hok => hok.set Pte.ok_zero, hshared, hlayout⟩
  have h1 := PageDir.userRefs_set (e := 0) (PageDir.hasTable_of_present hp) hv x
  rw [Pte.maps_of_present hp, Pte.maps_zero] at h1
  have h2 := hfree x
  unfold PageDir.refs
  rw [PageDir.tableRefs_set]
  omega

/-! ### Growing and shrinking -/

/-- If the current process has a shared page, no page of the directory or of the free list is in the
table of shared pages. -/
def Unshared (c : ShmField) (d : PageDir) (m : Mem) : Prop :=
  c.idx ≠ none → ∀ x, d.refs x + m.free x ≠ 0 → Mem.shmRef m.shared x = 0

lemma Unshared.of_idx (h : c.idx = none) : Unshared c d m := fun hn => absurd h hn

lemma Unshared.moved (h : Unshared c d m) (hm : Moved d m d' m') : Unshared c d' m' := by
  intro hc x hx
  rw [hm.shared]
  apply h hc x
  have := hm.refs x
  omega

lemma Unshared.dropped {stop : Nat} (h : Unshared c d m) (hok : d.Ok) (hs : Mem.SharedOk m.shared)
    (hstop : stop ≤ KERNBASE) (x : Nat) : dropped c d m v stop x = 0 := by
  unfold Xv6.dropped
  split_ifs with hc
  · obtain ⟨hidx, -, hva, -, hx⟩ := hc
    rw [one, if_neg]
    rintro rfl
    apply hx
    by_cases hp : (d.entry c.va).present = true
    · apply h hidx
      have := PageDir.userRefs_pos (by omega) hp
      unfold PageDir.refs
      omega
    · rw [(hok c.va (by omega)).ppn_zero (by simpa using hp)]
      exact Mem.shmRef_zero hs
  · rfl

lemma Emptied.ok {stop : Nat} (h : Emptied c v stop d d') (hok : d.Ok) : d'.Ok := by
  intro w hw
  rw [h w]
  split_ifs
  · exact Pte.ok_zero
  · exact hok w hw

/-- Pages have moved between the directory and the free list, and none was lost. -/
structure Conserved (d : PageDir) (m : Mem) (d' : PageDir) (m' : Mem) : Prop where
  refs : ∀ x, d'.refs x + m'.free x = d.refs x + m.free x
  ok : d.Ok → d'.Ok
  shared : m'.shared = m.shared
  layout : m'.layout = m.layout

namespace Conserved

lemma refl (d : PageDir) (m : Mem) : Conserved d m d m := ⟨fun _ => rfl, id, rfl, rfl⟩

lemma trans (h : Conserved d m d' m') (h' : Conserved d' m' d'' m'') : Conserved d m d'' m'' :=
  ⟨fun x => (h'.refs x).trans (h.refs x), h'.ok ∘ h.ok, h'.shared.trans h.shared,
    h'.layout.trans h.layout⟩

lemma moved (h : Conserved d m d' m') : Moved d m d' m' :=
  ⟨fun x => (h.refs x).le, h.ok, h.shared, h.layout⟩

end Conserved

/-- Deallocation that meets no shared page. -/
lemma deallocuvm_conserved {oldsz newsz : Nat} (hold : pgUp oldsz ≤ KERNBASE) (hok : d.Ok)
    (hs : Mem.SharedOk m.shared) (hun : Unshared c d m) :
    Ensures (deallocuvm c d oldsz newsz m) fun r => Conserved d m r.2.1 r.2.2 := by
  refine (deallocuvm_emptied.and (deallocuvm_ensures hold hs)).mono ?_
  rintro ⟨_, d', m'⟩ ⟨⟨-, he⟩, h⟩
  have hno := hun.dropped (v := pgUp newsz) hok hs hold
  refine ⟨fun x => ?_, he.ok, h.shared hno, h.layout⟩
  have h1 := h.free x
  have h2 := h.tables x
  rw [hno, ite_self] at h1
  unfold PageDir.refs
  dsimp only at h1 h2 ⊢
  omega

lemma deallocuvm_moved {oldsz newsz : Nat} (hold : pgUp oldsz ≤ KERNBASE) (hok : d.Ok)
    (hs : Mem.SharedOk m.shared) (hun : Unshared c d m) :
    Ensures (deallocuvm c d oldsz newsz m) fun r => Moved d m r.2.1 r.2.2 :=
  (deallocuvm_conserved hold hok hs hun).mono fun _ h => h.moved

/-- What `allocuvm` does to the entries between two pages: on success they are mapped,
user-writable; all others are as before. -/
structure Allocated (lo hi : Nat) (ok : Bool) (d d' : PageDir) : Prop where
  outside : ∀ w, w < lo ∨ hi ≤ w → d'.entry w = d.entry w
  inside : ok = true → ∀ w, lo ≤ w → w < hi →
    (d'.entry w).present = true ∧ (d'.entry w).writable = true ∧ (d'.entry w).user = true

/-- The way out of `allocuvm` when memory has run out. -/
lemma rollback_allocated {oldsz newsz : Nat} :
    Ensures (deallocuvm c d newsz oldsz m) fun r =>
      Allocated (pgUp oldsz) (pgUp newsz) false d r.2.1 := by
  refine deallocuvm_emptied.mono ?_
  rintro ⟨_, d', m'⟩ ⟨-, h⟩
  refine ⟨fun w hw => ?_, by simp⟩
  rw [h w, if_neg (by omega)]

lemma allocPages_allocated {oldsz newsz : Nat} (hnew : pgUp newsz ≤ KERNBASE)
    (hv : pgUp oldsz ≤ v) (hn : v + n = pgUp newsz) :
    Ensures (allocPages c oldsz newsz n v d m) fun r =>
      (r.1 = newsz ∧ Allocated v (pgUp newsz) true d r.2.1) ∨
        (r.1 = 0 ∧ Allocated (pgUp oldsz) (pgUp newsz) false d r.2.1) := by
  induction n generalizing v d m with
  | zero =>
    refine .ok (Or.inl ⟨rfl, fun _ _ => rfl, fun _ w h1 h2 => ?_⟩)
    omega
  | succ n ih =>
    have hvK : v < KERNBASE := by omega
    unfold allocPages
    split
    · refine rollback_allocated.bind ?_
      rintro ⟨_, d₂, m₂⟩ h
      exact .pure (Or.inr ⟨rfl, h⟩)
    · next y m₁ hk =>
      refine (mappages_one hvK).bind ?_
      rintro ⟨ok, d₁, m₂⟩ ⟨-, -, h3, h4, -⟩
      dsimp only at h3 h4 ⊢
      split
      · next hok' =>
        obtain ⟨-, hentry, -⟩ := h3 hok'
        have hout : ∀ w, w ≠ v → d₁.entry w = d.entry w := by
          intro w hw
          rw [hentry w, if_neg hw]
        refine (ih (by omega) (by omega)).mono ?_
        rintro ⟨sz, d₂, m₃⟩ (⟨hsz, h⟩ | ⟨hsz, h⟩)
        · refine Or.inl ⟨hsz, fun w hw => ?_, fun _ w hlo hhi => ?_⟩
          · rw [h.outside w (by omega), hout w (by omega)]
          · by_cases hwv : w = v
            · subst hwv
              rw [h.outside w (by omega), hentry w, if_pos rfl]
              exact ⟨rfl, rfl, rfl⟩
            · exact h.inside rfl w (by omega) hhi
        · refine Or.inr ⟨hsz, fun w hw => ?_, by simp⟩
          rw [h.outside w hw, hout w (by omega)]
      · next hok' =>
        have hext := h4 (by simpa using hok')
        refine rollback_allocated.bind ?_
        rintro ⟨_, d₂, m₃⟩ h
        refine Ensures.bind (R := fun _ => True) (fun _ _ => trivial) fun m₄ _ => ?_
        exact .pure (Or.inr ⟨rfl, fun w hw => (h.outside w hw).trans (hext.entry w), by simp⟩)

/-- A page from the free list has been mapped. -/
lemma Conserved.mapped (hv : v < KERNBASE) {m₁ : Mem} (hk : m.kalloc = (some y, m₁))
    (h : mappages ⟨true, true⟩ 1 d v y (m₁.memset y 0) = .ok (true, d', m')) :
    Conserved d m d' m' := by
  obtain ⟨h1, h2, h3, -, -⟩ := mappages_one hv _ h
  obtain ⟨-, hentry, hrefs⟩ := h3 rfl
  simp only [Mem.shared_memset, Mem.free_memset, Mem.layout_memset] at h1 h2 hrefs
  refine ⟨fun x => ?_, fun hok w hw => ?_, h1.trans (Mem.shared_kalloc hk),
    h2.trans (Mem.layout_kalloc hk)⟩
  · have := hrefs x
    have := Mem.free_kalloc hk x
    dsimp only at *
    omega
  · dsimp only at hentry
    rw [hentry w]
    split_ifs
    · exact Perm.pte_ok _ _
    · exact hok w hw

lemma allocPages_conserved {oldsz newsz : Nat} (hnew : pgUp newsz ≤ KERNBASE)
    (hn : v + n = pgUp newsz) (hok : d.Ok) (hs : Mem.SharedOk m.shared) (hun : Unshared c d m) :
    Ensures (allocPages c oldsz newsz n v d m) fun r => Conserved d m r.2.1 r.2.2 := by
  induction n generalizing v d m with
  | zero => exact .ok (.refl _ _)
  | succ n ih =>
    unfold allocPages
    split
    · next m₁ hk =>
      obtain ⟨-, rfl⟩ := Mem.kalloc_none hk
      exact (deallocuvm_conserved hnew hok hs hun).bind fun r hr => .pure hr
    · next y m₁ hk =>
      intro r hr
      obtain ⟨⟨ok, d₁, m₂⟩, hmap, hr⟩ := bind_eq_ok.mp hr
      cases ok with
      | true =>
        have hmapped := Conserved.mapped (by omega) hk hmap
        exact hmapped.trans (ih (by omega) (hmapped.ok hok) (hmapped.shared ▸ hs)
          (hun.moved hmapped.moved) r hr)
      | false =>
        -- the page that could not be mapped is off the free list while the others are given back
        have hext := (mappages_one (by omega) _ hmap).2.2.2.1 rfl
        have hshared : m₂.shared = m.shared := by
          rw [hext.shared, Mem.shared_memset, Mem.shared_kalloc hk]
        have hlayout : m₂.layout = m.layout := by
          rw [hext.layout, Mem.layout_memset, Mem.layout_kalloc hk]
        have hrefs₁ : ∀ x, d₁.refs x + m₂.free x = d.refs x + m₁.free x := hext.refs
        have hfree := Mem.free_kalloc hk
        have hun₁ : Unshared c d₁ m₂ := by
          intro hc x hx
          rw [hshared]
          apply hun hc x
          have := hrefs₁ x
          have := hfree x
          omega
        obtain ⟨⟨_, d₂, m₃⟩, hdealloc, hr⟩ := bind_eq_ok.mp hr
        obtain ⟨m₄, hkfree, hr⟩ := bind_eq_ok.mp hr
        cases hr
        have h := deallocuvm_conserved hnew (hok.congr hext.entry) (hshared ▸ hs) hun₁ _ hdealloc
        obtain ⟨-, hfree₄, hshared₄, hlay₄⟩ := Mem.kfree_ensures _ _ _ hkfree
        refine ⟨fun x => ?_, fun hd => h.ok (hd.congr hext.entry),
          hshared₄.trans (h.shared.trans hshared),
          hlay₄.trans (h.layout.trans hlayout)⟩
        show d₂.refs x + m₄.free x = d.refs x + m.free x
        have := h.refs x
        have := hrefs₁ x
        have := hfree x
        have := hfree₄ x
        dsimp only at *
        omega

/-- As long as growing succeeds, a page from the free list is mapped. -/
lemma allocPages_succ_eq_ok {oldsz newsz : Nat} {r : Nat × PageDir × Mem}
    (h : allocPages c oldsz newsz (n + 1) v d m = .ok r) (hne : r.1 ≠ 0) :
    ∃ y m₁ d₁ m₂, m.kalloc = (some y, m₁) ∧
      mappages ⟨true, true⟩ 1 d v y (m₁.memset y 0) = .ok (true, d₁, m₂) ∧
      allocPages c oldsz newsz n (v + 1) d₁ m₂ = .ok r := by
  unfold allocPages at h
  split at h
  · obtain ⟨_, -, h⟩ := bind_eq_ok.mp h
    cases h
    exact absurd rfl hne
  · next y m₁ hk =>
    obtain ⟨⟨ok, d₁, m₂⟩, hmap, h⟩ := bind_eq_ok.mp h
    cases ok with
    | true => exact ⟨y, m₁, d₁, m₂, hk, hmap, h⟩
    | false =>
      obtain ⟨_, -, h⟩ := bind_eq_ok.mp h
      obtain ⟨_, -, h⟩ := bind_eq_ok.mp h
      cases h
      exact absurd rfl hne

lemma pgUp_le_KERNBASE {newsz : Nat} (h : newsz < KERNBASE * PGSIZE) : pgUp newsz ≤ KERNBASE := by
  rw [← pgUp_mul KERNBASE]
  exact pgUp_mono h.le

/-- `allocuvm` with a new size that is refused, or smaller than the old one, changes nothing. -/
lemma allocuvm_allocated {oldsz newsz : Nat} :
    Ensures (allocuvm c d oldsz newsz m) fun r =>
      (r.1 = max oldsz newsz ∧ newsz < KERNBASE * PGSIZE ∧
        Allocated (pgUp oldsz) (pgUp newsz) true d r.2.1) ∨
      (r.1 = 0 ∧ Allocated (pgUp oldsz) (pgUp newsz) false d r.2.1) := by
  unfold allocuvm
  split
  · exact .ok (Or.inr ⟨rfl, fun _ _ => rfl, by simp⟩)
  · next hnew =>
    split
    · next hlt =>
      have := pgUp_mono hlt.le
      refine .ok (Or.inl ⟨(Nat.max_eq_left hlt.le).symm, by omega, fun _ _ => rfl,
        fun _ w h1 h2 => ?_⟩)
      omega
    · next hlt =>
      have hle := pgUp_mono (Nat.le_of_not_lt hlt)
      refine (allocPages_allocated (pgUp_le_KERNBASE (by omega)) le_rfl (by omega)).mono ?_
      rintro r (⟨hsz, h⟩ | h)
      · exact Or.inl ⟨hsz.trans (Nat.max_eq_right (by omega)).symm, by omega, h⟩
      · exact Or.inr h

lemma allocuvm_conserved {oldsz newsz : Nat} (hok : d.Ok) (hs : Mem.SharedOk m.shared)
    (hun : Unshared c d m) :
    Ensures (allocuvm c d oldsz newsz m) fun r => Conserved d m r.2.1 r.2.2 := by
  unfold allocuvm
  split
  · exact .ok (.refl _ _)
  · next hnew =>
    split
    · exact .ok (.refl _ _)
    · next hlt =>
      have hle := pgUp_mono (Nat.le_of_not_lt hlt)
      exact allocPages_conserved (pgUp_le_KERNBASE (by omega)) (by omega) hok hs hun

lemma allocuvm_moved {oldsz newsz : Nat} (hok : d.Ok) (hs : Mem.SharedOk m.shared)
    (hun : Unshared c d m) :
    Ensures (allocuvm c d oldsz newsz m) fun r => Moved d m r.2.1 r.2.2 :=
  (allocuvm_conserved hok hs hun).mono fun _ h => h.moved

/-! ### Mapping and unmapping single pages -/

/-- The pages the loop of `munmap` gets to: it stops at the first one without a page table. -/
def Visited (d : PageDir) (v n w : Nat) : Prop :=
  v ≤ w ∧ w < v + n ∧ ∀ u, v ≤ u → u ≤ w → d.HasTable u

lemma visited_succ (ht : d.HasTable v) (hw : w ≠ v) (hd : ∀ u, d'.HasTable u ↔ d.HasTable u) :
    Visited d' (v + 1) n w ↔ Visited d v (n + 1) w := by
  unfold Visited
  constructor
  · rintro ⟨h1, h2, h3⟩
    refine ⟨by omega, by omega, fun u hu hu' => ?_⟩
    by_cases huv : u = v
    · exact huv ▸ ht
    · exact (hd u).mp (h3 u (by omega) hu')
  · rintro ⟨h1, h2, h3⟩
    exact ⟨by omega, by omega, fun u hu hu' => (hd u).mpr (h3 u (by omega) hu')⟩

/-- What the loop of `munmap` guarantees: the entries it visits are cleared, and the pages they mapped
are free. -/
structure Unmapped (d : PageDir) (m : Mem) (v n : Nat) (d' : PageDir) (m' : Mem) : Prop where
  moved : Moved d m d' m'
  visited : ∀ w, Visited d v n w → d'.entry w = 0
  rest : ∀ w, ¬ Visited d v n w → d'.entry w = d.entry w
  free : ∀ x, m.free x ≤ m'.free x
  freed : ∀ w, Visited d v n w → (d.entry w).present = true → m'.free (d.entry w).ppn ≠ 0

lemma Unmapped.of_not_visited (h : ∀ w, ¬ Visited d v n w) : Unmapped d m v n d m :=
  ⟨.refl _ _, fun w hw => absurd hw (h w), fun _ _ => rfl, fun _ => le_rfl,
    fun w hw => absurd hw (h w)⟩

/-- The first page visited has been unmapped. -/
lemma Unmapped.step {m₁ : Mem} (h : Unmapped (d.set v 0) m₁ (v + 1) n d' m') (ht : d.HasTable v)
    (hm : Moved d m (d.set v 0) m₁) (hfree : ∀ x, m.free x ≤ m₁.free x)
    (hfreed : (d.entry v).present = true → m₁.free (d.entry v).ppn ≠ 0) :
    Unmapped d m v (n + 1) d' m' := by
  have hno : ¬ Visited (d.set v 0) (v + 1) n v := fun h' => by
    have := h'.1
    omega
  have hiff : ∀ w, w ≠ v → (Visited (d.set v 0) (v + 1) n w ↔ Visited d v (n + 1) w) :=
    fun w hw => visited_succ ht hw fun u => PageDir.hasTable_set
  refine ⟨hm.trans h.moved, fun w hw => ?_, fun w hw => ?_, fun x => (hfree x).trans (h.free x),
    fun w hw hp => ?_⟩
  · by_cases hwv : w = v
    · subst hwv
      rw [h.rest w hno, PageDir.entry_set_self ht]
    · exact h.visited w ((hiff w hwv).mpr hw)
  · have hwv : w ≠ v := by
      rintro rfl
      exact hw ⟨le_rfl, by omega, fun u hu hu' => (Nat.le_antisymm hu hu') ▸ ht⟩
    rw [h.rest w fun h' => hw ((hiff w hwv).mp h'), PageDir.entry_set_ne hwv]
  · by_cases hwv : w = v
    · subst hwv
      have := h.free (d.entry w).ppn
      have := hfreed hp
      omega
    · have hset := PageDir.entry_set_ne (d := d) (e := 0) hwv
      rw [← hset]
      exact h.freed w ((hiff w hwv).mpr hw) (hset ▸ hp)

lemma munmapPages_ensures (hv : v + n ≤ KERNBASE) :
    Ensures (munmapPages n v d m) fun r => Unmapped d m v n r.2.1 r.2.2 := by
  induction n generalizing v d m with
  | zero =>
    refine .ok (.of_not_visited ?_)
    rintro w ⟨h1, h2, -⟩
    omega
  | succ n ih =>
    unfold munmapPages
    split
    · next hw =>
      refine .ok (.of_not_visited ?_)
      rintro w ⟨h1, -, h3⟩
      exact PageDir.walk_eq_none_iff.mp hw (h3 v le_rfl h1)
    · next e hw =>
      obtain ⟨ht, rfl⟩ := PageDir.walk_eq_some_iff.mp hw
      split
      · next hp =>
        refine (Mem.kfree_ensures _ _).bind ?_
        rintro m₁ ⟨-, hfree, hshared, hlay⟩
        refine (ih (by omega)).mono fun r hr =>
          hr.step ht (.kfree_set (by omega) hp hfree hshared hlay) (fun x => ?_) fun _ => ?_
        · rw [hfree x]
          exact Nat.le_add_right _ _
        · rw [hfree, one, if_pos rfl]
          exact Nat.succ_ne_zero _
      · next hp =>
        have hp' : (d.entry v).present = false := by simpa using hp
        refine (ih (by omega)).mono fun r hr =>
          hr.step ht (.set_unmapped (by omega) hp' Pte.ok_zero rfl) (fun _ => le_rfl) fun h => ?_
        exact absurd h hp

/-- `mmap` turns the entries it reaches, which map nothing, into lazy ones. -/
lemma mmapPages_ensures (hv : v + n ≤ KERNBASE) :
    Ensures (mmapPages n v d m) fun r =>
      Moved d m r.2.1 r.2.2 ∧
      ∀ w, r.2.1.entry w = d.entry w ∨ ((d.entry w).present = false ∧ r.2.1.entry w = lazyPte) := by
  induction n generalizing v d m with
  | zero => exact .ok ⟨.refl _ _, fun _ => Or.inl rfl⟩
  | succ n ih =>
    have hvN : v < NVPAGES := by
      have := KERNBASE_eq
      simp only [NVPAGES, NPDENTRIES, NPTENTRIES] at this ⊢
      omega
    unfold mmapPages
    split
    · exact .error
    · next d₁ m₁ hw =>
      obtain ⟨hext, htable, -⟩ := walkpgdir_extends hvN hw
      split
      · exact .ok ⟨hext.moved, fun w => Or.inl (hext.entry w)⟩
      · next hp =>
        have hp' : (d₁.entry v).present = false := by simpa using hp
        have hset : Moved d m (d₁.set v lazyPte) m₁ :=
          hext.moved.trans (.set_unmapped (by omega) hp' lazyPte_ok rfl)
        refine (ih (by omega)).mono ?_
        rintro ⟨ok, d₂, m₂⟩ ⟨h1, h2⟩
        refine ⟨hset.trans h1, fun w => ?_⟩
        have hw2 := h2 w
        by_cases hwv : w = v
        · subst hwv
          rw [PageDir.entry_set_self (htable rfl)] at hw2
          rw [hext.entry] at hp'
          exact Or.inr ⟨hp', hw2.elim id And.right⟩
        · rw [PageDir.entry_set_ne hwv, hext.entry] at hw2
          exact hw2

lemma Moved.set_kernel {e : Pte} (hv : KERNBASE ≤ v) : Moved d m (d.set v e) m := by
  refine ⟨fun x => ?_, fun hok w hw => ?_, rfl, rfl⟩
  · rw [PageDir.refs, PageDir.tableRefs_set, PageDir.userRefs_set_kernel hv]
    exact le_rfl
  · rw [PageDir.entry_set_ne (by omega)]
    exact hok w hw

lemma Moved.kalloc (hk : m.kalloc = (some y, m')) : Moved d m d m' := by
  refine ⟨fun x => ?_, id, Mem.shared_kalloc hk, Mem.layout_kalloc hk⟩
  have := Mem.free_kalloc hk x
  omega

/-- A page fault that is handled maps a page at the entry it is for; no other entry changes. -/
lemma pageFault_entries :
    Ensures (pageFault d v m) fun r =>
      (∀ w, w ≠ v → r.2.1.entry w = d.entry w) ∧ (r.1 = true → (r.2.1.entry v).present = true) := by
  unfold pageFault
  split
  · exact .error
  · next e hw =>
    obtain ⟨ht, rfl⟩ := PageDir.walk_eq_some_iff.mp hw
    split
    · split
      · exact .ok ⟨fun w hw => PageDir.entry_set_ne hw, by simp⟩
      · refine .ok ⟨fun w hw => PageDir.entry_set_ne hw, fun _ => ?_⟩
        show ((d.set v _).entry v).present = true
        rw [PageDir.entry_set_self ht]
        rfl
    · exact .ok ⟨fun _ _ => rfl, by simp⟩

/-- The page comes from the free list; only an entry that maps nothing changes. -/
lemma pageFault_moved (hok : d.Ok) :
    Ensures (pageFault d v m) fun r =>
      Moved d m r.2.1 r.2.2 ∧
      (v < KERNBASE → (d.entry v).present = true → r.2.1.entry v = d.entry v) := by
  unfold pageFault
  split
  · exact .error
  · next e hw =>
    obtain ⟨ht, rfl⟩ := PageDir.walk_eq_some_iff.mp hw
    split
    · next hl =>
      have hp : v < KERNBASE → (d.entry v).present = false := by
        intro hv
        by_contra hp
        rw [(hok v hv).not_both (by simpa using hp)] at hl
        cases hl
      have hold : v < KERNBASE → (d.entry v).present = true → ∀ e, (d.set v e).entry v = d.entry v :=
        fun hv h => absurd (hp hv) (by simp [h])
      split
      · next m₁ hk =>
        obtain ⟨-, rfl⟩ := Mem.kalloc_none hk
        refine .ok ⟨?_, fun hv h => hold hv h _⟩
        by_cases hv : v < KERNBASE
        · exact .set_unmapped hv (hp hv) Pte.ok_zero rfl
        · exact .set_kernel (by omega)
      · next y m₁ hk =>
        refine .ok ⟨?_, fun hv h => hold hv h _⟩
        by_cases hv : v < KERNBASE
        · exact .set_kalloc hv ht (hp hv) hk
        · exact (Moved.set_kernel (by omega)).trans (.kalloc hk)
    · exact .ok ⟨.refl _ _, fun _ _ => rfl⟩

/-! ### The last free page -/

lemma lastFree_some {pte : Nat → Pte} {j : Nat} (h : lastFree pte = some j) :
    j < NPTENTRIES ∧ (pte j).present = false := by
  refine ⟨?_, by simpa using List.find?_some h⟩
  have hmem := List.mem_of_find?_eq_some h
  rw [List.mem_reverse] at hmem
  exact List.mem_range.mp hmem

lemma lastFree_last {pte : Nat → Pte} (h : (pte (NPTENTRIES - 1)).present = false) :
    lastFree pte = some (NPTENTRIES - 1) := by
  have hrange : (List.range NPTENTRIES).reverse =
      (NPTENTRIES - 1) :: (List.range (NPTENTRIES - 1)).reverse := by
    rw [← List.reverse_concat, ← List.range_succ]
    rfl
  rw [lastFree, hrange, List.find?_cons_of_pos (by simp [h])]

/-- `map_last_page` has mapped page `y` at `v`, where nothing was mapped. -/
structure MappedLast (perm : Perm) (y : Nat) (d : PageDir) (m : Mem) (v : Nat) (d' : PageDir)
    (m' : Mem) : Prop where
  lt : v < KERNBASE
  old : (d.entry v).present = false
  entry : ∀ w, d'.entry w = if w = v then perm.pte y else d.entry w
  refs : ∀ x, d'.refs x + m'.free x = d.refs x + m.free x + one y x
  shared : m'.shared = m.shared
  layout : m'.layout = m.layout

/-- Page tables may be added before. -/
lemma MappedLast.of_extends {perm : Perm} (h : MappedLast perm y d' m' v d'' m'')
    (he : Extends d m d' m') : MappedLast perm y d m v d'' m'' := by
  refine ⟨h.lt, he.entry v ▸ h.old, fun w => ?_, fun x => ?_, h.shared.trans he.shared,
    h.layout.trans he.layout⟩
  · rw [h.entry w, he.entry w]
  · have := h.refs x
    have := he.refs x
    omega

lemma mappedLast_set {perm : Perm} (hv : v < KERNBASE) (ht : d.HasTable v)
    (hold : (d.entry v).present = false) : MappedLast perm y d m v (d.set v (perm.pte y)) m := by
  refine ⟨hv, hold, fun w => ?_, fun x => ?_, rfl, rfl⟩
  · split_ifs with hw
    · subst hw
      exact PageDir.entry_set_self ht
    · exact PageDir.entry_set_ne hw
  · have h1 := PageDir.userRefs_set (e := perm.pte y) ht hv x
    rw [Pte.maps_of_not_present hold, maps_pte] at h1
    unfold PageDir.refs
    rw [PageDir.tableRefs_set]
    omega

lemma Extends.trans (h : Extends d m d' m') (h' : Extends d' m' d'' m'') : Extends d m d'' m'' :=
  ⟨fun x => (h'.tables x).trans (h.tables x), fun w => (h'.entry w).trans (h.entry w),
    fun w hw => h'.hasTable w (h.hasTable w hw), h.takes.trans h'.takes, h'.shared.trans h.shared,
    h'.layout.trans h.layout⟩

/-- One page table: `map_last_page` gives up, maps the page, or goes on. -/
lemma mapInTable_spec {perm : Perm} {i : Nat} {r : Option Nat} (hi : i < 512)
    (h : mapInTable y perm i d m = (r, d', m')) :
    (Extends d m d' m' ∧ (r = none ∨ r = some 0)) ∨
      ∃ v, r = some v ∧ MappedLast perm y d m v d' m' := by
  have hlt : i * NPTENTRIES < NVPAGES := by
    simp only [NVPAGES, NPDENTRIES, NPTENTRIES]
    omega
  unfold mapInTable at h
  split at h
  · next d₁ m₁ hw =>
    simp only [Prod.mk.injEq] at h
    obtain ⟨rfl, rfl, rfl⟩ := h
    exact Or.inl ⟨(walkpgdir_extends hlt hw).1, Or.inr rfl⟩
  · next d₁ m₁ hw =>
    have hext := (walkpgdir_extends hlt hw).1
    split at h
    · simp only [Prod.mk.injEq] at h
      obtain ⟨rfl, rfl, rfl⟩ := h
      exact Or.inl ⟨hext, Or.inr rfl⟩
    · next t ht =>
      cases hj : lastFree t.pte with
      | none =>
        simp only [hj, Prod.mk.injEq] at h
        obtain ⟨rfl, rfl, rfl⟩ := h
        exact Or.inl ⟨hext, Or.inl rfl⟩
      | some j =>
        simp only [hj, Prod.mk.injEq] at h
        obtain ⟨rfl, rfl, rfl⟩ := h
        obtain ⟨hjlt, hp⟩ := lastFree_some hj
        have hv : i * NPTENTRIES + j < KERNBASE := by
          rw [KERNBASE_eq]
          simp only [NPTENTRIES] at hjlt ⊢
          omega
        have hdiv : (i * NPTENTRIES + j) / NPTENTRIES = i := by
          simp only [NPTENTRIES] at hjlt ⊢
          omega
        have htable : d₁.HasTable (i * NPTENTRIES + j) := by
          simp [PageDir.HasTable, hdiv, ht]
        have hold : (d₁.entry (i * NPTENTRIES + j)).present = false := by
          rw [PageDir.entry_block hjlt, ht]
          exact hp
        exact Or.inr ⟨_, rfl, (mappedLast_set hv htable hold).of_extends hext⟩

lemma mapLastPage_spec {perm : Perm} {l : List Nat} (hl : ∀ i ∈ l, i < 512)
    (h : mapLastPage y perm l d m = (v, d', m')) :
    (v = 0 ∧ Extends d m d' m') ∨ MappedLast perm y d m v d' m' := by
  induction l generalizing d m with
  | nil =>
    simp only [mapLastPage, Prod.mk.injEq] at h
    obtain ⟨rfl, rfl, rfl⟩ := h
    exact Or.inl ⟨rfl, .refl _ _⟩
  | cons i l ih =>
    have hi := hl i (List.mem_cons_self ..)
    unfold mapLastPage at h
    split at h
    · next v' d₁ m₁ hone =>
      simp only [Prod.mk.injEq] at h
      obtain ⟨rfl, rfl, rfl⟩ := h
      rcases mapInTable_spec hi hone with ⟨hext, hr⟩ | ⟨v'', hr, hmapped⟩
      · exact Or.inl ⟨by simpa using hr, hext⟩
      · cases hr
        exact Or.inr hmapped
    · next d₁ m₁ hone =>
      rcases mapInTable_spec hi hone with ⟨hext, -⟩ | ⟨v'', hr, -⟩
      · rcases ih (fun k hk => hl k (List.mem_cons_of_mem i hk)) h with ⟨hv, h'⟩ | h'
        · exact Or.inl ⟨hv, hext.trans h'⟩
        · exact Or.inr (h'.of_extends hext)
      · cases hr

/-- If nothing is mapped at the last page below `KERNBASE`, that is where the page goes. -/
lemma mapLastPage_last {perm : Perm} {l : List Nat} (hd : (d.entry (KERNBASE - 1)).present = false)
    (h : mapLastPage y perm (511 :: l) d m = (v, d', m')) :
    v = KERNBASE - 1 ∨ (v = 0 ∧ m.freelist = []) := by
  have hK : KERNBASE - 1 = 511 * NPTENTRIES + (NPTENTRIES - 1) := by
    rw [KERNBASE_eq]
    decide
  rcases hone : mapInTable y perm 511 d m with ⟨r, d₁, m₁⟩
  have hr : r = some (KERNBASE - 1) ∨ (r = some 0 ∧ m.freelist = []) := by
    unfold mapInTable at hone
    split at hone
    · next d₂ m₂ hw =>
      simp only [Prod.mk.injEq] at hone
      exact Or.inr ⟨hone.1.symm, ((walkpgdir_extends (by decide) hw).2.2 rfl).1⟩
    · next d₂ m₂ hw =>
      obtain ⟨hext, htable, -⟩ := walkpgdir_extends (by decide) hw
      split at hone
      · next hnone =>
        have := htable rfl
        simp [PageDir.HasTable, NPTENTRIES, hnone] at this
      · next t ht =>
        have hlast : (t.pte (NPTENTRIES - 1)).present = false := by
          have := hext.entry (KERNBASE - 1) ▸ hd
          rw [hK, PageDir.entry_block (by decide), ht] at this
          exact this
        simp only [lastFree_last hlast, Prod.mk.injEq] at hone
        rw [← hone.1, hK]
        exact Or.inl rfl
  unfold mapLastPage at h
  rw [hone] at h
  rcases hr with rfl | ⟨rfl, hempty⟩
  · simp only [Prod.mk.injEq] at h
    exact Or.inl h.1.symm
  · simp only [Prod.mk.injEq] at h
    exact Or.inr ⟨h.1.symm, hempty⟩

end Xv6
