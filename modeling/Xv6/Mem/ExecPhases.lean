import Xv6.Mem.Loading

/-!
# The phases of exec

`exec` first loads the program, up to the guard page below the stack, and then pushes the arguments.
Here is what holds after each phase, and what the call returns depending on how far it got.
-/

namespace Xv6

open Fallible Count

/-! ### Freeing a directory -/

section Free

variable {c : ShmField} {d : PageDir} {m m' : Mem} {v n x y : Nat}

/-- `freevm` returns exactly if it gets past the shared page. -/
lemma freevm_returns_iff (hok : d.Ok) (hs : Mem.SharedOk m.shared)
    (hin : ∀ x, d.refs x ≠ 0 → m.InRange x) :
    (∃ m', freevm c d m = .ok m') ↔ ∀ v < KERNBASE, Passable c d 0 v := by
  have hpages : ∀ v < KERNBASE, (d.entry v).present = true → m.InRange (d.entry v).ppn := by
    intro v hv hp
    apply hin
    have := PageDir.userRefs_pos hv hp
    unfold PageDir.refs
    omega
  have hiff := deallocuvm_returns_iff (c := c) (Nat.zero_le (KERNBASE * PGSIZE)) (pgUp_mul _).le
    hok hs hpages
  rw [pgUp_mul, show pgUp 0 = 0 from rfl] at hiff
  have hfrom : (∀ w, 0 ≤ w → w < KERNBASE → Passable c d 0 w) ↔ ∀ v < KERNBASE, Passable c d 0 v :=
    ⟨fun h w hw => h w (Nat.zero_le _) hw, fun h w _ hw => h w hw⟩
  rw [← hfrom, ← hiff]
  constructor
  · rintro ⟨m', h⟩
    obtain ⟨⟨sz, d₁, m₁⟩, hd, -⟩ := bind_eq_ok.mp h
    have hzero : sz = min (KERNBASE * PGSIZE) 0 := (deallocuvm_emptied _ hd).1
    rw [hzero, Nat.min_zero] at hd
    exact ⟨d₁, m₁, hd⟩
  · rintro ⟨d₁, m₁, hd⟩
    have hdone := deallocuvm_ensures (pgUp_mul _).le hs _ hd
    have htables : ∀ x, d₁.tableRefs x ≠ 0 → m₁.InRange x := by
      intro x hx
      rw [show d₁.tableRefs x = d.tableRefs x from hdone.tables x] at hx
      exact (hin x (by unfold PageDir.refs; omega)).congr hdone.layout
    obtain ⟨m₂, h₂⟩ := freeTables_succeeds (List.range NPDENTRIES) fun i hi t ht =>
      htables _ (tableRefs_ne_zero (Or.inr ⟨i, List.mem_range.mp hi, t, ht, rfl⟩))
    have hpage : m₂.InRange d₁.page :=
      (htables _ (tableRefs_ne_zero (Or.inl rfl))).congr (freeTables_ensures _ _ h₂).2.2
    exact ⟨_, bind_eq_ok.mpr ⟨_, hd, bind_eq_ok.mpr ⟨_, h₂, Mem.kfree_eq_ok hpage⟩⟩⟩

lemma Mem.kfree_bytes (h : x ≠ y) : Ensures (m.kfree y) fun m' => m'.bytes x = m.bytes x := by
  unfold Mem.kfree
  split
  · exact .error
  · refine .ok ?_
    simp only [Mem.junk, Mem.write, Mem.memset, Function.update_of_ne h]

/-- The page is not mapped by the user's part of the directory, and it is no shared page. -/
structure Foreign (x : Nat) (d : PageDir) (m : Mem) : Prop where
  unmapped : ∀ v < KERNBASE, (d.entry v).present = true → (d.entry v).ppn ≠ x
  unshared : ∀ i, (m.shared i).refCnt ≠ 0 → (m.shared i).pa ≠ x

lemma Foreign.clear (h : Foreign x d m) (hs : m'.shared = m.shared) : Foreign x (d.set v 0) m' := by
  refine ⟨fun w hw hp => ?_, hs ▸ h.unshared⟩
  have hsame := PageDir.entry_clear hp
  rw [hsame] at hp ⊢
  exact h.unmapped w hw hp

lemma Foreign.shmRemove {pa : Nat} (h : Foreign x d m) :
    Ensures (m.shmRemove pa) fun r => Foreign x d r.2 ∧ r.2.bytes x = m.bytes x := by
  have hupdate : ∀ {i : Fin N_SHARED_PAGES} {e : ShmEntry}, (e.refCnt ≠ 0 → e.pa ≠ x) →
      ∀ j, (Function.update m.shared i e j).refCnt ≠ 0 → (Function.update m.shared i e j).pa ≠ x := by
    intro i e he j hj
    by_cases hji : j = i
    · subst hji
      rw [Function.update_self] at hj ⊢
      exact he hj
    · rw [Function.update_of_ne hji] at hj ⊢
      exact h.unshared j hj
  unfold Mem.shmRemove
  split
  · next i hi =>
    have hp : (m.shared i).pa = pa ∧ (m.shared i).refCnt ≠ 0 := by
      simpa using List.find?_some hi
    have hne : x ≠ pa := fun heq => h.unshared i hp.2 (hp.1.trans heq.symm)
    split
    · refine ((Mem.kfree_ensures _ _).and (Mem.kfree_bytes hne)).bind ?_
      rintro m₁ ⟨⟨-, -, hshared, -⟩, hbytes⟩
      refine .pure ⟨⟨h.unmapped, ?_⟩, hbytes⟩
      dsimp only
      rw [hshared]
      exact hupdate fun h0 => absurd rfl h0
    · refine .pure ⟨⟨h.unmapped, ?_⟩, rfl⟩
      exact hupdate fun _ => h.unshared i hp.2
  · exact .pure ⟨h, rfl⟩

lemma deallocPages_bytes {stop : Nat} (hstop : stop ≤ KERNBASE) (h : Foreign x d m) :
    Ensures (deallocPages c n v stop d m) fun r => r.2.bytes x = m.bytes x := by
  induction n generalizing v d m with
  | zero => exact .ok rfl
  | succ n ih =>
    unfold deallocPages
    split
    · next hv =>
      split
      · split
        · exact .error
        · refine h.shmRemove.bind ?_
          rintro ⟨ok, m₁⟩ ⟨h₁, hbytes⟩
          exact (ih h₁).mono fun r hr => hr.trans hbytes
      · split
        · exact ih h
        · next e hwalk =>
          obtain ⟨-, rfl⟩ := PageDir.walk_eq_some_iff.mp hwalk
          split
          · next hp =>
            split
            · exact .error
            · have hne := h.unmapped v (by omega) hp
              refine ((Mem.kfree_ensures _ _).and (Mem.kfree_bytes (Ne.symm hne))).bind ?_
              rintro m₁ ⟨⟨-, -, hshared, -⟩, hbytes⟩
              exact (ih (h.clear hshared)).mono fun r hr => hr.trans hbytes
          · exact ih h
    · exact .ok rfl

lemma freeTables_bytes (l : List Nat) (h : ∀ i ∈ l, ∀ t, d.pde i = some t → t.page ≠ x) :
    Ensures (freeTables d l m) fun m' => m'.bytes x = m.bytes x := by
  induction l generalizing m with
  | nil => exact .ok rfl
  | cons i l ih =>
    unfold freeTables
    split
    · exact ih fun j hj => h j (List.mem_cons_of_mem _ hj)
    · next t ht =>
      refine (Mem.kfree_bytes (Ne.symm (h i List.mem_cons_self t ht))).bind fun m₁ hm₁ => ?_
      exact (ih fun j hj => h j (List.mem_cons_of_mem _ hj)).mono fun _ hr => hr.trans hm₁

/-- Freeing a directory leaves pages alone that it does not use. -/
lemma freevm_bytes (hs : Mem.SharedOk m.shared) (hrefs : d.refs x = 0)
    (hshared : Mem.shmRef m.shared x = 0) :
    Ensures (freevm c d m) fun m' => m'.bytes x = m.bytes x := by
  have hforeign : Foreign x d m := by
    refine ⟨fun v hv hp heq => ?_, fun i hi heq => ?_⟩
    · have := PageDir.userRefs_pos hv hp
      rw [heq] at this
      unfold PageDir.refs at hrefs
      omega
    · have hx : x ≠ 0 := by
        rintro rfl
        exact hi ((hs.zero i).mpr heq)
      rw [Mem.shmRef_eq hs heq hx] at hshared
      exact hi hshared
  intro m' h
  obtain ⟨⟨sz, d₁, m₁⟩, hd, h⟩ := bind_eq_ok.mp h
  obtain ⟨m₂, ht, h⟩ := bind_eq_ok.mp h
  have hbytes₁ : m₁.bytes x = m.bytes x := by
    unfold deallocuvm at hd
    split at hd
    · cases hd
      rfl
    · obtain ⟨⟨d₂, m₃⟩, hd₂, hd⟩ := bind_eq_ok.mp hd
      cases hd
      exact deallocPages_bytes (pgUp_mul _).le hforeign _ hd₂
  have htables : d₁.tableRefs x = 0 := by
    rw [(deallocuvm_ensures (pgUp_mul _).le hs _ hd).tables x]
    unfold PageDir.refs at hrefs
    omega
  have hbytes₂ : m₂.bytes x = m₁.bytes x := by
    refine freeTables_bytes _ (fun i hi t hpde heq => ?_) _ ht
    exact tableRefs_ne_zero (Or.inr ⟨i, List.mem_range.mp hi, t, hpde, heq⟩) htables
  have hpage : x ≠ d₁.page := fun heq => tableRefs_ne_zero (Or.inl heq) htables
  rw [Mem.kfree_bytes hpage _ h, hbytes₂, hbytes₁]

end Free

namespace Program

open Recorded

variable {c : ShmField} {reads : Reads} {d d' : PageDir} {m₀ m m' : Mem} {sz : Nat}

/-! ### Wherever exec may give up -/

/-- The free pages that `exec` started with are in the new directory or still free, and none is
mapped above physical memory. -/
structure Unfinished (m₀ : Mem) (d : PageDir) (m : Mem) : Prop where
  refs : ∀ x, d.refs x + m.free x = m₀.free x
  ok : d.Ok
  shared : m.shared = m₀.shared
  layout : m.layout = m₀.layout
  below : MapsBelow d

namespace Unfinished

lemma conserved (h : Unfinished m₀ d m) (hc : Conserved d m d' m') (hb : MapsBelow d') :
    Unfinished m₀ d' m' :=
  ⟨fun x => (hc.refs x).trans (h.refs x), hc.ok h.ok, hc.shared.trans h.shared,
    hc.layout.trans h.layout, hb⟩

lemma written (h : Unfinished m₀ d m) (hw : m.Written m') : Unfinished m₀ d m' :=
  h.conserved hw.conserved h.below

lemma unshared (h : Unfinished m₀ d m) (hfree : m₀.FreeOk) : Unshared c d m := by
  intro _ x hx
  rw [h.shared]
  apply hfree.unshared
  rwa [← h.refs x]

lemma sharedOk (h : Unfinished m₀ d m) (hfree : m₀.FreeOk) : Mem.SharedOk m.shared :=
  h.shared ▸ hfree.sharedOk

lemma inRange (h : Unfinished m₀ d m) (hfree : m₀.FreeOk) {x : Nat} (hx : d.refs x ≠ 0) :
    m.InRange x := by
  refine (hfree.inRange x ?_).congr h.layout
  have := h.refs x
  omega

lemma allocuvm {oldsz newsz : Nat} (h : Unfinished m₀ d m) (hfree : m₀.FreeOk)
    (hmapped : ∀ w < pgUp oldsz, (d.entry w).present = true) :
    Ensures (allocuvm c d oldsz newsz m) fun r => Unfinished m₀ r.2.1 r.2.2 :=
  ((allocuvm_conserved h.ok (h.sharedOk hfree) (h.unshared hfree)).and
    (allocuvm_below hfree.once hfree.inRange hmapped (fun x => (h.refs x).le) h.below)).mono
    fun _ hr => h.conserved hr.1 hr.2

end Unfinished

/-! ### Loading the segments -/

/-- The image has its pages below `sz` and the page tables for them, and the user may access these
pages and not those of the kernel. -/
structure Loading (m₀ : Mem) (sz : Nat) (d : PageDir) (m : Mem) : Prop extends
    Unfinished m₀ d m where
  image : Image sz d
  tables : TablesUpTo (pgUp sz) d
  user : ∀ v < pgUp sz, (d.entry v).user = true
  kernel : ∀ v, KERNBASE ≤ v → (d.entry v).user = false

/-- What growing the image gives. -/
lemma Loading.allocuvm {newsz : Nat} (h : Loading m₀ sz d m) (hfree : m₀.FreeOk) :
    Ensures (allocuvm c d sz newsz m) fun r => Unfinished m₀ r.2.1 r.2.2 ∧
      (r.1 ≠ 0 → r.1 = max sz newsz ∧ Loading m₀ r.1 r.2.1 r.2.2) := by
  refine ((h.toUnfinished.allocuvm hfree h.image.mapped).and
    (allocuvm_allocated.and (allocuvm_tablesUpTo h.tables))).mono ?_
  rintro ⟨sz₁, d₁, m₁⟩ ⟨hun, halloc, htables⟩
  refine ⟨hun, fun hne => ?_⟩
  obtain ⟨hsz, hlt, hall⟩ := halloc.resolve_right fun h0 => hne h0.1
  refine ⟨hsz, hun, ?_, ?_, fun v hv => ?_, fun v hv => ?_⟩
  · rw [hsz]
    exact h.image.alloc hlt hall
  · rw [hsz]
    exact htables hne
  · rw [hsz, pgUp_max] at hv
    by_cases hlo : v < pgUp sz
    · rw [hall.outside v (Or.inl hlo)]
      exact h.user v hlo
    · exact (hall.inside rfl v (by omega) (by omega)).2.2
  · rw [hall.outside v (Or.inr ((pgUp_le_KERNBASE hlt).trans hv))]
    exact h.kernel v hv

lemma loadSegments_loading {n off : Nat} (hfree : m₀.FreeOk) (h : Loading m₀ sz d m) (i : Nat) :
    Ensures (loadSegments c reads n i off sz d m) fun r =>
      (r.1 = none → Unfinished m₀ r.2.1 r.2.2) ∧
        ∀ sz', r.1 = some sz' → Loading m₀ sz' r.2.1 r.2.2 := by
  refine (loadSegments_rule (I := fun _ _ sz d m => Loading m₀ sz d m) (B := Unfinished m₀)
    (fun h => h.toUnfinished) (fun h _ _ => h) (fun h _ _ _ _ => ?_) h).mono
    fun r hr => ⟨hr.1, fun sz' hsz => (hr.2 sz' hsz).elim fun _ h => h⟩
  refine (h.allocuvm hfree).mono ?_
  rintro ⟨sz₁, d₁, m₁⟩ ⟨hun, hnext⟩
  refine ⟨hun, fun hne _ => loaduvm_ensures.mono fun q hq => ⟨hun.written hq, fun _ => ?_⟩⟩
  obtain ⟨-, hload⟩ := hnext hne
  exact ⟨hload.toUnfinished.written hq, hload.image, hload.tables, hload.user, hload.kernel⟩

lemma loadSegments_image {n i off : Nat} (h : Image sz d) :
    Ensures (loadSegments c reads n i off sz d m) fun r =>
      ∀ sz', r.1 = some sz' → Image sz' r.2.1 := by
  refine (loadSegments_rule (I := fun _ _ sz d _ => Image sz d) (B := fun _ _ => True)
    (fun _ => trivial) (fun h _ _ => h) (fun h _ _ _ _ => ?_) h).mono
    fun r hr sz' hsz => (hr.2 sz' hsz).elim fun _ h => h
  refine allocuvm_allocated.mono fun r halloc => ⟨trivial, fun hne _ =>
    loaduvm_ensures.mono fun _ _ => ⟨trivial, fun _ => ?_⟩⟩
  obtain ⟨hsz, hlt, halloc⟩ := halloc.resolve_right fun h => hne h.1
  rw [hsz]
  exact h.alloc hlt halloc

/-! ### The stack -/

/-- The pages of the stack and of the guard below it are the two above the image. -/
lemma allocuvm_stack {sz₁ : Nat}
    (h : allocuvm c d (pgUp sz * PGSIZE) (pgUp sz * PGSIZE + 2 * PGSIZE) m = .ok (sz₁, d', m'))
    (hne : sz₁ ≠ 0) :
    sz₁ = (pgUp sz + 2) * PGSIZE ∧ sz₁ < KERNBASE * PGSIZE ∧
      Allocated (pgUp sz) (pgUp sz + 2) true d d' ∧
      clearpteu d' ((sz₁ - 2 * PGSIZE) / PGSIZE) =
        .ok (d'.set (pgUp sz) { d'.entry (pgUp sz) with user := false }) := by
  obtain ⟨hsz₁, hlt, hall⟩ := (allocuvm_allocated _ h).resolve_right fun h0 => hne h0.1
  dsimp only at hsz₁ hlt hall
  rw [Nat.max_eq_right (Nat.le_add_right _ _), ← Nat.add_mul] at hsz₁
  rw [← Nat.add_mul] at hlt
  rw [← Nat.add_mul, pgUp_mul, pgUp_mul] at hall
  have hguard : ((pgUp sz + 2) * PGSIZE - 2 * PGSIZE) / PGSIZE = pgUp sz := by
    rw [← Nat.sub_mul, Nat.add_sub_cancel, Nat.mul_div_cancel _ (by decide)]
  have ht := PageDir.hasTable_of_present (hall.inside rfl (pgUp sz) le_rfl (by omega)).1
  have hwalk := PageDir.walk_eq_some_iff.mpr ⟨ht, rfl⟩
  rw [← hsz₁] at hlt hguard
  refine ⟨hsz₁, hlt, hall, ?_⟩
  rw [hguard, clearpteu, hwalk]

lemma allocStack_image (h : Image sz d) : Ensures (allocStack c sz d m) fun r =>
    ∀ sz', r.1 = some sz' → Image sz' r.2.1 := by
  refine Ensures.bind (R := fun r => allocuvm c d (pgUp sz * PGSIZE)
    (pgUp sz * PGSIZE + 2 * PGSIZE) m = .ok r) (fun _ hr => hr) ?_
  rintro ⟨sz₁, d₁, m₁⟩ halloc
  dsimp only
  split
  · exact .ok (by simp)
  · next hne =>
    obtain ⟨rfl, hlt, hall, hclear⟩ := allocuvm_stack halloc hne
    have himage := h.alloc_stack hlt hall
    rw [hclear]
    refine .ok fun sz' hsz' => ?_
    cases hsz'
    refine ⟨hlt, fun v hv => ?_, fun v hv hle => ?_⟩
    · have hpresent := himage.mapped v hv
      by_cases hw : v = pgUp sz
      · rw [← hw, PageDir.entry_set_self (PageDir.hasTable_of_present hpresent)]
        exact hpresent
      · rw [PageDir.entry_set_ne hw]
        exact hpresent
    · rw [PageDir.entry_set_ne]
      · exact himage.rest v hv hle
      · rw [pgUp_mul] at hle
        omega

/-- The two pages above the image are allocated, and the lower one is made inaccessible. -/
lemma allocStack_ensures (hfree : m₀.FreeOk) (h : Loading m₀ sz d m) :
    Ensures (allocStack c sz d m) fun r => Unfinished m₀ r.2.1 r.2.2 ∧
      ∀ sz', r.1 = some sz' → StackImage sz' r.2.1 ∧ TablesUpTo (sz' / PGSIZE) r.2.1 := by
  have hle : pgUp sz * PGSIZE ≤ pgUp sz * PGSIZE + 2 * PGSIZE := Nat.le_add_right _ _
  have hmapped : ∀ w < pgUp (pgUp sz * PGSIZE), (d.entry w).present = true := by
    rw [pgUp_mul]
    exact h.image.mapped
  have htables : TablesUpTo (pgUp (pgUp sz * PGSIZE)) d := by
    rw [pgUp_mul]
    exact h.tables
  refine Ensures.bind (R := fun r => allocuvm c d (pgUp sz * PGSIZE)
    (pgUp sz * PGSIZE + 2 * PGSIZE) m = .ok r) (fun _ hr => hr) ?_
  rintro ⟨sz₁, d₁, m₁⟩ halloc
  have hun : Unfinished m₀ d₁ m₁ := h.toUnfinished.allocuvm hfree hmapped _ halloc
  dsimp only
  split
  · exact .ok ⟨hun, by simp⟩
  · next hne =>
    have htables₁ := allocuvm_tablesUpTo htables _ halloc hne
    obtain ⟨rfl, hlt, hall, hclear⟩ := allocuvm_stack halloc hne
    rw [Nat.max_eq_right hle, ← Nat.add_mul, pgUp_mul] at htables₁
    have hK : pgUp sz + 2 < KERNBASE := Nat.lt_of_mul_lt_mul_right hlt
    have hpages : (pgUp sz + 2) * PGSIZE / PGSIZE = pgUp sz + 2 := Nat.mul_div_cancel _ (by decide)
    have ht : ∀ v < pgUp sz + 2, d₁.HasTable v := by
      have himage := h.image.alloc_stack hlt hall
      rw [← pgUp_mul (pgUp sz + 2)]
      exact fun v hv => PageDir.hasTable_of_present (himage.mapped v hv)
    have hguard : ((pgUp sz + 2) * PGSIZE - 2 * PGSIZE) / PGSIZE < KERNBASE :=
      (Nat.div_lt_iff_lt_mul (by decide)).mpr (by omega)
    have hconserved := clearpteu_conserved (m := m₁) hguard _ hclear
    rw [hclear]
    refine .ok ⟨hun.conserved hconserved fun w h1 h2 => ?_, fun sz' hsz' => ?_⟩
    · by_cases hw : w = pgUp sz
      · rw [hw, PageDir.entry_set_self (ht _ (by omega)), ← hw]
        exact hun.below w h1 h2
      · rw [PageDir.entry_set_ne hw]
        exact hun.below w h1 h2
    · cases hsz'
      refine ⟨⟨Nat.mul_mod_left _ _, ?_, hlt, ?_, ?_, ?_, ?_⟩, fun w => ?_⟩
      · rw [Nat.add_mul]
        omega
      · rw [hpages]
        exact fun v hv => PageDir.hasTable_set.mpr (ht v hv)
      · rw [hpages, Nat.add_sub_cancel]
        rintro ⟨-, huser⟩
        rw [PageDir.entry_set_self (ht _ (by omega))] at huser
        cases huser
      · have hin := hall.inside rfl (pgUp sz + 1) (by omega) (by omega)
        have hpage : (pgUp sz + 2) * PGSIZE / PGSIZE - 1 = pgUp sz + 1 := by omega
        rw [hpage, PageDir.UserPage, PageDir.entry_set_ne (by omega)]
        exact ⟨hin.1, hin.2.2⟩
      · rintro v hv ⟨-, huser⟩
        rw [PageDir.entry_set_ne (by omega), hall.outside v (by omega), h.kernel v hv] at huser
        cases huser
      · rw [PageDir.hasTable_set, hpages]
        exact htables₁ w

/-! ### What the call returns -/

/-- The loading phase of `exec` succeeds: the file has the header `bs`, and the image of size `sz`
with directory `d` has its segments, the guard page and the stack page. -/
inductive Loads (c : ShmField) (reads : Reads) (m : Mem) (bs : List UInt8) (sz : Nat) (d : PageDir)
    (m' : Mem) : Prop
  | intro {d₀ d₁ : PageDir} {m₀ m₁ : Mem} {sz₁ : Nat}
      (header : reads 0 0 0 ElfHdr.size = some bs) (size : bs.length = ElfHdr.size)
      (magic : (ElfHdr.parse bs).magic = ELF_MAGIC) (setup : setupkvm c m = .ok (some d₀, m₀))
      (segments : loadSegments c reads (ElfHdr.parse bs).phnum 0 (ElfHdr.parse bs).phoff 0 d₀ m₀ =
        .ok (some sz₁, d₁, m₁))
      (stack : allocStack c sz₁ d₁ m₁ = .ok (some sz, d, m'))

lemma result_bad (c : ShmField) (d : PageDir) (ip : Bool) (u : Caller) (m : Mem) :
    (bad c (some d) ip u m).result = (do
      let m ← freevm c d m
      .ok (-1, u, m)) := by
  have hrest : ∀ m : Mem, (if ip = true then do
      tell FsCall.iunlockput
      tell .endOp
      pure (-1, u, m)
    else
      pure (-1, u, m) : Recorded Fault FsCall (Int × Caller × Mem)).result = .ok (-1, u, m) := by
    intro m
    cases ip with
    | true => rfl
    | false => rfl
  -- the call is not to be unfolded
  generalize hx : freevm c d m = x
  unfold bad
  dsimp only
  rw [hx, result_bind]
  simp only [hrest]
  rfl

/-- The image begins empty. -/
lemma loading_setupkvm (hfree : m.FreeOk) (h : setupkvm c m = .ok (some d, m')) :
    Loading m 0 d m' := by
  obtain ⟨hshared, hlayout, -, hsome⟩ := setupkvm_ensures hfree.sharedOk _ h
  obtain ⟨hbare, hrefs, -⟩ := hsome d rfl
  refine ⟨⟨hrefs, hbare.ok, hshared, hlayout, fun w _ hw => ?_⟩, .of_bare hbare, fun w => ?_,
    fun v hv => absurd hv (Nat.not_lt_zero v), fun v _ => setupkvm_user _ h d rfl v⟩
  · rw [hbare.entry hw]
    rfl
  · rw [setupkvm_hasTable _ h d rfl w]
    exact (or_iff_left not_sharesTable_self).symm

namespace Loads

variable {bs path : List UInt8} {argv : List (List UInt8)} {u : Caller}

lemma ensures (h : Loads c reads m bs sz d m') (hfree : m.FreeOk) :
    Unfinished m d m' ∧ StackImage sz d ∧ TablesUpTo (sz / PGSIZE) d := by
  obtain ⟨-, -, -, setup, segments, stack⟩ := h
  have hload := (loadSegments_loading hfree (loading_setupkvm hfree setup) 0 _ segments).2 _ rfl
  obtain ⟨hun, himage⟩ := allocStack_ensures hfree hload _ stack
  exact ⟨hun, himage sz rfl⟩

lemma good (h : Loads c reads m bs sz d m') :
    ¬ (bs.length ≠ ElfHdr.size ∨ (ElfHdr.parse bs).magic ≠ ELF_MAGIC) := by
  obtain ⟨-, size, magic, -⟩ := h
  exact not_or.mpr ⟨not_not.mpr size, not_not.mpr magic⟩

/-- After the loading phase the result depends on whether the arguments can be pushed. -/
lemma exec_result (h : Loads c reads m bs sz d m') :
    (exec c path (some reads) argv u m).result = (do
      match ← pushStack d argv sz m' with
      | (none, m) => do
        let m ← freevm c d m
        .ok (-1, u, m)
      | (some esp, m) => do
        let m ← freevm c u.pgdir m
        .ok (0, ⟨d, sz, entryPoint bs, esp, safestrcpy u.name (lastElem path path) NAMESZ⟩, m)) := by
  have hgood := h.good
  obtain ⟨header, -, -, setup, segments, stack⟩ := h
  generalize hx : (exec c path (some reads) argv u m).result = x
  simp only [exec, result_bind, result_tell, result_lift, header, if_neg hgood, setup, segments,
    stack, ok_bind] at hx
  refine hx.symm.trans (congrArg (pushStack d argv sz m' >>= ·) ?_)
  funext r
  obtain ⟨_ | esp, m₁⟩ := r
  · exact result_bad ..
  · exact result_bind ..

lemma execImage_result (h : Loads c reads m bs sz d m') :
    execImage c reads argv m = (do
      match ← pushStack d argv sz m' with
      | (none, m) => do
        let m ← freevm c d m
        .ok (none, m)
      | (some _, m) => .ok (some (d, sz), m)) := by
  have hgood := h.good
  obtain ⟨header, -, -, setup, segments, stack⟩ := h
  generalize hx : execImage c reads argv m = x
  simp only [execImage, header, if_neg hgood, setup, segments, stack, ok_bind] at hx
  exact hx.symm

end Loads

/-- Whatever the file holds, a new image has exactly the pages below its size. -/
lemma execImage_image {argv : List (List UInt8)} : Ensures (execImage c reads argv m) fun r =>
    ∀ nd sz, r.1 = some (nd, sz) → Image sz nd := by
  unfold execImage
  split
  · exact .ok (by simp)
  · dsimp only
    split
    · exact .ok (by simp)
    · refine setupkvm_bare.bind ?_
      rintro ⟨_ | d₀, m₀⟩ hbare
      · exact .ok (by simp)
      · refine (loadSegments_image (.of_bare (hbare d₀ rfl))).bind ?_
        rintro ⟨_ | sz₁, d₁, m₁⟩ himage
        · exact Ensures.bind (R := fun _ => True) (fun _ _ => trivial) fun _ _ => .ok (by simp)
        · refine (allocStack_image (himage sz₁ rfl)).bind ?_
          rintro ⟨_ | sz, d, m₂⟩ himage
          · exact Ensures.bind (R := fun _ => True) (fun _ _ => trivial) fun _ _ => .ok (by simp)
          · refine pushStack_ensures.bind ?_
            rintro ⟨_ | esp, m₃⟩ -
            · exact Ensures.bind (R := fun _ => True) (fun _ _ => trivial) fun _ _ => .ok (by simp)
            · refine .ok fun nd sz' h => ?_
              cases h
              exact himage sz rfl

/-- The pages of a new image come from the free list; if there is none, pages may be lost but
nothing else has changed. -/
lemma execImage_ensures {argv : List (List UInt8)} (hfree : m.FreeOk) :
    Ensures (execImage c reads argv m) fun r => (r.1 = none → m.Lost r.2) ∧
      ∀ nd sz, r.1 = some (nd, sz) → Unfinished m nd r.2 := by
  have hlost : ∀ {m'}, m'.shared = m.shared → (∀ x, m'.free x ≤ m.free x) →
      m'.layout = m.layout → m.Lost m' := fun h1 h2 h3 => .of_shared hfree.sharedOk h2 h1 h3
  -- every failure after `setupkvm` ends in freeing what was built
  have hbad : ∀ {d m₁}, Unfinished m d m₁ → Ensures (freevm c d m₁ >>= fun m => .ok (none, m))
      fun r : Option (PageDir × Nat) × Mem => (r.1 = none → m.Lost r.2) ∧
        ∀ nd sz, r.1 = some (nd, sz) → Unfinished m nd r.2 := by
    intro d m₁ h
    have hs := h.sharedOk hfree
    refine (freevm_lost hs ((h.unshared hfree).dropped h.ok hs le_rfl) (fun x => (h.refs x).le)
      (hlost h.shared (fun x => ?_) h.layout)).bind fun m₂ hm₂ => .ok ⟨fun _ => hm₂, by simp⟩
    have := h.refs x
    omega
  unfold execImage
  split
  · exact .ok ⟨fun _ => hlost rfl (fun _ => le_rfl) rfl, by simp⟩
  · dsimp only
    split
    · exact .ok ⟨fun _ => hlost rfl (fun _ => le_rfl) rfl, by simp⟩
    · refine Ensures.bind (R := fun r => setupkvm c m = .ok r) (fun _ h => h) ?_
      rintro ⟨_ | d₀, m₀⟩ setup
      · obtain ⟨hshared, hlayout, hnone, -⟩ := setupkvm_ensures hfree.sharedOk _ setup
        exact .ok ⟨fun _ => hlost hshared (fun x => (hnone rfl x).le) hlayout, by simp⟩
      · refine (loadSegments_loading hfree (loading_setupkvm hfree setup) 0).bind ?_
        rintro ⟨_ | sz₁, d₁, m₁⟩ hload
        · exact hbad (hload.1 rfl)
        · refine (allocStack_ensures hfree (hload.2 sz₁ rfl)).bind ?_
          rintro ⟨_ | sz, d, m₂⟩ ⟨hun, -⟩
          · exact hbad hun
          · refine pushStack_ensures.bind ?_
            rintro ⟨_ | esp, m₃⟩ hw
            · exact hbad (hun.written hw)
            · refine .ok ⟨by simp, fun nd sz' h => ?_⟩
              cases h
              exact hun.written hw

/-! ### A program without segments -/

/-- Four pages are enough for the stack. -/
lemma allocStack_succeeds (h : Image sz d) (hK : pgUp sz + 2 < KERNBASE) (hpages : 4 ≤ m.pages) :
    ∃ d' m', allocStack c sz d m = .ok (some ((pgUp sz + 2) * PGSIZE), d', m') ∧
      m.pages ≤ m'.pages + 4 := by
  have hneeds : needs d (pgUp sz) (pgUp sz + 2) ≤ 4 := by
    have hcard := missing_le (tablesFor (pgUp sz) (pgUp sz + 2)) d
    have himage : (tablesFor (pgUp sz) (pgUp sz + 2)).card ≤
        (Finset.Ico (pgUp sz) (pgUp sz + 2)).card := Finset.card_image_le
    rw [Nat.card_Ico] at himage
    unfold needs
    omega
  have hnew : ∀ w, pgUp sz ≤ w → w < pgUp sz + 2 → (d.entry w).present = false := by
    intro w h1 h2
    rw [h.rest w (by omega) h1]
    rfl
  obtain ⟨d₁, m₁, halloc, hleft⟩ := allocPages_succeeds (c := c) (pgUp sz * PGSIZE)
    ((pgUp sz + 2) * PGSIZE) hK.le hnew (hneeds.trans hpages)
  have halloc' : allocuvm c d (pgUp sz * PGSIZE) (pgUp sz * PGSIZE + 2 * PGSIZE) m =
      .ok ((pgUp sz + 2) * PGSIZE, d₁, m₁) := by
    have hbig : ¬ KERNBASE * PGSIZE ≤ (pgUp sz + 2) * PGSIZE :=
      Nat.not_le.mpr (Nat.mul_lt_mul_of_pos_right hK (by decide))
    rw [← Nat.add_mul, allocuvm, if_neg hbig, if_neg, pgUp_mul, pgUp_mul, Nat.add_sub_cancel_left]
    · exact halloc
    · exact Nat.not_lt.mpr (Nat.mul_le_mul_right _ (Nat.le_add_right _ _))
  have hne : (pgUp sz + 2) * PGSIZE ≠ 0 := by
    rw [Nat.add_mul]
    simp only [PGSIZE]
    omega
  obtain ⟨-, -, -, hclear⟩ := allocuvm_stack halloc' hne
  refine ⟨d₁.set (pgUp sz) { d₁.entry (pgUp sz) with user := false }, m₁, ?_, by omega⟩
  rw [allocStack, halloc', ok_bind]
  dsimp only
  rw [if_neg hne, hclear]
  rfl

/-- The header of an ELF file without segments: the magic number, and zeros for the rest. -/
def emptyHeader : List UInt8 := wordBytes ELF_MAGIC ++ List.replicate 48 0

/-- The image of a program without segments is the stack and the guard page. -/
lemma loads_empty (hpages : 70 ≤ m.pages) :
    ∃ d m', Loads c (ofFile emptyHeader) m emptyHeader (2 * PGSIZE) d m' ∧
      m.pages ≤ m'.pages + 69 := by
  obtain ⟨d₀, m₀, hsetup, hleft⟩ := setupkvm_succeeds (c := c) (m := m) (by omega)
  have himage := Image.of_bare (setupkvm_bare _ hsetup d₀ rfl)
  have hK : pgUp 0 + 2 < KERNBASE := by
    rw [KERNBASE_eq]
    decide
  obtain ⟨d, m', hstack, hleft'⟩ := allocStack_succeeds (c := c) (m := m₀) himage hK (by omega)
  refine ⟨d, m', ⟨by decide, by decide, by decide, hsetup, ?_, hstack⟩, by omega⟩
  have hphnum : (ElfHdr.parse emptyHeader).phnum = 0 := by decide
  rw [hphnum]
  rfl

end Program

end Xv6
