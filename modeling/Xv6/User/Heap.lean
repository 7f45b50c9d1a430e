import Xv6.User.Malloc

/-!
# The heap invariant

The free list is a circle of blocks in increasing address order that wraps once, at `base`. Its
blocks are separated by gaps, the blocks handed out are disjoint from them and from one another, and
together they make up the memory obtained from `sbrk`.

Following the pointers from any block visits the whole circle. So the search of `free` ends, and it
can end at one block only: the last one below the freed block. `malloc` goes round at most twice,
since `morecore` gives it a block that is large enough. To the list, `free` is the insertion of an
extent; `morecore` is `free` for a new block that was never handed out.
-/

namespace Xv6

namespace Malloc

open Words TransitionSystem Extent

variable {base bp fuel nunits p q v : Nat} {m m' : Memory} {s s' : State}
  {F L A B T : List Extent} {b x y : Extent}

/-! ### Headers -/

/-- The headers at the two addresses do not overlap. -/
def Clear (p q : Nat) : Prop := p + HEADER ≤ q ∨ q + HEADER ≤ p

lemma Clear.symm (h : Clear p q) : Clear q p := Or.symm h

@[simp] lemma ptr_setPtr_self (hv : v < 2 ^ 32) : ptr (setPtr m p v) p = v :=
  load_store_self hv

@[simp] lemma size_setSize_self (hv : v < 2 ^ 32) : size (setSize m p v) p = v :=
  load_store_self hv

@[simp] lemma size_setPtr_self : size (setPtr m p v) p = size m p :=
  load_store_of_apart (by omega)

@[simp] lemma ptr_setSize_self : ptr (setSize m p v) p = ptr m p :=
  load_store_of_apart (by omega)

/-- The header at `p` is the same in both memories. -/
def Same (m m' : Memory) (p : Nat) : Prop := ptr m' p = ptr m p ∧ size m' p = size m p

lemma same_setPtr (h : Clear p q) : Same m (setPtr m p v) q := by
  unfold Clear HEADER at h
  exact ⟨load_store_of_apart (by omega), load_store_of_apart (by omega)⟩

lemma same_setSize (h : Clear p q) : Same m (setSize m p v) q := by
  unfold Clear HEADER at h
  exact ⟨load_store_of_apart (by omega), load_store_of_apart (by omega)⟩

lemma Same.trans {m'' : Memory} (h : Same m m' p) (h' : Same m' m'' p) : Same m m'' p :=
  ⟨h'.1.trans h.1, h'.2.trans h.2⟩

lemma Same.len {l : Nat} (h : Same m m' p) (hl : HEADER * size m p = l) : HEADER * size m' p = l := by
  rw [h.2, hl]

lemma size_lt (m : Memory) (p : Nat) : size m p < 2 ^ 32 := load_lt m _

lemma ptr_lt (m : Memory) (p : Nat) : ptr m p < 2 ^ 32 := load_lt m _

lemma wrap_of_lt (h : v < 2 ^ 32) : wrap v = v := Nat.mod_eq_of_lt h

/-! ### Linked blocks -/

/-- The address of the first block, or `q` if there is none. -/
def first (q : Nat) : List Extent → Nat
  | [] => q
  | b :: _ => b.start

/-- The blocks have the sizes that their headers say and each one points to the next; the last one
points to `q`. -/
def Nodes (m : Memory) : List Extent → Nat → Prop
  | [], _ => True
  | b :: L, q => HEADER * size m b.start = b.len ∧ ptr m b.start = first q L ∧ Nodes m L q

lemma first_append : first q (A ++ B) = first (first q B) A := by
  cases A <;> rfl

lemma nodes_append : Nodes m (A ++ B) q ↔ Nodes m A (first q B) ∧ Nodes m B q := by
  induction A with
  | nil => simp [Nodes]
  | cons a A ih => simp only [List.cons_append, Nodes, ih, first_append, and_assoc]

lemma Nodes.congr (h : Nodes m L q) (hs : ∀ b ∈ L, Same m m' b.start) : Nodes m' L q := by
  induction L with
  | nil => trivial
  | cons b L ih =>
    obtain ⟨hp, hsz⟩ := hs b (List.mem_cons_self ..)
    exact ⟨hsz ▸ h.1, hp ▸ h.2.1, ih h.2.2 fun y hy => hs y (List.mem_cons_of_mem _ hy)⟩

/-- A block on the list, with what comes before and behind it. -/
lemma Nodes.split (h : Nodes m L q) (hb : b ∈ L) :
    ∃ A B, L = A ++ b :: B ∧ ptr m b.start = first q B ∧ HEADER * size m b.start = b.len := by
  obtain ⟨A, B, rfl⟩ := List.append_of_mem hb
  obtain ⟨-, hsz, hp, -⟩ := nodes_append.mp h
  exact ⟨A, B, rfl, hp, hsz⟩

/-- A circle can be entered at each of its blocks. -/
lemma Nodes.rotate {C D : List Extent} (h : Nodes m (C ++ b :: D) q)
    (hq : first q (C ++ b :: D) = q) : Nodes m (b :: D ++ C) b.start := by
  obtain ⟨hC, hD⟩ := nodes_append.mp h
  refine nodes_append.mpr ⟨?_, hC⟩
  cases C with
  | nil =>
    obtain rfl : b.start = q := hq
    exact hD
  | cons c C =>
    obtain rfl : c.start = q := hq
    exact hD

/-! ### Joining two blocks -/

/-- What both halves of `free` do: join `x` with the block at `y`, or link to it. -/
def joinAt (m : Memory) (x y : Nat) : Memory :=
  if plus x (size m x) = y then
    let m := setSize m x (wrap (size m x + size m y))
    setPtr m x (ptr m y)
  else
    setPtr m x y

lemma linkPrev_eq : linkPrev m p bp = joinAt m p bp := rfl

lemma linkNext_eq (h : Clear bp p) : linkNext m p bp = joinAt m bp (ptr m p) := by
  unfold linkNext joinAt
  dsimp only
  rw [(same_setSize h).1]

lemma same_joinAt (h : Clear p q) : Same m (joinAt m p v) q := by
  unfold joinAt
  split
  · exact (same_setSize h).trans (same_setPtr h)
  · exact same_setPtr h

lemma plus_size (hsz : HEADER * size m b.start = b.len) (hb : b.stop < 2 ^ 32) :
    plus b.start (size m b.start) = b.stop := by
  rw [plus, hsz]
  exact wrap_of_lt hb

lemma first_join : first q (join x T) = x.start := by
  cases T with
  | nil => rfl
  | cons y T =>
    simp only [join]
    split <;> rfl

/-- Joining a block with the list behind it. -/
lemma nodes_joinAt (hx : HEADER * size m x.start = x.len) (hT : Nodes m T q)
    (hq : T = [] → x.stop ≠ q) (hqlt : q < 2 ^ 32) (hclear : ∀ y ∈ T, Clear x.start y.start)
    (hstop : ∀ y ∈ x :: T, y.stop < 2 ^ 32) :
    Nodes (joinAt m x.start (first q T)) (join x T) q := by
  have hplus := plus_size hx (hstop x (List.mem_cons_self ..))
  have hxlt := hstop x (List.mem_cons_self ..)
  have hrest : ∀ {v} {L : List Extent}, (∀ y ∈ L, y ∈ T) → Nodes m L q →
      Nodes (joinAt m x.start v) L q := fun hL h =>
    h.congr fun y hy => same_joinAt (hclear y (hL y hy))
  cases T with
  | nil =>
    simp only [joinAt, first, hplus, if_neg (hq rfl), join]
    exact ⟨by rw [size_setPtr_self, hx], ptr_setPtr_self hqlt, trivial⟩
  | cons y T =>
    have hylt := hstop y (List.mem_cons_of_mem _ (List.mem_cons_self ..))
    obtain ⟨hy, hp, hL⟩ := hT
    simp only [join]
    split
    case isTrue heq =>
      have hsum : size m x.start + size m y.start < 2 ^ 32 := by
        simp only [stop, HEADER] at *
        omega
      have hsame := (same_setSize (m := m) (v := wrap (size m x.start + size m y.start))
        (hclear y (List.mem_cons_self ..))).1
      refine ⟨?_, ?_, hrest (fun z hz => List.mem_cons_of_mem _ hz) hL⟩
      · change HEADER * size (joinAt m x.start y.start) x.start = _
        rw [joinAt, if_pos (hplus.trans heq), size_setPtr_self, wrap_of_lt hsum,
          size_setSize_self hsum, Nat.mul_add, hx, hy]
      · change ptr (joinAt m x.start y.start) x.start = _
        rw [joinAt, if_pos (hplus.trans heq)]
        dsimp only
        rw [hsame, ptr_setPtr_self (ptr_lt m _), hp]
    case isFalse hne =>
      have hystart : y.start < 2 ^ 32 := by
        simp only [stop] at hylt
        omega
      have hlink : joinAt m x.start (first q (y :: T)) = setPtr m x.start y.start :=
        if_neg (hplus ▸ hne)
      refine ⟨?_, ?_, hrest (fun z hz => hz) ⟨hy, hp, hL⟩⟩
      · rw [hlink, size_setPtr_self, hx]
      · rw [hlink, ptr_setPtr_self hystart]
        rfl

/-! ### The invariant -/

/-- The static header, a block of size 0. -/
abbrev baseBlock (base : Nat) : Extent := ⟨base, 0⟩

/-- The free list `F` and the blocks handed out. -/
structure Ok (base : Nat) (s : State) (F : List Extent) : Prop where
  /-- The list from `base` through `F` is a circle. -/
  nodes : Nodes s.mem (baseBlock base :: F) base
  /-- It is in increasing order, and no two blocks are adjacent. -/
  separated : Separated (baseBlock base :: F)
  freep : ∃ b ∈ baseBlock base :: F, b.start = s.freep
  pos : ∀ b ∈ F, 0 < b.len
  live : ∀ b ∈ s.live, 0 < b.len ∧ HEADER * size s.mem b.start = b.len
  live_disjoint : s.live.Pairwise Extent.Disjoint
  free_disjoint : ∀ a ∈ F, ∀ b ∈ s.live, a.Disjoint b
  /-- All blocks lie inside the memory obtained from `sbrk`. -/
  inside : ∀ i, Covers F i ∨ Covers s.live i → Covers s.chunks i
  total : total F + total s.live = total s.chunks
  chunks : ∀ c ∈ s.chunks, base + HEADER ≤ c.start ∧ c.stop ≤ s.brk
  base_pos : 0 < base
  brk_le : base + HEADER ≤ s.brk
  brk_lt : s.brk < 2 ^ 32

lemma Ok.free_size (h : Ok base s F) (hb : b ∈ F) : HEADER * size s.mem b.start = b.len := by
  obtain ⟨A, B, -, -, hsz⟩ := h.nodes.split (List.mem_cons_of_mem _ hb)
  exact hsz

/-- A block, free or not, lies between `base` and the end of the memory. -/
lemma Ok.bounds (h : Ok base s F) (hb : b ∈ F ∨ b ∈ s.live) :
    base + HEADER ≤ b.start ∧ HEADER ≤ b.len ∧ b.stop ≤ s.brk := by
  have hlen : HEADER ≤ b.len := by
    rcases hb with hb | hb
    · have hsz := h.free_size hb
      have hpos := h.pos b hb
      unfold HEADER at *
      omega
    · obtain ⟨hpos, hsz⟩ := h.live b hb
      unfold HEADER at *
      omega
  have hin : ∀ i, b.Has i → Covers s.chunks i := fun i hi => h.inside i
    (hb.imp (fun hb => ⟨b, hb, hi⟩) fun hb => ⟨b, hb, hi⟩)
  unfold HEADER at hlen
  obtain ⟨c, hc, hci⟩ := hin b.start ⟨Nat.le_refl _, by simp only [stop]; omega⟩
  obtain ⟨d, hd, hdi⟩ := hin (b.start + b.len - 1) ⟨by omega, by simp only [stop]; omega⟩
  have hc' := h.chunks c hc
  have hd' := h.chunks d hd
  simp only [Has, stop, HEADER] at *
  omega

/-- The headers of two disjoint blocks do not overlap. -/
lemma Ok.clear (h : Ok base s F) (hx : x ∈ F ∨ x ∈ s.live) (hy : y ∈ F ∨ y ∈ s.live)
    (hxy : x.Disjoint y) : Clear x.start y.start := by
  have hx' := h.bounds hx
  have hy' := h.bounds hy
  have hapart := hxy.apart (by unfold HEADER at hx'; omega) (by unfold HEADER at hy'; omega)
  simp only [Clear, Apart, stop, HEADER] at *
  omega

lemma Ok.clear_base (h : Ok base s F) (hx : x ∈ F ∨ x ∈ s.live) : Clear base x.start :=
  Or.inl (h.bounds hx).1

lemma Ok.free_clear (h : Ok base s F) (hx : x ∈ F) (hb : b ∈ s.live) : Clear x.start b.start :=
  h.clear (Or.inl hx) (Or.inr hb) (h.free_disjoint x hx b hb)

/-- A block handed out does not overlap with the list. -/
lemma Ok.live_clear (h : Ok base s F) (hx : x ∈ baseBlock base :: F) (hb : b ∈ s.live) :
    Clear x.start b.start := by
  rcases List.mem_cons.mp hx with rfl | hx
  · exact h.clear_base (Or.inr hb)
  · exact h.free_clear hx hb

/-- Two blocks of the list, one behind the other. -/
lemma Ok.node_clear (h : Ok base s F) (hL : baseBlock base :: F = A ++ x :: B) (hy : y ∈ B) :
    Clear x.start y.start := by
  have hsep := h.separated
  rw [hL] at hsep
  have hlt := List.rel_of_pairwise_cons (List.pairwise_append.mp hsep).2.1 hy
  cases A with
  | nil =>
    obtain ⟨rfl, rfl⟩ := List.cons.inj hL
    exact h.clear_base (Or.inl hy)
  | cons a A =>
    obtain ⟨-, rfl⟩ := List.cons.inj hL
    have hx := (h.bounds (Or.inl (List.mem_append_right _ (List.mem_cons_self ..)))).2.1
    simp only [Clear, stop] at *
    omega

lemma Ok.node_stop (h : Ok base s F) (hx : x ∈ baseBlock base :: F) : x.stop < 2 ^ 32 := by
  have hlt := h.brk_lt
  rcases List.mem_cons.mp hx with rfl | hx
  · have hle := h.brk_le
    simp only [stop, HEADER] at *
    omega
  · have hb := h.bounds (Or.inl hx)
    omega

lemma Ok.base_le (h : Ok base s F) (hx : x ∈ baseBlock base :: F) : base ≤ x.start := by
  rcases List.mem_cons.mp hx with rfl | hx
  · exact Nat.le_refl _
  · exact Nat.le_of_lt (h.separated.start_lt hx)

/-! ### Walking round the circle -/

/-- The addresses on the list. -/
def OnList (base : Nat) (F : List Extent) (p : Nat) : Prop := ∃ b ∈ baseBlock base :: F, b.start = p

lemma Ok.onList_ptr (h : Ok base s F) (hp : OnList base F p) : OnList base F (ptr s.mem p) := by
  obtain ⟨b, hb, rfl⟩ := hp
  obtain ⟨A, B, hL, hptr, -⟩ := h.nodes.split hb
  rw [hptr]
  cases B with
  | nil => exact ⟨_, List.mem_cons_self .., rfl⟩
  | cons y B => exact ⟨y, hL ▸ List.mem_append_right _ (by simp), rfl⟩

/-- The circle, entered at the block `p`. -/
lemma Ok.enter (h : Ok base s F) (hp : OnList base F p) :
    ∃ b R, b.start = p ∧ (∀ x, x ∈ b :: R ↔ x ∈ baseBlock base :: F) ∧
      Nodes s.mem (b :: R) p ∧ b ∉ R := by
  obtain ⟨b, hb, rfl⟩ := hp
  obtain ⟨C, D, hL⟩ := List.append_of_mem hb
  have hnodes := h.nodes
  have hfirst : first base (baseBlock base :: F) = base := rfl
  have hsep := h.separated
  rw [hL] at hnodes hfirst hsep
  refine ⟨b, D ++ C, rfl, fun x => ?_, hnodes.rotate hfirst, fun hmem => ?_⟩
  · rw [hL]
    simp only [List.mem_cons, List.mem_append]
    tauto
  · obtain ⟨-, hbD, hCb⟩ := List.pairwise_append.mp hsep
    rcases List.mem_append.mp hmem with hb' | hb'
    · have := List.rel_of_pairwise_cons hbD hb'
      simp only [stop] at this
      omega
    · have := hCb b hb' b (List.mem_cons_self ..)
      simp only [stop] at this
      omega

/-! ### The search of free -/

/-- The two conditions under which the loop of `free` stops at `p`. -/
def Stops (m : Memory) (bp p : Nat) : Prop :=
  (bp > p ∧ bp < ptr m p) ∨ p ≥ ptr m p ∧ (bp > p ∨ bp < ptr m p)

lemma search_succ : search m bp (fuel + 1) p =
    if (bp > p ∧ bp < ptr m p) ∨ p ≥ ptr m p ∧ (bp > p ∨ bp < ptr m p) then some p
    else search m bp fuel (ptr m p) := by
  rw [search]
  split_ifs <;> first | rfl | (exfalso; tauto)

lemma search_some {P : Nat → Prop} (hP : ∀ p, P p → P (ptr m p)) (hp : P p)
    (h : search m bp fuel p = some q) : P q ∧ Stops m bp q := by
  induction fuel generalizing p with
  | zero => simp [search] at h
  | succ fuel ih =>
    rw [search_succ] at h
    split at h
    case isTrue hstop =>
      obtain rfl := Option.some.inj h
      exact ⟨hp, hstop⟩
    case isFalse => exact ih (hP p hp) h

lemma search_mono {k : Nat} (h : search m bp fuel p = some q) :
    search m bp (fuel + k) p = some q := by
  induction fuel generalizing p with
  | zero => simp [search] at h
  | succ fuel ih =>
    rw [Nat.succ_add, search_succ]
    rw [search_succ] at h
    split
    case isTrue hstop => rwa [if_pos hstop] at h
    case isFalse hstop =>
      rw [if_neg hstop] at h
      exact ih h

/-- The search ends on a list that has a block where it may stop. -/
lemma search_terminates (hL : Nodes m L q) (hstop : ∃ b ∈ L, Stops m bp b.start) :
    ∃ r, search m bp L.length (first q L) = some r := by
  induction L with
  | nil => simp at hstop
  | cons x L ih =>
    rw [List.length_cons, search_succ]
    split
    case isTrue => exact ⟨_, rfl⟩
    case isFalse hno =>
      obtain ⟨b, hb, hbs⟩ := hstop
      rcases List.mem_cons.mp hb with rfl | hb
      · exact absurd hbs hno
      · rw [first, hL.2.1]
        exact ih hL.2.2 ⟨b, hb, hbs⟩

/-- The search stops at the last block below `bp` only. -/
lemma Ok.stops_split (h : Ok base s F) (hp : OnList base F p) (hbp : base < bp)
    (hstop : Stops s.mem bp p) :
    ∃ A x B, baseBlock base :: F = A ++ x :: B ∧ x.start = p ∧ x.start < bp ∧
      ∀ y ∈ B, bp ≤ y.start := by
  obtain ⟨x, hx, rfl⟩ := hp
  obtain ⟨A, B, hL, hptr, -⟩ := h.nodes.split hx
  have hsep := h.separated
  rw [hL] at hsep
  have hxB := (List.pairwise_append.mp hsep).2.1
  refine ⟨A, x, B, hL, rfl, ?_⟩
  have hbase := h.base_le hx
  rw [Stops, hptr] at hstop
  cases B with
  | nil =>
    simp only [first] at hstop
    exact ⟨by omega, by simp⟩
  | cons y B =>
    have hxy := Separated.start_lt hxB (List.mem_cons_self ..)
    simp only [first] at hstop
    refine ⟨by omega, fun z hz => ?_⟩
    rcases List.mem_cons.mp hz with rfl | hz
    · omega
    · have hyz := Separated.start_lt (List.pairwise_cons.mp hxB).2 hz
      omega

/-- There is a block where the search stops. -/
lemma Ok.exists_stops (h : Ok base s F) (hbp : base < bp) (hne : ∀ y ∈ F, y.start ≠ bp) :
    ∃ b ∈ baseBlock base :: F, Stops s.mem bp b.start := by
  have key : ∀ L, Nodes s.mem L base → (∀ y ∈ L, base ≤ y.start ∧ y.start ≠ bp) → L ≠ [] →
      first base L < bp → ∃ b ∈ L, Stops s.mem bp b.start := by
    intro L
    induction L with
    | nil => exact fun _ _ hnil => absurd rfl hnil
    | cons x L ih =>
      intro hn hne _ hlt
      by_cases hnext : first base L < bp ∧ L ≠ []
      · obtain ⟨b, hb, hbs⟩ := ih hn.2.2
          (fun y hy => hne y (List.mem_cons_of_mem _ hy)) hnext.2 hnext.1
        exact ⟨b, List.mem_cons_of_mem _ hb, hbs⟩
      · refine ⟨x, List.mem_cons_self .., ?_⟩
        rw [Stops, hn.2.1]
        have hx := (hne x (List.mem_cons_self ..)).1
        cases L with
        | nil =>
          simp only [first] at hlt ⊢
          omega
        | cons y L =>
          have hy := (hne y (by simp)).2
          simp only [first] at hlt hnext ⊢
          simp only [ne_eq, reduceCtorEq, not_false_eq_true, and_true] at hnext
          omega
  refine key _ h.nodes (fun y hy => ⟨h.base_le hy, ?_⟩) (by simp) hbp
  rcases List.mem_cons.mp hy with rfl | hy
  · exact Nat.ne_of_lt hbp
  · exact hne y hy

/-! ### Free -/

/-- What lies behind a block of the list is on the free list. -/
lemma mem_free_of_split (hL : baseBlock base :: F = A ++ x :: B) (hy : y ∈ B) : y ∈ F := by
  cases A with
  | nil =>
    obtain ⟨-, rfl⟩ := List.cons.inj hL
    exact hy
  | cons a A =>
    obtain ⟨-, rfl⟩ := List.cons.inj hL
    exact List.mem_append_right _ (List.mem_cons_of_mem _ hy)

lemma Ok.insert_base (h : Ok base s F) (hb : base < b.start) :
    b.insert (baseBlock base :: F) = baseBlock base :: b.insert F := by
  rw [Extent.insert, if_neg (by simp only; omega)]
  refine join_of_lt fun y hy => ?_
  change base + 0 < y.start
  rcases start_of_mem_insert hy with hy | ⟨z, hz, hy⟩
  · omega
  · have hlt : base < z.start := h.separated.start_lt hz
    omega

/-- The memory after `free` has linked the block `b` in behind `x`. -/
lemma Ok.nodes_insert (h : Ok base s F) (hb : b ∈ s.live)
    (hL : baseBlock base :: F = A ++ x :: B) (hx : x.start < b.start)
    (hB : ∀ y ∈ B, b.start ≤ y.start) :
    Nodes (linkPrev (linkNext s.mem x.start b.start) x.start b.start)
      (baseBlock base :: b.insert F) base := by
  have hxL : x ∈ baseBlock base :: F := hL ▸ List.mem_append_right _ (List.mem_cons_self ..)
  have hbb := h.bounds (Or.inr hb)
  have hbx := (h.live_clear hxL hb).symm
  have hbF : ∀ y ∈ B, Clear b.start y.start := fun y hy =>
    (h.free_clear (mem_free_of_split hL hy) hb).symm
  have hbB : ∀ y ∈ B, b.start < y.start := fun y hy => by
    have hle := hB y hy
    have hc := hbF y hy
    simp only [Clear, HEADER] at hc
    omega
  have hnodes := h.nodes
  rw [hL] at hnodes
  obtain ⟨hA, hxsz, hxptr, hBn⟩ := nodes_append.mp hnodes
  have hbstop : b.stop < 2 ^ 32 := Nat.lt_of_le_of_lt hbb.2.2 h.brk_lt
  have hstop : ∀ y ∈ B, y.stop < 2 ^ 32 := fun y hy =>
    h.node_stop (List.mem_cons_of_mem _ (mem_free_of_split hL hy))
  have hbase : base < 2 ^ 32 := h.node_stop (List.mem_cons_self ..)
  -- `b` and what is behind it
  have h₁ : Nodes (linkNext s.mem x.start b.start) (join b B) base := by
    rw [linkNext_eq hbx, hxptr]
    refine nodes_joinAt (h.live b hb).2 hBn (fun _ => ?_) hbase hbF fun y hy => ?_
    · simp only [stop, HEADER] at *
      omega
    · rcases List.mem_cons.mp hy with rfl | hy
      · exact hbstop
      · exact hstop y hy
  have hsame₁ : ∀ {p}, Clear b.start p → Same s.mem (linkNext s.mem x.start b.start) p := by
    intro p hp
    rw [linkNext_eq hbx]
    exact same_joinAt hp
  -- `x` and what is behind it
  have h₂ : Nodes (linkPrev (linkNext s.mem x.start b.start) x.start b.start)
      (join x (join b B)) base := by
    have hj := nodes_joinAt (x := x) ((hsame₁ hbx).2 ▸ hxsz) h₁ ?_ hbase ?_ ?_
    · rwa [first_join] at hj
    · intro hnil
      cases B with
      | nil => simp [join] at hnil
      | cons y B =>
        simp only [join] at hnil
        split at hnil <;> simp at hnil
    · intro y hy
      rcases start_of_mem_join hy with hy | hy
      · exact hy ▸ hbx.symm
      · exact h.node_clear hL hy
    · intro y hy
      rcases List.mem_cons.mp hy with rfl | hy
      · exact h.node_stop hxL
      · rcases stop_of_mem_join hy with hy | ⟨z, hz, hy⟩
        · exact hy ▸ hbstop
        · exact hy ▸ hstop z hz
  have hsep := h.separated
  rw [← h.insert_base (by have := hbb.1; simp only [HEADER] at this; omega), hL]
  rw [hL] at hsep
  rw [insert_eq hsep hx hbB]
  refine nodes_append.mpr ⟨?_, h₂⟩
  rw [first_join]
  refine hA.congr fun a ha => ?_
  have haL : a ∈ baseBlock base :: F := hL ▸ List.mem_append_left _ ha
  obtain ⟨A₁, A₂, rfl⟩ := List.append_of_mem ha
  have hax : Clear a.start x.start :=
    h.node_clear (A := A₁) (B := A₂ ++ x :: B) (by simp [hL]) (by simp)
  exact (hsame₁ (h.live_clear haL hb).symm).trans (same_joinAt hax.symm)

lemma free_eq_some (hlt : b.start < 2 ^ 32) (hs : free fuel (b.start + HEADER) s = some s') :
    ∃ p, search s.mem b.start fuel s.freep = some p ∧
      s' = { s with
        mem := linkPrev (linkNext s.mem p b.start) p b.start
        freep := p } := by
  have hbp : wrap (b.start + HEADER + 2 ^ 32 - HEADER) = b.start := by
    rw [Nat.add_right_comm, Nat.add_sub_cancel, wrap, Nat.add_mod_right, Nat.mod_eq_of_lt hlt]
  rw [free, hbp] at hs
  obtain ⟨p, hp, rfl⟩ := Option.map_eq_some_iff.mp hs
  exact ⟨p, hp, rfl⟩

/-- `free` takes a block out of those handed out and inserts it into the free list. -/
lemma Ok.free (h : Ok base s F) (hb : b ∈ s.live)
    (hs : free fuel (b.start + HEADER) s = some s') :
    Ok base { s' with live := s.live.erase b } (b.insert F) := by
  have hbb := h.bounds (Or.inr hb)
  have hbpos := (h.live b hb).1
  have hbase : base < b.start := by simp only [HEADER] at hbb; omega
  have hbstop : b.stop < 2 ^ 32 := Nat.lt_of_le_of_lt hbb.2.2 h.brk_lt
  obtain ⟨p, hp, rfl⟩ := free_eq_some (by simp only [stop] at hbstop; omega) hs
  obtain ⟨hon, hstops⟩ := search_some (P := OnList base F) (fun _ => h.onList_ptr) h.freep hp
  obtain ⟨A, x, B, hL, rfl, hx, hB⟩ := h.stops_split hon hbase hstops
  have hperm := List.perm_cons_erase hb
  have hpw : (b :: s.live.erase b).Pairwise Extent.Disjoint :=
    hperm.pairwise h.live_disjoint fun {_ _} hab => hab.symm
  obtain ⟨hb_erase, hpw⟩ := List.pairwise_cons.mp hpw
  have hmem : ∀ c ∈ s.live.erase b, c ∈ s.live := fun c hc => List.mem_of_mem_erase hc
  have hapart : ∀ y ∈ baseBlock base :: F, b.Apart y := by
    intro y hy
    rcases List.mem_cons.mp hy with rfl | hy
    · exact Or.inr (Nat.le_of_lt hbase)
    · exact (h.free_disjoint y hy b hb).symm.apart hbpos (h.pos y hy)
  have hxL : x ∈ baseBlock base :: F := hL ▸ List.mem_append_right _ (List.mem_cons_self ..)
  have hbx := (h.live_clear hxL hb).symm
  have hcover : ∀ i, Covers (s.live.erase b) i → Covers s.live i := by
    rintro i ⟨c, hc, hi⟩
    exact ⟨c, hmem c hc, hi⟩
  have hnodes := h.nodes_insert hb hL hx hB
  have hsame : ∀ c ∈ s.live.erase b,
      Same s.mem (linkPrev (linkNext s.mem x.start b.start) x.start b.start) c.start := by
    intro c hc
    rw [linkNext_eq hbx, linkPrev_eq]
    exact (same_joinAt (h.clear (Or.inr hb) (Or.inr (hmem c hc)) (hb_erase c hc))).trans
      (same_joinAt (h.live_clear hxL (hmem c hc)))
  generalize linkPrev (linkNext s.mem x.start b.start) x.start b.start = m' at hnodes hsame ⊢
  constructor
  · exact hnodes
  · rw [← h.insert_base hbase]
    exact separated_insert hbpos h.separated hapart
  · -- the block that `freep` names is still on the list, perhaps longer
    have hsep := h.separated
    have hins := h.insert_base hbase
    rw [hL] at hsep hins
    have hbB : ∀ y ∈ B, b.start < y.start := fun y hy => by
      have hle := hB y hy
      have hc := h.free_clear (mem_free_of_split hL hy) hb
      simp only [Clear, HEADER] at hc
      omega
    rw [insert_eq hsep hx hbB] at hins
    rw [← hins]
    cases hj : join x (join b B) with
    | nil =>
      have := total_join (x := x) (L := join b B)
      rw [hj, total_nil, total_join] at this
      omega
    | cons z T =>
      refine ⟨z, List.mem_append_right _ (List.mem_cons_self ..), ?_⟩
      have := first_join (q := base) (x := x) (T := join b B)
      rwa [hj] at this
  · exact fun y hy => pos_of_mem_insert hbpos h.pos hy
  · intro c hc
    obtain ⟨hpos, hsz⟩ := h.live c (hmem c hc)
    exact ⟨hpos, (hsame c hc).len hsz⟩
  · exact hpw
  · intro a ha c hc i hai hci
    rcases covers_insert.mp ⟨a, ha, hai⟩ with hi | ⟨y, hy, hi⟩
    · exact hb_erase c hc i hi hci
    · exact h.free_disjoint y hy c (hmem c hc) i hi hci
  · rintro i (hi | hi)
    · rcases covers_insert.mp hi with hi | hi
      · exact h.inside i (Or.inr ⟨b, hb, hi⟩)
      · exact h.inside i (Or.inl hi)
    · exact h.inside i (Or.inr (hcover i hi))
  · have hsum : Extent.total s.live = b.len + Extent.total (s.live.erase b) := by
      rw [Extent.total, (hperm.map Extent.len).sum_eq, List.map_cons, List.sum_cons, Extent.total]
    have htotal := h.total
    simp only [total_insert]
    omega
  · exact h.chunks
  · exact h.base_pos
  · exact h.brk_le
  · exact h.brk_lt

/-- `free` returns. -/
lemma Ok.free_terminates (h : Ok base s F) (hb : b ∈ s.live) :
    ∃ fuel s', Malloc.free fuel (b.start + HEADER) s = some s' := by
  have hbb := h.bounds (Or.inr hb)
  have hlt := h.brk_lt
  obtain ⟨x, R, hx, hmem, hnodes, -⟩ := h.enter h.freep
  obtain ⟨y, hy, hstops⟩ := h.exists_stops
    (show base < b.start by simp only [HEADER] at hbb; omega)
    fun z hz => by
      have hc := h.free_clear hz hb
      simp only [Clear, HEADER] at hc
      omega
  obtain ⟨p, hp⟩ := search_terminates hnodes ⟨y, (hmem y).mpr hy, hstops⟩
  have hbp : wrap (b.start + HEADER + 2 ^ 32 - HEADER) = b.start := by
    simp only [wrap, stop, HEADER] at *
    omega
  rw [first, hx] at hp
  refine ⟨(x :: R).length, ?_⟩
  rw [Malloc.free, hbp, hp]
  exact ⟨_, rfl⟩

lemma free_mono {ap k : Nat} (h : free fuel ap s = some s') : free (fuel + k) ap s = some s' := by
  obtain ⟨p, hp, rfl⟩ := Option.map_eq_some_iff.mp h
  rw [free, search_mono hp]
  rfl

/-! ### Handing out a block -/

/-- The block `y` of the free list is cut into `z`, which is handed out, and the rest `Y`. -/
lemma Ok.cut {G Y : List Extent} {z : Extent} (h : Ok base s F) (hF : F = G ++ y :: B)
    (hnodes : Nodes m' (baseBlock base :: (G ++ Y ++ B)) base)
    (hsep : Separated (baseBlock base :: (G ++ Y ++ B))) (hp : OnList base (G ++ Y ++ B) p)
    (hz : 0 < z.len ∧ HEADER * size m' z.start = z.len) (hY : ∀ a ∈ Y, 0 < a.len ∧ a.Disjoint z)
    (hcover : ∀ i, z.Has i ∨ Covers Y i → y.Has i) (htotal : Extent.total Y + z.len = y.len)
    (hlive : ∀ c ∈ s.live, Same s.mem m' c.start) :
    Ok base { s with mem := m', freep := p, live := z :: s.live } (G ++ Y ++ B) := by
  have hyF : y ∈ F := hF ▸ List.mem_append_right _ (List.mem_cons_self ..)
  have hsepF := (List.pairwise_cons.mp h.separated).2
  rw [hF] at hsepF
  obtain ⟨-, hyB, hGy⟩ := List.pairwise_append.mp hsepF
  have hmem : ∀ a ∈ G ++ Y ++ B, a ∈ Y ∨ a ∈ F ∧ a.Disjoint y := by
    intro a ha
    rcases List.mem_append.mp ha with ha | ha
    · rcases List.mem_append.mp ha with ha | ha
      · exact Or.inr ⟨hF ▸ List.mem_append_left _ ha, Apart.disjoint
          (Or.inl (Nat.le_of_lt (hGy a ha y (List.mem_cons_self ..))))⟩
      · exact Or.inl ha
    · exact Or.inr ⟨hF ▸ List.mem_append_right _ (List.mem_cons_of_mem _ ha), Apart.disjoint
        (Or.inr (Nat.le_of_lt (List.rel_of_pairwise_cons hyB ha)))⟩
  have hzy : ∀ i, z.Has i → y.Has i := fun i hi => hcover i (Or.inl hi)
  constructor
  · exact hnodes
  · exact hsep
  · exact hp
  · intro a ha
    rcases hmem a ha with ha | ha
    · exact (hY a ha).1
    · exact h.pos a ha.1
  · intro c hc
    rcases List.mem_cons.mp hc with rfl | hc
    · exact hz
    · obtain ⟨hpos, hsz⟩ := h.live c hc
      exact ⟨hpos, (hlive c hc).len hsz⟩
  · refine List.pairwise_cons.mpr ⟨fun c hc i hi hci => ?_, h.live_disjoint⟩
    exact h.free_disjoint y hyF c hc i (hzy i hi) hci
  · intro a ha c hc
    rcases List.mem_cons.mp hc with rfl | hc
    · rcases hmem a ha with ha | ha
      · exact (hY a ha).2
      · exact fun i hi hci => ha.2 i hi (hzy i hci)
    · rcases hmem a ha with ha | ha
      · exact fun i hi hci => h.free_disjoint y hyF c hc i (hcover i (Or.inr ⟨a, ha, hi⟩)) hci
      · exact h.free_disjoint a ha.1 c hc
  · intro i hi
    refine h.inside i ?_
    simp only [hF, covers_append, covers_cons] at hi ⊢
    rcases hi with ((hi | hi) | hi) | hi | hi
    · exact Or.inl (Or.inl hi)
    · exact Or.inl (Or.inr (Or.inl (hcover i (Or.inr hi))))
    · exact Or.inl (Or.inr (Or.inr hi))
    · exact Or.inl (Or.inr (Or.inl (hzy i hi)))
    · exact Or.inr hi
  · have ht := h.total
    simp only [hF, total_append, total_cons] at ht ⊢
    omega
  · exact h.chunks
  · exact h.base_pos
  · exact h.brk_le
  · exact h.brk_lt

/-- The blocks in front of `y` and behind it: `x` points to `y`. -/
structure Behind (base : Nat) (F A : List Extent) (x : Extent) (G : List Extent) (y : Extent)
    (B : List Extent) : Prop where
  list : baseBlock base :: F = A ++ x :: y :: B
  front : A ++ [x] = baseBlock base :: G
  free : F = G ++ y :: B

section Behind

variable {G : List Extent}

lemma Behind.cons (hy : Behind base F A x G y B) (T : List Extent) :
    A ++ x :: T = baseBlock base :: (G ++ T) := by
  rw [← List.cons_append, ← hy.front, List.append_assoc, List.singleton_append]

lemma Behind.mem (hy : Behind base F A x G y B) : y ∈ F :=
  hy.free ▸ List.mem_append_right _ (List.mem_cons_self ..)

lemma Behind.prev_mem (hy : Behind base F A x G y B) : x ∈ baseBlock base :: F :=
  hy.list ▸ List.mem_append_right _ (List.mem_cons_self ..)

/-- The other headers of the list lie apart from that of `x`. -/
lemma Ok.clear_prev (h : Ok base s F) (hy : Behind base F A x G y B) {a : Extent}
    (ha : a ∈ A ++ y :: B) : Clear x.start a.start := by
  rcases List.mem_append.mp ha with ha | ha
  · obtain ⟨A₁, A₂, rfl⟩ := List.append_of_mem ha
    exact (h.node_clear (A := A₁) (B := A₂ ++ x :: y :: B) (by simp [hy.list]) (by simp)).symm
  · exact h.node_clear hy.list ha

/-- The headers of the other blocks lie apart from a header inside `y`. -/
lemma Ok.clear_inside (h : Ok base s F) (hy : Behind base F A x G y B)
    (hp : y.start ≤ p ∧ p + HEADER ≤ y.stop) {a : Extent} (ha : a ∈ A ++ x :: B ∨ a ∈ s.live) :
    Clear p a.start := by
  have hyb := h.bounds (Or.inl hy.mem)
  have hdisj : a ∈ F ∨ a ∈ s.live → a.Disjoint y → Clear p a.start := by
    intro ha hay
    have hab := h.bounds ha
    have hapart := hay.apart (by unfold HEADER at hab; omega) (by unfold HEADER at hyb; omega)
    simp only [Clear, Apart, stop, HEADER] at *
    omega
  rcases ha with ha | ha
  · rw [hy.cons] at ha
    rcases List.mem_cons.mp ha with rfl | ha
    · simp only [Clear, HEADER] at *
      omega
    · have hsep := (List.pairwise_cons.mp h.separated).2
      rw [hy.free] at hsep
      obtain ⟨-, hyB, hGy⟩ := List.pairwise_append.mp hsep
      have hF := hy.free
      rcases List.mem_append.mp ha with ha | ha
      · exact hdisj (Or.inl (hF ▸ List.mem_append_left _ ha)) (Apart.disjoint
          (Or.inl (Nat.le_of_lt (hGy a ha y (List.mem_cons_self ..)))))
      · exact hdisj (Or.inl (hF ▸ List.mem_append_right _ (List.mem_cons_of_mem _ ha)))
          (Apart.disjoint (Or.inr (Nat.le_of_lt (List.rel_of_pairwise_cons hyB ha))))
  · exact hdisj (Or.inr ha) (h.free_disjoint y hy.mem a ha).symm

/-- The parts of the circle around `y`. -/
lemma Ok.nodes_behind (h : Ok base s F) (hy : Behind base F A x G y B) :
    Nodes s.mem A x.start ∧ (HEADER * size s.mem x.start = x.len ∧ ptr s.mem x.start = y.start) ∧
      (HEADER * size s.mem y.start = y.len ∧ ptr s.mem y.start = first base B) ∧
      Nodes s.mem B base := by
  have hnodes := h.nodes
  rw [hy.list] at hnodes
  obtain ⟨hA, hxsz, hxptr, hysz, hyptr, hB⟩ := nodes_append.mp hnodes
  exact ⟨hA, ⟨hxsz, hxptr⟩, ⟨hysz, hyptr⟩, hB⟩

/-- A block large enough for `nunits` is not `base`, so there is a block in front of it. -/
lemma Ok.behind {prevp : Nat} (h : Ok base s F) (hprev : OnList base F prevp)
    (hp : ptr s.mem prevp = p) (hn : 0 < nunits) (hfit : nunits ≤ size s.mem p) :
    ∃ A x G y B, Behind base F A x G y B ∧ x.start = prevp ∧ y.start = p := by
  obtain ⟨x, hx, rfl⟩ := hprev
  obtain ⟨A, T, hL, hptr, -⟩ := h.nodes.split hx
  rw [hp] at hptr
  cases T with
  | nil =>
    -- the block behind the last one is `base`, of size 0
    have hbase := h.nodes.1
    obtain rfl : p = base := hptr
    simp only [HEADER] at hbase
    omega
  | cons y B =>
    obtain rfl : p = y.start := hptr
    cases A with
    | nil =>
      obtain ⟨rfl, rfl⟩ := List.cons.inj hL
      exact ⟨[], _, [], y, B, ⟨rfl, rfl, rfl⟩, rfl, rfl⟩
    | cons a A =>
      obtain ⟨rfl, rfl⟩ := List.cons.inj hL
      exact ⟨baseBlock base :: A, x, A ++ [x], y, B, ⟨rfl, rfl, by simp⟩, rfl, rfl⟩

/-- The state after `malloc` has taken the block at `p`, with the blocks then handed out. -/
def Taken (base nunits : Nat) (r : Nat) (s : State) : Prop :=
  HEADER < r ∧ size s.mem (r - HEADER) = nunits ∧ ∃ F, Ok base (s.handOut r) F

lemma plus_one (h : p + HEADER < 2 ^ 32) : plus p 1 = p + HEADER := by
  rw [plus, Nat.mul_one, wrap_of_lt h]

/-- The whole block `y` is taken off the list. -/
lemma Ok.take_all (h : Ok base s F) (hy : Behind base F A x G y B)
    (heq : size s.mem y.start = nunits) :
    Taken base nunits (take nunits x.start y.start s).1 (take nunits x.start y.start s).2 := by
  have hyb := h.bounds (Or.inl hy.mem)
  have hlt := h.brk_lt
  obtain ⟨hA, ⟨hxsz, -⟩, ⟨hysz, hyptr⟩, hB⟩ := h.nodes_behind hy
  have hxy : Clear x.start y.start := h.clear_prev hy (by simp)
  have hsz : size (setPtr s.mem x.start (ptr s.mem y.start)) y.start = nunits :=
    (same_setPtr hxy).2.trans heq
  have hlen : HEADER * nunits = y.len := by rw [← heq, hysz]
  rw [take, if_pos heq, plus_one (by simp only [stop, HEADER] at *; omega)]
  refine ⟨by simp only [HEADER] at *; omega, by rwa [Nat.add_sub_cancel], G ++ [] ++ B, ?_⟩
  rw [State.handOut, if_neg (by simp only [HEADER]; omega)]
  dsimp only
  rw [Nat.add_sub_cancel, hsz, hlen]
  refine h.cut hy.free ?_ ?_ ?_ ⟨h.pos y hy.mem, by rw [hsz, hlen]⟩ (by simp) (by simp) (by simp)
    fun c hc => same_setPtr (h.live_clear hy.prev_mem hc)
  · rw [List.append_nil, ← hy.cons]
    refine nodes_append.mpr
      ⟨hA.congr fun a ha => same_setPtr (h.clear_prev hy (by simp [ha])), ?_, ?_, ?_⟩
    · rw [size_setPtr_self, hxsz]
    · rw [ptr_setPtr_self (ptr_lt _ _), hyptr]
    · exact hB.congr fun a ha => same_setPtr (h.clear_prev hy (by simp [ha]))
  · have hsep := h.separated
    rw [hy.list] at hsep
    rw [List.append_nil, ← hy.cons]
    exact List.Pairwise.sublist (by simp) hsep
  · exact ⟨x, by rw [List.append_nil, ← hy.cons]; simp, rfl⟩

/-- The end of the block `y` is handed out and the rest stays on the list. -/
lemma Ok.take_tail (h : Ok base s F) (hy : Behind base F A x G y B) (hn : 0 < nunits)
    (hlt : nunits < size s.mem y.start) :
    Taken base nunits (take nunits x.start y.start s).1 (take nunits x.start y.start s).2 := by
  have hyb := h.bounds (Or.inl hy.mem)
  have hbrk := h.brk_lt
  obtain ⟨hA, ⟨hxsz, hxptr⟩, ⟨hysz, hyptr⟩, hB⟩ := h.nodes_behind hy
  obtain ⟨u, hu⟩ : ∃ u, size s.mem y.start - nunits = u := ⟨_, rfl⟩
  have hsize := size_lt s.mem y.start
  have hulen : HEADER * u + HEADER * nunits = y.len := by
    rw [← Nat.mul_add, ← hysz, ← hu, Nat.sub_add_cancel (Nat.le_of_lt hlt)]
  have hu0 : 0 < u := by omega
  have hsz₁ : size (setSize s.mem y.start u) y.start = u := size_setSize_self (by omega)
  have hstart : plus y.start u = y.start + HEADER * u :=
    wrap_of_lt (by simp only [stop, HEADER] at *; omega)
  obtain ⟨z, hz⟩ : ∃ z, y.start + HEADER * u = z := ⟨_, rfl⟩
  have hzy : y.start ≤ z ∧ z + HEADER ≤ y.stop := by
    simp only [stop, HEADER] at *
    omega
  have hyy : y.start ≤ y.start ∧ y.start + HEADER ≤ y.stop := by
    simp only [stop, HEADER] at *
    omega
  obtain ⟨m, hm⟩ : ∃ m, setSize (setSize s.mem y.start u) z nunits = m := ⟨_, rfl⟩
  have hother : ∀ a, a ∈ A ++ x :: B ∨ a ∈ s.live → Same s.mem m a.start := fun a ha =>
    hm ▸ (same_setSize (h.clear_inside hy hyy ha)).trans
      (same_setSize (h.clear_inside hy hzy ha))
  have hsz₂ : size m z = nunits := by
    rw [← hm]
    exact size_setSize_self (by omega)
  have hsy : Same (setSize s.mem y.start u) m y.start := by
    rw [← hm]
    refine same_setSize ?_
    simp only [Clear, HEADER] at *
    omega
  have htake : take nunits x.start y.start s =
      (z + HEADER, { s with mem := m, freep := x.start }) := by
    rw [take, if_neg (Nat.ne_of_gt hlt), hu]
    dsimp only
    rw [hsz₁, hstart, hz, hm, plus_one (by simp only [stop, HEADER] at *; omega)]
  rw [htake]
  refine ⟨by simp only [HEADER] at *; omega, by rwa [Nat.add_sub_cancel],
    G ++ [⟨y.start, HEADER * u⟩] ++ B, ?_⟩
  rw [State.handOut, if_neg (by simp only [HEADER]; omega)]
  dsimp only
  rw [Nat.add_sub_cancel, hsz₂]
  refine h.cut hy.free ?_ ?_ ?_ ⟨Nat.mul_pos (by decide) hn, by rw [hsz₂]⟩ ?_ ?_ ?_
    fun c hc => hother c (Or.inr hc)
  · rw [List.append_assoc, ← hy.cons]
    obtain ⟨hsx, hsx'⟩ := hother x (Or.inl (by simp))
    refine nodes_append.mpr
      ⟨hA.congr fun a ha => hother a (Or.inl (by simp [ha])), ?_, ?_, ?_, ?_, ?_⟩
    · rw [hsx', hxsz]
    · rw [hsx, hxptr]
      rfl
    · rw [hsy.2, hsz₁]
    · rw [hsy.1, ptr_setSize_self, hyptr]
      rfl
    · exact hB.congr fun a ha => hother a (Or.inl (by simp [ha]))
  · have hsep := h.separated
    rw [hy.list] at hsep
    rw [List.append_assoc, ← hy.cons]
    have hshrink := Separated.shrink (A := A ++ [x]) (x := y) (B := B) (n := HEADER * u)
      (by simpa using hsep) (by omega)
    simpa using hshrink
  · exact ⟨x, by rw [List.append_assoc, ← hy.cons]; simp, rfl⟩
  · simp only [List.mem_singleton, forall_eq]
    refine ⟨Nat.mul_pos (by decide) hu0, Apart.disjoint (Or.inl ?_)⟩
    simp only [stop]
    omega
  · simp only [covers_cons, covers_nil, or_false, Has, stop]
    omega
  · simp only [total_cons, total_nil]
    omega

end Behind

/-- `malloc` takes a block that is large enough. -/
lemma Ok.take {prevp : Nat} (h : Ok base s F) (hprev : OnList base F prevp)
    (hp : ptr s.mem prevp = p) (hn : 0 < nunits) (hfit : nunits ≤ size s.mem p) :
    Taken base nunits (take nunits prevp p s).1 (take nunits prevp p s).2 := by
  obtain ⟨A, x, G, y, B, hy, rfl, rfl⟩ := h.behind hprev hp hn hfit
  by_cases heq : size s.mem y.start = nunits
  · exact h.take_all hy heq
  · exact h.take_tail hy hn (by omega)

/-! ### Morecore -/

/-- The kernel gives a chunk of memory; counted as a block handed out, it keeps the heap in order. -/
lemma Ok.grow {nu : Nat} (h : Ok base s F) (hnu : 0 < nu) (hp : s.brk ≤ p)
    (hlt : p + HEADER * nu < 2 ^ 32) :
    Ok base
      { s with
        mem := setSize s.mem p nu
        brk := p + HEADER * nu
        chunks := ⟨p, HEADER * nu⟩ :: s.chunks
        live := ⟨p, HEADER * nu⟩ :: s.live } F := by
  have hnu' : 0 < HEADER * nu := Nat.mul_pos (by decide) hnu
  have hsz : size (setSize s.mem p nu) p = nu :=
    size_setSize_self (by simp only [HEADER] at hlt; omega)
  have hclear : ∀ b, b ∈ baseBlock base :: F ∨ b ∈ s.live → Clear p b.start := by
    intro b hb
    have hle : b.start + HEADER ≤ s.brk := by
      rcases hb with hb | hb
      · rcases List.mem_cons.mp hb with rfl | hb
        · exact h.brk_le
        · have := h.bounds (Or.inl hb)
          simp only [stop] at this
          omega
      · have := h.bounds (Or.inr hb)
        simp only [stop] at this
        omega
    exact Or.inr (Nat.le_trans hle hp)
  have hlow : ∀ b, b ∈ F ∨ b ∈ s.live → b.Disjoint ⟨p, HEADER * nu⟩ := by
    intro b hb
    refine Apart.disjoint (Or.inl ?_)
    exact Nat.le_trans (h.bounds hb).2.2 hp
  constructor
  · exact h.nodes.congr fun b hb => same_setSize (hclear b (Or.inl hb))
  · exact h.separated
  · exact h.freep
  · exact h.pos
  · intro b hb
    rcases List.mem_cons.mp hb with rfl | hb
    · exact ⟨hnu', congrArg (HEADER * ·) hsz⟩
    · obtain ⟨hpos, hbsz⟩ := h.live b hb
      exact ⟨hpos, (same_setSize (hclear b (Or.inr hb))).len hbsz⟩
  · exact List.pairwise_cons.mpr ⟨fun b hb => (hlow b (Or.inr hb)).symm, h.live_disjoint⟩
  · intro a ha b hb
    rcases List.mem_cons.mp hb with rfl | hb
    · exact hlow a (Or.inl ha)
    · exact h.free_disjoint a ha b hb
  · intro i hi
    simp only [covers_cons] at hi ⊢
    rcases hi with hi | hi | hi
    · exact Or.inr (h.inside i (Or.inl hi))
    · exact Or.inl hi
    · exact Or.inr (h.inside i (Or.inr hi))
  · have ht := h.total
    simp only [total_cons]
    omega
  · intro c hc
    rcases List.mem_cons.mp hc with rfl | hc
    · exact ⟨Nat.le_trans h.brk_le hp, Nat.le_refl _⟩
    · obtain ⟨hlo, hhi⟩ := h.chunks c hc
      exact ⟨hlo, by dsimp only; omega⟩
  · exact h.base_pos
  · have := h.brk_le
    dsimp only
    omega
  · exact hlt

/-- `free` does not look at the record of the blocks handed out. -/
lemma free_live {ap : Nat} (l : List Extent) : free fuel ap { s with live := l } =
    (free fuel ap s).map fun s' => { s' with live := l } := by
  simp only [free, Option.map_map]
  rfl

lemma Ok.freep_ne_zero (h : Ok base s F) : s.freep ≠ 0 := by
  obtain ⟨b, hb, hfreep⟩ := h.freep
  have := h.base_le hb
  have := h.base_pos
  omega

lemma moreUnits_bounds (hn : nunits < 2 ^ 28) :
    nunits ≤ moreUnits nunits ∧ 0 < moreUnits nunits ∧ moreUnits nunits < 2 ^ 28 := by
  unfold moreUnits
  split <;> omega

lemma wrap_moreUnits (hn : nunits < 2 ^ 28) :
    wrap (moreUnits nunits * HEADER) = HEADER * moreUnits nunits := by
  have := moreUnits_bounds hn
  rw [Nat.mul_comm]
  exact wrap_of_lt (by simp only [HEADER]; omega)

lemma sbrk_eq_some {k : Nat} {answer : Option Nat} (h : sbrk k answer s = some s') :
    s.MayAnswer k answer ∧ (answer = none → s' = s) := by
  unfold sbrk at h
  split at h
  case isTrue hk =>
    refine ⟨hk.2.2, fun hnone => ?_⟩
    subst hnone
    exact (Option.some.inj h).symm
  case isFalse => exact absurd h (by simp)

/-- `morecore` returns only what `sbrk` may answer. -/
lemma morecore_eq_some {answer : Option Nat} (hs : morecore fuel nunits answer s = some (p, s')) :
    s.MayAnswer (wrap (moreUnits nunits * HEADER)) answer ∧ (answer = none → p = 0 ∧ s' = s) := by
  unfold morecore at hs
  dsimp only at hs
  split at hs
  · exact absurd hs (by simp)
  · rename_i hsbrk
    obtain ⟨hmay, heq⟩ := sbrk_eq_some hsbrk
    cases hs
    exact ⟨hmay, fun _ => ⟨rfl, heq rfl⟩⟩
  · rename_i hsbrk
    exact ⟨(sbrk_eq_some hsbrk).1, fun hnone => absurd hnone (by simp)⟩

lemma morecore_mono {answer : Option Nat} {k : Nat} {x : Nat × State}
    (h : morecore fuel nunits answer s = some x) :
    morecore (fuel + k) nunits answer s = some x := by
  unfold morecore at h ⊢
  dsimp only at h ⊢
  split at h
  · exact absurd h (by simp)
  · exact h
  · obtain ⟨s₁, hfree, hx⟩ := Option.map_eq_some_iff.mp h
    rw [free_mono hfree, ← hx]
    rfl

/-- The state in which `morecore` calls `free`, with the new chunk counted as handed out. -/
lemma Ok.morecore_free (h : Ok base s F) (hn : nunits < 2 ^ 28)
    (hp : s.MayAnswer (HEADER * moreUnits nunits) (some p)) :
    ∃ s₁ : State, Ok base { s₁ with live := ⟨p, HEADER * moreUnits nunits⟩ :: s₁.live } F ∧
      ∀ fuel, morecore fuel nunits (some p) s =
        (Malloc.free fuel (p + HEADER) s₁).map fun s => (s.freep, s) := by
  obtain ⟨hnu, hpos, hle⟩ := moreUnits_bounds hn
  obtain ⟨hbrk, hlt⟩ := hp p rfl
  refine ⟨{ s with
    mem := setSize s.mem p (moreUnits nunits)
    brk := p + HEADER * moreUnits nunits
    chunks := ⟨p, HEADER * moreUnits nunits⟩ :: s.chunks }, h.grow hpos hbrk hlt, fun fuel => ?_⟩
  have hsbrk : sbrk (wrap (moreUnits nunits * HEADER)) (some p) s = some
      { s with
        brk := p + HEADER * moreUnits nunits
        chunks := ⟨p, HEADER * moreUnits nunits⟩ :: s.chunks } := by
    have hint : HEADER * moreUnits nunits < 2 ^ 31 := by
      simp only [HEADER]
      omega
    rw [wrap_moreUnits hn, sbrk, if_pos ⟨Nat.mul_pos (by decide) hpos, hint, hp⟩]
  unfold Malloc.morecore
  dsimp only
  rw [hsbrk]
  dsimp only
  rw [plus_one (by simp only [HEADER] at *; omega)]

/-- `morecore` puts a block on the list that is large enough, unless the kernel has no memory. -/
lemma Ok.morecore {answer : Option Nat} (h : Ok base s F) (hn : nunits < 2 ^ 28)
    (hs : morecore fuel nunits answer s = some (p, s')) :
    answer = none ∧ p = 0 ∧ s' = s ∨
      answer ≠ none ∧ p = s'.freep ∧ ∃ F', Ok base s' F' ∧ ∃ b ∈ F', HEADER * nunits ≤ b.len := by
  obtain ⟨hmay, hnone⟩ := morecore_eq_some hs
  rw [wrap_moreUnits hn] at hmay
  cases answer with
  | none => exact Or.inl ⟨rfl, (hnone rfl).1, (hnone rfl).2⟩
  | some hp =>
    right
    obtain ⟨s₁, h₁, heq⟩ := h.morecore_free hn hmay
    rw [heq] at hs
    obtain ⟨s₂, hfree, hs₂⟩ := Option.map_eq_some_iff.mp hs
    obtain ⟨rfl, rfl⟩ := Prod.mk.inj hs₂
    have hfree' : Malloc.free fuel (hp + HEADER)
        { s₁ with live := ⟨hp, HEADER * moreUnits nunits⟩ :: s₁.live } =
          some { s₂ with live := ⟨hp, HEADER * moreUnits nunits⟩ :: s₁.live } := by
      rw [free_live, hfree]
      rfl
    have hok := h₁.free (b := ⟨hp, HEADER * moreUnits nunits⟩) (List.mem_cons_self ..) hfree'
    have hlive : s₂.live = s₁.live := by
      obtain ⟨p, -, rfl⟩ := Option.map_eq_some_iff.mp hfree
      rfl
    rw [List.erase_cons_head, ← hlive] at hok
    obtain ⟨b, hb, hle⟩ := exists_len_le_insert ⟨hp, HEADER * moreUnits nunits⟩ F
    refine ⟨by simp, rfl, _, hok, b, hb, ?_⟩
    exact Nat.le_trans (Nat.mul_le_mul_left _ (moreUnits_bounds hn).1) hle

end Malloc

end Xv6
