import Mathlib.Data.List.Pairwise
import Xv6.User.Heap

/-!
# Programs that use the heap

`malloc` walks round the free list once. If no block is large enough it comes back to `freep` and
asks for more memory, after which there is one, so the second round is the last. The invariant then
holds after every call of `malloc` and `free`, and after every write of the program to the bytes it
was given.
-/

namespace Xv6

namespace Malloc

open Words TransitionSystem Extent

variable {base bp fuel nbytes nunits p prevp q r v : Nat} {m m' : Memory} {s s' : State}
  {answer : Option Nat} {F L A B R T : List Extent} {b x y : Extent}

/-! ### Malloc -/

lemma mallocLoop_succ {answers : Option (Option Nat)} :
    mallocLoop nunits (fuel + 1) answers prevp p s =
      if nunits ≤ size s.mem p then some (take nunits prevp p s)
      else if p = s.freep then
        match answers with
        | none => none
        | some answer =>
          match morecore fuel nunits answer s with
          | none => none
          | some (p, s) =>
            if p = 0 then some (0, s) else mallocLoop nunits fuel none p (ptr s.mem p) s
      else mallocLoop nunits fuel answers p (ptr s.mem p) s := by
  cases answers <;> rfl

/-- What a call of `malloc` leaves: a block handed out, or nothing if the kernel has no memory. -/
lemma mallocLoop_ok {answers : Option (Option Nat)} (h : Ok base s F)
    (hprev : OnList base F prevp) (hp : ptr s.mem prevp = p) (hn : 0 < nunits)
    (hle : nunits < 2 ^ 28)
    (hs : mallocLoop nunits fuel answers prevp p s = some (r, s')) :
    Taken base nunits r s' ∨ r = 0 ∧ answers = some none ∧ ∃ F', Ok base s' F' := by
  induction fuel generalizing s F answers prevp p with
  | zero => simp [mallocLoop] at hs
  | succ fuel ih =>
    rw [mallocLoop_succ] at hs
    split at hs
    case isTrue hfit =>
      have htaken := h.take hprev hp hn hfit
      rw [Option.some.inj hs] at htaken
      exact Or.inl htaken
    case isFalse =>
      split at hs
      case isTrue hfreep =>
        cases answers with
        | none => simp at hs
        | some answer =>
          dsimp only at hs
          split at hs
          · exact absurd hs (by simp)
          · rename_i p₁ s₁ hmore
            rcases h.morecore hle hmore with ⟨rfl, rfl, rfl⟩ | ⟨hans, rfl, F₁, h₁, -⟩
            · rw [if_pos rfl] at hs
              cases hs
              exact Or.inr ⟨rfl, rfl, F, h⟩
            · rw [if_neg h₁.freep_ne_zero] at hs
              rcases ih h₁ h₁.freep rfl hs with h' | ⟨-, hnone, -⟩
              · exact Or.inl h'
              · exact absurd hnone (by simp)
      case isFalse => exact ih h (hp ▸ h.onList_ptr hprev) rfl hs

/-- The loop passes over blocks that are too small, up to `freep`. -/
lemma mallocLoop_skip (nunits : Nat) (hR : Nodes s.mem R q)
    (hsmall : ∀ b ∈ R, size s.mem b.start < nunits ∧ b.start ≠ s.freep) (prevp : Nat) :
    ∃ prevp', ∀ fuel answers, mallocLoop nunits (fuel + R.length) answers prevp (first q R) s =
      mallocLoop nunits fuel answers prevp' q s := by
  induction R generalizing prevp with
  | nil => exact ⟨prevp, fun _ _ => rfl⟩
  | cons b R ih =>
    obtain ⟨hsz, hne⟩ := hsmall b (List.mem_cons_self ..)
    obtain ⟨prevp', hrec⟩ := ih hR.2.2 (fun y hy => hsmall y (List.mem_cons_of_mem _ hy)) b.start
    refine ⟨prevp', fun fuel answers => ?_⟩
    rw [← hrec fuel answers, List.length_cons, ← Nat.add_assoc, mallocLoop_succ, first,
      if_neg (by omega), if_neg hne, hR.2.1]

/-- With a block that is large enough the loop ends before it asks for memory. -/
lemma Ok.mallocLoop_fit (h : Ok base s F)
    (hfit : ∃ b ∈ baseBlock base :: F, nunits ≤ size s.mem b.start) :
    ∃ fuel, ∀ answers,
      (mallocLoop nunits fuel answers s.freep (ptr s.mem s.freep) s).isSome = true := by
  obtain ⟨x, R, hx, hmem, ⟨-, hptr, hR⟩, hxR⟩ := h.enter h.freep
  rw [hx] at hptr
  have hne : ∀ b ∈ R, b.start ≠ s.freep := by
    intro b hb hbx
    have hbL := (hmem b).mp (List.mem_cons_of_mem _ hb)
    have hxL := (hmem x).mp (List.mem_cons_self ..)
    obtain rfl := h.separated.inj hbL hxL (hbx.trans hx.symm)
    exact hxR hb
  have hstop : ∀ p prevp answers, nunits ≤ size s.mem p →
      (mallocLoop nunits 1 answers prevp p s).isSome = true := by
    intro p prevp answers hp
    rw [mallocLoop_succ, if_pos hp]
    rfl
  rw [hptr]
  cases hfind : R.find? fun b => nunits ≤ size s.mem b.start with
  | some y =>
    obtain ⟨hy, R₁, R₂, rfl, hsmall⟩ := List.find?_eq_some_iff_append.mp hfind
    obtain ⟨prevp', hskip⟩ := mallocLoop_skip nunits (nodes_append.mp hR).1
      (fun b hb => ⟨by simpa using hsmall b hb, hne b (List.mem_append_left _ hb)⟩) s.freep
    refine ⟨1 + R₁.length, fun answers => ?_⟩
    rw [first_append, hskip]
    exact hstop y.start _ _ (by simpa using hy)
  | none =>
    rw [List.find?_eq_none] at hfind
    obtain ⟨prevp', hskip⟩ := mallocLoop_skip nunits hR
      (fun b hb => ⟨by simpa using hfind b hb, hne b hb⟩) s.freep
    refine ⟨1 + R.length, fun answers => ?_⟩
    rw [hskip]
    obtain ⟨b, hb, hbfit⟩ := hfit
    rcases List.mem_cons.mp ((hmem b).mpr hb) with rfl | hb
    · exact hstop _ _ _ (hx ▸ hbfit)
    · exact absurd hbfit (by simpa using hfind b hb)

lemma mallocLoop_mono {answers : Option (Option Nat)} {k : Nat} {x : Nat × State}
    (h : mallocLoop nunits fuel answers prevp p s = some x) :
    mallocLoop nunits (fuel + k) answers prevp p s = some x := by
  induction fuel generalizing s answers prevp p with
  | zero => simp [mallocLoop] at h
  | succ fuel ih =>
    rw [mallocLoop_succ] at h
    rw [Nat.succ_add, mallocLoop_succ]
    split
    case isTrue hfit => rwa [if_pos hfit] at h
    case isFalse hfit =>
      rw [if_neg hfit] at h
      split
      case isTrue hp =>
        rw [if_pos hp] at h
        cases answers with
        | none => exact h
        | some answer =>
          dsimp only at h ⊢
          cases hmore : morecore fuel nunits answer s with
          | none => simp [hmore] at h
          | some y =>
            rw [morecore_mono hmore]
            rw [hmore] at h
            dsimp only at h ⊢
            split
            case isTrue h0 => rwa [if_pos h0] at h
            case isFalse h0 =>
              rw [if_neg h0] at h
              exact ih h
      case isFalse hp =>
        rw [if_neg hp] at h
        exact ih h

/-- The loop of `malloc` ends, whatever the kernel may answer. -/
lemma Ok.mallocLoop_terminates (h : Ok base s F) (hle : nunits < 2 ^ 28)
    (hans : s.MayAnswer (HEADER * moreUnits nunits) answer) :
    ∃ fuel x, mallocLoop nunits fuel (some answer) s.freep (ptr s.mem s.freep) s = some x := by
  by_cases hfit : ∃ b ∈ baseBlock base :: F, nunits ≤ size s.mem b.start
  · obtain ⟨fuel, hfuel⟩ := h.mallocLoop_fit hfit
    exact ⟨fuel, Option.isSome_iff_exists.mp (hfuel (some answer))⟩
  · -- the loop comes back to `freep` and calls `morecore`
    have hsmaller : ∀ b ∈ baseBlock base :: F, size s.mem b.start < nunits := fun b hb =>
      Nat.lt_of_not_le fun hle => hfit ⟨b, hb, hle⟩
    obtain ⟨x, R, hx, hmem, ⟨-, hptr, hR⟩, hxR⟩ := h.enter h.freep
    rw [hx] at hptr
    have hsmall : ∀ b ∈ R, size s.mem b.start < nunits ∧ b.start ≠ s.freep := by
      intro b hb
      have hbL := (hmem b).mp (List.mem_cons_of_mem _ hb)
      refine ⟨hsmaller b hbL, fun hbx => ?_⟩
      obtain rfl := h.separated.inj hbL ((hmem x).mp (List.mem_cons_self ..)) (hbx.trans hx.symm)
      exact hxR hb
    obtain ⟨prevp', hskip⟩ := mallocLoop_skip _ hR hsmall s.freep
    have hlast : size s.mem s.freep < nunits :=
      hx ▸ hsmaller x ((hmem x).mp (List.mem_cons_self ..))
    have hmore : ∀ fuel, mallocLoop nunits (fuel + 1 + R.length) (some answer) s.freep
        (ptr s.mem s.freep) s = match Malloc.morecore fuel nunits answer s with
          | none => none
          | some (p, s) =>
            if p = 0 then some (0, s) else mallocLoop nunits fuel none p (ptr s.mem p) s := by
      intro fuel
      rw [hptr, hskip, mallocLoop_succ, if_neg (by omega), if_pos rfl]
    cases answer with
    | none =>
      refine ⟨0 + 1 + R.length, (0, s), ?_⟩
      have hint : 0 < HEADER * moreUnits nunits ∧ HEADER * moreUnits nunits < 2 ^ 31 := by
        have := moreUnits_bounds hle
        simp only [HEADER]
        omega
      have hnone : Malloc.morecore 0 nunits none s = some (0, s) := by
        unfold Malloc.morecore
        dsimp only
        rw [wrap_moreUnits hle, sbrk, if_pos ⟨hint.1, hint.2, hans⟩]
      rw [hmore, hnone]
      rfl
    | some a =>
      obtain ⟨s₁, h₁, heq⟩ := h.morecore_free hle hans
      obtain ⟨f₁, s₂, hfree⟩ := h₁.free_terminates (b := ⟨a, HEADER * moreUnits nunits⟩)
        (List.mem_cons_self ..)
      rw [free_live] at hfree
      obtain ⟨s₃, hfree, -⟩ := Option.map_eq_some_iff.mp hfree
      have hcore : Malloc.morecore f₁ nunits (some a) s = some (s₃.freep, s₃) := by
        rw [heq, hfree]
        rfl
      rcases h.morecore hle hcore with ⟨hnone, -⟩ | ⟨-, -, F₃, h₃, b, hb, hlen⟩
      · exact absurd hnone (by simp)
      · have hbfit : nunits ≤ size s₃.mem b.start := by
          have hsz := h₃.free_size hb
          simp only [HEADER] at hsz hlen
          omega
        obtain ⟨f₂, hf₂⟩ := h₃.mallocLoop_fit ⟨b, List.mem_cons_of_mem _ hb, hbfit⟩
        obtain ⟨x, hx⟩ := Option.isSome_iff_exists.mp (hf₂ none)
        refine ⟨f₁ + f₂ + 1 + R.length, x, ?_⟩
        rw [hmore, morecore_mono hcore]
        dsimp only
        rw [if_neg h₃.freep_ne_zero, Nat.add_comm f₁ f₂]
        exact mallocLoop_mono hx

lemma unitsFor_bounds (h : nbytes < 2 ^ 31 - 15) :
    0 < unitsFor nbytes ∧ unitsFor nbytes < 2 ^ 28 ∧
      nbytes + HEADER ≤ HEADER * unitsFor nbytes := by
  have hwrap : wrap (nbytes + HEADER - 1) = nbytes + HEADER - 1 :=
    wrap_of_lt (by simp only [HEADER]; omega)
  rw [unitsFor, hwrap]
  simp only [HEADER]
  omega

/-! ### The invariant of a program -/

/-- Before the first call of `malloc` there is no list; afterwards the heap is in order. -/
def Inv (base : Nat) (s : State) : Prop := Initial base s ∨ ∃ F, Ok base s F

lemma Initial.start (h : Initial base s) : Ok base (start base s) [] := by
  have hlt : base < 2 ^ 32 := by
    have h₁ := h.brk_le
    have h₂ := h.brk_lt
    omega
  rw [Malloc.start, if_pos h.freep]
  constructor
  · refine ⟨?_, ?_, trivial⟩
    · rw [size_setSize_self (by decide)]
      rfl
    · rw [ptr_setSize_self, ptr_setPtr_self hlt]
      rfl
  · exact List.pairwise_singleton _ _
  · exact ⟨_, List.mem_cons_self .., rfl⟩
  · simp
  · simp [h.live]
  · simp [h.live]
  · simp
  · simp [h.live]
  · simp [h.live, h.chunks]
  · simp [h.chunks]
  · exact h.base_pos
  · exact h.brk_le
  · exact h.brk_lt

lemma Inv.start (h : Inv base s) : ∃ F, Ok base (start base s) F := by
  rcases h with h | ⟨F, h⟩
  · exact ⟨[], h.start⟩
  · rw [Malloc.start, if_neg h.freep_ne_zero]
    exact ⟨F, h⟩

lemma start_brk (base : Nat) (s : State) : (start base s).brk = s.brk := by
  unfold start
  split <;> rfl

/-- A call of `malloc`. -/
lemma Inv.malloc (h : Inv base s) (hn : nbytes < 2 ^ 31 - 15)
    (hs : malloc base fuel nbytes answer s = some (r, s')) :
    Taken base (unitsFor nbytes) r s' ∨ r = 0 ∧ answer = none ∧ ∃ F, Ok base s' F := by
  obtain ⟨F, h⟩ := h.start
  obtain ⟨hpos, hle, -⟩ := unitsFor_bounds hn
  have hloop := mallocLoop_ok h h.freep rfl hpos hle hs
  simpa only [Option.some.injEq] using hloop

lemma Inv.malloc_terminates (h : Inv base s) (hn : nbytes < 2 ^ 31 - 15)
    (hans : s.MayAnswer (HEADER * moreUnits (unitsFor nbytes)) answer) :
    ∃ fuel r s', Malloc.malloc base fuel nbytes answer s = some (r, s') := by
  obtain ⟨F, h⟩ := h.start
  have hans' : (Malloc.start base s).MayAnswer (HEADER * moreUnits (unitsFor nbytes)) answer :=
    fun p hp => start_brk base s ▸ hans p hp
  obtain ⟨fuel, ⟨r, s'⟩, hx⟩ := h.mallocLoop_terminates (unitsFor_bounds hn).2.1 hans'
  exact ⟨fuel, r, s', hx⟩

/-- The writes of the program miss all headers. -/
lemma Ok.write (h : Ok base s F) (hm : s.MayWrite base m) : Ok base { s with mem := m } F := by
  have hsame : ∀ p, (∀ i, p ≤ i → i < p + HEADER → m i = s.mem i) → Same s.mem m p := by
    intro p hp
    simp only [HEADER] at hp
    exact ⟨load_congr fun i h₁ h₂ => hp i h₁ (by omega),
      load_congr fun i h₁ h₂ => hp i (by omega) (by omega)⟩
  have hfree : ∀ b ∈ baseBlock base :: F, Same s.mem m b.start := by
    intro b hb
    refine hsame b.start fun i hi hi' => hm i ?_ ?_
    · rcases List.mem_cons.mp hb with rfl | hb
      · exact Or.inl ⟨hi, hi'⟩
      · have hbb := h.bounds (Or.inl hb)
        exact Or.inr (h.inside i (Or.inl ⟨b, hb, hi, by simp only [stop]; omega⟩))
    · rintro ⟨_, hmem, hci⟩
      obtain ⟨c, hc, rfl⟩ := List.mem_map.mp hmem
      have hcc := h.live_clear hb hc
      have hcb := h.bounds (Or.inr hc)
      rcases List.mem_cons.mp hb with rfl | hb
      · simp only [payload, Has, stop, HEADER] at *
        omega
      · have hbb := h.bounds (Or.inl hb)
        have hapart := (h.free_disjoint b hb c hc).apart (h.pos b hb) (h.live c hc).1
        simp only [payload, Has, Apart, stop, HEADER] at *
        omega
  have hlive : ∀ b ∈ s.live, Same s.mem m b.start := by
    intro b hb
    have hbb := h.bounds (Or.inr hb)
    refine hsame b.start fun i hi hi' => hm i ?_ ?_
    · exact Or.inr (h.inside i (Or.inr ⟨b, hb, hi, by simp only [stop]; omega⟩))
    · rintro ⟨_, hmem, hci⟩
      obtain ⟨c, hc, rfl⟩ := List.mem_map.mp hmem
      have hcb := h.bounds (Or.inr hc)
      by_cases hbc : b = c
      · subst hbc
        simp only [payload, Has, HEADER] at *
        omega
      · have hdisj : b.Disjoint c := h.live_disjoint.forall hb hc hbc
        have hapart := hdisj.apart (h.live b hb).1 (h.live c hc).1
        simp only [payload, Has, Apart, stop, HEADER] at *
        omega
  constructor
  · exact h.nodes.congr hfree
  · exact h.separated
  · exact h.freep
  · exact h.pos
  · intro b hb
    obtain ⟨hpos, hsz⟩ := h.live b hb
    exact ⟨hpos, (hlive b hb).len hsz⟩
  · exact h.live_disjoint
  · exact h.free_disjoint
  · exact h.inside
  · exact h.total
  · exact h.chunks
  · exact h.base_pos
  · exact h.brk_le
  · exact h.brk_lt

/-- Every action of a program keeps the invariant. -/
lemma Inv.step {a : Act} (h : Inv base s) (hs : Step base s a s') : Inv base s' := by
  cases hs with
  | @malloc nbytes answer fuel r s₁ hn hs =>
    rcases h.malloc (by omega) hs with ⟨-, -, h'⟩ | ⟨rfl, -, h'⟩
    · exact Or.inr h'
    · exact Or.inr h'
  | @free b fuel s₁ hb hs =>
    rcases h with h | ⟨F, h⟩
    · rw [h.live] at hb
      exact absurd hb (by simp)
    · exact Or.inr ⟨_, h.free hb hs⟩
  | write hm =>
    rcases h with h | ⟨F, h⟩
    · exact Or.inl ⟨h.base_pos, h.brk_le, h.brk_lt, h.freep, h.chunks, h.live⟩
    · exact Or.inr ⟨F, h.write hm⟩

/-- What the calls return from the state `s`. -/
structure Returns (base : Nat) (s : State) : Prop where
  /-- `malloc` returns, whatever fresh memory the kernel has for it. -/
  malloc : ∀ nbytes answer, nbytes < 2 ^ 30 →
    s.MayAnswer (HEADER * moreUnits (unitsFor nbytes)) answer →
    ∃ fuel r s', malloc base fuel nbytes answer s = some (r, s')
  /-- Its result is a block handed out with at least `nbytes` bytes for the program; it is 0 only
  if the kernel has no memory. -/
  result : ∀ nbytes answer fuel r s', nbytes < 2 ^ 30 →
    Malloc.malloc base fuel nbytes answer s = some (r, s') →
    r = 0 ∧ answer = none ∨
      ∃ b ∈ (s'.handOut r).live, r = (payload b).start ∧ nbytes ≤ (payload b).len
  free : ∀ b ∈ s.live, ∃ fuel s', free fuel (b.start + HEADER) s = some s'

lemma Inv.returns (h : Inv base s) : Returns base s := by
  refine ⟨fun nbytes answer hn hans => h.malloc_terminates (by omega) hans,
    fun nbytes answer fuel r s' hn hs => ?_, fun b hb => ?_⟩
  · rcases h.malloc (by omega) hs with ⟨hr, hsz, -⟩ | ⟨hr, hans, -⟩
    · right
      have hbytes := (unitsFor_bounds (Nat.lt_trans hn (by decide))).2.2
      refine ⟨⟨r - HEADER, HEADER * size s'.mem (r - HEADER)⟩, ?_, ?_, ?_⟩
      · rw [State.handOut, if_neg (by omega)]
        exact List.mem_cons_self ..
      · simp only [payload]
        omega
      · simp only [payload, hsz]
        omega
    · exact Or.inl ⟨hr, hans⟩
  · rcases h with h | ⟨F, h⟩
    · rw [h.live] at hb
      exact absurd hb (by simp)
    · exact h.free_terminates hb

/-- The user heap, for every program that calls `malloc` with fewer than `2 ^ 30` bytes and `free`
on what it got: the list from `freep` is a circle in increasing address order, its blocks and those
handed out are disjoint, lie inside the memory obtained from `sbrk` and add up to it, no two free
blocks are adjacent, and every call returns, `malloc` with a block that is large enough. -/
theorem heap_run {base : Nat} {s₀ s : State} {tr : List (State × Act)} (h₀ : Initial base s₀)
    (hr : Run (Step base) s₀ tr s) :
    AllStates (fun s => (s.freep = 0 ∧ s.chunks = [] ∧ s.live = [] ∨ ∃ F, Ok base s F) ∧
      Returns base s) tr s := by
  have hinv : AllStates (Inv base) tr s := hr.invariant (fun _ _ _ h hs => h.step hs) (Or.inl h₀)
  refine hinv.mono fun s h => ⟨?_, h.returns⟩
  exact h.imp_left fun h => ⟨h.freep, h.chunks, h.live⟩

/-- A process with one page of memory that has not called `malloc`. -/
def onePage : State := ⟨fun _ => 0, 0, 4096, [], []⟩

/-- The process gets 100 bytes, for which the kernel extends its memory, and gives them back. -/
theorem heap_run_malloc_free : ∃ s tr, Initial 16 onePage ∧ Run (Step 16) onePage tr s ∧
    tr.map Prod.snd = [.malloc 100 (some 4096), .free 36760] ∧
    AllStates (fun s => (s.freep = 0 ∧ s.chunks = [] ∧ s.live = [] ∨ ∃ F, Ok 16 s F) ∧
      Returns 16 s) tr s := by
  have hrun : ((malloc 16 10 100 (some 4096) onePage).bind fun x =>
      (free 10 36760 (x.2.handOut x.1)).map fun _ => (x.1, (x.2.handOut x.1).live)) =
        some (36760, [⟨36752, 112⟩]) := by decide +kernel
  obtain ⟨⟨r, s₁⟩, hmalloc, hrun⟩ := Option.bind_eq_some_iff.mp hrun
  obtain ⟨s₂, hfree, heq⟩ := Option.map_eq_some_iff.mp hrun
  obtain ⟨rfl, hlive⟩ := Prod.mk.inj heq
  have h₀ : Initial 16 onePage := ⟨by decide, by decide, by decide, rfl, rfl, rfl⟩
  have hr : Run (Step 16) onePage _ _ := (Run.refl.tail (.malloc (by decide) hmalloc)).tail
    (.free (b := ⟨36752, 112⟩) (hlive ▸ List.mem_cons_self ..) hfree)
  exact ⟨_, _, h₀, hr, rfl, heap_run h₀ hr⟩

end Malloc

end Xv6
