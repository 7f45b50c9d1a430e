import Mathlib.Data.List.Nodup

/-!
# Circular doubly linked lists

Nodes carry a pointer to the next and to the previous node. A ring is a head node `h` and the list
`l` of the other nodes, met in this order by following `next` from `h` until it is back at `h`, and
in the opposite order by following `prev`. The pointer assignments that take a node out of a ring
and put a node in behind the head are the usual ones, one assignment after another.
-/

namespace LinkedRing

/-- The pointers of all nodes. -/
structure Links (N : Type*) where
  next : N → N
  prev : N → N

namespace Links

variable {N : Type*}

/-- Following `next` from `x` meets the nodes `l` and then `y`, and `prev` leads back. -/
def Path (L : Links N) : N → List N → N → Prop
  | x, [], y => L.next x = y ∧ L.prev y = x
  | x, z :: l, y => (L.next x = z ∧ L.prev z = x) ∧ L.Path z l y

/-- The nodes `l` form a ring with head `h`. -/
structure IsRing (L : Links N) (h : N) (l : List N) : Prop where
  path : L.Path h l h
  head_notMem : h ∉ l
  nodup : l.Nodup

variable {L L' : Links N} {h x y z b : N} {l l₁ l₂ : List N}

lemma Path.next_mem (hp : L.Path x l y) : L.next x ∈ l ++ [y] := by
  cases l with
  | nil => simp [hp.1]
  | cons z l => simp [hp.1.1]

lemma Path.prev_mem (hp : L.Path x l y) : L.prev y ∈ x :: l := by
  induction l generalizing x with
  | nil => simp [hp.2]
  | cons z l ih => exact List.mem_cons_of_mem x (ih hp.2)

lemma Path.congr (hp : L.Path x l y) (hnext : ∀ z ∈ x :: l, L'.next z = L.next z)
    (hprev : ∀ z ∈ l ++ [y], L'.prev z = L.prev z) : L'.Path x l y := by
  induction l generalizing x with
  | nil =>
    refine ⟨?_, ?_⟩
    · rw [hnext x (by simp), hp.1]
    · rw [hprev y (by simp), hp.2]
  | cons z l ih =>
    refine ⟨⟨?_, ?_⟩, ih hp.2 ?_ ?_⟩
    · rw [hnext x (by simp), hp.1.1]
    · rw [hprev z (by simp), hp.1.2]
    · exact fun w hw => hnext w (List.mem_cons_of_mem x hw)
    · exact fun w hw => hprev w (List.mem_cons_of_mem z hw)

lemma path_append : L.Path x (l₁ ++ b :: l₂) y ↔ L.Path x l₁ b ∧ L.Path b l₂ y := by
  induction l₁ generalizing x with
  | nil => rfl
  | cons z l ih =>
    simp only [List.cons_append, Path, ih]
    tauto

/-! ### Walking along the ring -/

/-- Exchange the two directions. -/
def swap (L : Links N) : Links N := ⟨L.prev, L.next⟩

lemma Path.reverse (hp : L.Path x l y) : L.swap.Path y l.reverse x := by
  induction l generalizing x with
  | nil => exact ⟨hp.2, hp.1⟩
  | cons z l ih =>
    rw [List.reverse_cons, path_append]
    exact ⟨ih hp.2, hp.1.2, hp.1.1⟩

lemma IsRing.reverse (hr : L.IsRing h l) : L.swap.IsRing h l.reverse :=
  ⟨hr.path.reverse, by simpa using hr.head_notMem, List.nodup_reverse.mpr hr.nodup⟩

variable [DecidableEq N]

/-- Walk from node `b` along `step` to the first node that satisfies `p`, and stop at `h`. -/
def search (step : N → N) (h : N) (p : N → Bool) : Nat → N → Option N
  | 0, _ => none
  | k + 1, b => if b = h then none else if p b then some b else search step h p k (step b)

lemma search_some {step : N → N} {p : N → Bool} {k : Nat} {c : N}
    (hs : search step h p k b = some c) : p c = true := by
  induction k generalizing b with
  | zero => simp [search] at hs
  | succ k ih =>
    simp only [search] at hs
    split_ifs at hs with _ hb
    · cases hs
      exact hb
    · exact ih hs

lemma Path.search_next {p : N → Bool} {k : Nat} (hp : L.Path x l h) (hh : h ∉ l)
    (hk : l.length < k) : search L.next h p k (L.next x) = l.find? p := by
  induction l generalizing x k with
  | nil =>
    obtain ⟨k, rfl⟩ := Nat.exists_eq_add_one_of_ne_zero (Nat.ne_of_gt hk)
    simp [search, hp.1]
  | cons z l ih =>
    obtain ⟨k, rfl⟩ := Nat.exists_eq_add_one_of_ne_zero (Nat.ne_of_gt (Nat.zero_lt_of_lt hk))
    have hz : z ≠ h := fun e => hh (by simp [e])
    have hrec := ih (k := k) hp.2 (fun hl => hh (List.mem_cons_of_mem z hl))
      (Nat.lt_of_succ_lt_succ hk)
    simp only [search, hp.1.1, if_neg hz, hrec, List.find?_cons]
    cases p z <;> rfl

/-- Walking forward from the head finds the first node of the ring that satisfies `p`. -/
theorem IsRing.search_next {p : N → Bool} {k : Nat} (hr : L.IsRing h l) (hk : l.length < k) :
    search L.next h p k (L.next h) = l.find? p :=
  hr.path.search_next hr.head_notMem hk

/-- Walking backward from the head finds the last node of the ring that satisfies `p`. -/
theorem IsRing.search_prev {p : N → Bool} {k : Nat} (hr : L.IsRing h l) (hk : l.length < k) :
    search L.prev h p k (L.prev h) = l.reverse.find? p :=
  hr.reverse.search_next (by simpa using hk)

/-! ### Changing the ring -/

def setNext (L : Links N) (x y : N) : Links N := { L with next := Function.update L.next x y }

def setPrev (L : Links N) (x y : N) : Links N := { L with prev := Function.update L.prev x y }

/-- `b->next->prev = b->prev; b->prev->next = b->next;` -/
def unlink (L : Links N) (b : N) : Links N :=
  let L := L.setPrev (L.next b) (L.prev b)
  L.setNext (L.prev b) (L.next b)

/-- `b->next = h->next; b->prev = h; h->next->prev = b; h->next = b;` -/
def insertFront (L : Links N) (h b : N) : Links N :=
  let L := L.setNext b (L.next h)
  let L := L.setPrev b h
  let L := L.setPrev (L.next h) b
  L.setNext h b

/-- Taking `b` out of a path. The last node of the path may be its first one again. -/
lemma Path.unlink (hp : L.Path x (l₁ ++ b :: l₂) y) (hn : (x :: (l₁ ++ b :: l₂)).Nodup)
    (hy : y ∉ l₁ ++ b :: l₂) : (L.unlink b).Path x (l₁ ++ l₂) y := by
  have hprev : L.prev b ∈ x :: l₁ := (path_append.mp hp).1.prev_mem
  have hnext : L.next b ∈ l₂ ++ [y] := (path_append.mp hp).2.next_mem
  have hne : b ≠ L.next b := by
    intro e
    rw [← e] at hnext
    grind
  have hL : L.unlink b = ⟨Function.update L.next (L.prev b) (L.next b),
      Function.update L.prev (L.next b) (L.prev b)⟩ := by
    simp [Links.unlink, setNext, setPrev, Function.update_of_ne hne]
  induction l₁ generalizing x with
  | nil =>
    obtain ⟨⟨hxb, hbx⟩, hrest⟩ := hp
    cases l₂ with
    | nil =>
      obtain ⟨hby, -⟩ := hrest
      simp [hL, Path, hbx, hby]
    | cons z l₂ =>
      obtain ⟨⟨hbz, -⟩, hrest⟩ := hrest
      refine ⟨⟨by simp [hL, hbx, hbz], by simp [hL, hbx, hbz]⟩, hrest.congr ?_ ?_⟩
      · intro w hw
        have hwx : w ≠ x := by
          rintro rfl
          simp_all
        simp [hL, hbx, Function.update_of_ne hwx]
      · intro w hw
        have hwz : w ≠ z := by
          rintro rfl
          simp_all
        simp [hL, hbz, Function.update_of_ne hwz]
  | cons c l₁ ih =>
    obtain ⟨⟨hxc, hcx⟩, hrest⟩ := hp
    have hprev' : L.prev b ∈ c :: l₁ := (path_append.mp hrest).1.prev_mem
    refine ⟨⟨?_, ?_⟩, ih hrest (List.nodup_cons.mp hn).2 ?_ hprev'⟩
    · have hx : x ≠ L.prev b := by
        intro e
        rw [← e] at hprev'
        grind
      simp [hL, Function.update_of_ne hx, hxc]
    · have hc : c ≠ L.next b := by
        intro e
        rw [← e] at hnext
        grind
      simp [hL, Function.update_of_ne hc, hcx]
    · exact fun hmem => hy (List.mem_cons_of_mem c hmem)

theorem IsRing.unlink (hr : L.IsRing h (l₁ ++ b :: l₂)) : (L.unlink b).IsRing h (l₁ ++ l₂) := by
  have hnd := hr.nodup
  have hh := hr.head_notMem
  refine ⟨hr.path.unlink (List.nodup_cons.mpr ⟨hh, hnd⟩) hh, ?_, ?_⟩
  · simp_all
  · exact hnd.sublist (by simp)

/-- A node outside the ring becomes its first one. -/
theorem IsRing.insertFront (hr : L.IsRing h l) (hbh : b ≠ h) (hbl : b ∉ l) :
    (L.insertFront h b).IsRing h (b :: l) := by
  have hnext : L.next h ∈ l ++ [h] := hr.path.next_mem
  have hbn : b ≠ L.next h := by
    rintro rfl
    simp_all
  have hL : L.insertFront h b = ⟨Function.update (Function.update L.next b (L.next h)) h b,
      Function.update (Function.update L.prev b h) (L.next h) b⟩ := by
    simp [Links.insertFront, setNext, setPrev, Function.update_of_ne hbh.symm]
  refine ⟨⟨⟨?_, ?_⟩, ?_⟩, ?_, ?_⟩
  · simp [hL]
  · simp [hL, Function.update_of_ne hbn]
  · have hpath := hr.path
    cases l with
    | nil => simp [hL, Path, hpath.1, Function.update_of_ne hbh]
    | cons z l =>
      obtain ⟨⟨hhz, -⟩, hrest⟩ := hpath
      have hh := hr.head_notMem
      have hnd := hr.nodup
      refine ⟨⟨by simp [hL, hhz, Function.update_of_ne hbh], by simp [hL, hhz]⟩,
        hrest.congr ?_ ?_⟩
      · intro w hw
        have hwh : w ≠ h := by
          rintro rfl
          exact hh hw
        have hwb : w ≠ b := by
          rintro rfl
          exact hbl hw
        simp [hL, Function.update_of_ne hwh, Function.update_of_ne hwb]
      · intro w hw
        have hwz : w ≠ z := by
          rintro rfl
          simp_all
        have hwb : w ≠ b := by
          rintro rfl
          simp_all
        simp [hL, hhz, Function.update_of_ne hwz, Function.update_of_ne hwb]
  · simpa [hbh.symm] using hr.head_notMem
  · exact List.nodup_cons.mpr ⟨hbl, hr.nodup⟩

/-- A node of the ring moves to its front. -/
theorem IsRing.moveFront (hr : L.IsRing h (l₁ ++ b :: l₂)) :
    ((L.unlink b).insertFront h b).IsRing h (b :: (l₁ ++ l₂)) := by
  have hh := hr.head_notMem
  have hnd := hr.nodup
  apply hr.unlink.insertFront
  · rintro rfl
    simp at hh
  · simp only [List.nodup_middle, List.nodup_cons] at hnd
    exact hnd.1

end Links

end LinkedRing
