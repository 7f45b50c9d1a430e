import Mathlib.Algebra.GroupWithZero.Nat
import Mathlib.Algebra.BigOperators.Group.List.Basic

/-!
# Lists of separated extents

Half-open intervals of natural numbers, kept in increasing order with a gap between any two
neighbours. Inserting an extent that overlaps none of them joins it with the neighbours it touches:
the gaps stay, and so does the set of covered numbers apart from the new extent.
-/

/-- The numbers from `start` up to `start + len`. -/
structure Extent where
  start : Nat
  len : Nat
  deriving DecidableEq, Repr

namespace Extent

variable {a b x y : Extent} {F L A B : List Extent} {i : Nat}

def stop (b : Extent) : Nat := b.start + b.len

def Has (b : Extent) (i : Nat) : Prop := b.start ≤ i ∧ i < b.stop

/-- The two extents have no number in common. -/
def Disjoint (a b : Extent) : Prop := ∀ i, a.Has i → ¬ b.Has i

lemma Disjoint.symm (h : a.Disjoint b) : b.Disjoint a := fun i hb ha => h i ha hb

instance : Std.Symm Disjoint := ⟨fun _ _ => Disjoint.symm⟩

/-- One of the extents ends before the other begins. -/
def Apart (a b : Extent) : Prop := a.stop ≤ b.start ∨ b.stop ≤ a.start

lemma Disjoint.apart (h : a.Disjoint b) (ha : 0 < a.len) (hb : 0 < b.len) : a.Apart b := by
  by_contra hn
  simp only [Apart, stop, not_or] at hn
  refine h (max a.start b.start) ?_ ?_ <;>
  · simp only [Has, stop]
    omega

lemma Apart.disjoint (h : a.Apart b) : a.Disjoint b := by
  intro i ha hb
  simp only [Apart, Has] at h ha hb
  omega

/-- Some extent of the list has the number `i`. -/
def Covers (F : List Extent) (i : Nat) : Prop := ∃ b ∈ F, b.Has i

@[simp] lemma covers_nil : ¬ Covers [] i := by simp [Covers]

@[simp] lemma covers_cons : Covers (b :: F) i ↔ b.Has i ∨ Covers F i := by simp [Covers]

@[simp] lemma covers_append : Covers (A ++ B) i ↔ Covers A i ∨ Covers B i := by
  simp only [Covers, List.mem_append, or_and_right, exists_or]

/-- The sum of the lengths. -/
def total (F : List Extent) : Nat := (F.map len).sum

@[simp] lemma total_nil : total [] = 0 := rfl

@[simp] lemma total_cons : total (b :: F) = b.len + total F := rfl

@[simp] lemma total_append : total (A ++ B) = total A + total B := by
  simp [total]

/-- In increasing order, with a gap between any two extents. -/
def Separated (F : List Extent) : Prop := F.Pairwise fun a b => a.stop < b.start

lemma Separated.start_lt (h : Separated (a :: F)) (hb : b ∈ F) : a.start < b.start := by
  have hab := List.rel_of_pairwise_cons h hb
  simp only [stop] at hab
  omega

/-- Two extents of the list that begin at the same number are the same. -/
lemma Separated.inj (h : Separated F) (ha : a ∈ F) (hb : b ∈ F) (hab : a.start = b.start) :
    a = b := by
  induction F with
  | nil => simp at ha
  | cons x F ih =>
    rcases List.mem_cons.mp ha with rfl | ha' <;> rcases List.mem_cons.mp hb with rfl | hb'
    · rfl
    · exact absurd hab (Nat.ne_of_lt (h.start_lt hb'))
    · exact absurd hab.symm (Nat.ne_of_lt (h.start_lt ha'))
    · exact ih (List.pairwise_cons.mp h).2 ha' hb'

/-! ### Insertion -/

/-- Put `x` before the list, joined with the first extent if the two touch. -/
def join (x : Extent) : List Extent → List Extent
  | [] => [x]
  | y :: L => if x.stop = y.start then ⟨x.start, x.len + y.len⟩ :: L else x :: y :: L

/-- Insert `b` into a list in increasing order. -/
def insert (b : Extent) : List Extent → List Extent
  | [] => [b]
  | x :: F => if b.start < x.start then join b (x :: F) else join x (insert b F)

@[simp] lemma total_join : total (join x L) = x.len + total L := by
  cases L with
  | nil => rfl
  | cons y L =>
    simp only [join]
    split <;> simp [Nat.add_assoc]

lemma covers_join : Covers (join x L) i ↔ x.Has i ∨ Covers L i := by
  cases L with
  | nil => simp [join]
  | cons y L =>
    simp only [join]
    split
    case isTrue h =>
      simp only [covers_cons, Has, stop] at h ⊢
      constructor
      · rintro (hi | hi)
        · by_cases hx : i < x.start + x.len
          · exact Or.inl (by omega)
          · exact Or.inr (Or.inl (by omega))
        · exact Or.inr (Or.inr hi)
      · rintro (hi | hi | hi)
        · exact Or.inl (by omega)
        · exact Or.inl (by omega)
        · exact Or.inr hi
    case isFalse => simp

/-- A joined list begins where its first extent did, and has no other new beginnings. -/
lemma start_of_mem_join (h : y ∈ join x L) : y.start = x.start ∨ y ∈ L := by
  cases L with
  | nil =>
    rw [join, List.mem_singleton] at h
    exact Or.inl (by rw [h])
  | cons z L =>
    simp only [join] at h
    split at h
    · rcases List.mem_cons.mp h with rfl | h
      · exact Or.inl rfl
      · exact Or.inr (List.mem_cons_of_mem _ h)
    · rcases List.mem_cons.mp h with rfl | h
      · exact Or.inl rfl
      · exact Or.inr h

/-- A joined list has no new ends. -/
lemma stop_of_mem_join (h : y ∈ join x L) : y.stop = x.stop ∨ ∃ z ∈ L, y.stop = z.stop := by
  cases L with
  | nil =>
    rw [join, List.mem_singleton] at h
    exact Or.inl (by rw [h])
  | cons z L =>
    simp only [join] at h
    split at h
    case isTrue heq =>
      rcases List.mem_cons.mp h with rfl | h
      · refine Or.inr ⟨z, List.mem_cons_self .., ?_⟩
        simp only [stop] at heq ⊢
        omega
      · exact Or.inr ⟨y, List.mem_cons_of_mem _ h, rfl⟩
    case isFalse =>
      rcases List.mem_cons.mp h with rfl | h
      · exact Or.inl rfl
      · exact Or.inr ⟨y, h, rfl⟩

lemma pos_of_mem_join (hx : 0 < x.len) (hL : ∀ z ∈ L, 0 < z.len) (h : y ∈ join x L) :
    0 < y.len := by
  cases L with
  | nil =>
    rw [join, List.mem_singleton] at h
    rwa [h]
  | cons z L =>
    simp only [join] at h
    split at h
    · rcases List.mem_cons.mp h with rfl | h
      · exact Nat.add_pos_left hx _
      · exact hL y (List.mem_cons_of_mem _ h)
    · rcases List.mem_cons.mp h with rfl | h
      · exact hx
      · exact hL y h

lemma separated_join (h : Separated L) (hx : ∀ y ∈ L, x.stop ≤ y.start) :
    Separated (join x L) := by
  cases L with
  | nil => exact List.pairwise_singleton _ _
  | cons y L =>
    have hy := hx y (List.mem_cons_self ..)
    simp only [join]
    split
    case isTrue heq =>
      refine List.pairwise_cons.mpr ⟨fun z hz => ?_, (List.pairwise_cons.mp h).2⟩
      have hyz := List.rel_of_pairwise_cons h hz
      simp only [stop] at heq hyz ⊢
      omega
    case isFalse hne =>
      refine List.pairwise_cons.mpr ⟨fun z hz => ?_, h⟩
      rcases List.mem_cons.mp hz with rfl | hz
      · omega
      · have hyz := h.start_lt hz
        omega

@[simp] lemma total_insert : total (insert b F) = b.len + total F := by
  induction F with
  | nil => rfl
  | cons x F ih =>
    simp only [insert]
    split
    · simp
    · simp [ih]
      omega

lemma covers_insert : Covers (insert b F) i ↔ b.Has i ∨ Covers F i := by
  induction F with
  | nil => simp [insert]
  | cons x F ih =>
    simp only [insert]
    split
    · exact covers_join
    · rw [covers_join, ih, covers_cons]
      tauto

lemma start_of_mem_insert (h : y ∈ insert b F) :
    y.start = b.start ∨ ∃ x ∈ F, y.start = x.start := by
  induction F generalizing y with
  | nil =>
    rw [insert, List.mem_singleton] at h
    exact Or.inl (by rw [h])
  | cons x F ih =>
    simp only [insert] at h
    split at h
    · rcases start_of_mem_join h with h | h
      · exact Or.inl h
      · exact Or.inr ⟨y, h, rfl⟩
    · rcases start_of_mem_join h with h | h
      · exact Or.inr ⟨x, List.mem_cons_self .., h⟩
      · rcases ih h with h | ⟨z, hz, h⟩
        · exact Or.inl h
        · exact Or.inr ⟨z, List.mem_cons_of_mem _ hz, h⟩

lemma pos_of_mem_insert (hb : 0 < b.len) (hF : ∀ z ∈ F, 0 < z.len) (h : y ∈ insert b F) :
    0 < y.len := by
  induction F generalizing y with
  | nil =>
    rw [insert, List.mem_singleton] at h
    rwa [h]
  | cons x F ih =>
    have hF' : ∀ z ∈ F, 0 < z.len := fun z hz => hF z (List.mem_cons_of_mem _ hz)
    simp only [insert] at h
    split at h
    · exact pos_of_mem_join hb hF h
    · exact pos_of_mem_join (hF x (List.mem_cons_self ..)) (fun z hz => ih hF' hz) h

/-- Joining makes no extent shorter. -/
lemma exists_len_le_join (h : y ∈ x :: L) : ∃ z ∈ join x L, y.len ≤ z.len := by
  cases L with
  | nil => exact ⟨y, h, Nat.le_refl _⟩
  | cons a L =>
    simp only [join]
    split
    · rcases List.mem_cons.mp h with rfl | h
      · exact ⟨_, List.mem_cons_self .., Nat.le_add_right _ _⟩
      · rcases List.mem_cons.mp h with rfl | h
        · exact ⟨_, List.mem_cons_self .., Nat.le_add_left _ _⟩
        · exact ⟨y, List.mem_cons_of_mem _ h, Nat.le_refl _⟩
    · exact ⟨y, h, Nat.le_refl _⟩

lemma exists_len_le_insert (b : Extent) (F : List Extent) : ∃ z ∈ insert b F, b.len ≤ z.len := by
  induction F with
  | nil => exact ⟨b, List.mem_cons_self .., Nat.le_refl _⟩
  | cons x F ih =>
    simp only [insert]
    split
    · exact exists_len_le_join (List.mem_cons_self ..)
    · obtain ⟨y, hy, hle⟩ := ih
      obtain ⟨z, hz, hyz⟩ := exists_len_le_join (x := x) (List.mem_cons_of_mem _ hy)
      exact ⟨z, hz, Nat.le_trans hle hyz⟩

/-- Inserting an extent that overlaps none of the list keeps the gaps. -/
lemma separated_insert (hb : 0 < b.len) (h : Separated F) (hapart : ∀ y ∈ F, b.Apart y) :
    Separated (insert b F) := by
  induction F with
  | nil => exact List.pairwise_singleton _ _
  | cons x F ih =>
    have hx := hapart x (List.mem_cons_self ..)
    simp only [Apart, stop] at hx
    simp only [insert]
    split
    case isTrue hlt =>
      refine separated_join h fun y hy => ?_
      rcases List.mem_cons.mp hy with rfl | hy
      · simp only [stop]
        omega
      · have hxy := h.start_lt hy
        simp only [stop]
        omega
    case isFalse hge =>
      have hF := (List.pairwise_cons.mp h).2
      refine separated_join (ih hF fun y hy => hapart y (List.mem_cons_of_mem _ hy)) fun y hy => ?_
      rcases start_of_mem_insert hy with hy | ⟨z, hz, hy⟩
      · simp only [stop]
        omega
      · have hxz := List.rel_of_pairwise_cons h hz
        omega

lemma join_of_lt (h : ∀ y ∈ L, x.stop < y.start) : join x L = x :: L := by
  cases L with
  | nil => rfl
  | cons y L => exact if_neg (Nat.ne_of_lt (h y (List.mem_cons_self ..)))

/-- An extent that lies behind `x` and before the rest is joined with at most these two. -/
lemma insert_eq (h : Separated (A ++ x :: B)) (hx : x.start < b.start)
    (hB : ∀ y ∈ B, b.start < y.start) : insert b (A ++ x :: B) = A ++ join x (join b B) := by
  induction A with
  | nil =>
    have hins : insert b B = join b B := by
      cases B with
      | nil => rfl
      | cons y B => exact if_pos (hB y (List.mem_cons_self ..))
    rw [List.nil_append, insert, if_neg (by omega), hins, List.nil_append]
  | cons a A ih =>
    obtain ⟨ha, hrest⟩ := List.pairwise_cons.mp h
    have hxa := ha x (List.mem_append_right _ (List.mem_cons_self ..))
    rw [List.cons_append, insert, if_neg (by simp only [stop] at hxa; omega), ih hrest,
      List.cons_append]
    refine join_of_lt fun y hy => ?_
    rcases List.mem_append.mp hy with hy | hy
    · exact ha y (List.mem_append_left _ hy)
    · rcases start_of_mem_join hy with hy | hy
      · rwa [hy]
      · rcases start_of_mem_join hy with hy | hy
        · rw [hy]
          omega
        · have := hB y hy
          omega

/-- An extent of the list may shrink at its end. -/
lemma Separated.shrink (h : Separated (A ++ x :: B)) {n : Nat} (hn : n ≤ x.len) :
    Separated (A ++ ⟨x.start, n⟩ :: B) := by
  obtain ⟨hA, hxB, hAx⟩ := List.pairwise_append.mp h
  obtain ⟨hx, hB⟩ := List.pairwise_cons.mp hxB
  refine List.pairwise_append.mpr ⟨hA, List.pairwise_cons.mpr ⟨fun y hy => ?_, hB⟩,
    fun a ha y hy => ?_⟩
  · have := hx y hy
    simp only [stop] at this ⊢
    omega
  · rcases List.mem_cons.mp hy with rfl | hy
    · exact hAx a ha x (List.mem_cons_self ..)
    · exact hAx a ha y (List.mem_cons_of_mem _ hy)

end Extent
