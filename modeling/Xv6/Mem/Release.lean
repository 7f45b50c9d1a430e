import Xv6.Mem.VmSpec

/-!
# Giving memory back

`kfree` panics on a page outside the range it manages, and `deallocuvm` follows the pointer to the
entry at `shm_va` without looking. Nothing else can go wrong when pages are given back: a directory
whose pages are all in range is freed.
-/

namespace Xv6

open Fallible

variable {c : ShmField} {d : PageDir} {m : Mem} {x y v n stop : Nat}

/-! ### The faults of freeing -/

section Avoids

variable {E : Fault → Prop} (hfree : ¬ E (.panic "kfree"))

include hfree

lemma kfree_avoids (y : Nat) (m : Mem) : Avoids (m.kfree y) E := by
  unfold Mem.kfree
  split
  · exact .error hfree
  · exact .ok

lemma shmRemove_avoids : Avoids (m.shmRemove x) E := by
  unfold Mem.shmRemove
  split
  · split
    · exact (kfree_avoids hfree _ _).bind fun _ _ => .pure
    · exact .pure
  · exact .pure

lemma freeTables_avoids (l : List Nat) : Avoids (freeTables d l m) E := by
  induction l generalizing m with
  | nil => exact .ok
  | cons i l ih =>
    unfold freeTables
    split
    · exact ih
    · exact (kfree_avoids hfree _ _).bind fun _ _ => ih

variable (hnull : ¬ E .nullDeref)

include hnull

lemma deallocPages_avoids : Avoids (deallocPages c n v stop d m) E := by
  induction n generalizing v d m with
  | zero => exact .ok
  | succ n ih =>
    unfold deallocPages
    split
    · split
      · split
        · exact .error hnull
        · exact (shmRemove_avoids hfree).bind fun _ _ => ih
      · split
        · exact ih
        · split
          · split
            · exact .error hfree
            · exact (kfree_avoids hfree _ _).bind fun _ _ => ih
          · exact ih
    · exact .ok

lemma deallocuvm_avoids {oldsz newsz : Nat} : Avoids (deallocuvm c d oldsz newsz m) E := by
  unfold deallocuvm
  split
  · exact .ok
  · exact (deallocPages_avoids hfree hnull).bind fun _ _ => .pure

lemma freevm_avoids : Avoids (freevm c d m) E :=
  (deallocuvm_avoids hfree hnull).bind fun _ _ =>
    (freeTables_avoids hfree _).bind fun _ _ => kfree_avoids hfree _ _

end Avoids

/-! ### When freeing succeeds -/

lemma shmRemove_succeeds (hx : m.InRange x) : ∃ r, m.shmRemove x = .ok r := by
  unfold Mem.shmRemove
  split
  · split
    · next i hi _ =>
      have hin : Mem.InRange { m with shared := Function.update m.shared i ⟨0, 0⟩ } x := hx
      rw [Mem.kfree_eq_ok hin]
      exact ⟨_, rfl⟩
    · exact ⟨_, rfl⟩
  · exact ⟨_, rfl⟩

lemma shmRemove_layout : Ensures (m.shmRemove x) fun r => r.2.layout = m.layout := by
  unfold Mem.shmRemove
  split
  · split
    · exact (Mem.kfree_ensures _ _).bind fun _ h => .pure h.2.2.2
    · exact .pure rfl
  · exact .pure rfl

/-- Every page that a directory maps below `stop` can be freed, and the page of `shm_va` is mapped. -/
structure Freeable (c : ShmField) (stop : Nat) (d : PageDir) (m : Mem) : Prop where
  inRange : ∀ v < stop, (d.entry v).present = true → m.InRange (d.entry v).ppn
  hits : ∀ v < stop, c.Hits v → (d.entry v).present = true

lemma Freeable.congr {m' : Mem} (h : Freeable c stop d m) (hl : m'.layout = m.layout) :
    Freeable c stop d m' :=
  ⟨fun v hv hp => (h.inRange v hv hp).congr hl, h.hits⟩

lemma Freeable.clear (h : Freeable c stop d m) (hv : ¬ c.Hits v) : Freeable c stop (d.set v 0) m := by
  constructor
  · intro w hw hp
    have hsame := PageDir.entry_clear hp
    rw [hsame] at hp ⊢
    exact h.inRange w hw hp
  · intro w hw hit
    have hwv : w ≠ v := by
      rintro rfl
      exact hv hit
    rw [PageDir.entry_set_ne hwv]
    exact h.hits w hw hit

lemma deallocPages_succeeds (h : Freeable c stop d m) : ∃ r, deallocPages c n v stop d m = .ok r := by
  induction n generalizing v d m with
  | zero => exact ⟨_, rfl⟩
  | succ n ih =>
    unfold deallocPages
    split
    · next hv =>
      split
      · next hit =>
        have hp := h.hits v hv hit
        have hwalk := PageDir.walk_eq_some_iff.mpr ⟨PageDir.hasTable_of_present hp, rfl⟩
        obtain ⟨⟨found, m₁⟩, hm₁⟩ := shmRemove_succeeds (h.inRange v hv hp)
        simp only [hwalk, hm₁, bind, Except.bind]
        exact ih (h.congr (shmRemove_layout _ hm₁))
      · next hit =>
        split
        · exact ih h
        · next e hwalk =>
          obtain ⟨-, rfl⟩ := PageDir.walk_eq_some_iff.mp hwalk
          split
          · next hp =>
            have hin := h.inRange v hv hp
            rw [if_neg hin.ne_zero, Mem.kfree_eq_ok hin]
            exact ih ((h.clear hit).congr rfl)
          · exact ih h
    · exact ⟨_, rfl⟩

lemma freeTables_succeeds (l : List Nat) (h : ∀ i ∈ l, ∀ t, d.pde i = some t → m.InRange t.page) :
    ∃ m', freeTables d l m = .ok m' := by
  induction l generalizing m with
  | nil => exact ⟨_, rfl⟩
  | cons i l ih =>
    unfold freeTables
    split
    · exact ih fun j hj => h j (List.mem_cons_of_mem i hj)
    · next t ht =>
      rw [Mem.kfree_eq_ok (h i (List.mem_cons_self ..) t ht)]
      exact ih (m := { m.junk t.page with freelist := t.page :: m.freelist })
        fun j hj => h j (List.mem_cons_of_mem i hj)

/-- The pages of the directory and of its page tables. -/
lemma tableRefs_ne_zero (h : x = d.page ∨ ∃ i < NPDENTRIES, ∃ t, d.pde i = some t ∧ t.page = x) :
    d.tableRefs x ≠ 0 := by
  unfold PageDir.tableRefs
  rcases h with rfl | ⟨i, hi, t, ht, rfl⟩
  · rw [Count.one, if_pos rfl]
    omega
  · have hle := Finset.single_le_sum
      (f := fun i => (d.pde i).elim 0 fun t' => Count.one t'.page t.page)
      (fun _ _ => Nat.zero_le _) (Finset.mem_range.mpr hi)
    rw [ht, Option.elim_some, Count.one, if_pos rfl] at hle
    omega

/-- A directory whose pages are all in range, with the current process's shared page mapped if it has
one, is freed. -/
lemma freevm_succeeds (hs : Mem.SharedOk m.shared) (hin : ∀ x, d.refs x ≠ 0 → m.InRange x)
    (hhit : ∀ v < KERNBASE, c.Hits v → (d.entry v).present = true) :
    ∃ m', freevm c d m = .ok m' := by
  have hfreeable : Freeable c KERNBASE d m := by
    refine ⟨fun v hv hp => hin _ ?_, hhit⟩
    have := PageDir.userRefs_pos hv hp
    unfold PageDir.refs
    omega
  obtain ⟨⟨d₁, m₁⟩, h₁⟩ := deallocPages_succeeds (n := KERNBASE) (v := 0) hfreeable
  have hdone := deallocPages_ensures le_rfl (by omega) hs _ h₁
  have htables : ∀ x, d₁.tableRefs x ≠ 0 → m₁.InRange x := by
    intro x hx
    rw [show d₁.tableRefs x = d.tableRefs x from hdone.tables x] at hx
    exact (hin x (by unfold PageDir.refs; omega)).congr hdone.layout
  obtain ⟨m₂, h₂⟩ := freeTables_succeeds (m := m₁) (d := d₁) (List.range NPDENTRIES) fun i hi t ht =>
    htables _ (tableRefs_ne_zero (Or.inr ⟨i, List.mem_range.mp hi, t, ht, rfl⟩))
  have hpage : m₂.InRange d₁.page :=
    (htables _ (tableRefs_ne_zero (Or.inl rfl))).congr (freeTables_ensures _ _ h₂).2.2
  have hpos : ¬ KERNBASE * PGSIZE ≤ 0 := by
    rw [KERNBASE_eq]
    decide
  have hzero : pgUp 0 = 0 := rfl
  refine ⟨{ m₂.junk d₁.page with freelist := d₁.page :: m₂.freelist }, ?_⟩
  simp only [freevm, deallocuvm, if_neg hpos, pgUp_mul, hzero, h₁, h₂, bind, Except.bind, pure,
    Except.pure, Mem.kfree_eq_ok hpage]

end Xv6
