import Xv6.Kernel.State
import Xv6.Mem.Shrink

/-!
# Page faults

The page-fault branch of `trap`: it fills in a lazy page, or ends the process. Before that it prints
the entry of the page, on every way to `kill_process`, also on the one taken because there is no page
table: there the pointer to the entry has not been set.
-/

namespace Xv6

open Fallible

variable {d d' : PageDir} {m m' : Mem} {v w y : Nat}

/-- `is_page_lazy`. Its first test is `pgdir[PDX(addr)] & (PTE_P == 0)`, which is never true, so that
it reads the entry of a page whose page table is missing as well. -/
def isPageLazy (d : PageDir) (v : Nat) : Except Fault Bool :=
  match d.walk v with
  | none => .error .uninitialized
  | some e => .ok e.lazy

/-- The page-fault branch looks at the directory itself before it calls `is_page_lazy`. -/
lemma pageFault_eq (d : PageDir) (v : Nat) (m : Mem) :
    pageFault d v m =
      if d.HasTable v then do
        if ← isPageLazy d v then
          match m.kalloc with
          | (none, m) => .ok (false, d.set v 0, m)
          | (some y, m) => .ok (true, d.set v ((⟨true, true⟩ : Perm).pte y), m)
        else
          .ok (false, d, m)
      else
        .error .uninitialized := by
  unfold pageFault isPageLazy
  cases hw : d.walk v with
  | none =>
    rw [if_neg (PageDir.walk_eq_none_iff.mp hw)]
  | some e =>
    rw [if_pos (PageDir.walk_eq_some_iff.mp hw).1]
    rfl

/-- A fresh page is mapped user-writable at page `v`, and nothing else has changed. -/
structure FilledIn (v : Nat) (d : PageDir) (m : Mem) (d' : PageDir) (m' : Mem) : Prop where
  mapped : ∃ y, m.freelist = y :: m'.freelist ∧ d'.entry v = (⟨true, true⟩ : Perm).pte y
  others : ∀ w, w ≠ v → d'.entry w = d.entry w

lemma pageFault_fills (ht : d.HasTable v) (hl : (d.entry v).lazy = true) (hm : m.freelist ≠ []) :
    ∃ d' m', pageFault d v m = .ok (true, d', m') ∧ FilledIn v d m d' m' := by
  obtain ⟨y, l, hy⟩ := List.exists_cons_of_ne_nil hm
  refine ⟨d.set v ((⟨true, true⟩ : Perm).pte y), { m with freelist := l }, ?_, ⟨y, hy, ?_⟩, ?_⟩
  · simp only [pageFault, PageDir.walk_eq_some_iff.mpr ⟨ht, rfl⟩, hl, if_true, Mem.kalloc, hy]
  · exact PageDir.entry_set_self ht
  · exact fun w hw => PageDir.entry_set_ne hw

lemma pageFault_gives_up (ht : d.HasTable v) (h : ¬ ((d.entry v).lazy = true ∧ m.freelist ≠ [])) :
    ∃ d' m', pageFault d v m = .ok (false, d', m') := by
  simp only [pageFault, PageDir.walk_eq_some_iff.mpr ⟨ht, rfl⟩]
  split
  · next hl =>
    have hm : m.freelist = [] := by
      by_contra hne
      exact h ⟨hl, hne⟩
    simp only [Mem.kalloc, hm]
    exact ⟨_, _, rfl⟩
  · exact ⟨_, _, rfl⟩

namespace Kernel

variable {k : Kernel} {p : Slot}

/-! ### The faults of `exit` -/

section Avoids

variable {E : Fault → Prop} (hfree : ¬ E (.panic "kfree")) (hclose : ¬ E (.panic "fileclose"))

include hfree

lemma pipeclose_faults (x : Nat) (w : Bool) (k : Kernel) : Avoids (pipeclose x w k) E := by
  unfold pipeclose
  dsimp only
  split
  · exact (kfree_avoids hfree _ _).bind fun _ _ => .ok
  · exact .ok

include hclose

lemma fileclose_faults (f : Fin NFILE) (k : Kernel) : Avoids (fileclose f k) E := by
  unfold fileclose
  dsimp only
  split
  · exact .error hclose
  · split
    · exact .ok
    · split
      · exact pipeclose_faults hfree _ _ _
      · exact .ok

lemma closeFiles_faults (l : List (Fin NOFILE)) (k : Kernel) : Avoids (closeFiles p l k) E := by
  induction l generalizing k with
  | nil => exact .ok
  | cons fd l ih =>
    unfold closeFiles
    split
    · exact ih k
    · exact (fileclose_faults hfree hclose _ _).bind fun _ _ => ih _

lemma exit_faults (hinit : ¬ E (.panic "init exiting")) : Avoids (exit p k) E := by
  unfold exit
  split
  · exact .error hinit
  · exact (closeFiles_faults hfree hclose _ _).bind fun _ _ => .ok

end Avoids

/-! ### The branch as a whole -/

/-- The branch handles the fault exactly when the page is lazy and a page is left, and otherwise ends
the process. -/
def FaultExact (p : Slot) (addr : UInt32) (d : PageDir) (k : Kernel) : Prop :=
  ∃ d' m',
    if d.HasTable (addr.toNat / PGSIZE) ∧ (d.entry (addr.toNat / PGSIZE)).lazy = true ∧
        k.mem.freelist ≠ [] then
      fault p addr k = .ok (0, k.setDir p d' m') ∧ FilledIn (addr.toNat / PGSIZE) d k.mem d' m'
    else
      fault p addr k = exit p (k.setDir p d' m')

lemma dir_eq (hd : (k.mm p).pgdir = some d) : k.dir p = .ok d := by
  unfold dir
  rw [hd]

lemma setDir_inj {d₁ d₂ : PageDir} {m₁ m₂ : Mem} (h : k.setDir p d₁ m₁ = k.setDir p d₂ m₂) :
    d₁ = d₂ ∧ m₁ = m₂ := by
  refine ⟨?_, congrArg Kernel.mem h⟩
  have hmm := congrArg (fun k : Kernel => (k.mm p).pgdir) h
  simpa [setDir, setMm] using hmm

lemma setDir_self (hd : (k.mm p).pgdir = some d) : k.setDir p d k.mem = k := by
  have hmm : Function.update k.mm p { k.mm p with pgdir := some d } = k.mm := by
    rw [← hd]
    exact Function.update_eq_self p k.mm
  unfold setDir setMm
  rw [hmm]

/-- The page-fault branch is exact exactly if there is a page table for the address. Without one it
reads through a pointer that was never set. -/
theorem fault_exact_iff (addr : UInt32) (hd : (k.mm p).pgdir = some d) :
    FaultExact p addr d k ↔ d.HasTable (addr.toNat / PGSIZE) := by
  unfold FaultExact fault
  rw [dir_eq hd]
  constructor
  · rintro ⟨d', m', h⟩
    by_contra ht
    rw [if_neg fun hc => ht hc.1] at h
    have hstop : pageFault d (addr.toNat / PGSIZE) k.mem = .error .uninitialized := by
      rw [pageFault_eq, if_neg ht]
    simp only [hstop, bind, Except.bind] at h
    exact exit_faults (E := fun e => e = .uninitialized) (by decide) (by decide) (by decide) _ h.symm
      rfl
  · intro ht
    by_cases hc : (d.entry (addr.toNat / PGSIZE)).lazy = true ∧ k.mem.freelist ≠ []
    · obtain ⟨d', m', hf, hfill⟩ := pageFault_fills ht hc.1 hc.2
      refine ⟨d', m', ?_⟩
      rw [if_pos ⟨ht, hc⟩]
      simp only [hf, bind, Except.bind]
      exact ⟨rfl, hfill⟩
    · obtain ⟨d', m', hf⟩ := pageFault_gives_up (m := k.mem) ht hc
      refine ⟨d', m', ?_⟩
      rw [if_neg fun h => hc h.2]
      simp only [hf, bind, Except.bind]
      rfl

/-- The only process, in slot 0, with the directory `d` and size `sz`; `c` is its shared page. -/
def lone (d : PageDir) (sz : Nat) (c : ShmField) (m : Mem) : Kernel where
  table := Function.update (fun _ => ⟨.unused, 0, none, none, false⟩) 0 ⟨.running, 1, none, none, false⟩
  mm := Function.update (fun _ => ⟨0, none, none, fun _ => none, ⟨none, 0⟩⟩) 0
    ⟨sz, some d, some 302, fun _ => none, c⟩
  initproc := 1
  mem := m
  kpgdir := ⟨303, fun _ => none⟩
  file := fun _ => ⟨.none, 0, false, false, 0⟩
  pipe := fun _ => ⟨false, false⟩

/-- Page 1 is lazy and one page is free: the fault at address 4096 is handled. -/
theorem fault_exact_lazy :
    FaultExact 0 4096 (firstMapped.set 1 lazyPte)
      (lone (firstMapped.set 1 lazyPte) PGSIZE ⟨none, 0⟩ { zeroMem with freelist := [304] }) :=
  (fault_exact_iff 4096 rfl).mpr rfl

/-- A process of one page reads address `0x400000`, for which there is no page table. -/
theorem fault_without_table :
    fault 0 0x400000 (lone firstMapped PGSIZE ⟨none, 0⟩ zeroMem) = .error .uninitialized := rfl

end Kernel

end Xv6
