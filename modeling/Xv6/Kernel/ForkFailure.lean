import Xv6.Kernel.Faults
import Xv6.Kernel.Outcomes
import Xv6.Mem.CopyShort
import Xv6.Mem.Sweep

/-!
# A fork that fails

When `fork` returns -1 the caller expects that nothing has happened. `allocproc` leaves the pid it chose
in the slot it gave up, so the slot is never as before; the memory is as before exactly if it ran out
before or between the page tables of the parent.
-/

namespace Xv6

open Fallible Count

namespace Kernel

variable {p q : Slot} {k k' : Kernel} {d : PageDir}

/-- The free list, the table of shared pages and the address space of the parent are as before. -/
structure MemoryKept (p : Slot) (k k' : Kernel) : Prop where
  free : ∀ x, x ∈ k'.mem.freelist ↔ x ∈ k.mem.freelist
  shared : ∀ i, k'.mem.shared i = k.mem.shared i
  parent : k'.mm p = k.mm p

/-- The slots of the process table are as before. -/
structure SlotsKept (k k' : Kernel) : Prop where
  state : ∀ q, (k'.table q).state = (k.table q).state
  pid : ∀ q, (k'.table q).pid = (k.table q).pid
  kstack : ∀ q, (k'.mm q).kstack = (k.mm q).kstack

/-- Every slot is in use. -/
def Full (k : Kernel) : Prop := ∀ q, (k.table q).state ≠ .unused

lemma dupFiles_mem (l : List (Fin NOFILE)) :
    Ensures (dupFiles p q l k) fun k' => k'.mem = k.mem := by
  induction l generalizing k with
  | nil => exact .ok rfl
  | cons fd l ih =>
    unfold dupFiles
    split
    · exact ih
    · refine Ensures.bind (R := fun k₁ => k₁.mem = k.mem) ?_ fun k₁ hk₁ => ih.mono fun k₂ hk₂ => ?_
      · unfold filedup
        split
        · exact .error
        · exact .ok rfl
      · exact hk₂.trans hk₁

/-! ### How fork can fail -/

/-- What `fork` did after `allocproc` had taken the slot `q`. -/
inductive ForkAttempt (p q : Slot) (k k' : Kernel) : Prop
  | noStack (pages : k.mem.pages = 0) (mem : k'.mem = k.mem) (mm : p ≠ q → k'.mm p = k.mm p)
  | noCopy {y : Nat} {d : PageDir} {m₁ m₂ : Mem} (kalloc : k.mem.kalloc = (some y, m₁))
      (pgdir : (k.mm p).pgdir = some d) (copyuvm : copyuvm (k.mm p).shm d m₁ = .ok (none, m₂))
      (kfree : m₂.kfree y = .ok k'.mem) (mm : p ≠ q → k'.mm p = k.mm p)
  | copied {y : Nat} {d nd : PageDir} {m₁ : Mem} (kalloc : k.mem.kalloc = (some y, m₁))
      (pgdir : (k.mm p).pgdir = some d) (copyuvm : copyuvm (k.mm p).shm d m₁ = .ok (some nd, k'.mem))

lemma fork_attempt : Ensures (fork p k) fun r =>
    (k.Full ∧ r = (-1, k)) ∨ ∃ q, (k.table q).state = .unused ∧
      (r.2.table q).pid ≠ (k.table q).pid ∧ ForkAttempt p q k r.2 := by
  unfold fork
  split
  · exact .error
  · next t halloc => exact .ok (Or.inl ⟨allocproc_full halloc, rfl⟩)
  · next q t halloc =>
    obtain ⟨hunused, hpid⟩ := allocproc_pid halloc
    have hslot : ∀ (k₁ : Kernel) (e : Proc), e.pid = (t q).pid →
        ((k₁.setProc q e).table q).pid ≠ (k.table q).pid := by
      intro k₁ e he
      have hself : (k₁.setProc q e).table q = e := Function.update_self ..
      rw [hself, he]
      exact hpid
    split
    · next m hk =>
      obtain ⟨hempty, rfl⟩ := Mem.kalloc_none hk
      refine .ok (Or.inr ⟨q, hunused, hslot _ _ rfl, .noStack ?_ rfl fun hpq => ?_⟩)
      · exact List.length_eq_zero_iff.mpr hempty
      · exact Function.update_of_ne hpq ..
    · next y m₁ hk =>
      refine dir_ensures.bind fun d hd => ?_
      intro r hr
      obtain ⟨⟨o, m₂⟩, hcopy, hr⟩ := bind_eq_ok.mp hr
      cases o with
      | none =>
        obtain ⟨m, hfree, hr⟩ := bind_eq_ok.mp hr
        cases hr
        exact Or.inr ⟨q, hunused, hslot _ _ rfl, .noCopy hk hd hcopy hfree fun hpq =>
          Function.update_of_ne hpq ..⟩
      | some nd =>
        obtain ⟨k₁, hdup, hr⟩ := bind_eq_ok.mp hr
        cases hr
        have hmem : k₁.mem = m₂ := dupFiles_mem _ _ hdup
        have hcopied : copyuvm (k.mm p).shm d m₁ = .ok (some nd, k₁.mem) := by
          rw [hmem]
          exact hcopy
        exact Or.inr ⟨q, hunused, hslot _ _ rfl, .copied hk hd hcopied⟩

/-! ### The memory -/

/-- Whether the memory is as before depends only on where it ran out. -/
lemma ForkAttempt.memoryKept_iff (h : ForkAttempt p q k k') (hpq : p ≠ q) (hd : (k.mm p).pgdir = some d)
    (hr : CopyReady (k.mm p).shm d k.mem) (hok : d.Ok) :
    MemoryKept p k k' ↔ StopsBetween (k.mm p).shm d (k.mem.pages - 1) := by
  cases h with
  | noStack pages mem mm =>
    refine iff_of_true ⟨fun x => by rw [mem], fun i => by rw [mem], mm hpq⟩ (Or.inl ?_)
    omega
  | @noCopy y d' m₁ m₂ kalloc pgdir copyuvm kfree mm =>
    obtain rfl : d' = d := by simpa [hd] using pgdir.symm
    have hpages := Mem.pages_kalloc kalloc
    have hfree := Mem.free_kalloc kalloc
    have hy : m₁.free y = 0 := by
      have h1 := hfree y
      have h2 := hr.free_le y
      rw [one, if_pos rfl] at h1
      omega
    obtain ⟨-, hfree', hshared, -⟩ := Mem.kfree_ensures _ _ _ kfree
    rw [hpages, Nat.add_sub_cancel]
    rcases copyuvm_short (hr.kalloc kalloc) hok copyuvm with
      ⟨hstop, hsame, hshared₂⟩ | ⟨hstop, x, hx, hx'⟩
    · refine iff_of_true ⟨fun x => ?_, fun i => ?_, mm hpq⟩ hstop
      · have h1 := hfree x
        have h2 := hfree' x
        have h3 := hsame x
        rw [← Mem.free_ne_zero, ← Mem.free_ne_zero]
        omega
      · rw [hshared, hshared₂, Mem.shared_kalloc kalloc]
    · refine iff_of_false (fun hkept => ?_) hstop
      -- the lost page was free, and it is not the kernel stack
      have hxy : y ≠ x := by
        rintro rfl
        exact hx hy
      have h1 := hfree x
      have h2 := hfree' x
      have h3 := hkept.free x
      rw [one, if_neg hxy] at h1 h2
      rw [← Mem.free_ne_zero, ← Mem.free_ne_zero] at h3
      omega
  | @copied y d' nd m₁ kalloc pgdir copyuvm =>
    obtain rfl : d' = d := by simpa [hd] using pgdir.symm
    have hpages := Mem.pages_kalloc kalloc
    rw [hpages, Nat.add_sub_cancel]
    refine iff_of_false (fun hkept => ?_)
      (not_stopsBetween (by have := copyuvm_pages copyuvm; omega))
    -- the page of the child's kernel stack is no longer free
    have hcopied := (copyuvm_ensures (hr.kalloc kalloc) _ copyuvm).1 _ rfl
    have h1 := Mem.free_kalloc kalloc y
    have h2 := hr.free_le y
    have h3 := hcopied.copying.free_le y
    have h4 := hkept.free y
    rw [one, if_pos rfl] at h1
    rw [← Mem.free_ne_zero, ← Mem.free_ne_zero] at h4
    dsimp only at h3
    omega

/-- If `fork` returns -1, then all is as before exactly if there was no unused slot. Of the memory this
can be said more often: it is as before if there was no unused slot, no memory for the kernel stack and
the kernel part of the directory, or if memory ran out between two page tables of the parent. -/
theorem failing_fork_neutral_iff (h : fork p k = .ok (-1, k')) :
    (MemoryKept p k k' ∧ SlotsKept k k' ↔ k.Full) ∧
    ∀ d, (k.mm p).pgdir = some d → k.Live p → CopyReady (k.mm p).shm d k.mem → d.Ok →
      (MemoryKept p k k' ↔ k.Full ∨ StopsBetween (k.mm p).shm d (k.mem.pages - 1)) := by
  rcases fork_attempt _ h with ⟨hfull, heq⟩ | ⟨q, hunused, hpid, hatt⟩
  · cases heq
    have hmem : MemoryKept p k k := ⟨fun _ => Iff.rfl, fun _ => rfl, rfl⟩
    exact ⟨iff_of_true ⟨hmem, fun _ => rfl, fun _ => rfl, fun _ => rfl⟩ hfull,
      fun d _ _ _ _ => iff_of_true hmem (Or.inl hfull)⟩
  · have hfull : ¬ k.Full := fun hfull => hfull q hunused
    refine ⟨iff_of_false (fun hkept => hpid (hkept.2.pid q)) hfull, fun d hd hlive hr hok => ?_⟩
    have hpq : p ≠ q := by
      rintro rfl
      exact hlive hunused
    rw [hatt.memoryKept_iff hpq hd hr hok, or_iff_right hfull]

lemma copyReady_zeroMem {l : List Nat} (hok : d.Ok) (hl : l.Nodup)
    (h : ∀ v, (d.entry v).present = true → (d.entry v).ppn ∉ l) :
    CopyReady ⟨none, 0⟩ d { zeroMem with freelist := l } :=
  ⟨fun v hv => (hok v hv).not_both, fun v _ hp => Mem.free_eq_zero.mpr (h v hp),
    fun x => List.nodup_iff_count_le_one.mp hl x, zeroMem_sharedOk, fun hidx => absurd rfl hidx⟩

lemma gapDir_copyReady {a : Nat} (ha : 304 ≤ a) (n : Nat) :
    CopyReady ⟨none, 0⟩ gapDir { zeroMem with freelist := List.range' a n } := by
  refine copyReady_zeroMem gapDir_ok List.nodup_range' fun v hp h => ?_
  have hle := ha.trans (List.mem_range'_1.mp h).1
  rcases gapDir_present hp with rfl | rfl
  · exact absurd hle (by decide)
  · exact absurd hle (by decide)

/-- `fork` when `copyuvm` fails. -/
lemma fork_noCopy {t : PTable} {y : Nat} {m₁ m₂ m₃ : Mem} (halloc : allocproc k.table = .ok (some q, t))
    (hk : k.mem.kalloc = (some y, m₁)) (hd : (k.mm p).pgdir = some d)
    (hcopy : copyuvm (k.mm p).shm d m₁ = .ok (none, m₂)) (hfree : m₂.kfree y = .ok m₃) :
    ∃ k', fork p k = .ok (-1, k') ∧ k'.mem = m₃ ∧ k'.table q = { t q with state := .unused } := by
  have hdir : k.dir p = .ok d := by
    unfold dir
    rw [hd]
  unfold fork
  rw [halloc]
  simp only [hk, hdir, hcopy, hfree, bind, Except.bind]
  exact ⟨_, rfl, rfl, Function.update_self ..⟩

/-- A process forks with memory for the kernel stack and the kernel part of the directory, but not
for the copy of its pages. -/
lemma fork_short {n : Nat} (sz : Nat) (hn : 65 ≤ n) (hlt : n < 65 + copyNeedsBelow ⟨none, 0⟩ d 512)
    (hready : CopyReady ⟨none, 0⟩ d { zeroMem with freelist := List.range' 1025 n })
    (hmax : n < 50000) : ∃ k' m₂,
      fork 0 (lone d sz ⟨none, 0⟩ { zeroMem with freelist := List.range' 1024 (n + 1) }) =
        .ok (-1, k') ∧
      copyuvm ⟨none, 0⟩ d { zeroMem with freelist := List.range' 1025 n } = .ok (none, m₂) ∧
      k'.mem.freelist = 1024 :: m₂.freelist ∧ k'.table 1 = ⟨.unused, 2, none, none, false⟩ := by
  have hin : ∀ x ∈ List.range' 1025 n,
      Mem.InRange { zeroMem with freelist := List.range' 1025 n } x := by
    intro x hx
    have := List.mem_range'_1.mp hx
    exact ⟨show 280 ≤ x by omega, show x < 57344 by omega⟩
  have hpages : Mem.pages { zeroMem with freelist := List.range' 1025 n } = n := List.length_range'
  obtain ⟨⟨r, m₂⟩, hcopy⟩ := copyuvm_returns hready rfl (by omega) hin
  cases r with
  | some nd =>
    have := copyuvm_pages hcopy
    omega
  | none =>
    have hlost := (copyuvm_ensures hready _ hcopy).2 rfl (Or.inl rfl)
    have hrange : m₂.InRange 1024 := by
      unfold Mem.InRange
      rw [hlost.layout]
      exact ⟨show 280 ≤ 1024 by decide, show 1024 < 57344 by decide⟩
    obtain ⟨k', hk', hmem, htable⟩ := fork_noCopy (p := 0) (q := 1)
      (k := lone d sz ⟨none, 0⟩ { zeroMem with freelist := List.range' 1024 (n + 1) })
      rfl rfl rfl hcopy (Mem.kfree_eq_ok hrange)
    exact ⟨k', m₂, hk', hcopy, by rw [hmem], by rw [htable]; rfl⟩

/-- With a full table `fork` changes nothing. With memory for the first page table but not for the
next one, it leaves the memory as it was, but not the slot. -/
theorem failing_fork_neutral_full :
    (∃ k', fork 0 { lone firstMapped PGSIZE ⟨none, 0⟩ zeroMem with
        table := fun _ => ⟨.running, 1, none, none, false⟩ } = .ok (-1, k') ∧
      MemoryKept 0 { lone firstMapped PGSIZE ⟨none, 0⟩ zeroMem with
        table := fun _ => ⟨.running, 1, none, none, false⟩ } k' ∧
      SlotsKept { lone firstMapped PGSIZE ⟨none, 0⟩ zeroMem with
        table := fun _ => ⟨.running, 1, none, none, false⟩ } k') ∧
    ∃ k', fork 0 (lone gapDir (2049 * PGSIZE) ⟨none, 0⟩
        { zeroMem with freelist := List.range' 1024 68 }) = .ok (-1, k') ∧
      (k'.table 1).pid = 2 ∧ MemoryKept 0 (lone gapDir (2049 * PGSIZE) ⟨none, 0⟩
        { zeroMem with freelist := List.range' 1024 68 }) k' := by
  refine ⟨⟨_, rfl, (failing_fork_neutral_iff rfl).1.mpr fun _ => by simp⟩, ?_⟩
  have hneeds : copyNeedsBelow ⟨none, 0⟩ gapDir 512 = 4 := by decide +kernel
  have hfirst : copyNeedsBelow ⟨none, 0⟩ gapDir 2 = 2 := by decide +kernel
  obtain ⟨k', m₂, hfork, -, -, htable⟩ := fork_short (2049 * PGSIZE) (show 65 ≤ 67 by decide)
    (by omega) (gapDir_copyReady (by decide) 67) (by decide)
  have hpages : (lone gapDir (2049 * PGSIZE) ⟨none, 0⟩
      { zeroMem with freelist := List.range' 1024 68 }).mem.pages = 68 := List.length_range'
  refine ⟨k', hfork, by rw [htable], ((failing_fork_neutral_iff hfork).2 gapDir rfl
    (by simp [Live, lone]) (gapDir_copyReady (by decide) 68) gapDir_ok).mpr (Or.inr ?_)⟩
  rw [hpages]
  exact show StopsBetween ⟨none, 0⟩ gapDir 67 from Or.inr ⟨2, by decide, rfl, by omega⟩

/-- A process of one page forks with 67 free pages. They suffice for the kernel stack, the kernel part
of the directory and the page table, but not for a copy of the page. `fork` returns -1, the page of the
page table is lost, and the pid that was chosen stays in the unused slot. -/
theorem failing_fork_loses_page :
    ∃ k', fork 0 (lone firstMapped PGSIZE ⟨none, 0⟩
        { zeroMem with freelist := List.range' 1024 67 }) = .ok (-1, k') ∧
      (∃ x ∈ List.range' 1024 67, x ∉ k'.mem.freelist) ∧
      (k'.table 1).state = .unused ∧ (k'.table 1).pid = 2 := by
  have hready : CopyReady ⟨none, 0⟩ firstMapped
      { zeroMem with freelist := List.range' 1025 66 } := by
    refine copyReady_zeroMem firstMapped_ok List.nodup_range' fun v hp h => ?_
    rw [firstMapped_entry] at hp h
    split_ifs at hp h
    exact absurd (List.mem_range'_1.mp h).1 (by decide)
  have hneeds : copyNeedsBelow ⟨none, 0⟩ firstMapped 512 = 2 := by decide +kernel
  have hfirst : copyNeeds ⟨none, 0⟩ firstMapped 0 = 2 := by decide +kernel
  obtain ⟨k', m₂, hfork, hcopy, hlist, htable⟩ :=
    fork_short PGSIZE (by decide) (by omega) hready (by decide)
  refine ⟨k', hfork, ?_, by rw [htable], by rw [htable]⟩
  have hpages : Mem.pages { zeroMem with freelist := List.range' 1025 66 } = 66 := List.length_range'
  have hstop := stopsBetween_iff (c := ⟨none, 0⟩) (d := firstMapped) (i := 0) (k := 1) (n := 66)
    (by decide) rfl rfl (by omega)
  rcases copyuvm_short hready firstMapped_ok hcopy with ⟨h, -⟩ | ⟨-, x, hx, hx'⟩
  · rw [hpages, hstop] at h
    cases h
  · have hmem := List.mem_range'_1.mp (Mem.free_ne_zero.mp hx)
    refine ⟨x, List.mem_range'_1.mpr (by omega), ?_⟩
    rw [hlist, List.mem_cons]
    rintro (rfl | h)
    · omega
    · exact Mem.free_eq_zero.mp hx' h

end Kernel

end Xv6
