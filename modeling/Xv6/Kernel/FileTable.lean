import Xv6.Kernel.FileRefs

/-!
# The file table in every run

Every action of the kernel keeps the books of the file table, those of `FileRefs`, with no reference held
between system calls. So a reference count is the number of descriptors, the ends of pipes are open as
long as they have a file, and neither `filedup` nor `fileclose` ever panics.
-/

namespace Xv6

namespace Kernel

open Fallible Count TransitionSystem

variable {k k' : Kernel} {p q : Slot} {f : Fin NFILE} {x y : Nat} {w : Bool} {a : Action}
  {c : ShmField} {d : PageDir} {m : Mem}

/-! ### No file panics -/

lemma mappages_avoids {perm : Perm} {n v pa : Nat} : Avoids (mappages perm n d v pa m) FileFault := by
  induction n generalizing d v pa m with
  | zero => exact .ok
  | succ n ih =>
    unfold mappages
    split
    · exact .ok
    · split
      · exact .error (by decide)
      · exact ih

lemma mapKernel_avoids (l : List KMap) : Avoids (mapKernel l d m) FileFault := by
  induction l generalizing d m with
  | nil => exact .ok
  | cons k l ih =>
    unfold mapKernel
    split
    · next e he => exact .error (mappages_avoids e he)
    · exact .ok
    · exact ih

lemma copyuvm_avoids : Avoids (copyuvm c d m) FileFault := by
  refine Avoids.bind ?_ fun r _ => ?_
  · unfold setupkvm
    split
    · exact .ok
    · split
      · exact .error (by decide)
      · refine (mapKernel_avoids _).bind fun r _ => ?_
        dsimp only
        split
        · exact .pure
        · exact (freevm_avoids (by decide) (by decide)).bind fun _ _ => .pure
  · split
    · exact .pure
    · split
      · exact .pure
      · exact (freevm_avoids (by decide) (by decide)).bind fun _ _ => .pure

lemma allocproc_avoids {t : PTable} : Avoids (allocproc t) FileFault := by
  have hmark : ∀ (t : PTable) (l : List Slot) (pids : Slot → Bool),
      Avoids (markPids t l pids) FileFault := by
    intro t l
    induction l with
    | nil => exact fun _ => .ok
    | cons i l ih =>
      intro pids
      unfold markPids
      split
      · exact ih _
      · next e he =>
        unfold markPid at he
        split_ifs at he
        cases he
        exact .error (by decide)
  unfold allocproc
  split
  · exact .ok
  · split
    · exact .ok
    · next e he =>
      unfold getSmallestPid at he
      split at he
      · cases he
      · next e' he' =>
        cases he
        exact .error (hmark _ _ _ _ he')

lemma sysClose_avoids {fd : Fin NOFILE} (h : Books [] k) : Avoids (sysClose p fd k) FileFault := by
  unfold sysClose
  split
  · exact .ok
  · next f hf => exact (fileclose_avoids (h.setFd_none hf).held_pos).bind fun _ _ => .ok

lemma sysOpen_avoids {readable writable : Bool} (h : Books [] k) :
    Avoids (sysOpen p readable writable k) FileFault := by
  unfold sysOpen
  split
  · exact .ok
  · next f k₁ h₁ =>
    split
    · next k₂ h₂ =>
      rw [fdalloc_none h₂]
      exact (fileclose_avoids (filealloc_books h h₁).1.held_pos).bind fun _ _ => .ok
    · exact .ok

lemma sysDup_avoids {fd : Fin NOFILE} (h : Books [] k) : Avoids (sysDup p fd k) FileFault := by
  unfold sysDup
  split
  · exact .ok
  · next f hf =>
    split
    · exact .ok
    · next fd' k₁ h₁ =>
      obtain ⟨-, rfl⟩ := fdalloc_some h₁
      have href : ((k.setFd p fd' (some f)).file f).ref ≠ 0 := h.ref_pos hf
      exact (filedup_avoids href).bind fun _ _ => .ok

/-- Closing two held files. -/
lemma fileclose_two_avoids {rf wf : Fin NFILE} {g : Kernel → Except Fault (Int × Kernel)}
    (h : Books [rf, wf] k) (hg : ∀ k', Avoids (g k') FileFault) :
    Avoids (do
      let k ← fileclose rf k
      let k ← fileclose wf k
      g k) FileFault :=
  (fileclose_avoids h.held_pos).bind fun k₁ hk₁ =>
    (fileclose_avoids (fileclose_books h k₁ hk₁).held_pos).bind fun k₂ _ => hg k₂

lemma pipealloc_avoids (h : Books [] k) : Avoids (pipealloc k) FileFault := by
  unfold pipealloc
  split
  · exact .ok
  · next f₀ k₁ h₁ =>
    have hb₁ := (filealloc_books h h₁).1
    split
    · next k₂ h₂ =>
      rw [filealloc_none h₂]
      exact (fileclose_avoids hb₁.held_pos).bind fun _ _ => .ok
    · next f₁ k₂ h₂ =>
      have hb₂ : Books [f₀, f₁] k₂ := (filealloc_books hb₁ h₂).1.perm (List.Perm.swap ..)
      split
      · next m hm =>
        rw [setMem_kalloc_none hm]
        exact (fileclose_avoids hb₂.held_pos).bind fun k₃ hk₃ =>
          (fileclose_avoids (fileclose_books hb₂ k₃ hk₃).held_pos).bind fun _ _ => .ok
      · exact .ok

lemma sysPipe_avoids (h : Books [] k) : Avoids (sysPipe p k) FileFault := by
  refine (pipealloc_avoids h).bind fun r hr => ?_
  obtain ⟨-, hsome, -⟩ := pipealloc_books p h r hr
  rcases r with ⟨_ | ⟨rf, wf⟩, k₁⟩
  · exact .ok
  · have hb : Books [rf, wf] k₁ := hsome rf wf rfl
    dsimp only
    split
    · next k₂ h₂ =>
      rw [fdalloc_none h₂]
      exact fileclose_two_avoids hb fun _ => .ok
    · next fd₀ k₂ h₂ =>
      obtain ⟨hfd₀, rfl⟩ := fdalloc_some h₂
      split
      · next k₃ h₃ =>
        rw [fdalloc_none h₃]
        have hfd : ((k₁.setFd p fd₀ (some rf)).mm p).ofile fd₀ = some rf := by
          rw [setFd_ofile, if_pos ⟨rfl, rfl⟩]
        exact fileclose_two_avoids ((hb.setFd_some hfd₀).setFd_none hfd) fun _ => .ok
      · exact .ok

lemma exit_avoids (h : Books [] k) : Avoids (exit p k) FileFault := by
  unfold exit
  split
  · exact .error (by decide)
  · exact (closeFiles_avoids _ h).bind fun _ _ => .ok

/-! ### Every action keeps the books -/

/-- Descriptors, files and pipes are as before, and no process has stopped. -/
structure KeepsFiles (k k' : Kernel) : Prop where
  file : k'.file = k.file
  pipe : k'.pipe = k.pipe
  ofile : ∀ q, (k'.mm q).ofile = (k.mm q).ofile
  dead : ∀ q, Dead (k'.table q).state → Dead (k.table q).state

lemma KeepsFiles.books {held : List (Fin NFILE)} (h : KeepsFiles k k') (hb : Books held k) :
    Books held k' := hb.congr h.file h.pipe h.ofile

lemma keepsFiles_table {t : PTable} (ht : ∀ q, Dead (t q).state → Dead (k.table q).state) :
    KeepsFiles k { k with table := t } := ⟨rfl, rfl, fun _ => rfl, ht⟩

lemma keepsFiles_setMm {u : Mm} (hu : u.ofile = (k.mm p).ofile) :
    KeepsFiles k { k.setMm p u with mem := m } := by
  refine ⟨rfl, rfl, fun q => ?_, fun _ => id⟩
  show ((k.setMm p u).mm q).ofile = _
  rw [setMm_mm]
  split_ifs with hq
  · rw [hu, hq]
  · rfl

/-- One process goes on to another state. -/
lemma dead_update {t : PTable} {e : Proc} (he : Dead e.state → Dead (t p).state) :
    ∀ q, Dead (Function.update t p e q).state → Dead (t q).state := by
  intro q hq
  by_cases hqp : q = p
  · subst hqp
    rw [Function.update_self] at hq
    exact he hq
  · rwa [Function.update_of_ne hqp] at hq

lemma not_dead_running : ¬ Dead .running := by
  rintro (h | h) <;> cases h

/-- No reference is held, and a process that can no longer run has no open file. -/
structure Filed (k : Kernel) : Prop where
  isPrivate : k.Private
  books : Books [] k
  closed : ∀ q, Dead (k.table q).state → ∀ fd, (k.mm q).ofile fd = none

lemma fork_avoids (h : k.Filed) : Avoids (fork p k) FileFault := by
  unfold fork
  split
  · next e he => exact .error (allocproc_avoids e he)
  · exact .ok
  · next q t halloc =>
    split
    · exact .ok
    · next y m₁ hk =>
      refine Avoids.bind ?_ fun d hd => copyuvm_avoids.bind fun r _ => ?_
      · unfold dir
        split
        · exact .ok
        · exact .error (by decide)
      · split
        · exact (kfree_avoids (by decide) _ _).bind fun _ _ => .ok
        · next nd m _ =>
          have hkeep : KeepsFiles k { k.setMm q { k.mm q with
              kstack := some y, pgdir := some nd, sz := (k.mm p).sz, shm := (k.mm p).shm } with
              mem := m } := keepsFiles_setMm rfl
          refine Avoids.bind (dupFiles_books _ (List.nodup_finRange _) (hkeep.books h.books) ?_).2
            fun _ _ => .ok
          intro fd _
          rw [hkeep.ofile]
          exact h.closed q (Or.inl (allocproc_unused halloc)) fd

/-- The books are kept by what leaves the files alone. -/
lemma Filed.keep (h : k.Filed) (hk : KeepsFiles k k') (hp : k'.Private) : k'.Filed :=
  ⟨hp, hk.books h.books, fun q hq fd => by
    rw [hk.ofile]
    exact h.closed q (hk.dead q hq) fd⟩

/-- A process that is running changes its descriptors. -/
lemma Filed.of_filesOf (h : k.Filed) (hp : (k.table p).state = .running) (hb : Books [] k')
    (hof : FilesOf p k k') (hpriv : k'.Private) : k'.Filed := by
  refine ⟨hpriv, hb, fun q hq fd => ?_⟩
  have hdead := hof.dead q hq
  have hqp : q ≠ p := by
    rintro rfl
    rw [hp] at hdead
    exact not_dead_running hdead
  rw [hof.others q hqp]
  exact h.closed q hdead fd

/-- A process that exits closes all its files. -/
lemma exit_books (hb : Books [] k) (hc : ∀ q, Dead (k.table q).state → ∀ fd, (k.mm q).ofile fd = none) :
    Ensures (exit p k) fun r => Books [] r.2 ∧
      ∀ q, Dead (r.2.table q).state → ∀ fd, (r.2.mm q).ofile fd = none := by
  unfold exit
  split
  · exact .error
  · refine (closeFiles_books _ hb).bind ?_
    rintro k₁ ⟨hb₁, hof, hall⟩
    refine .ok ⟨hb₁.congr rfl rfl fun _ => rfl, fun q hq fd => ?_⟩
    by_cases hqp : q = p
    · subst hqp
      exact hall fd (Or.inl (List.mem_finRange fd))
    · show (k₁.mm q).ofile fd = none
      rw [hof.others q hqp]
      exact hc q (hof.dead q (dead_exitTable hqp hq)) fd

/-- The child has the open files of its parent, and no pipe has changed. -/
lemma Forked.filed (hf : Forked p k k') (h : k.Filed) (hpriv : k'.Private) :
    k'.Filed ∧ k'.pipe = k.pipe := by
  -- the slot of the child is filled in, with the descriptors that it has
  have hslot : ∀ {q : Slot} {u : Mm} {e : Proc} {m : Mem}, ¬ k.Live q → u.ofile = (k.mm q).ofile →
      KeepsFiles k { (k.setMm q u).setProc q e with mem := m } := by
    intro q u e m hq hu
    obtain ⟨h1, h2, h3, -⟩ := keepsFiles_setMm (m := m) hu
    exact ⟨h1, h2, h3, dead_update fun _ => Or.inl (not_not.mp hq)⟩
  cases hf with
  | full => exact ⟨h, rfl⟩
  | noStack dead unused ofile => exact ⟨h.keep (hslot (m := k.mem) dead ofile) hpriv, rfl⟩
  | noCopy dead unused _ _ _ _ ofile => exact ⟨h.keep (hslot dead ofile) hpriv, rfl⟩
  | @spawned q u e y d nd m₁ m _ dead runnable _ _ _ _ _ ofile dup =>
    have hkeep : KeepsFiles k { (k.setMm q u).setProc q e with mem := m } := hslot dead ofile
    have hnone : ∀ fd, (k.mm q).ofile fd = none := h.closed q (Or.inl (not_not.mp dead))
    obtain ⟨hb, hpipe, hof⟩ := (dupFiles_books _ (List.nodup_finRange _) (hkeep.books h.books)
      (fun fd _ => by rw [hkeep.ofile]; exact hnone fd)).1 _ dup
    refine ⟨⟨hpriv, hb, fun r hr fd => ?_⟩, hpipe⟩
    have hdead := hof.dead r hr
    have hrq : r ≠ q := by
      rintro rfl
      simp only [setProc, Function.update_self, runnable] at hdead
      rcases hdead with h | h <;> cases h
    rw [hof.others r hrq, hkeep.ofile]
    exact h.closed r (hkeep.dead r hdead) fd

lemma dead_kill {pid : Int} {t : PTable} (h : Dead ((kill pid t).2 q).state) : Dead (t q).state := by
  unfold kill at h
  split at h
  · exact h
  · refine dead_update (fun he => ?_) q h
    dsimp only at he
    split_ifs at he with hs
    · rcases he with h | h <;> cases h
    · exact he

/-- The runs of the files: everything but `shm_open`. -/
lemma Filed.step (h : k.Filed) (hs : Step (fun a => ∀ p, a ≠ .shmOpen p) k a k') : k'.Filed := by
  have hpriv := h.isPrivate.step hs
  obtain ⟨hops, ⟨hcaller, hrun⟩, r, hr⟩ := hs
  cases a with
  | run p =>
    have hr : run p k = .ok (r, k') := hr
    unfold run at hr
    split at hr
    · cases hr
    · cases hr
    · cases hr
      exact h.keep (keepsFiles_table (dead_update fun he => absurd he not_dead_running)) hpriv
  | yield p =>
    cases hr
    refine h.keep (keepsFiles_table (dead_update fun he => ?_)) hpriv
    rcases he with he | he <;> cases he
  | sleep p addr =>
    cases hr
    refine h.keep (keepsFiles_table (dead_update fun he => ?_)) hpriv
    rcases he with he | he <;> cases he
  | wakeup addr =>
    cases hr
    exact h.keep (keepsFiles_table fun _ => dead_wakeup1) hpriv
  | kill pid =>
    cases hr
    exact h.keep (keepsFiles_table fun _ => dead_kill) hpriv
  | fork p => exact ((fork_ensures _ hr).filed h hpriv).1
  | exit p =>
    obtain ⟨hb, hclosed⟩ := exit_books h.books h.closed _ hr
    exact ⟨hpriv, hb, hclosed⟩
  | wait p =>
    cases wait_ensures (hcaller p rfl) _ hr with
    | noChildren => exact h
    | block =>
      refine h.keep (keepsFiles_table (dead_update fun he => ?_)) hpriv
      rcases he with he | he <;> cases he
    | @reaped z _ _ _ m scan =>
      obtain ⟨h1, h2, h3, -⟩ := keepsFiles_setMm (k := k) (p := z) (m := m)
        (u := { k.mm z with kstack := none }) rfl
      exact h.keep ⟨h1, h2, h3, dead_update fun _ => Or.inr (waitScan_reaped scan).2⟩ hpriv
  | exec p file argv =>
    cases exec_ensures _ hr with
    | noFile => exact h
    | failed => exact h.keep ⟨rfl, rfl, fun _ => rfl, fun _ => id⟩ hpriv
    | loaded => exact h.keep (keepsFiles_setMm rfl) hpriv
  | sbrk p n =>
    cases sbrk_ensures _ hr with
    | zero => exact h
    | grown => exact h.keep (keepsFiles_setMm rfl) hpriv
    | shrunk => exact h.keep (keepsFiles_setMm rfl) hpriv
  | mmap p start n =>
    cases mmap_ensures _ hr with
    | refused => exact h
    | mapped => exact h.keep (keepsFiles_setMm rfl) hpriv
  | munmap p start n =>
    cases munmap_ensures _ hr with
    | refused => exact h
    | unmapped => exact h.keep (keepsFiles_setMm rfl) hpriv
  | fault p addr =>
    cases fault_ensures (by simp [Live, hcaller p rfl]) _ hr with
    | handled => exact h.keep (keepsFiles_setMm rfl) hpriv
    | @exited d d' m _ _ _ _ _ exits =>
      obtain ⟨r', hexit⟩ := exits
      have hkeep : KeepsFiles k (k.setDir p d' m) := keepsFiles_setMm rfl
      obtain ⟨hb, hclosed⟩ := exit_books (hkeep.books h.books) (fun q hq fd => by
        rw [hkeep.ofile]
        exact h.closed q (hkeep.dead q hq) fd) _ hexit
      exact ⟨hpriv, hb, hclosed⟩
  | shmOpen p => exact absurd rfl (hops p)
  | shmGet p =>
    cases hr
    exact h
  | shmClose p =>
    cases shmClose_ensures _ hr with
    | same => exact h
    | notFound => exact h
    | closed => exact h.keep (keepsFiles_setMm rfl) hpriv
  | pipe p =>
    obtain ⟨hb, hof⟩ := sysPipe_books h.books _ hr
    exact h.of_filesOf (hcaller p rfl) hb hof hpriv
  | «open» p readable writable =>
    obtain ⟨hb, hof⟩ := sysOpen_books h.books _ hr
    exact h.of_filesOf (hcaller p rfl) hb hof hpriv
  | dup p fd =>
    obtain ⟨hb, hof⟩ := sysDup_books h.books _ hr
    exact h.of_filesOf (hcaller p rfl) hb hof hpriv
  | close p fd =>
    obtain ⟨hb, hof⟩ := sysClose_books h.books _ hr
    exact h.of_filesOf (hcaller p rfl) hb hof hpriv

/-! ### Pages of pipes -/

/-- The page of a pipe remains one, or goes to the free list. -/
lemma Filed.step_pipeUses (h : k.Filed) (hs : Step (fun a => ∀ p, a ≠ .shmOpen p) k a k') (x : Nat) :
    k.pipeUses x ≤ k'.mem.free x + k'.pipeUses x := by
  have hsound := h.isPrivate.sound
  have hsame : ∀ {k' : Kernel}, k'.pipe = k.pipe → k.pipeUses x ≤ k'.mem.free x + k'.pipeUses x := by
    intro k' hpipe
    unfold pipeUses
    rw [hpipe]
    exact Nat.le_add_left _ _
  have hmoved : ∀ {k₁ k' : Kernel}, k₁.pipe = k.pipe → k₁.Sound → Harmless k₁ k' →
      k.pipeUses x ≤ k'.mem.free x + k'.pipeUses x := by
    intro k₁ k' hpipe hs hh
    rw [hh.pages hs x]
    unfold pipeUses
    rw [hpipe]
    exact Nat.le_add_left _ _
  have hops := hs.1
  have hpriv := h.isPrivate.step hs
  cases hs.outcome with
  | harmless hh => exact hmoved rfl hsound hh
  | fork live hf => exact hsame (hf.filed h hpriv).2
  | exec live _ he => cases he <;> exact hsame rfl
  | wait live hw =>
    cases hw with
    | noChildren => exact hsame rfl
    | block _ hh => exact hmoved rfl hsound hh
    | reaped => exact hsame rfl
  | sbrk live hb => cases hb <;> exact hsame rfl
  | mmap live hm => cases hm <;> exact hsame rfl
  | munmap live hm => cases hm <;> exact hsame rfl
  | fault live hf =>
    cases hf with
    | handled => exact hsame rfl
    | @exited d d' m _ pgdir pageFault hh _ _ =>
      have hidx := congrArg ShmField.idx (h.isPrivate.shm live)
      exact @hmoved (k.setDir _ d' m) _ rfl (hsound.pageFault live hidx pgdir pageFault) hh
  | @shmOpen p _ live ho => exact absurd rfl (hops p)
  | shmClose live hc => cases hc <;> exact hsame rfl

/-- A file refers to the pipe in page `x`. -/
def HasPipe (k : Kernel) (x : Nat) : Prop := ∃ f w, k.IsEnd f x w

lemma Filed.hasPipe_iff (h : k.Filed) : k.HasPipe x ↔ k.pipeUses x = 1 := by
  rw [pipeUses_eq_one_iff]
  constructor
  · rintro ⟨f, w, hf⟩
    refine ⟨w, ?_⟩
    have := h.isPrivate.sound.pipes.opened f hf.1
    rwa [hf.2.1, hf.2.2] at this
  · rintro ⟨w, hw⟩
    obtain ⟨f, hf⟩ := h.books.ends x w hw
    exact ⟨f, w, hf⟩

/-- What holds of the file table between system calls: counts are the numbers of descriptors, free
entries have type FD_NONE, the ends of a pipe are open exactly if they have a file, and the page of a
pipe with a file is not free. -/
structure FilesSound (k : Kernel) : Prop where
  ref : ∀ f, (k.file f).ref = k.slots f
  unused : ∀ f, (k.file f).ref = 0 → (k.file f).type = .none
  ends : ∀ x w, (k.pipe x).isOpen w = true ↔ ∃ f, (k.file f).ref ≠ 0 ∧ k.IsEnd f x w
  notFree : ∀ x, k.HasPipe x → x ∉ k.mem.freelist

/-- The page of a pipe that loses its last file goes to the free list, where it was not, once. -/
def PipesFreed (k k' : Kernel) : Prop :=
  ∀ x, k.HasPipe x → ¬ k'.HasPipe x → k.mem.freelist.count x = 0 ∧ k'.mem.freelist.count x = 1

lemma Filed.free_add_le (h : k.Filed) (x : Nat) : k.mem.free x + k.pipeUses x ≤ 1 := by
  have hle := h.isPrivate.sound.owned.places_le_one (h.isPrivate.shmRef x)
  unfold places at hle
  omega

lemma Filed.filesSound (h : k.Filed) : k.FilesSound := by
  refine ⟨fun f => ?_, h.books.unused, fun x w => ⟨fun hw => ?_, ?_⟩, fun x hx => ?_⟩
  · rw [h.books.ref f, List.count_nil, Nat.add_zero]
  · obtain ⟨f, hf⟩ := h.books.ends x w hw
    refine ⟨f, fun h0 => ?_, hf⟩
    exact h.isPrivate.sound.pipes.unused f h0 hf.1
  · rintro ⟨f, -, hf⟩
    have := h.isPrivate.sound.pipes.opened f hf.1
    rwa [hf.2.1, hf.2.2] at this
  · have h1 := h.hasPipe_iff.mp hx
    have h2 := h.free_add_le x
    exact List.count_eq_zero.mp (by unfold Mem.free at h2; omega)

lemma Filed.pipesFreed (h : k.Filed) (hs : Step (fun a => ∀ p, a ≠ .shmOpen p) k a k') :
    PipesFreed k k' := by
  intro x hx hx'
  have h1 := h.hasPipe_iff.mp hx
  have h2 := h.free_add_le x
  have h3 := h.step_pipeUses hs x
  have h4 := (h.step hs).free_add_le x
  have h5 : k'.pipeUses x ≠ 1 := fun hne => hx' ((h.step hs).hasPipe_iff.mpr hne)
  unfold Mem.free at h2 h3 h4
  omega

lemma Booted.filed (h : k.Booted) : k.Filed := by
  refine ⟨h.isPrivate, ⟨fun f => ?_, fun f _ => ?_, fun x w hx => ?_⟩, fun q _ fd => h.ofile q fd⟩
  · have hslots : k.slots f = 0 := by simp [slots, ofiles, h.ofile]
    rw [h.file, hslots, List.count_nil]
  · rw [h.file]
  · rw [h.pipe] at hx
    cases w <;> cases hx

/-- The system calls that take and drop references to files. -/
def Action.OnFiles : Action → Prop
  | .open _ _ _ | .close _ _ | .dup _ _ | .pipe _ | .fork _ | .exit _ => True
  | _ => False

lemma Filed.avoids (h : k.Filed) (ha : a.OnFiles) : Avoids (k.perform a) FileFault := by
  cases a with
  | «open» p readable writable => exact sysOpen_avoids h.books
  | close p fd => exact sysClose_avoids h.books
  | dup p fd => exact sysDup_avoids h.books
  | pipe p => exact sysPipe_avoids h.books
  | fork p => exact fork_avoids h
  | exit p => exact exit_avoids h.books
  | _ => exact absurd ha id

/-- In a run from boot without `shm_open`, the file table is sound in every state; in the last one, and
so in every one, no system call on files panics in `filedup` or `fileclose`, and the next step frees the
pages of the pipes that lose their last file. -/
theorem filesSound_run {l : Layout} {ncpu : Nat} {initcode : List UInt8}
    {bytes : Nat → Nat → UInt8} {k₀ : Kernel} {tr : List (Kernel × Action)}
    (hboot : boot l ncpu initcode bytes = .ok k₀)
    (hr : Run (Step fun a => ∀ p, a ≠ .shmOpen p) k₀ tr k) :
    AllStates FilesSound tr k ∧
      (∀ a e, a.OnFiles → k.perform a = .error e →
        e ≠ .panic "filedup" ∧ e ≠ .panic "fileclose") ∧
      ∀ a k', Step (fun a => ∀ p, a ≠ .shmOpen p) k a k' → PipesFreed k k' := by
  have hinv := hr.invariant (fun _ _ _ h hs => h.step hs) (boot_ensures k₀ hboot).filed
  refine ⟨hinv.mono fun _ h => h.filesSound, fun a e ha he => ?_, fun a k' hs => hinv.2.pipesFreed hs⟩
  exact not_or.mp (hinv.2.avoids ha e he)

lemma sysOpen_succeeds (readable writable : Bool) {fd : Fin NOFILE}
    (h : (k.mm p).ofile fd = none) : ∃ r, sysOpen p readable writable k = .ok r := by
  unfold sysOpen
  split
  · exact ⟨_, rfl⟩
  · next f k₁ h₁ =>
    split
    · next k₂ h₂ =>
      have hmm : k₁.mm = k.mm := by
        obtain ⟨-, rfl⟩ := filealloc_some h₁
        rfl
      unfold fdalloc at h₂
      split at h₂
      · cases h₂
      · next hnone =>
        have := List.find?_eq_none.mp hnone fd (List.mem_finRange fd)
        rw [hmm, h] at this
        exact absurd rfl this
    · exact ⟨_, rfl⟩

/-- The first process opens a file. -/
theorem filesSound_after_open :
    ∃ k₀ tr k, boot smallLayout 1 [] (fun _ _ => 0) = .ok k₀ ∧
      Run (Step fun a => ∀ p, a ≠ .shmOpen p) k₀ tr k ∧ tr.length = 2 ∧ AllStates FilesSound tr k := by
  obtain ⟨k₀, hboot⟩ := boot_smallLayout
  have hb := boot_ensures k₀ hboot
  have hrun := hb.step_run (fun a => ∀ p, a ≠ .shmOpen p) fun p hp => by cases hp
  obtain ⟨⟨r, k₁⟩, hopen⟩ := sysOpen_succeeds (k := k₀.started)
    (p := k₀.initproc) true false (hb.ofile k₀.initproc ⟨0, by decide⟩)
  have hstep : Step (fun a => ∀ p, a ≠ .shmOpen p) k₀.started (.open k₀.initproc true false) k₁ :=
    ⟨(fun p hp => by cases hp), enabled_of_running (started_running k₀) rfl, r, hopen⟩
  have hr := (Run.refl.tail hrun).tail hstep
  exact ⟨k₀, _, k₁, hboot, hr, rfl, (filesSound_run hboot hr).1⟩

end Kernel

end Xv6
