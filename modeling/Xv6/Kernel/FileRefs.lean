import Mathlib.Algebra.BigOperators.Group.Finset.Piecewise
import Mathlib.Data.Fintype.Prod
import Xv6.Kernel.Exclusive

/-!
# References to open files

The reference count of an entry of the file table is the number of descriptors that point to it. While a
system call runs, it holds references of its own: to a file it has allocated but not yet given a
descriptor, or taken from a descriptor and not yet closed. `Books held k` adds them in, so that each file
function has one specification for all its callers.
-/

namespace Xv6

namespace Kernel

open Fallible Count

variable {k k' : Kernel} {p q : Slot} {fd : Fin NOFILE} {f g : Fin NFILE} {x : Nat} {w : Bool}
  {held : List (Fin NFILE)} {o : Option (Fin NFILE)}

/-! ### Descriptors -/

/-- The file of a descriptor. -/
def ofiles (k : Kernel) (s : Slot × Fin NOFILE) : Option (Fin NFILE) := (k.mm s.1).ofile s.2

/-- The number of descriptors that point to a file. -/
def slots (k : Kernel) (f : Fin NFILE) : Nat :=
  (Finset.univ.filter fun s => k.ofiles s = some f).card

/-- A descriptor is set or cleared. -/
def setFd (k : Kernel) (p : Slot) (fd : Fin NOFILE) (o : Option (Fin NFILE)) : Kernel :=
  k.setMm p { k.mm p with ofile := Function.update (k.mm p).ofile fd o }

lemma setFd_ofile (k : Kernel) (p q : Slot) (fd fd' : Fin NOFILE) (o : Option (Fin NFILE)) :
    ((k.setFd p fd o).mm q).ofile fd' =
      if q = p ∧ fd' = fd then o else (k.mm q).ofile fd' := by
  unfold setFd
  rw [setMm_mm]
  by_cases hq : q = p
  · subst hq
    simp only [if_true, true_and, Function.update_apply]
  · simp [hq]

lemma ofiles_setFd (k : Kernel) (p : Slot) (fd : Fin NOFILE) (o : Option (Fin NFILE)) :
    (k.setFd p fd o).ofiles = Function.update k.ofiles (p, fd) o := by
  funext s
  obtain ⟨q, fd'⟩ := s
  rw [Function.update_apply]
  simp only [ofiles, setFd_ofile, Prod.mk.injEq]

lemma slots_eq_sum (k : Kernel) (f : Fin NFILE) :
    k.slots f = ∑ s, if k.ofiles s = some f then 1 else 0 := Finset.card_filter ..

lemma slots_setFd (k : Kernel) (p : Slot) (fd : Fin NOFILE) (o : Option (Fin NFILE))
    (f : Fin NFILE) :
    (k.setFd p fd o).slots f + (if (k.mm p).ofile fd = some f then 1 else 0) =
      k.slots f + if o = some f then 1 else 0 := by
  rw [slots_eq_sum, slots_eq_sum, ofiles_setFd]
  exact sum_update (fun _ o => if o = some f then 1 else 0) k.ofiles (p, fd) o

lemma slots_pos (h : (k.mm p).ofile fd = some f) : 0 < k.slots f := by
  have hle := Finset.single_le_sum (f := fun s => if k.ofiles s = some f then 1 else 0)
    (fun _ _ => Nat.zero_le _) (Finset.mem_univ (p, fd))
  rw [← slots_eq_sum, if_pos (show k.ofiles (p, fd) = some f from h)] at hle
  exact hle

lemma slots_congr (h : ∀ q, (k'.mm q).ofile = (k.mm q).ofile) (f : Fin NFILE) :
    k'.slots f = k.slots f := by
  have hofiles : k'.ofiles = k.ofiles := funext fun s => by rw [ofiles, ofiles, h]
  unfold slots
  rw [hofiles]

/-! ### The books -/

/-- The file is the end `w` of the pipe in page `x`. -/
def IsEnd (k : Kernel) (f : Fin NFILE) (x : Nat) (w : Bool) : Prop :=
  (k.file f).type = .pipe ∧ (k.file f).pipe = x ∧ (k.file f).writable = w

/-- The reference counts are right, with the references `held` by the running system call added in;
free entries have no type, and an open end of a pipe has a file. -/
structure Books (held : List (Fin NFILE)) (k : Kernel) : Prop where
  ref : ∀ f, (k.file f).ref = k.slots f + held.count f
  unused : ∀ f, (k.file f).ref = 0 → (k.file f).type = .none
  ends : ∀ x w, (k.pipe x).isOpen w = true → ∃ f, k.IsEnd f x w

lemma Books.ref_pos (h : Books held k) (hf : (k.mm p).ofile fd = some f) : (k.file f).ref ≠ 0 := by
  have h1 := h.ref f
  have h2 := slots_pos hf
  omega

lemma Books.held_pos (h : Books (f :: held) k) : (k.file f).ref ≠ 0 := by
  have h1 := h.ref f
  rw [List.count_cons_self] at h1
  omega

lemma Books.perm {held' : List (Fin NFILE)} (h : Books held k) (hp : held.Perm held') :
    Books held' k :=
  ⟨fun f => by rw [h.ref f, hp.count_eq f], h.unused, h.ends⟩

/-- Descriptors, files and pipes are the same. -/
lemma Books.congr (h : Books held k) (hfile : k'.file = k.file) (hpipe : k'.pipe = k.pipe)
    (hofile : ∀ q, (k'.mm q).ofile = (k.mm q).ofile) : Books held k' := by
  refine ⟨fun f => ?_, ?_, fun x w hx => ?_⟩
  · rw [hfile, slots_congr hofile]
    exact h.ref f
  · rw [hfile]
    exact h.unused
  · rw [hpipe] at hx
    obtain ⟨f, hf⟩ := h.ends x w hx
    exact ⟨f, by rwa [IsEnd, hfile]⟩

/-- A held reference goes into a free descriptor. -/
lemma Books.setFd_some (h : Books (f :: held) k) (hfd : (k.mm p).ofile fd = none) :
    Books held (k.setFd p fd (some f)) := by
  refine ⟨fun g => ?_, h.unused, h.ends⟩
  have h1 := slots_setFd k p fd (some f) g
  have h2 := h.ref g
  rw [hfd] at h1
  rw [List.count_cons] at h2
  simp only [reduceCtorEq, if_false, Nat.add_zero, Option.some.injEq] at h1
  simp only [beq_iff_eq] at h2
  show (k.file g).ref = _
  omega

/-- The reference of a descriptor is taken. -/
lemma Books.setFd_none (h : Books held k) (hfd : (k.mm p).ofile fd = some f) :
    Books (f :: held) (k.setFd p fd none) := by
  refine ⟨fun g => ?_, h.unused, h.ends⟩
  have h1 := slots_setFd k p fd none g
  have h2 := h.ref g
  rw [hfd] at h1
  rw [List.count_cons]
  simp only [reduceCtorEq, if_false, Nat.add_zero, Option.some.injEq] at h1
  simp only [beq_iff_eq]
  show (k.file g).ref = _
  omega

/-- The count of one file changes with the references held; it remains what it is, or becomes free. -/
lemma Books.setFile {held' : List (Fin NFILE)} {e : File} (h : Books held k)
    (href : e.ref = k.slots f + held'.count f) (hother : ∀ g, g ≠ f → held'.count g = held.count g)
    (hunused : e.ref = 0 → e.type = .none)
    (hends : ∀ x w, (k.pipe x).isOpen w = true → k.IsEnd f x w →
      e.type = .pipe ∧ e.pipe = x ∧ e.writable = w) : Books held' (k.setFile f e) := by
  refine ⟨fun g => ?_, fun g hg => ?_, fun x w hx => ?_⟩
  · rw [setFile_file]
    split_ifs with hgf
    · subst hgf
      exact href
    · rw [hother g hgf]
      exact h.ref g
  · rw [setFile_file] at hg ⊢
    split_ifs at hg ⊢
    · exact hunused hg
    · exact h.unused g hg
  · obtain ⟨g, hg⟩ := h.ends x w hx
    refine ⟨g, ?_⟩
    unfold IsEnd
    rw [setFile_file]
    split_ifs with hgf
    · subst hgf
      exact hends x w hx hg
    · exact hg

/-! ### File functions -/

/-- The panics of the file table. -/
def FileFault (e : Fault) : Prop := e = .panic "filedup" ∨ e = .panic "fileclose"

instance : DecidablePred FileFault := fun _ => inferInstanceAs (Decidable (_ ∨ _))

lemma pipeclose_avoids : Avoids (pipeclose x w k) FileFault := by
  unfold pipeclose
  dsimp only
  split
  · exact (kfree_avoids (by decide) _ _).bind fun _ _ => .ok
  · exact .ok

lemma fileclose_avoids (h : (k.file f).ref ≠ 0) : Avoids (fileclose f k) FileFault := by
  unfold fileclose
  dsimp only
  rw [if_neg (by omega)]
  split
  · exact .ok
  · split
    · exact pipeclose_avoids
    · exact .ok

lemma filedup_avoids (h : (k.file f).ref ≠ 0) : Avoids (filedup f k) FileFault := by
  unfold filedup
  rw [if_neg (by omega)]
  exact .ok

/-- A process that can no longer run. -/
def Dead (s : ProcState) : Prop := s = .unused ∨ s = .zombie

lemma dead_wakeup1 {c : Option Chan} {t : PTable} (h : Dead (wakeup1 c t q).state) :
    Dead (t q).state := by
  unfold wakeup1 at h
  split_ifs at h
  · rcases h with h | h <;> cases h
  · exact h

/-- `pipeclose` changes no file and no descriptor, and closes one end. -/
lemma pipeclose_ensures : Ensures (pipeclose x w k) fun k' => k'.file = k.file ∧ k'.mm = k.mm ∧
    (∀ q, Dead (k'.table q).state → Dead (k.table q).state) ∧
    ∀ x' w', (k'.pipe x').isOpen w' = true →
      (k.pipe x').isOpen w' = true ∧ ¬ (x' = x ∧ w' = w) := by
  have hends : ∀ x' w', (Function.update k.pipe x (closeEnd (k.pipe x) w) x').isOpen w' = true →
      (k.pipe x').isOpen w' = true ∧ ¬ (x' = x ∧ w' = w) := by
    intro x' w' h
    by_cases hx : x' = x
    · subst hx
      rw [Function.update_self] at h
      unfold Pipe.isOpen closeEnd at h
      unfold Pipe.isOpen
      cases w <;> cases w' <;> simp_all
    · rw [Function.update_of_ne hx] at h
      exact ⟨h, fun hc => hx hc.1⟩
  unfold pipeclose
  dsimp only
  split
  · exact Ensures.bind (R := fun _ => True) (fun _ _ => trivial) fun m _ =>
      .ok ⟨rfl, rfl, fun _ => dead_wakeup1, hends⟩
  · exact .ok ⟨rfl, rfl, fun _ => dead_wakeup1, hends⟩

/-- `fileclose` changes no descriptor. -/
lemma fileclose_ensures : Ensures (fileclose f k) fun k' => k'.mm = k.mm ∧
    ∀ q, Dead (k'.table q).state → Dead (k.table q).state := by
  unfold fileclose
  dsimp only
  split
  · exact .error
  · split
    · exact .ok ⟨rfl, fun _ => id⟩
    · split
      · exact pipeclose_ensures.mono fun k' h => ⟨h.2.1, h.2.2.1⟩
      · exact .ok ⟨rfl, fun _ => id⟩

/-- `fileclose` gives a held reference back. -/
lemma fileclose_books (h : Books (f :: held) k) :
    Ensures (fileclose f k) (Books held) := by
  have href := h.ref f
  rw [List.count_cons_self] at href
  have hother : ∀ g, g ≠ f → held.count g = (f :: held).count g := fun g hg =>
    (List.count_cons_of_ne hg.symm).symm
  unfold fileclose
  dsimp only
  split
  · exact .error
  · split
    · refine .ok (h.setFile ?_ hother (fun h0 => ?_) fun _ _ _ hend => hend)
      · dsimp only
        omega
      · dsimp only at h0
        omega
    · split
      · next ht =>
        -- the end of `f` has no file any more, and is closed next
        refine pipeclose_ensures.mono ?_
        rintro k' ⟨hfile, hmm, -, hclosed⟩
        refine ⟨fun g => ?_, fun g hg => ?_, fun x w hx => ?_⟩
        · rw [hfile, slots_congr (k := k) (fun q => by rw [hmm]; rfl), setFile_file]
          split_ifs with hgf
          · subst hgf
            dsimp only
            omega
          · rw [hother g hgf]
            exact h.ref g
        · rw [hfile, setFile_file] at hg ⊢
          split_ifs at hg ⊢
          · rfl
          · exact h.unused g hg
        · obtain ⟨hold, hne⟩ := hclosed x w hx
          obtain ⟨g, hg⟩ := h.ends x w hold
          have hgf : g ≠ f := by
            rintro rfl
            exact hne ⟨hg.2.1.symm, hg.2.2.symm⟩
          refine ⟨g, ?_⟩
          unfold IsEnd
          rw [hfile, setFile_file, if_neg hgf]
          exact hg
      · next ht =>
        refine .ok (h.setFile ?_ hother (fun _ => rfl) fun _ _ _ hend => absurd hend.1 ht)
        dsimp only
        omega

/-- `filedup` takes a reference. -/
lemma filedup_books (h : Books held k) : Ensures (filedup f k) (Books (f :: held)) := by
  unfold filedup
  split
  · exact .error
  · refine .ok (h.setFile ?_ (fun g hg => List.count_cons_of_ne hg.symm) (fun h0 => ?_)
      fun _ _ _ hend => hend)
    · rw [List.count_cons_self, ← Nat.add_assoc, ← h.ref f]
    · cases h0

/-- `filealloc` takes the first reference to a file. -/
lemma filealloc_books (h : Books held k) (ha : k.filealloc = (some f, k')) :
    Books (f :: held) k' ∧ (k'.file f).type = .none := by
  obtain ⟨href, rfl⟩ := filealloc_some ha
  have hnone := h.unused f href
  refine ⟨h.setFile ?_ (fun g hg => List.count_cons_of_ne hg.symm) (fun _ => hnone) ?_, ?_⟩
  · have := h.ref f
    rw [List.count_cons_self]
    dsimp only
    omega
  · intro x w _ hend
    rw [hend.1] at hnone
    cases hnone
  · rw [setFile_file, if_pos rfl]
    exact hnone

lemma filealloc_none (ha : k.filealloc = (none, k')) : k' = k := by
  unfold filealloc at ha
  split at ha
  · cases ha
  · simp only [Prod.mk.injEq, true_and] at ha
    exact ha.symm

lemma fdalloc_none (ha : k.fdalloc p f = (none, k')) : k' = k := by
  unfold fdalloc at ha
  split at ha
  · cases ha
  · simp only [Prod.mk.injEq, true_and] at ha
    exact ha.symm

lemma fdalloc_some (ha : k.fdalloc p f = (some fd, k')) :
    (k.mm p).ofile fd = none ∧ k' = k.setFd p fd (some f) := by
  unfold fdalloc at ha
  split at ha
  · next fd' hfd =>
    simp only [Prod.mk.injEq, Option.some.injEq] at ha
    obtain ⟨rfl, rfl⟩ := ha
    exact ⟨by simpa using List.find?_some hfd, rfl⟩
  · simp at ha

/-- The two new files have the two ends of the new pipe. -/
lemma Books.withPipe {f₀ f₁ : Fin NFILE} {y : Nat} {m : Mem} (h : Books held k) (hne : f₀ ≠ f₁)
    (h₀ : (k.file f₀).type = .none) (h₁ : (k.file f₁).type = .none) (hr₀ : (k.file f₀).ref ≠ 0)
    (hr₁ : (k.file f₁).ref ≠ 0) : Books held (k.withPipe f₀ f₁ y m) := by
  have hread := withPipe_read (k := k) (y := y) (m := m) hne
  have hwrite := withPipe_write (k := k) (y := y) (m := m) hne
  have href : ∀ g, ((k.withPipe f₀ f₁ y m).file g).ref = (k.file g).ref := by
    intro g
    by_cases hg₀ : g = f₀
    · rw [hg₀, hread]
    · by_cases hg₁ : g = f₁
      · rw [hg₁, hwrite]
      · rw [withPipe_other hg₀ hg₁]
  refine ⟨fun g => ?_, fun g hg => ?_, fun x w hx => ?_⟩
  · have hslots : (k.withPipe f₀ f₁ y m).slots g = k.slots g := slots_congr (fun _ => rfl) g
    rw [href, hslots]
    exact h.ref g
  · rw [href] at hg
    rw [withPipe_other (by rintro rfl; exact hr₀ hg) (by rintro rfl; exact hr₁ hg)]
    exact h.unused g hg
  · by_cases hxy : x = y
    · subst hxy
      cases w with
      | false => exact ⟨f₀, by simp [IsEnd, hread]⟩
      | true => exact ⟨f₁, by simp [IsEnd, hwrite]⟩
    · have hpipe : (k.withPipe f₀ f₁ y m).pipe x = k.pipe x := Function.update_of_ne hxy _ _
      rw [hpipe] at hx
      obtain ⟨g, hg⟩ := h.ends x w hx
      refine ⟨g, ?_⟩
      unfold IsEnd
      rw [withPipe_other]
      · exact hg
      · rintro rfl
        cases h₀.symm.trans hg.1
      · rintro rfl
        cases h₁.symm.trans hg.1

/-! ### System calls -/

/-- Only `p` has other descriptors than before, and no process has stopped. -/
structure FilesOf (p : Slot) (k k' : Kernel) : Prop where
  others : ∀ q, q ≠ p → (k'.mm q).ofile = (k.mm q).ofile
  dead : ∀ q, Dead (k'.table q).state → Dead (k.table q).state

lemma FilesOf.refl (p : Slot) (k : Kernel) : FilesOf p k k := ⟨fun _ _ => rfl, fun _ => id⟩

lemma FilesOf.trans {k'' : Kernel} (h : FilesOf p k k') (h' : FilesOf p k' k'') : FilesOf p k k'' :=
  ⟨fun q hq => (h'.others q hq).trans (h.others q hq), fun q hq => h.dead q (h'.dead q hq)⟩

lemma FilesOf.setFile (p : Slot) (k : Kernel) (f : Fin NFILE) (e : File) :
    FilesOf p k (k.setFile f e) := ⟨fun _ _ => rfl, fun _ => id⟩

lemma FilesOf.setFd (p : Slot) (k : Kernel) (fd : Fin NOFILE) (o : Option (Fin NFILE)) :
    FilesOf p k (k.setFd p fd o) := by
  refine ⟨fun q hq => ?_, fun _ => id⟩
  funext fd'
  rw [setFd_ofile, if_neg fun h => hq h.1]

lemma fileclose_filesOf (p : Slot) : Ensures (fileclose f k) (FilesOf p k) :=
  fileclose_ensures.mono fun k' h => ⟨fun q _ => by rw [h.1], h.2⟩

lemma filealloc_filesOf {r : Option (Fin NFILE)} (p : Slot) (ha : k.filealloc = (r, k')) :
    FilesOf p k k' := by
  cases r with
  | none =>
    rw [filealloc_none ha]
    exact .refl p k
  | some f =>
    obtain ⟨-, rfl⟩ := filealloc_some ha
    exact .setFile p k f _

lemma sysClose_books (h : Books [] k) :
    Ensures (sysClose p fd k) fun r => Books [] r.2 ∧ FilesOf p k r.2 := by
  unfold sysClose
  split
  · exact .ok ⟨h, .refl p k⟩
  · next f hf =>
    refine ((fileclose_books (h.setFd_none hf)).and (fileclose_filesOf p)).bind fun k₁ h₁ => .ok ?_
    exact ⟨h₁.1, (FilesOf.setFd p k fd none).trans h₁.2⟩

lemma sysOpen_books {readable writable : Bool} (h : Books [] k) :
    Ensures (sysOpen p readable writable k) fun r => Books [] r.2 ∧ FilesOf p k r.2 := by
  unfold sysOpen
  split
  · next k₁ h₁ =>
    rw [filealloc_none h₁]
    exact .ok ⟨h, .refl p k⟩
  · next f k₁ h₁ =>
    obtain ⟨hb, htype⟩ := filealloc_books h h₁
    have hof := filealloc_filesOf p h₁
    split
    · next k₂ h₂ =>
      rw [fdalloc_none h₂]
      exact ((fileclose_books hb).and (fileclose_filesOf p)).bind fun k₃ h₃ =>
        .ok ⟨h₃.1, hof.trans h₃.2⟩
    · next fd k₂ h₂ =>
      obtain ⟨hfd, rfl⟩ := fdalloc_some h₂
      have hb₂ := hb.setFd_some hfd
      refine .ok ⟨hb₂.setFile (hb₂.ref f) (fun _ _ => rfl) (fun h0 => ?_) fun x w _ hend => ?_,
        hof.trans ((FilesOf.setFd p k₁ fd _).trans (.setFile p _ f _))⟩
      · exact absurd h0 hb.held_pos
      · have hpipe : (k₁.file f).type = .pipe := hend.1
        rw [htype] at hpipe
        cases hpipe

lemma sysDup_books (h : Books [] k) :
    Ensures (sysDup p fd k) fun r => Books [] r.2 ∧ FilesOf p k r.2 := by
  unfold sysDup
  split
  · exact .ok ⟨h, .refl p k⟩
  · next f hf =>
    split
    · next k₁ h₁ =>
      rw [fdalloc_none h₁]
      exact .ok ⟨h, .refl p k⟩
    · next fd' k₁ h₁ =>
      obtain ⟨hfd, rfl⟩ := fdalloc_some h₁
      have href : ¬ (k.file f).ref < 1 := by
        have := h.ref_pos hf
        omega
      have hdup : filedup f k = .ok (k.setFile f { k.file f with ref := (k.file f).ref + 1 }) :=
        if_neg href
      -- the descriptor is set before the count, which makes no difference at the end
      have hdup' : filedup f (k.setFd p fd' (some f)) =
          .ok ((k.setFile f { k.file f with ref := (k.file f).ref + 1 }).setFd p fd' (some f)) :=
        if_neg href
      rw [hdup']
      exact .ok ⟨(filedup_books h _ hdup).setFd_some hfd,
        (FilesOf.setFd p k fd' _).trans (.setFile p _ f _)⟩

/-- Two references taken, or none. -/
lemma pipealloc_books (p : Slot) (h : Books [] k) : Ensures (pipealloc k) fun r =>
    (r.1 = none → Books [] r.2) ∧ (∀ rf wf, r.1 = some (rf, wf) → Books [rf, wf] r.2) ∧
      FilesOf p k r.2 := by
  unfold pipealloc
  split
  · next k₁ h₁ =>
    rw [filealloc_none h₁]
    exact .ok ⟨fun _ => h, by simp, .refl p k⟩
  · next f₀ k₁ h₁ =>
    obtain ⟨hb₁, ht₁⟩ := filealloc_books h h₁
    have hof₁ := filealloc_filesOf p h₁
    split
    · next k₂ h₂ =>
      rw [filealloc_none h₂]
      exact ((fileclose_books hb₁).and (fileclose_filesOf p)).bind fun k₃ h₃ =>
        .ok ⟨fun _ => h₃.1, by simp, hof₁.trans h₃.2⟩
    · next f₁ k₂ h₂ =>
      obtain ⟨hb₂, ht₂⟩ := filealloc_books hb₁ h₂
      have hof₂ := hof₁.trans (filealloc_filesOf p h₂)
      have hb₂ : Books [f₀, f₁] k₂ := hb₂.perm (List.Perm.swap ..)
      split
      · next m hm =>
        rw [setMem_kalloc_none hm]
        refine ((fileclose_books hb₂).and (fileclose_filesOf p)).bind fun k₃ h₃ => ?_
        exact ((fileclose_books h₃.1).and (fileclose_filesOf p)).bind fun k₄ h₄ =>
          .ok ⟨fun _ => h₄.1, by simp, hof₂.trans (h₃.2.trans h₄.2)⟩
      · next y m hm =>
        obtain ⟨href, hk₂⟩ := filealloc_some h₂
        have hne : f₀ ≠ f₁ := by
          rintro rfl
          exact hb₁.held_pos href
        have ht₀ : (k₂.file f₀).type = .none := by
          rw [hk₂, setFile_file, if_neg hne]
          exact ht₁
        have hw := hb₂.withPipe (y := y) (m := m) hne ht₀ ht₂ hb₂.held_pos
          (hb₂.perm (List.Perm.swap ..)).held_pos
        refine .ok ⟨by simp, fun rf wf hfw => ?_, hof₂.trans ⟨fun _ _ => rfl, fun _ => id⟩⟩
        simp only [Option.some.injEq, Prod.mk.injEq] at hfw
        obtain ⟨rfl, rfl⟩ := hfw
        exact hw

lemma sysPipe_books (h : Books [] k) :
    Ensures (sysPipe p k) fun r => Books [] r.2 ∧ FilesOf p k r.2 := by
  have hclose : ∀ {k₁ : Kernel} {rf wf : Fin NFILE} {r : Int}, Books [rf, wf] k₁ → FilesOf p k k₁ →
      Ensures (do
        let k ← fileclose rf k₁
        let k ← fileclose wf k
        .ok (r, k)) fun r => Books [] r.2 ∧ FilesOf p k r.2 := by
    intro k₁ rf wf r hb hof
    refine ((fileclose_books hb).and (fileclose_filesOf p)).bind fun k₂ h₂ => ?_
    exact ((fileclose_books h₂.1).and (fileclose_filesOf p)).bind fun k₃ h₃ =>
      .ok ⟨h₃.1, hof.trans (h₂.2.trans h₃.2)⟩
  refine (pipealloc_books p h).bind ?_
  rintro ⟨_ | ⟨rf, wf⟩, k₁⟩ ⟨hnone, hsome, hof⟩
  · exact .ok ⟨hnone rfl, hof⟩
  · have hb := hsome rf wf rfl
    dsimp only at hb hof ⊢
    split
    · next k₂ h₂ =>
      rw [fdalloc_none h₂]
      exact hclose hb hof
    · next fd₀ k₂ h₂ =>
      obtain ⟨hfd₀, rfl⟩ := fdalloc_some h₂
      have hb₂ := hb.setFd_some hfd₀
      have hof₂ := hof.trans (FilesOf.setFd p k₁ fd₀ (some rf))
      split
      · next k₃ h₃ =>
        rw [fdalloc_none h₃]
        have hfd : ((k₁.setFd p fd₀ (some rf)).mm p).ofile fd₀ = some rf := by
          rw [setFd_ofile, if_pos ⟨rfl, rfl⟩]
        exact hclose (hb₂.setFd_none hfd) (hof₂.trans (.setFd p _ fd₀ none))
      · next fd₁ k₃ h₃ =>
        obtain ⟨hfd₁, rfl⟩ := fdalloc_some h₃
        exact .ok ⟨hb₂.setFd_some hfd₁, hof₂.trans (.setFd p _ fd₁ _)⟩

/-! ### exit and fork -/

lemma pipeclose_setFd : pipeclose x w (k.setFd p fd o) =
    (pipeclose x w k).map fun k => k.setFd p fd o := by
  have hpipe : (k.setFd p fd o).pipe = k.pipe := rfl
  have hmem : (k.setFd p fd o).mem = k.mem := rfl
  unfold pipeclose
  dsimp only
  rw [hpipe]
  split
  · rw [hmem]
    cases k.mem.kfree x with
    | error e => rfl
    | ok m => rfl
  · rfl

lemma fileclose_setFd : fileclose f (k.setFd p fd o) =
    (fileclose f k).map fun k => k.setFd p fd o := by
  have hfile : (k.setFd p fd o).file = k.file := rfl
  unfold fileclose
  dsimp only
  rw [hfile]
  split
  · rfl
  · split
    · rfl
    · split
      · exact pipeclose_setFd (k := k.setFile f { k.file f with ref := 0, type := .none })
      · rfl

/-- `exit` clears a descriptor after closing the file, which is as good as before. -/
lemma fileclose_fd_books (h : Books held k) (hf : (k.mm p).ofile fd = some f) :
    Ensures (fileclose f k) fun k' => Books held (k'.setFd p fd none) := by
  intro k' hk'
  have hset : fileclose f (k.setFd p fd none) = (fileclose f k).map fun k => k.setFd p fd none :=
    fileclose_setFd
  rw [hk'] at hset
  exact fileclose_books (h.setFd_none hf) _ hset

lemma closeFiles_books (l : List (Fin NOFILE)) (h : Books [] k) :
    Ensures (closeFiles p l k) fun k' => Books [] k' ∧ FilesOf p k k' ∧
      ∀ fd, fd ∈ l ∨ (k.mm p).ofile fd = none → (k'.mm p).ofile fd = none := by
  induction l generalizing k with
  | nil => exact .ok ⟨h, .refl p k, by simp⟩
  | cons fd l ih =>
    unfold closeFiles
    split
    · next hnone =>
      refine (ih h).mono ?_
      rintro k' ⟨hb, hof, hall⟩
      refine ⟨hb, hof, fun fd' hfd' => hall fd' ?_⟩
      rcases hfd' with hmem | hold
      · rcases List.mem_cons.mp hmem with rfl | hmem
        · exact Or.inr hnone
        · exact Or.inl hmem
      · exact Or.inr hold
    · next f hf =>
      refine ((fileclose_fd_books h hf).and fileclose_ensures).bind ?_
      rintro k₁ ⟨hb₁, hmm, hdead⟩
      refine (ih hb₁).mono ?_
      rintro k' ⟨hb, hof, hall⟩
      have hof₁ : FilesOf p k k₁ := ⟨fun q _ => by rw [hmm], hdead⟩
      refine ⟨hb, hof₁.trans ((FilesOf.setFd p k₁ fd none).trans hof), fun fd' hfd' => hall fd' ?_⟩
      by_cases hfd : fd' = fd
      · right
        rw [setFd_ofile, if_pos ⟨rfl, hfd⟩]
      · rcases hfd' with hmem | hold
        · exact Or.inl (List.mem_of_ne_of_mem hfd hmem)
        · right
          rw [setFd_ofile, if_neg fun h => hfd h.2, hmm]
          exact hold

lemma closeFiles_avoids (l : List (Fin NOFILE)) (h : Books [] k) :
    Avoids (closeFiles p l k) FileFault := by
  induction l generalizing k with
  | nil => exact .ok
  | cons fd l ih =>
    unfold closeFiles
    split
    · exact ih h
    · next f hf =>
      exact (fileclose_avoids (h.ref_pos hf)).bind fun k₁ hk₁ => ih (fileclose_fd_books h hf k₁ hk₁)

lemma dead_abandonChildren {initproc : Slot} (l : List Slot) {t : PTable}
    (h : Dead (abandonChildren initproc p l t q).state) : Dead (t q).state := by
  induction l generalizing t with
  | nil => exact h
  | cons i l ih =>
    have hparent : ∀ q, (Function.update t i { t i with parent := some initproc } q).state =
        (t q).state := by
      intro q
      by_cases hq : q = i
      · subst hq
        rw [Function.update_self]
      · rw [Function.update_of_ne hq]
    simp only [abandonChildren] at h
    split at h
    · have h := ih h
      split at h
      · have h := dead_wakeup1 h
        rwa [hparent] at h
      · rwa [hparent] at h
    · exact ih h

/-- `exit` makes no other process a ZOMBIE. -/
lemma dead_exitTable {initproc : Slot} {t : PTable} (hq : q ≠ p)
    (h : Dead (exitTable initproc p t q).state) : Dead (t q).state := by
  unfold exitTable at h
  rw [Function.update_of_ne hq] at h
  exact dead_wakeup1 (dead_abandonChildren _ h)

/-- The child gets its own reference to a file of its parent. -/
lemma filedup_fd_books (h : Books held k) (hq : (k.mm q).ofile fd = none) :
    Ensures (filedup f k) fun k' => Books held (k'.setFd q fd (some f)) ∧ k'.mm = k.mm ∧
      k'.pipe = k.pipe ∧ FilesOf q k k' := by
  have hframe : Ensures (filedup f k) fun k' => k'.mm = k.mm ∧ k'.pipe = k.pipe ∧ FilesOf q k k' := by
    unfold filedup
    split
    · exact .error
    · exact .ok ⟨rfl, rfl, .setFile q k f _⟩
  refine ((filedup_books h).and hframe).mono ?_
  rintro k' ⟨hb, hmm, hpipe, hof⟩
  exact ⟨hb.setFd_some (by rw [hmm]; exact hq), hmm, hpipe, hof⟩

lemma dupFiles_books (l : List (Fin NOFILE)) (hl : l.Nodup) (h : Books [] k)
    (hq : ∀ fd ∈ l, (k.mm q).ofile fd = none) :
    Ensures (dupFiles p q l k) (fun k' => Books [] k' ∧ k'.pipe = k.pipe ∧ FilesOf q k k') ∧
      Avoids (dupFiles p q l k) FileFault := by
  induction l generalizing k with
  | nil => exact ⟨.ok ⟨h, rfl, .refl q k⟩, .ok⟩
  | cons fd l ih =>
    obtain ⟨hfd, hl⟩ := List.nodup_cons.mp hl
    have hrest := fun fd' hfd' => hq fd' (List.mem_cons_of_mem fd hfd')
    unfold dupFiles
    split
    · exact ih hl h hrest
    · next f hf =>
      have hdup := filedup_fd_books (f := f) h (hq fd (List.mem_cons_self ..))
      have hnext : ∀ k₁, filedup f k = .ok k₁ → ∀ fd' ∈ l,
          ((k₁.setFd q fd (some f)).mm q).ofile fd' = none := by
        intro k₁ hk₁ fd' hfd'
        have hne : fd' ≠ fd := fun h => hfd (h ▸ hfd')
        rw [setFd_ofile, if_neg fun h => hne h.2, (hdup k₁ hk₁).2.1]
        exact hrest fd' hfd'
      refine ⟨fun k' hk' => ?_, (filedup_avoids (h.ref_pos hf)).bind fun k₁ hk₁ => ?_⟩
      · obtain ⟨k₁, hk₁, hk'⟩ := bind_eq_ok.mp hk'
        obtain ⟨hb₁, -, hpipe₁, hof₁⟩ := hdup k₁ hk₁
        obtain ⟨hb, hpipe, hof⟩ := (ih hl hb₁ (hnext k₁ hk₁)).1 k' hk'
        exact ⟨hb, hpipe.trans hpipe₁, hof₁.trans ((FilesOf.setFd q k₁ fd _).trans hof)⟩
      · exact (ih hl (hdup k₁ hk₁).1 (hnext k₁ hk₁)).2

end Kernel

end Xv6
