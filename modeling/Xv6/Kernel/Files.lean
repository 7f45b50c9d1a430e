import Xv6.Kernel.OwnedSteps

/-!
# Open files and pipes

Each open end of a pipe belongs to exactly one entry of the file table, so that the page of a pipe is
freed once, when the second end is closed. The file functions, like the scheduler, leave the address
spaces alone (`KeepsSpaces`).
-/

namespace Xv6

open Fallible Count

/-- Whether the end of a pipe is open: the write end for `true`. -/
def Pipe.isOpen (e : Pipe) (writable : Bool) : Bool := if writable then e.writeopen else e.readopen

namespace Kernel

variable {k k' k'' : Kernel} {p q : Slot} {f : Fin NFILE} {x : Nat}

/-! ### Address spaces stay -/

/-- The slots in use are the same, and what is a ZOMBIE remains one. -/
structure Alike (t t' : PTable) : Prop where
  unused : ∀ q, (t' q).state = .unused ↔ (t q).state = .unused
  zombie : ∀ q, (t q).state = .zombie → (t' q).state = .zombie

lemma Alike.refl (t : PTable) : Alike t t := ⟨fun _ => Iff.rfl, fun _ => id⟩

lemma Alike.trans {t t' t'' : PTable} (h : Alike t t') (h' : Alike t' t'') : Alike t t'' :=
  ⟨fun q => (h'.unused q).trans (h.unused q), fun q hq => h'.zombie q (h.zombie q hq)⟩

/-- One slot changes. -/
lemma Alike.update {t : PTable} {e : Proc} (hu : e.state = .unused ↔ (t p).state = .unused)
    (hz : (t p).state = .zombie → e.state = .zombie) : Alike t (Function.update t p e) := by
  refine ⟨fun q => ?_, fun q hq => ?_⟩ <;> by_cases hqp : q = p
  · subst hqp
    rw [Function.update_self]
    exact hu
  · rw [Function.update_of_ne hqp]
  · subst hqp
    rw [Function.update_self]
    exact hz hq
  · rw [Function.update_of_ne hqp]
    exact hq

/-- A process that is RUNNING or RUNNABLE goes on to another such state. -/
lemma Alike.update_of_active {t : PTable} {e : Proc} (hu : (t p).state ≠ .unused)
    (hz : (t p).state ≠ .zombie) (he : e.state ≠ .unused) : Alike t (Function.update t p e) :=
  .update ⟨fun h => absurd h he, fun h => absurd h hu⟩ fun h => absurd h hz

lemma alike_wakeup1 (c : Option Chan) (t : PTable) : Alike t (wakeup1 c t) := by
  refine ⟨fun q => ?_, fun q hq => ?_⟩ <;> unfold wakeup1
  · split_ifs with h
    · simp [h.1]
    · rfl
  · rw [if_neg (by simp [hq])]
    exact hq

lemma alike_kill (pid : Int) (t : PTable) : Alike t (kill pid t).2 := by
  unfold kill
  split
  · exact .refl t
  · next i _ =>
    apply Alike.update
    · dsimp only
      split_ifs with h
      · simp [h]
      · rfl
    · intro h
      simp [h]

lemma alike_abandonChildren (initproc p : Slot) (l : List Slot) (t : PTable) :
    Alike t (abandonChildren initproc p l t) :=
  abandonChildren_keeps .refl .trans (fun _ _ => .update Iff.rfl id) (alike_wakeup1 _) l t

lemma alike_exitTable {initproc : Slot} {t : PTable} (hp : (t p).state ≠ .unused) :
    Alike t (exitTable initproc p t) := by
  have h := (alike_wakeup1 ((t p).parent.map .proc) t).trans
    (alike_abandonChildren initproc p (List.finRange NPROC) _)
  unfold exitTable
  refine h.trans (.update ⟨fun hu => by simp at hu, fun hu => ?_⟩ fun _ => rfl)
  exact absurd ((h.unused p).mp hu) hp

/-- The address spaces and the table of shared pages are as before: only files, pipes, free pages and
the scheduling of processes may have changed. -/
structure KeepsSpaces (k k' : Kernel) : Prop where
  alike : Alike k.table k'.table
  sz : ∀ q, (k'.mm q).sz = (k.mm q).sz
  pgdir : ∀ q, (k'.mm q).pgdir = (k.mm q).pgdir
  kstack : ∀ q, (k'.mm q).kstack = (k.mm q).kstack
  shm : ∀ q, (k'.mm q).shm = (k.mm q).shm
  shared : k'.mem.shared = k.mem.shared
  layout : k'.mem.layout = k.mem.layout
  kpgdir : k'.kpgdir = k.kpgdir

lemma KeepsSpaces.refl (k : Kernel) : KeepsSpaces k k :=
  ⟨.refl _, fun _ => rfl, fun _ => rfl, fun _ => rfl, fun _ => rfl, rfl, rfl, rfl⟩

lemma KeepsSpaces.trans (h : KeepsSpaces k k') (h' : KeepsSpaces k' k'') : KeepsSpaces k k'' :=
  ⟨h.alike.trans h'.alike, fun q => (h'.sz q).trans (h.sz q), fun q => (h'.pgdir q).trans (h.pgdir q),
    fun q => (h'.kstack q).trans (h.kstack q), fun q => (h'.shm q).trans (h.shm q),
    h'.shared.trans h.shared, h'.layout.trans h.layout, h'.kpgdir.trans h.kpgdir⟩

lemma KeepsSpaces.live (h : KeepsSpaces k k') (q : Slot) : k'.Live q ↔ k.Live q :=
  not_congr (h.alike.unused q)

lemma KeepsSpaces.sameSpaces (h : KeepsSpaces k k') (hs : Mem.SharedOk k.mem.shared) : SameSpaces k k' :=
  ⟨h.live, fun q _ => h.pgdir q, fun q _ => h.kstack q, fun q _ => h.shm q, h.kpgdir,
    fun x => by rw [h.shared], h.shared ▸ hs, h.layout⟩

lemma keepsSpaces_setFile (k : Kernel) (f : Fin NFILE) (e : File) : KeepsSpaces k (k.setFile f e) :=
  ⟨.refl _, fun _ => rfl, fun _ => rfl, fun _ => rfl, fun _ => rfl, rfl, rfl, rfl⟩

/-- The open files of a process change. -/
lemma keepsSpaces_setMm (k : Kernel) (p : Slot) (o : Fin NOFILE → Option (Fin NFILE)) :
    KeepsSpaces k (k.setMm p { k.mm p with ofile := o }) := by
  refine ⟨.refl _, fun q => ?_, fun q => ?_, fun q => ?_, fun q => ?_, rfl, rfl, rfl⟩ <;>
    rw [setMm_mm] <;> split_ifs with hq <;> simp [hq]

lemma pipeclose_keepsSpaces {w : Bool} : Ensures (pipeclose x w k) fun k' => KeepsSpaces k k' := by
  have hframe : ∀ (c : Option Chan) (g : Nat → Pipe) (m : Mem), m.shared = k.mem.shared →
      m.layout = k.mem.layout →
      KeepsSpaces k { k with pipe := g, table := wakeup1 c k.table, mem := m } :=
    fun c g m h1 h2 => ⟨alike_wakeup1 c k.table, fun _ => rfl, fun _ => rfl, fun _ => rfl, fun _ => rfl,
      h1, h2, rfl⟩
  unfold pipeclose
  dsimp only
  split
  · refine (Mem.kfree_ensures _ _).bind ?_
    rintro m ⟨-, -, h1, h2⟩
    exact .ok (hframe _ _ m h1 h2)
  · exact .ok (hframe _ _ k.mem rfl rfl)

/-! ### Pipes -/

/-- Every file that is a pipe end has that end open, and has it alone. -/
structure PipesOk (k : Kernel) : Prop where
  unused : ∀ f, (k.file f).ref = 0 → (k.file f).type ≠ .pipe
  opened : ∀ f, (k.file f).type = .pipe →
    (k.pipe (k.file f).pipe).isOpen (k.file f).writable = true
  distinct : ∀ f g, (k.file f).type = .pipe → (k.file g).type = .pipe →
    (k.file f).pipe = (k.file g).pipe → (k.file f).writable = (k.file g).writable → f = g

/-- Page ownership and the ownership of pipe ends. -/
structure Sound (k : Kernel) : Prop where
  owned : k.Owned
  pipes : k.PipesOk

lemma pipeUses_eq_one_iff : k.pipeUses x = 1 ↔ ∃ w, (k.pipe x).isOpen w = true := by
  unfold pipeUses Pipe.isOpen
  cases (k.pipe x).readopen <;> cases (k.pipe x).writeopen <;> simp

/-- What happens to the files keeps the invariant if the pages of pipes are accounted for. -/
lemma Sound.files (h : k.Sound) (hf : KeepsSpaces k k') (hp : k'.PipesOk)
    (hle : ∀ x, k'.mem.free x + k'.pipeUses x ≤ k.mem.free x + k.pipeUses x) : k'.Sound :=
  ⟨h.owned.same (hf.sameSpaces h.owned.sharedOk) hle, hp⟩

/-- Files change that are not, and do not become, pipe ends; or only their reference counts change,
but not to zero. -/
lemma PipesOk.setFile {e : File} (h : k.PipesOk)
    (he : e.type ≠ .pipe ∨ (e.ref ≠ 0 ∧ e.type = (k.file f).type ∧ e.pipe = (k.file f).pipe ∧
      e.writable = (k.file f).writable)) : (k.setFile f e).PipesOk := by
  have hfile := fun g => setFile_file k f g e
  -- a pipe end of the new table is one of the old table
  have hold : ∀ g, ((k.setFile f e).file g).type = .pipe → (k.file g).type = .pipe ∧
      ((k.setFile f e).file g).pipe = (k.file g).pipe ∧
      ((k.setFile f e).file g).writable = (k.file g).writable := by
    intro g hg
    rw [hfile g] at hg ⊢
    split_ifs at hg ⊢ with hgf
    · subst hgf
      rcases he with he | ⟨-, h1, h2, h3⟩
      · exact absurd hg he
      · exact ⟨h1 ▸ hg, h2, h3⟩
    · exact ⟨hg, rfl, rfl⟩
  refine ⟨fun g hg ht => ?_, fun g hg => ?_, fun g g' hg hg' hpipe hw => ?_⟩
  · by_cases hgf : g = f
    · rw [hfile g, if_pos hgf] at hg ht
      rcases he with he | ⟨h1, -⟩
      · exact he ht
      · exact h1 hg
    · rw [hfile g, if_neg hgf] at hg ht
      exact h.unused g hg ht
  · obtain ⟨h1, h2, h3⟩ := hold g hg
    rw [h2, h3]
    exact h.opened g h1
  · obtain ⟨h1, h2, h3⟩ := hold g hg
    obtain ⟨h4, h5, h6⟩ := hold g' hg'
    exact h.distinct g g' h1 h4 (h2 ▸ h5 ▸ hpipe) (h3 ▸ h6 ▸ hw)

/-- Closing one end of a pipe: the file that had it is no longer a pipe end. The page goes to the free
list if the other end is closed, too. -/
lemma pipeclose_pipes {w : Bool} (h : k.PipesOk) (hopen : (k.pipe x).isOpen w = true)
    (hnone : ∀ f, (k.file f).type = .pipe → (k.file f).pipe = x → (k.file f).writable ≠ w) :
    Ensures (pipeclose x w k) fun k' => k'.PipesOk ∧
      ∀ y, k'.mem.free y + k'.pipeUses y = k.mem.free y + k.pipeUses y := by
  -- the ends that are left
  have hpipes : ∀ (e : Pipe) (t : PTable) (m : Mem), (∀ w', w' ≠ w → e.isOpen w' = (k.pipe x).isOpen w') →
      PipesOk { k with pipe := Function.update k.pipe x e, table := t, mem := m } := by
    intro e t m he
    refine ⟨h.unused, fun f hf => ?_, h.distinct⟩
    dsimp only at hf ⊢
    by_cases hx : (k.file f).pipe = x
    · rw [hx, Function.update_self, he _ (hnone f hf hx), ← hx]
      exact h.opened f hf
    · rw [Function.update_of_ne hx]
      exact h.opened f hf
  have hone : k.pipeUses x = 1 := pipeUses_eq_one_iff.mpr ⟨w, hopen⟩
  have hother : ∀ (e : Pipe) (t : PTable) (m : Mem) (y : Nat), y ≠ x →
      Kernel.pipeUses { k with pipe := Function.update k.pipe x e, table := t, mem := m } y =
        k.pipeUses y := by
    intro e t m y hy
    simp only [pipeUses, Function.update_of_ne hy]
  have hself : ∀ (e : Pipe) (t : PTable) (m : Mem),
      Kernel.pipeUses { k with pipe := Function.update k.pipe x e, table := t, mem := m } x =
        (e.readopen || e.writeopen).toNat := by
    intro e t m
    simp only [pipeUses, Function.update_self]
  have hends : ∀ w', w' ≠ w → (closeEnd (k.pipe x) w).isOpen w' = (k.pipe x).isOpen w' := by
    intro w' hw'
    unfold Pipe.isOpen closeEnd
    cases w <;> cases w' <;> simp_all
  unfold pipeclose
  dsimp only
  split
  · next hclosed =>
    refine (Mem.kfree_ensures _ _).bind ?_
    rintro m ⟨-, hfree, -⟩
    refine .ok ⟨hpipes _ _ m hends, fun y => ?_⟩
    by_cases hy : y = x
    · subst hy
      rw [hone, hself, hclosed.1, hclosed.2]
      have := hfree y
      simp only [one, if_pos] at this
      exact this
    · rw [hother _ _ m y hy]
      have := hfree y
      simp only [one, if_neg (Ne.symm hy)] at this
      exact congrArg (· + k.pipeUses y) this
  · next hopened =>
    refine .ok ⟨hpipes _ _ k.mem hends, fun y => ?_⟩
    by_cases hy : y = x
    · subst hy
      have hstill : ((closeEnd (k.pipe y) w).readopen || (closeEnd (k.pipe y) w).writeopen) = true := by
        by_contra hno
        simp only [Bool.not_eq_true, Bool.or_eq_false_iff] at hno
        exact hopened hno
      rw [hone, hself, hstill]
      rfl
    · rw [hother _ _ k.mem y hy]

/-! ### File functions -/

/-- A step that leaves the address spaces alone and keeps the invariant: pages move between the free
list and the pipes. -/
structure Harmless (k k' : Kernel) : Prop where
  only : KeepsSpaces k k'
  sound : k.Sound → k'.Sound
  pages : k.Sound → ∀ x, k'.mem.free x + k'.pipeUses x = k.mem.free x + k.pipeUses x

lemma Harmless.of_pipes (hk : KeepsSpaces k k')
    (hp : k.Sound → k'.PipesOk ∧
      ∀ x, k'.mem.free x + k'.pipeUses x = k.mem.free x + k.pipeUses x) : Harmless k k' :=
  ⟨hk, fun h => h.files hk (hp h).1 fun x => ((hp h).2 x).le, fun h => (hp h).2⟩

lemma Harmless.refl (k : Kernel) : Harmless k k := ⟨.refl k, id, fun _ _ => rfl⟩

lemma Harmless.trans (h : Harmless k k') (h' : Harmless k' k'') : Harmless k k'' :=
  ⟨h.only.trans h'.only, h'.sound ∘ h.sound, fun hs x =>
    (h'.pages (h.sound hs) x).trans (h.pages hs x)⟩

lemma Harmless.setOfile (k : Kernel) (p : Slot) (o : Fin NOFILE → Option (Fin NFILE)) :
    Harmless k (k.setMm p { k.mm p with ofile := o }) :=
  .of_pipes (keepsSpaces_setMm _ _ _) fun h =>
    ⟨⟨h.pipes.unused, h.pipes.opened, h.pipes.distinct⟩, fun _ => rfl⟩

lemma Harmless.setFile {e : File}
    (he : k.PipesOk → e.type ≠ .pipe ∨ (e.ref ≠ 0 ∧ e.type = (k.file f).type ∧
      e.pipe = (k.file f).pipe ∧ e.writable = (k.file f).writable)) : Harmless k (k.setFile f e) :=
  .of_pipes (keepsSpaces_setFile _ _ _) fun h => ⟨h.pipes.setFile (he h.pipes), fun _ => rfl⟩

lemma fileclose_harmless : Ensures (fileclose f k) (Harmless k) := by
  unfold fileclose
  dsimp only
  split
  · exact .error
  · split
    · next href =>
      refine .ok (.setFile fun _ => Or.inr ⟨?_, rfl, rfl, rfl⟩)
      dsimp only
      omega
    · have hcleared : Harmless k (k.setFile f { k.file f with ref := 0, type := .none }) :=
        .setFile fun _ => Or.inl (by simp)
      split
      · next ht =>
        intro k' hk'
        refine .of_pipes (hcleared.only.trans (pipeclose_keepsSpaces k' hk')) fun h => ?_
        refine pipeclose_pipes (hcleared.sound h).pipes (h.pipes.opened f ht) (fun g hg hx => ?_) k' hk'
        -- another file for the same end would be the same file
        have hgf : g ≠ f := by
          rintro rfl
          simp [Kernel.setFile] at hg
        simp only [Kernel.setFile, Function.update_of_ne hgf] at hg hx ⊢
        intro hw
        exact hgf (h.pipes.distinct g f hg ht hx hw)
      · exact .ok hcleared

lemma filedup_harmless : Ensures (filedup f k) (Harmless k) := by
  unfold filedup
  split
  · exact .error
  · exact .ok (.setFile fun _ => Or.inr ⟨Nat.succ_ne_zero _, rfl, rfl, rfl⟩)

/-- `filealloc` finds a file without references. -/
lemma filealloc_some (h : k.filealloc = (some f, k')) :
    (k.file f).ref = 0 ∧ k' = k.setFile f { k.file f with ref := 1 } := by
  unfold filealloc at h
  split at h
  · next g hg =>
    simp only [Prod.mk.injEq, Option.some.injEq] at h
    obtain ⟨rfl, rfl⟩ := h
    exact ⟨by simpa using List.find?_some hg, rfl⟩
  · simp at h

lemma filealloc_harmless {r : Option (Fin NFILE)} (h : k.filealloc = (r, k')) : Harmless k k' := by
  cases r with
  | none =>
    unfold filealloc at h
    split at h
    · simp at h
    · simp only [Prod.mk.injEq, true_and] at h
      exact h ▸ .refl k
  | some f =>
    obtain ⟨href, rfl⟩ := filealloc_some h
    exact .setFile fun h => Or.inl (h.unused f href)

lemma fdalloc_harmless {r : Option (Fin NOFILE)} (h : k.fdalloc p f = (r, k')) : Harmless k k' := by
  unfold fdalloc at h
  split at h <;> simp only [Prod.mk.injEq] at h <;> obtain ⟨-, rfl⟩ := h
  · exact .setOfile k p _
  · exact .refl k

lemma closeFiles_harmless (l : List (Fin NOFILE)) : Ensures (closeFiles p l k) (Harmless k) := by
  induction l generalizing k with
  | nil => exact .ok (.refl k)
  | cons fd l ih =>
    unfold closeFiles
    split
    · exact ih
    · refine fileclose_harmless.bind fun k₁ h₁ => ?_
      exact ih.mono fun k₂ h₂ => h₁.trans ((Harmless.setOfile k₁ p _).trans h₂)

lemma dupFiles_harmless (l : List (Fin NOFILE)) : Ensures (dupFiles p q l k) (Harmless k) := by
  induction l generalizing k with
  | nil => exact .ok (.refl k)
  | cons fd l ih =>
    unfold dupFiles
    split
    · exact ih
    · refine filedup_harmless.bind fun k₁ h₁ => ?_
      exact ih.mono fun k₂ h₂ => h₁.trans ((Harmless.setOfile k₁ q _).trans h₂)

/-! ### A new pipe -/

/-- The state after `pipealloc` has set up the two files for the pipe in page `y`. -/
def withPipe (k : Kernel) (f₀ f₁ : Fin NFILE) (y : Nat) (m : Mem) : Kernel :=
  let k := { k with mem := m, pipe := Function.update k.pipe y ⟨true, true⟩ }
  let k := k.setFile f₀
    { k.file f₀ with type := .pipe, readable := true, writable := false, pipe := y }
  k.setFile f₁ { k.file f₁ with type := .pipe, readable := false, writable := true, pipe := y }

section WithPipe

variable {f₀ f₁ : Fin NFILE} {y : Nat} {m : Mem} (hne : f₀ ≠ f₁)

include hne

lemma withPipe_read :
    (k.withPipe f₀ f₁ y m).file f₀ = ⟨.pipe, (k.file f₀).ref, true, false, y⟩ := by
  simp [withPipe, setFile, Function.update_of_ne hne]

lemma withPipe_write :
    (k.withPipe f₀ f₁ y m).file f₁ = ⟨.pipe, (k.file f₁).ref, false, true, y⟩ := by
  simp [withPipe, setFile, Function.update_of_ne hne.symm]

omit hne in
lemma withPipe_other {g : Fin NFILE} (h₀ : g ≠ f₀) (h₁ : g ≠ f₁) :
    (k.withPipe f₀ f₁ y m).file g = k.file g := by
  simp [withPipe, setFile, Function.update_of_ne h₀, Function.update_of_ne h₁]

/-- No file has an end of a pipe that is closed. -/
lemma PipesOk.withPipe (h : k.PipesOk) (h₀ : (k.file f₀).ref ≠ 0) (h₁ : (k.file f₁).ref ≠ 0)
    (hy : k.pipeUses y = 0) : (k.withPipe f₀ f₁ y m).PipesOk := by
  have hold : ∀ g, (k.file g).type = .pipe → (k.file g).pipe ≠ y := by
    intro g hg heq
    have := pipeUses_eq_one_iff.mpr ⟨_, heq ▸ h.opened g hg⟩
    omega
  have hread := withPipe_read (k := k) (y := y) (m := m) hne
  have hwrite := withPipe_write (k := k) (y := y) (m := m) hne
  have hpipe : (k.withPipe f₀ f₁ y m).pipe = Function.update k.pipe y ⟨true, true⟩ := rfl
  refine ⟨fun g hg => ?_, fun g hg => ?_, fun g g' hg hg' hp hw => ?_⟩
  · by_cases hg₀ : g = f₀
    · rw [hg₀, hread] at hg
      exact absurd hg h₀
    · by_cases hg₁ : g = f₁
      · rw [hg₁, hwrite] at hg
        exact absurd hg h₁
      · rw [withPipe_other hg₀ hg₁] at hg ⊢
        exact h.unused g hg
  · rw [hpipe]
    by_cases hg₀ : g = f₀
    · rw [hg₀, hread]
      simp [Pipe.isOpen]
    · by_cases hg₁ : g = f₁
      · rw [hg₁, hwrite]
        simp [Pipe.isOpen]
      · rw [withPipe_other hg₀ hg₁] at hg ⊢
        rw [Function.update_of_ne (hold g hg)]
        exact h.opened g hg
  · -- the two new files differ in their ends, old files have other pages
    have hcases : ∀ g, ((k.withPipe f₀ f₁ y m).file g).type = .pipe →
        g = f₀ ∨ g = f₁ ∨ (((k.withPipe f₀ f₁ y m).file g) = k.file g ∧ (k.file g).pipe ≠ y) := by
      intro g hg
      by_cases hg₀ : g = f₀
      · exact Or.inl hg₀
      · by_cases hg₁ : g = f₁
        · exact Or.inr (Or.inl hg₁)
        · rw [withPipe_other hg₀ hg₁] at hg ⊢
          exact Or.inr (Or.inr ⟨rfl, hold g hg⟩)
    rcases hcases g hg with rfl | rfl | ⟨he, hne'⟩ <;>
      rcases hcases g' hg' with rfl | rfl | ⟨he', hne''⟩ <;>
      simp_all
    exact h.distinct g g' hg hg' hp hw

/-- The page of the new pipe comes from the free list. -/
lemma withPipe_harmless (h₀ : (k.file f₀).ref ≠ 0) (h₁ : (k.file f₁).ref ≠ 0)
    (hk : k.mem.kalloc = (some y, m)) : Harmless k (k.withPipe f₀ f₁ y m) := by
  have hfiles : KeepsSpaces k (k.withPipe f₀ f₁ y m) :=
    ⟨.refl _, fun _ => rfl, fun _ => rfl, fun _ => rfl, fun _ => rfl, Mem.shared_kalloc hk,
      Mem.layout_kalloc hk, rfl⟩
  refine .of_pipes hfiles fun h => ?_
  have hfree := Mem.free_kalloc hk
  have hy : one y y = 1 := if_pos rfl
  have huses : k.pipeUses y = 0 := by
    have h1 := hfree y
    have h2 := h.owned.places_le_one (h.owned.shmRef_of_free (x := y) (by omega))
    unfold places at h2
    omega
  refine ⟨h.pipes.withPipe hne h₀ h₁ huses, fun x => ?_⟩
  have hfx := hfree x
  change m.free x + _ = _
  by_cases hx : x = y
  · subst hx
    have : (k.withPipe f₀ f₁ x m).pipeUses x = 1 := by simp [pipeUses, withPipe, setFile]
    omega
  · have : (k.withPipe f₀ f₁ y m).pipeUses x = k.pipeUses x := by
      simp [pipeUses, withPipe, setFile, Function.update_of_ne hx]
    have hyx : one y x = 0 := if_neg (Ne.symm hx)
    omega

end WithPipe

/-- `kalloc` without a page to give changes nothing. -/
lemma setMem_kalloc_none {m : Mem} (h : k.mem.kalloc = (none, m)) : { k with mem := m } = k := by
  rw [(Mem.kalloc_none h).2]

lemma pipealloc_harmless : Ensures (pipealloc k) fun r => Harmless k r.2 := by
  unfold pipealloc
  split
  · next k₁ h₁ => exact .ok (filealloc_harmless h₁)
  · next f₀ k₁ h₁ =>
    split
    · next k₂ h₂ =>
      exact fileclose_harmless.bind fun k₃ h₃ =>
        .ok ((filealloc_harmless h₁).trans ((filealloc_harmless h₂).trans h₃))
    · next f₁ k₂ h₂ =>
      have hk₂ := (filealloc_harmless h₁).trans (filealloc_harmless h₂)
      split
      · next m hm =>
        rw [setMem_kalloc_none hm]
        exact fileclose_harmless.bind fun k₃ h₃ => fileclose_harmless.bind fun k₄ h₄ =>
          .ok (hk₂.trans (h₃.trans h₄))
      · next y m hm =>
        obtain ⟨-, rfl⟩ := filealloc_some h₁
        obtain ⟨href, rfl⟩ := filealloc_some h₂
        have hne : f₀ ≠ f₁ := by
          rintro rfl
          simp [setFile] at href
        refine .ok (hk₂.trans (withPipe_harmless hne ?_ ?_ hm))
        · simp [setFile, Function.update_of_ne hne]
        · simp [setFile]

/-! ### The file system calls -/

lemma sysPipe_harmless : Ensures (sysPipe p k) fun r => Harmless k r.2 := by
  refine pipealloc_harmless.bind ?_
  rintro ⟨_ | ⟨rf, wf⟩, k₁⟩ h₁
  · exact .ok h₁
  · dsimp only at h₁ ⊢
    split
    · next k₂ h₂ =>
      exact fileclose_harmless.bind fun k₃ h₃ => fileclose_harmless.bind fun k₄ h₄ =>
        .ok (h₁.trans ((fdalloc_harmless h₂).trans (h₃.trans h₄)))
    · next fd₀ k₂ h₂ =>
      split
      · next k₃ h₃ =>
        have hk₃ := h₁.trans ((fdalloc_harmless h₂).trans (fdalloc_harmless h₃))
        exact fileclose_harmless.bind fun k₄ h₄ => fileclose_harmless.bind fun k₅ h₅ =>
          .ok (hk₃.trans ((Harmless.setOfile k₃ p _).trans (h₄.trans h₅)))
      · next fd₁ k₃ h₃ => exact .ok (h₁.trans ((fdalloc_harmless h₂).trans (fdalloc_harmless h₃)))

lemma sysOpen_harmless {readable writable : Bool} :
    Ensures (sysOpen p readable writable k) fun r => Harmless k r.2 := by
  unfold sysOpen
  split
  · next k₁ h₁ => exact .ok (filealloc_harmless h₁)
  · next f k₁ h₁ =>
    split
    · next k₂ h₂ =>
      exact fileclose_harmless.bind fun k₃ h₃ =>
        .ok ((filealloc_harmless h₁).trans ((fdalloc_harmless h₂).trans h₃))
    · next fd k₂ h₂ =>
      refine .ok ((filealloc_harmless h₁).trans ((fdalloc_harmless h₂).trans ?_))
      exact .setFile fun _ => Or.inl (by simp)

lemma sysDup_harmless {fd : Fin NOFILE} : Ensures (sysDup p fd k) fun r => Harmless k r.2 := by
  unfold sysDup
  split
  · exact .ok (.refl k)
  · next f hf =>
    split
    · next k₁ h₁ => exact .ok (fdalloc_harmless h₁)
    · next fd' k₁ h₁ => exact filedup_harmless.bind fun k₂ h₂ => .ok ((fdalloc_harmless h₁).trans h₂)

lemma sysClose_harmless {fd : Fin NOFILE} : Ensures (sysClose p fd k) fun r => Harmless k r.2 := by
  unfold sysClose
  split
  · exact .ok (.refl k)
  · exact fileclose_harmless.bind fun k₁ h₁ => .ok ((Harmless.setOfile k p _).trans h₁)

/-! ### Scheduling and exit -/

lemma harmless_table {t : PTable} (ht : Alike k.table t) : Harmless k { k with table := t } := by
  have hkeep : KeepsSpaces k { k with table := t } :=
    ⟨ht, fun _ => rfl, fun _ => rfl, fun _ => rfl, fun _ => rfl, rfl, rfl, rfl⟩
  exact .of_pipes hkeep fun h => ⟨⟨h.pipes.unused, h.pipes.opened, h.pipes.distinct⟩, fun _ => rfl⟩

lemma exit_harmless (hp : k.Live p) : Ensures (exit p k) fun r => Harmless k r.2 := by
  unfold exit
  split
  · exact .error
  · refine (closeFiles_harmless _).bind fun k₁ h₁ => .ok (h₁.trans (harmless_table ?_))
    exact alike_exitTable ((h₁.only.live p).mpr hp)

end Kernel

end Xv6
