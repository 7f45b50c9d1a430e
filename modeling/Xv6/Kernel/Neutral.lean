import Xv6.Kernel.Outcomes
import Xv6.Fs.Icache
import Xv6.Mem.CopyUvm

/-!
# fork, exit and wait

A child that exits at once and is reaped by its parent leaves nothing behind. The pages, the
references to the shared page and to open files, and the reference to the current directory that
`fork` takes are exactly those that `exit` and `wait` give back.
-/

namespace Xv6

namespace Kernel

open Fallible Count

variable {k k' : Kernel} {p q : Slot} {d nd : PageDir} {m m' : Mem} {x y : Nat} {l : List (Fin NOFILE)}

/-! ### Open files -/

/-- How many of the descriptors `l` of a process refer to the file. -/
def fdCount (k : Kernel) (p : Slot) (l : List (Fin NOFILE)) (f : Fin NFILE) : Nat :=
  (l.map (k.mm p).ofile).count (some f)

lemma fdCount_cons (fd : Fin NOFILE) (f : Fin NFILE) :
    k.fdCount p (fd :: l) f = k.fdCount p l f + if (k.mm p).ofile fd = some f then 1 else 0 := by
  simp only [fdCount, List.map_cons, List.count_cons, beq_iff_eq]

lemma fdCount_pos {f : Fin NFILE} (h : k.fdCount p l f ≠ 0) :
    ∃ fd ∈ l, (k.mm p).ofile fd = some f := by
  have hmem := List.count_pos_iff.mp (Nat.pos_of_ne_zero h)
  exact List.mem_map.mp hmem

/-- The kernel with other reference counts of files, and other descriptors of process `q`. -/
def withFiles (k : Kernel) (q : Slot) (ref : Fin NFILE → Nat) (o : Fin NOFILE → Option (Fin NFILE)) :
    Kernel :=
  { k with
    file := fun f => { k.file f with ref := ref f }
    mm := Function.update k.mm q { k.mm q with ofile := o } }

lemma withFiles_self (k : Kernel) (q : Slot) :
    k.withFiles q (fun f => (k.file f).ref) (k.mm q).ofile = k := by
  simp [withFiles]

lemma withFiles_withFiles (k : Kernel) (q : Slot) (ref ref' : Fin NFILE → Nat)
    (o o' : Fin NOFILE → Option (Fin NFILE)) :
    (k.withFiles q ref o).withFiles q ref' o' = k.withFiles q ref' o' := by
  simp [withFiles]

lemma withFiles_mm_self (k : Kernel) (q : Slot) (ref : Fin NFILE → Nat)
    (o : Fin NOFILE → Option (Fin NFILE)) :
    (k.withFiles q ref o).mm q = { k.mm q with ofile := o } := Function.update_self ..

lemma withFiles_ofile (k : Kernel) (q : Slot) (ref : Fin NFILE → Nat)
    (o : Fin NOFILE → Option (Fin NFILE)) : ((k.withFiles q ref o).mm q).ofile = o := by
  rw [withFiles_mm_self]

lemma withFiles_mm_ne (ref : Fin NFILE → Nat) (o : Fin NOFILE → Option (Fin NFILE)) (h : p ≠ q) :
    (k.withFiles q ref o).mm p = k.mm p := Function.update_of_ne h ..

/-- One reference count and the descriptors of `q` are assigned. -/
lemma setFile_setMm (k : Kernel) (q : Slot) (f : Fin NFILE) (n : Nat)
    (o : Fin NOFILE → Option (Fin NFILE)) :
    (k.setFile f { k.file f with ref := n }).setMm q { k.mm q with ofile := o } =
      k.withFiles q (Function.update (fun f => (k.file f).ref) f n) o := by
  simp only [setFile, setMm, withFiles, Kernel.mk.injEq, true_and, and_true]
  funext g
  by_cases hg : g = f
  · subst hg
    simp
  · simp [hg]

/-- `dupFiles` adds one reference for each descriptor and gives the child the descriptors. -/
lemma dupFiles_eq (hpq : p ≠ q) (href : ∀ fd ∈ l, ∀ f, (k.mm p).ofile fd = some f → (k.file f).ref ≠ 0) :
    dupFiles p q l k = .ok (k.withFiles q (fun f => (k.file f).ref + k.fdCount p l f)
      fun fd => if fd ∈ l then ((k.mm p).ofile fd).or ((k.mm q).ofile fd) else (k.mm q).ofile fd) := by
  induction l generalizing k with
  | nil =>
    have hzero : ∀ f, k.fdCount p [] f = 0 := fun _ => rfl
    simp [dupFiles, hzero, withFiles_self]
  | cons fd l ih =>
    have hrest : ∀ fd' ∈ l, ∀ f, (k.mm p).ofile fd' = some f → (k.file f).ref ≠ 0 := fun fd' h =>
      href fd' (List.mem_cons_of_mem fd h)
    unfold dupFiles
    cases hfd : (k.mm p).ofile fd with
    | none =>
      dsimp only
      rw [ih hrest]
      congr 2
      · funext f
        rw [fdCount_cons, if_neg (by simp [hfd]), Nat.add_zero]
      · funext fd'
        by_cases h : fd' = fd
        · subst h
          simp [hfd]
        · simp [h]
    | some f =>
      have hpos := href fd (List.mem_cons_self ..) f hfd
      simp only [filedup, if_neg (show ¬ (k.file f).ref < 1 by omega), bind, Except.bind]
      have hmm : (k.setFile f { k.file f with ref := (k.file f).ref + 1 }).mm = k.mm := rfl
      rw [hmm, setFile_setMm]
      set k₁ := k.withFiles q (Function.update (fun f => (k.file f).ref) f ((k.file f).ref + 1))
        (Function.update (k.mm q).ofile fd (some f)) with hk₁
      have hmm₁ : k₁.mm p = k.mm p := withFiles_mm_ne _ _ hpq
      have hcount : ∀ g, k₁.fdCount p l g = k.fdCount p l g := fun g => by rw [fdCount, hmm₁, fdCount]
      have href₁ : ∀ g, (k₁.file g).ref =
          Function.update (fun f => (k.file f).ref) f ((k.file f).ref + 1) g := fun g => rfl
      rw [ih (k := k₁), hk₁, withFiles_withFiles]
      · congr 2
        · funext g
          rw [← hk₁, href₁, hcount, fdCount_cons, hfd]
          by_cases hg : g = f
          · subst hg
            simp
            omega
          · simp [hg, Ne.symm hg]
        · funext fd'
          rw [← hk₁, hmm₁, hk₁, withFiles_mm_self]
          by_cases h : fd' = fd
          · subst h
            simp [hfd]
          · simp [h]
      · intro fd' hfd' g hg
        rw [hmm₁] at hg
        rw [href₁]
        by_cases hgf : g = f
        · subst hgf
          simp
        · simp [hgf, hrest fd' hfd' g hg]

/-- `closeFiles` drops one reference for each descriptor, if none of them is the last. -/
lemma closeFiles_eq (hl : l.Nodup) (href : ∀ f, k.fdCount q l f ≠ 0 → k.fdCount q l f < (k.file f).ref) :
    closeFiles q l k = .ok (k.withFiles q (fun f => (k.file f).ref - k.fdCount q l f)
      fun fd => if fd ∈ l then none else (k.mm q).ofile fd) := by
  induction l generalizing k with
  | nil =>
    have hzero : ∀ f, k.fdCount q [] f = 0 := fun _ => rfl
    simp [closeFiles, hzero, withFiles_self]
  | cons fd l ih =>
    obtain ⟨hnot, hl⟩ := List.nodup_cons.mp hl
    unfold closeFiles
    cases hfd : (k.mm q).ofile fd with
    | none =>
      have hcount : ∀ f, k.fdCount q (fd :: l) f = k.fdCount q l f := fun f => by
        rw [fdCount_cons, if_neg (by simp [hfd]), Nat.add_zero]
      dsimp only
      rw [ih hl fun f hf => by rw [← hcount]; exact href f (by rwa [hcount])]
      congr 2
      · funext f
        rw [hcount]
      · funext fd'
        by_cases h : fd' = fd
        · subst h
          simp [hfd]
        · simp [h]
    | some f =>
      have hcount : ∀ g, k.fdCount q (fd :: l) g = k.fdCount q l g + if f = g then 1 else 0 := by
        intro g
        rw [fdCount_cons, hfd]
        simp only [Option.some.injEq]
      have hpos : 1 < (k.file f).ref := by
        have h1 := hcount f
        rw [if_pos rfl] at h1
        have h2 := href f (by omega)
        omega
      simp only [fileclose, if_neg (show ¬ (k.file f).ref < 1 by omega),
        if_pos (show 0 < (k.file f).ref - 1 by omega), bind, Except.bind]
      have hmm : (k.setFile f { k.file f with ref := (k.file f).ref - 1 }).mm = k.mm := rfl
      rw [hmm, setFile_setMm]
      set k₁ := k.withFiles q (Function.update (fun f => (k.file f).ref) f ((k.file f).ref - 1))
        (Function.update (k.mm q).ofile fd none) with hk₁
      have href₁ : ∀ g, (k₁.file g).ref =
          Function.update (fun f => (k.file f).ref) f ((k.file f).ref - 1) g := fun g => rfl
      have hcount₁ : ∀ g, k₁.fdCount q l g = k.fdCount q l g := by
        intro g
        rw [fdCount, fdCount, hk₁, withFiles_mm_self]
        refine congrArg (List.count (some g)) (List.map_congr_left fun fd' h => ?_)
        have hne : fd' ≠ fd := by
          rintro rfl
          exact hnot h
        exact Function.update_of_ne hne ..
      rw [ih (k := k₁) hl, hk₁, withFiles_withFiles]
      · congr 2
        · funext g
          rw [← hk₁, href₁, hcount₁, hcount]
          by_cases hg : g = f
          · subst hg
            simp
            omega
          · simp [hg, Ne.symm hg]
        · funext fd'
          rw [withFiles_mm_self]
          by_cases h : fd' = fd
          · subst h
            simp
          · simp [h]
      · intro g hg
        rw [hcount₁] at hg ⊢
        rw [href₁]
        have h1 := hcount g
        have h2 := href g (by omega)
        by_cases hgf : g = f
        · subst hgf
          simp at h1 ⊢
          omega
        · rw [Function.update_of_ne hgf]
          omega

/-! ### Memory -/

section Memory

variable {c : ShmField} {m₁ m₂ : Mem}

/-- The table of shared pages is given by its pages and their numbers of references. -/
lemma shared_ext {sh sh' : Fin N_SHARED_PAGES → ShmEntry} (h : Mem.SharedOk sh)
    (h' : Mem.SharedOk sh') (hc : Mem.Cleared sh sh') (href : ∀ x, Mem.shmRef sh' x = Mem.shmRef sh x) :
    sh' = sh := by
  funext i
  by_cases hpa : (sh i).pa = 0
  · have hpa' : (sh' i).pa = 0 := (hc i).elim (·.trans hpa) id
    have h1 := (h.zero i).mpr hpa
    have h2 := (h'.zero i).mpr hpa'
    cases hi : sh i
    cases hi' : sh' i
    simp_all
  · have h1 := Mem.shmRef_eq h (i := i) rfl hpa
    have hpos : (sh i).refCnt ≠ 0 := fun h0 => hpa ((h.zero i).mp h0)
    have hne : Mem.shmRef sh' (sh i).pa ≠ 0 := by
      rw [href]
      omega
    obtain ⟨j, hj, -⟩ := Mem.exists_of_shmRef_ne_zero hne
    -- the entry of the page can only be its old one
    obtain rfl : j = i := by
      rcases hc j with hj' | hj'
      · exact h.distinct j i (hj'.symm.trans hj) (by rw [← hj', hj]; exact hpa)
      · exact absurd (hj.symm.trans hj') hpa
    have h2 := Mem.shmRef_eq h' hj hpa
    rw [href] at h2
    cases hi : sh j
    cases hi' : sh' j
    simp_all

/-- What `copyuvm` and the stack of the child take from memory, `kfree` and `freevm` give back. -/
lemma copied_freed (hr : CopyReady c d m₁) (hidx : c.idx ≠ none ↔ c.va ≠ 0)
    (hshm : c.va ≠ 0 → c.va < KERNBASE ∧ (d.entry c.va).present = true)
    (hk : m.kalloc = (some y, m₁)) (hcopy : copyuvm c d m₁ = .ok (some nd, m₂))
    (hin : ∀ x, m.free x ≠ 0 ∨ Mem.shmRef m.shared x ≠ 0 → m.InRange x) :
    ∃ m₃ m₄, m₂.kfree y = .ok m₃ ∧ freevm c nd m₃ = .ok m₄ ∧ (∀ x, m₄.free x = m.free x) ∧
      m₄.shared = m.shared := by
  have hcopied := (copyuvm_ensures hr _ hcopy).1 nd rfl
  have hcopying : Copying (kept c d) m₁ m₂ := hcopied.copying
  have hlayout : m₂.layout = m.layout := hcopying.layout.trans (Mem.layout_kalloc hk)
  have hyfree := Mem.free_kalloc hk
  have hyin : m₂.InRange y := by
    have := hyfree y
    rw [one, if_pos rfl] at this
    exact (hin y (Or.inl (by omega))).congr hlayout
  -- the page at `shm_va` is the parent's, mapped and registered
  have hva : c.idx ≠ none → c.va < KERNBASE ∧ (d.entry c.va).present = true ∧
      nd.entry c.va = d.entry c.va ∧ Mem.shmRef m₁.shared (d.entry c.va).ppn ≠ 0 := by
    intro h
    obtain ⟨hlt, hp⟩ := hshm (hidx.mp h)
    exact ⟨hlt, hp, (hcopied.entry c.va hlt).shared hp ⟨h, rfl⟩, hr.registered h hlt hp⟩
  have hkept : ∀ x, kept c d x = if c.idx ≠ none then one (d.entry c.va).ppn x else 0 := by
    intro x
    unfold kept
    by_cases h : c.idx ≠ none
    · obtain ⟨hlt, hp, -, -⟩ := hva h
      rw [if_pos ⟨h, hlt⟩, if_pos h, Pte.maps_of_present hp]
    · rw [if_neg fun hc => h hc.1, if_neg h]
  have hkept' : ∀ x, kept c nd x = kept c d x := by
    intro x
    unfold kept
    by_cases h : c.idx ≠ none
    · rw [(hva h).2.2.1]
    · rw [if_neg fun hc => h hc.1, if_neg fun hc => h hc.1]
  let m₃ : Mem := { m₂.junk y with freelist := y :: m₂.freelist }
  have hfree₃ : ∀ x, m₃.free x = m₂.free x + one y x := (Mem.kfree_ensures y m₂ m₃ (Mem.kfree_eq_ok hyin)).2.1
  have hshared₃ : m₃.shared = m₂.shared := rfl
  have href₂ : ∀ x, Mem.shmRef m₂.shared x = Mem.shmRef m₁.shared x + kept c d x := hcopying.shmRef
  have hdropped : ∀ x, dropped c nd m₃ 0 KERNBASE x = kept c d x := by
    intro x
    unfold dropped
    rw [hkept x, hshared₃, href₂ x, hkept x]
    by_cases h : c.idx ≠ none
    · obtain ⟨hlt, hp, hentry, hreg⟩ := hva h
      have ht : nd.HasTable c.va := PageDir.hasTable_of_present (by rw [hentry]; exact hp)
      rw [hentry, if_pos h]
      by_cases hx : (d.entry c.va).ppn = x
      · subst hx
        rw [if_pos ⟨h, Nat.zero_le _, hlt, ht, by rw [one, if_pos rfl]; omega⟩]
      · rw [one, if_neg hx, ite_self]
    · rw [if_neg fun hc => h hc.1, if_neg h]
  have hlast : ∀ x, (if Mem.shmRef m₃.shared x = 1 then dropped c nd m₃ 0 KERNBASE x else 0) = 0 := by
    intro x
    rw [hdropped, hshared₃, href₂, hkept]
    by_cases h : c.idx ≠ none
    · rw [if_pos h]
      by_cases hx : (d.entry c.va).ppn = x
      · subst hx
        have := (hva h).2.2.2
        rw [one, if_pos rfl, if_neg (by omega)]
      · rw [one, if_neg hx, ite_self]
    · rw [if_neg h, ite_self]
  have hsh₁ := Mem.shared_kalloc hk
  have hrange : ∀ x, nd.refs x ≠ 0 → m₃.InRange x := by
    intro x hx
    refine (hin x ?_).congr hlayout
    have h1 := hcopied.refs x
    have h2 := hyfree x
    rw [hkept] at h1
    by_cases h : c.idx ≠ none
    · by_cases hxs : (d.entry c.va).ppn = x
      · subst hxs
        exact Or.inr (hsh₁ ▸ (hva h).2.2.2)
      · rw [if_pos h, one, if_neg hxs] at h1
        exact Or.inl (by omega)
    · rw [if_neg h] at h1
      exact Or.inl (by omega)
  have hhit : ∀ v < KERNBASE, c.Hits v → (nd.entry v).present = true := by
    rintro v - ⟨hne, rfl⟩
    rw [(hva hne).2.2.1]
    exact (hva hne).2.1
  obtain ⟨m₄, hfreevm⟩ := freevm_succeeds (m := m₃) hcopying.sharedOk hrange hhit
  have hfreed := freevm_ensures (m := m₃) hcopying.sharedOk m₄ hfreevm
  refine ⟨m₃, m₄, Mem.kfree_eq_ok hyin, hfreevm, fun x => ?_, ?_⟩
  · have h1 := hfreed.free x
    rw [hlast, hkept'] at h1
    have h2 := hcopied.refs x
    have h3 := hyfree x
    have h4 := hfree₃ x
    change nd.refs x + m₂.free x = _ at h2
    omega
  · rw [← hsh₁]
    refine shared_ext hr.sharedOk hfreed.sharedOk ?_ fun x => ?_
    · refine Mem.Cleared.trans (fun i => Or.inl (hcopying.pa i)) hfreed.cleared
    · have h1 := hfreed.shmRef x
      rw [hdropped, hshared₃, href₂] at h1
      omega

end Memory

end Kernel

/-! ### Inodes -/

namespace Icache

open Threads Fs

variable {sb : Superblock} {p q : Slot} {i j : Entry} {s : Shared}

lemma setInode_inode (s : Shared) (i j : Entry) (x : Inode) :
    (s.setInode i x).inode j = if j = i then x else s.inode j := Function.update_apply ..

/-- Valid or not, an inode with another reference is not freed. -/
lemma ifree_always {Q : Unit → Shared → Prop} {o : Option Dinode} (href : (s.inode i).ref ≠ 1)
    (hQ : Q () s) : Always (perform sb q) (o.elim (pure ()) (ifree i)) Q s := by
  cases o with
  | none => exact always_pure hQ
  | some ip =>
    show Always (perform sb q) (ifree i ip) Q s
    unfold ifree
    split
    · refine always_bind (always_det (fun x => rfl) ?_)
      rw [if_neg href]
      exact always_pure hQ
    · exact always_pure hQ

lemma takeCwd_always {Q : Entry → Shared → Prop} (hcwd : s.cwd q = some i)
    (hQ : Q i { s.hold q i with cwd := Function.update s.cwd q none }) :
    Always (perform sb q) takeCwd Q s := by
  refine always_det (e := Op.takeCwd) (fun x => ?_) hQ
  simp only [perform, hcwd]

/-- Dropping a reference that is not the last one only counts it. -/
lemma iput_always (hlock : (s.inode i).lock = none) (href : (s.inode i).ref ≠ 1) :
    Always (perform sb q) (iput i)
      (fun _ s' => ∀ j, (s'.inode j).ref = (s.inode j).ref - if j = i then 1 else 0) s := by
  have hend : ∀ s₁ : Shared, (s₁.inode i).lock = some q → (∀ j, (s₁.inode j).ref = (s.inode j).ref) →
      Always (perform sb q) (releasesleep i >>= fun _ => unref i)
        (fun _ s' => ∀ j, (s'.inode j).ref = (s.inode j).ref - if j = i then 1 else 0) s₁ := by
    intro s₁ hl hr
    refine always_bind (always_det (fun x => if_pos hl) ?_)
    refine always_det (fun x => rfl) fun j => ?_
    show ((Shared.setInode _ i _).inode j).ref = _
    rw [setInode_inode, setInode_inode, setInode_inode]
    by_cases hj : j = i
    · subst hj
      simp only [if_true]
      rw [hr]
    · rw [if_neg hj, if_neg hj, if_neg hj, Nat.sub_zero, hr]
  refine always_bind (always_det (fun x => if_pos hlock) ?_)
  refine always_bind (always_det (fun x => rfl) ?_)
  have hl : ((s.setInode i { s.inode i with lock := some q }).inode i).lock = some q := by
    rw [setInode_inode, if_pos rfl]
  have hr : ∀ j, ((s.setInode i { s.inode i with lock := some q }).inode j).ref = (s.inode j).ref := by
    intro j
    rw [setInode_inode]
    split_ifs with hj
    · rw [hj]
    · rfl
  refine always_bind (ifree_always (by rw [hr]; exact href) (hend _ hl hr))

/-- Closing descriptors of files that another process has open, too. -/
lemma closeFiles_always {Q : Unit → Shared → Prop} {n : Nat} (hn : (s.ofile q).card = n)
    (hother : ∀ f ∈ s.ofile q, ∃ r, r ≠ q ∧ f ∈ s.ofile r)
    (hQ : Q () { s with ofile := Function.update s.ofile q 0 }) :
    Always (perform sb q) (closeFiles n) Q s := by
  induction n generalizing s with
  | zero =>
    rw [Multiset.card_eq_zero] at hn
    rw [← hn, Function.update_eq_self] at hQ
    exact always_pure hQ
  | succ n ih =>
    refine always_bind (always_bind (always_call ?_ fun x r s' hs => ?_))
    · obtain ⟨f, hf⟩ := Multiset.card_pos_iff_exists_mem.mp (by omega : 0 < (s.ofile q).card)
      refine ⟨f.val, s.closeFile q f, ?_⟩
      simp only [perform, dif_pos f.isLt, Fin.eta, if_pos hf]
    · simp only [perform] at hs
      split_ifs at hs with hx hf
      obtain ⟨r', hr', hfr⟩ := hother _ hf
      have hopen : ∃ r, ⟨x, hx⟩ ∈
          Function.update s.ofile q ((s.ofile q).erase ⟨x, hx⟩) r := by
        refine ⟨r', ?_⟩
        rw [Function.update_of_ne hr']
        exact hfr
      rw [Shared.closeFile, if_pos hopen] at hs
      cases hs
      refine always_pure (ih ?_ (fun f hf' => ?_) ?_)
      · dsimp only
        rw [Function.update_self, Multiset.card_erase_of_mem hf, hn]
        rfl
      · dsimp only at hf' ⊢
        rw [Function.update_self] at hf'
        obtain ⟨r, hr, hfr⟩ := hother f (Multiset.mem_of_mem_erase hf')
        exact ⟨r, hr, by rwa [Function.update_of_ne hr]⟩
      · dsimp only
        rw [Function.update_idem]
        exact hQ

/-- The child of a fork exits at once: all reference counts are as before the fork. -/
lemma fork_exit_refs (hpq : p ≠ q) (hcwd : s.cwd p = some i) (hno : s.NoProc q)
    (hlock : (s.inode i).lock = none) (href : (s.inode i).ref ≠ 0) :
    ∃ s₁, perform sb p .fork q.val s = some ((), s₁) ∧
      Always (perform sb q) exit (fun _ s₂ => ∀ j, (s₂.inode j).ref = (s.inode j).ref) s₁ := by
  have hfork : perform sb p .fork q.val s = some ((),
      { s.setInode i { s.inode i with ref := (s.inode i).ref + 1 } with
        cwd := Function.update s.cwd q (some i)
        ofile := Function.update s.ofile q (s.ofile p) }) := by
    simp only [perform, dif_pos q.isLt, hcwd, Fin.eta, if_pos (And.intro hno hpq.symm)]
    rfl
  refine ⟨_, hfork, ?_⟩
  refine always_bind (always_det (fun x => rfl) (always_bind (closeFiles_always rfl ?_ ?_)))
  · intro f hf
    dsimp only at hf ⊢
    rw [Function.update_self] at hf
    exact ⟨p, hpq, by rwa [Function.update_of_ne hpq]⟩
  · refine always_bind (takeCwd_always (Function.update_self ..) ?_)
    have hinode : ∀ j, ((s.setInode i { s.inode i with ref := (s.inode i).ref + 1 }).inode j).ref =
        (s.inode j).ref + if j = i then 1 else 0 := by
      intro j
      rw [setInode_inode]
      split_ifs with hj
      · rw [hj]
      · rfl
    refine (iput_always ?_ ?_).mono fun _ s₂ h j => ?_
    · show ((s.setInode i _).inode i).lock = none
      rw [setInode_inode, if_pos rfl]
      exact hlock
    · show ((s.setInode i _).inode i).ref ≠ 1
      rw [hinode, if_pos rfl]
      omega
    · rw [h j]
      show ((s.setInode i _).inode j).ref - _ = _
      rw [hinode]
      exact Nat.add_sub_cancel ..

end Icache

/-! ### The round trip -/

namespace Kernel

open Fallible Count

variable {k k₁ : Kernel} {p q : Slot} {d : PageDir}

/-- A parent: its pages are present, lazy or unmapped, and not on the free list; `shm_va` is 0 or the
address of a registered page; its files are open. Memory is in order, the slots that are not in use
have no files, and the first process exists. -/
structure Parent (p : Slot) (d : PageDir) (k : Kernel) : Prop where
  live : k.Live p
  pgdir : (k.mm p).pgdir = some d
  not_both : ∀ v < KERNBASE, (d.entry v).present = true → (d.entry v).lazy = false
  notFree : ∀ v < KERNBASE, (d.entry v).present = true → (d.entry v).ppn ∉ k.mem.freelist
  nodup : k.mem.freelist.Nodup
  sharedOk : Mem.SharedOk k.mem.shared
  inRange : ∀ x, x ∈ k.mem.freelist ∨ Mem.shmRef k.mem.shared x ≠ 0 → k.mem.InRange x
  idx : (k.mm p).shm.idx ≠ none ↔ (k.mm p).shm.va ≠ 0
  shm : (k.mm p).shm.va ≠ 0 → (k.mm p).shm.va < KERNBASE ∧
    (d.entry (k.mm p).shm.va).present = true ∧
    Mem.shmRef k.mem.shared (d.entry (k.mm p).shm.va).ppn ≠ 0
  files : ∀ fd f, (k.mm p).ofile fd = some f → (k.file f).ref ≠ 0
  closed : ∀ q, ¬ k.Live q → ∀ fd, (k.mm q).ofile fd = none
  initproc : k.Live k.initproc

/-- Everything that `fork` takes is back in its place, and the slot of the child is free. -/
structure Restored (p q : Slot) (k k' : Kernel) : Prop where
  free : ∀ x, x ∈ k'.mem.freelist ↔ x ∈ k.mem.freelist
  nodup : k'.mem.freelist.Nodup
  shared : k'.mem.shared = k.mem.shared
  file : k'.file = k.file
  pgdir : (k'.mm p).pgdir = (k.mm p).pgdir
  slot : (k'.table q).state = .unused ∧ (k'.table q).pid = 0

lemma Parent.copyReady (h : k.Parent p d) : CopyReady (k.mm p).shm d k.mem :=
  ⟨h.not_both, fun v hv hp => Mem.free_eq_zero.mpr (h.notFree v hv hp),
    fun x => List.nodup_iff_count_le_one.mp h.nodup x, h.sharedOk, fun hi _ _ => (h.shm (h.idx.mp hi)).2.2⟩

/-- The kernel when `fork` has given slot `q` a stack, an address space and the parent's files. -/
def spawned (k : Kernel) (p q : Slot) (y : Nat) (nd : PageDir) (m : Mem) (e : Proc) : Kernel :=
  { (k.setMm q ⟨(k.mm p).sz, some nd, some y, (k.mm q).ofile, (k.mm p).shm⟩).setProc q e with
    mem := m }

/-- A fork that made a runnable child in slot `q`. -/
lemma fork_child {r : Int} (h : k.Parent p d) (hfork : fork p k = .ok (r, k₁)) (hdead : ¬ k.Live q)
    (hrun : (k₁.table q).state = .runnable) :
    ∃ y m₁ nd m e, k.mem.kalloc = (some y, m₁) ∧ copyuvm (k.mm p).shm d m₁ = .ok (some nd, m) ∧
      k₁ = (k.spawned p q y nd m e).withFiles q
        (fun f => (k.file f).ref + k.fdCount p (List.finRange NOFILE) f) (k.mm p).ofile := by
  have hunused : (k.table q).state = .unused := by simpa [Live] using hdead
  have hout : Forked p k k₁ := fork_ensures _ hfork
  -- a slot other than the one that was claimed is still unused
  have hother : ∀ {q' : Slot} {e : Proc}, (Function.update k.table q' e q).state = .runnable →
      q' = q ∧ e.state = .runnable := by
    intro q' e hst
    by_cases hq : q = q'
    · subst hq
      rw [Function.update_self] at hst
      exact ⟨rfl, hst⟩
    · rw [Function.update_of_ne hq, hunused] at hst
      cases hst
  cases hout with
  | full =>
    rw [hunused] at hrun
    cases hrun
  | noStack dead unused ofile =>
    obtain ⟨-, he⟩ := hother hrun
    rw [unused] at he
    cases he
  | noCopy dead unused kalloc pgdir copyuvm kfree ofile =>
    obtain ⟨-, he⟩ := hother hrun
    rw [unused] at he
    cases he
  | @spawned q' u e y d' nd m₁ m _ dead runnable kalloc pgdir copyuvm mm files ofile dup =>
    obtain rfl : d = d' := by simpa [h.pgdir] using pgdir
    have hpq : p ≠ q' := by
      rintro rfl
      exact dead h.live
    have hu : u = ⟨(k.mm p).sz, some nd, some y, (k.mm q').ofile, (k.mm p).shm⟩ := by
      rw [mm, ← ofile]
    rw [hu] at dup
    change dupFiles p q' (List.finRange NOFILE) (k.spawned p q' y nd m e) = .ok k₁ at dup
    have hmm : (k.spawned p q' y nd m e).mm p = k.mm p := Function.update_of_ne hpq ..
    have hmmq : ((k.spawned p q' y nd m e).mm q').ofile = (k.mm q').ofile := by
      simp [Kernel.spawned, setMm, setProc]
    rw [dupFiles_eq (k := k.spawned p q' y nd m e) hpq
      (fun fd _ f hfd => h.files fd f (by rwa [hmm] at hfd))] at dup
    have hk₁ := Except.ok.inj dup
    have hcount : ∀ f, (k.spawned p q' y nd m e).fdCount p (List.finRange NOFILE) f =
        k.fdCount p (List.finRange NOFILE) f := fun f => by rw [fdCount, hmm, fdCount]
    have hofile : (fun fd => if fd ∈ List.finRange NOFILE then
        (((k.spawned p q' y nd m e).mm p).ofile fd).or (((k.spawned p q' y nd m e).mm q').ofile fd)
        else ((k.spawned p q' y nd m e).mm q').ofile fd) = (k.mm p).ofile := by
      funext fd
      rw [if_pos (List.mem_finRange fd), hmm, hmmq, h.closed q' dead fd, Option.or_none]
    simp only [hcount, hofile] at hk₁
    have htable : k₁.table = Function.update k.table q' e := by
      rw [← hk₁]
      rfl
    rw [htable] at hrun
    obtain ⟨rfl, -⟩ := hother hrun
    exact ⟨y, m₁, nd, m, e, kalloc, copyuvm, hk₁.symm⟩

/-- The child can be run. -/
lemma run_child {y : Nat} {nd : PageDir} {m : Mem} {e : Proc} {ref : Fin NFILE → Nat}
    {o : Fin NOFILE → Option (Fin NFILE)} :
    run q ((k.spawned p q y nd m e).withFiles q ref o) =
      .ok (0, ((k.spawned p q y nd m e).withFiles q ref o).setProc q { e with state := .running }) := by
  have hstack : (((k.spawned p q y nd m e).withFiles q ref o).mm q).kstack = some y := by
    rw [withFiles_mm_self]
    simp [spawned, setMm, setProc]
  have hdir : (((k.spawned p q y nd m e).withFiles q ref o).mm q).pgdir = some nd := by
    rw [withFiles_mm_self]
    simp [spawned, setMm, setProc]
  have htable : ((k.spawned p q y nd m e).withFiles q ref o).table q = e := Function.update_self ..
  simp only [run, hstack, hdir, htable]

/-- The child closes the parent's files. -/
lemma exit_child {y : Nat} {nd : PageDir} {m : Mem} {e e' : Proc} (h : k.Parent p d) (hdead : ¬ k.Live q) :
    exit q (((k.spawned p q y nd m e).withFiles q
        (fun f => (k.file f).ref + k.fdCount p (List.finRange NOFILE) f) (k.mm p).ofile).setProc q e') =
      .ok (0, { (k.spawned p q y nd m e).withFiles q (fun f => (k.file f).ref) fun _ => none with
        table := exitTable k.initproc q (Function.update k.table q e') }) := by
  set k₂ := ((k.spawned p q y nd m e).withFiles q
    (fun f => (k.file f).ref + k.fdCount p (List.finRange NOFILE) f) (k.mm p).ofile).setProc q e' with hk₂
  have hinit : ¬ q = k₂.initproc := fun heq => hdead (heq ▸ h.initproc)
  have hofile : (k₂.mm q).ofile = (k.mm p).ofile := withFiles_ofile (k.spawned p q y nd m e) q
    (fun f => (k.file f).ref + k.fdCount p (List.finRange NOFILE) f) (k.mm p).ofile
  have hcount : ∀ f, k₂.fdCount q (List.finRange NOFILE) f = k.fdCount p (List.finRange NOFILE) f :=
    fun f => by rw [fdCount, hofile, fdCount]
  have href : ∀ f, (k₂.file f).ref = (k.file f).ref + k.fdCount p (List.finRange NOFILE) f :=
    fun f => rfl
  have hclose := closeFiles_eq (k := k₂) (q := q) (List.nodup_finRange NOFILE) fun f hf => by
    rw [hcount] at hf ⊢
    rw [href]
    obtain ⟨fd, -, hfd⟩ := fdCount_pos hf
    have := h.files fd f hfd
    omega
  rw [exit, if_neg hinit, hclose]
  simp only [hcount, href, Nat.add_sub_cancel, List.mem_finRange, if_true]
  simp only [hk₂, withFiles, spawned, setProc, setMm, Function.update_self, Function.update_idem]
  rfl

/-- A child that exits as soon as it runs, and is then reaped by its parent, leaves the kernel as it
was: its exit does not fail and gives back the references to inodes, and the `wait` that reaps it gives
back the rest. -/
theorem fork_exit_wait_neutral {r : Int} {sb : Fs.Superblock} {s : Icache.Shared} {i : Icache.Entry}
    (h : k.Parent p d) (hcwd : s.cwd p = some i) (hno : s.NoProc q) (hlock : (s.inode i).lock = none)
    (href : (s.inode i).ref ≠ 0) (hfork : fork p k = .ok (r, k₁)) (hdead : ¬ k.Live q)
    (hrun : (k₁.table q).state = .runnable) :
    (∃ k₂ k₃, run q k₁ = .ok (0, k₂) ∧ exit q k₂ = .ok (0, k₃) ∧
      (waitScan k₃.table p = .reaped q →
        ∃ k₄, wait p k₃ = .ok ((k₃.table q).pid, k₄) ∧ Restored p q k k₄)) ∧
    ∃ s₁, Icache.perform sb p .fork q.val s = some ((), s₁) ∧
      Threads.Always (Icache.perform sb q) Icache.exit
        (fun _ s₂ => ∀ j, (s₂.inode j).ref = (s.inode j).ref) s₁ := by
  have hpq : p ≠ q := by
    rintro rfl
    exact hdead h.live
  refine ⟨?_, Icache.fork_exit_refs hpq hcwd hno hlock href⟩
  obtain ⟨y, m₁, nd, m, e, hk, hcopy, rfl⟩ := fork_child h hfork hdead hrun
  have hready : CopyReady (k.mm p).shm d m₁ := h.copyReady.kalloc hk
  obtain ⟨m₃, m₄, hkfree, hfreevm, hfree, hshared⟩ := copied_freed hready h.idx
    (fun hva => ⟨(h.shm hva).1, (h.shm hva).2.1⟩) hk hcopy
    (fun x hx => h.inRange x (hx.imp_left Mem.free_ne_zero.mp))
  refine ⟨_, _, run_child, exit_child h hdead, fun hscan => ?_⟩
  set k₃ : Kernel := { (k.spawned p q y nd m e).withFiles q (fun f => (k.file f).ref) fun _ => none with
    table := exitTable k.initproc q (Function.update k.table q { e with state := .running }) } with hk₃
  have hmmp : k₃.mm p = k.mm p :=
    (withFiles_mm_ne (k := k.spawned p q y nd m e) (fun f => (k.file f).ref) (fun _ => none) hpq).trans
      (Function.update_of_ne hpq ..)
  have hmmq : (k₃.mm q).kstack = some y ∧ (k₃.mm q).pgdir = some nd := by
    have hmm : k₃.mm q = _ :=
      withFiles_mm_self (k.spawned p q y nd m e) q (fun f => (k.file f).ref) fun _ => none
    rw [hmm]
    simp [spawned, setMm, setProc]
  have hmem : k₃.mem = m := rfl
  refine ⟨{ k₃.setMm q { k₃.mm q with kstack := none } with
    table := reapSlot q k₃.table, mem := m₄ }, ?_, ?_⟩
  · simp only [wait, hscan, hmmq.1, hmmq.2, hmmp, hmem, hkfree, hfreevm, bind, Except.bind]
  · refine ⟨fun x => ?_, ?_, hshared, ?_, ?_, ?_⟩
    · show x ∈ m₄.freelist ↔ _
      rw [← Mem.free_ne_zero, ← Mem.free_ne_zero, hfree]
    · refine List.nodup_iff_count_le_one.mpr fun x => ?_
      show m₄.free x ≤ 1
      rw [hfree]
      exact h.copyReady.free_le x
    · rfl
    · show ((k₃.setMm q _).mm p).pgdir = _
      rw [setMm_mm, if_neg hpq, hmmp]
    · show (reapSlot q k₃.table q).state = _ ∧ (reapSlot q k₃.table q).pid = _
      simp [reapSlot]

/-! ### A parent with every kind of page -/

lemma fork_succeeds {t : PTable} {y : Nat} {m₁ m : Mem} {nd : PageDir} (h : k.Parent p d)
    (halloc : allocproc k.table = .ok (some q, t)) (hk : k.mem.kalloc = (some y, m₁))
    (hcopy : copyuvm (k.mm p).shm d m₁ = .ok (some nd, m)) :
    ∃ k₁, fork p k = .ok ((t q).pid, k₁) ∧
      k₁.table = Function.update k.table q { t q with parent := some p, state := .runnable } := by
  have hdead : ¬ k.Live q := fun hl => hl (allocproc_unused halloc)
  have hpq : p ≠ q := by
    rintro rfl
    exact hdead h.live
  let k₀ : Kernel := { k.setMm q { k.mm q with
    kstack := some y, pgdir := some nd, sz := (k.mm p).sz, shm := (k.mm p).shm } with mem := m }
  have hmm : k₀.mm p = k.mm p := Function.update_of_ne hpq ..
  obtain ⟨k₂, hdup, htable⟩ : ∃ k₂, dupFiles p q (List.finRange NOFILE) k₀ = .ok k₂ ∧
      k₂.table = k.table :=
    ⟨_, dupFiles_eq hpq fun fd _ f hfd => h.files fd f (by rwa [hmm] at hfd), rfl⟩
  refine ⟨k₂.setProc q { t q with parent := some p, state := .runnable }, ?_, ?_⟩
  · simp only [fork, halloc, hk, dir, h.pgdir, hcopy, bind, Except.bind]
    rw [show dupFiles p q (List.finRange NOFILE) _ = _ from hdup]
  · rw [setProc, htable]

/-- The first process, with an ordinary page, a guard page, a lazy page and a shared page, and with one
open file. -/
def mixedKernel : Kernel where
  table := fun q => if q = 0 then ⟨.running, 1, none, none, false⟩ else ⟨.unused, 0, none, none, false⟩
  mm := fun q => if q = 0
    then ⟨0, some mixedDir, some 299, fun fd => if fd.val = 0 then some ⟨0, by decide⟩ else none,
      ⟨some 0, 524287⟩⟩
    else ⟨0, none, none, fun _ => none, ⟨none, 0⟩⟩
  initproc := 0
  mem := mixedMem
  kpgdir := ⟨298, fun _ => none⟩
  file := fun f => if f.val = 0 then ⟨.inode, 1, true, true, 0⟩ else ⟨.none, 0, false, false, 0⟩
  pipe := fun _ => ⟨false, false⟩

/-- The inode cache with the root directory, which is the current directory of the first process. -/
def mixedInodes : Icache.Shared where
  inode := fun i => if i.val = 0 then ⟨1, 1, 1, none, false, Fs.zeroDinode⟩
    else ⟨0, 0, 0, none, false, Fs.zeroDinode⟩
  disk := fun _ _ => Fs.zeroBlock
  file := fun _ => none
  ofile := fun _ => 0
  cwd := fun q => if q = 0 then some ⟨0, by decide⟩ else none
  held := fun _ => 0

lemma mixedKernel_parent : mixedKernel.Parent 0 mixedDir where
  live := by decide
  pgdir := rfl
  not_both v _ hp := (mixedDir_present hp).1
  notFree v _ hp hmem := by
    have h1 := (mixedDir_present hp).2
    have h2 := List.mem_range'_1.mp hmem
    omega
  nodup := List.nodup_range'
  sharedOk := mixedMem_sharedOk
  inRange x hx := by
    have hphys : PHYSTOP = 57344 := rfl
    rcases hx with hx | hx
    · have h2 := List.mem_range'_1.mp hx
      exact ⟨show 280 ≤ x by omega, by omega⟩
    · obtain ⟨i, hpa, href⟩ := Mem.exists_of_shmRef_ne_zero hx
      change (if i.val = 0 then (⟨303, 1⟩ : ShmEntry) else ⟨0, 0⟩).pa = x at hpa
      change (if i.val = 0 then (⟨303, 1⟩ : ShmEntry) else ⟨0, 0⟩).refCnt ≠ 0 at href
      split_ifs at hpa href
      · subst hpa
        exact ⟨show 280 ≤ 303 by decide, by decide⟩
      · exact absurd rfl href
  idx := by decide
  shm _ := by
    have hentry : mixedDir.entry 524287 = ⟨303, true, true, true, false, 0⟩ := by
      rw [mixedDir_entry]
      rfl
    change 524287 < KERNBASE ∧ (mixedDir.entry 524287).present = true ∧
      Mem.shmRef mixedMem.shared (mixedDir.entry 524287).ppn ≠ 0
    rw [hentry]
    refine ⟨?_, rfl, ?_⟩
    · rw [KERNBASE_eq]
      decide
    · rw [Mem.shmRef_eq mixedMem_sharedOk (i := 0) (x := 303) rfl (by decide)]
      decide
  files fd f hf := by
    change (if fd.val = 0 then some ⟨0, by decide⟩ else none) = some f at hf
    split_ifs at hf
    cases hf
    decide
  closed q hq fd := by
    have hne : q ≠ 0 := by
      rintro rfl
      exact hq (by decide)
    change (if q = 0 then _ else (_ : Mm)).ofile fd = none
    rw [if_neg hne]
  initproc := by decide

/-- The child takes the next slot, exits, and is reaped. -/
theorem fork_exit_wait_mixed :
    ∃ r k₁ k₂ k₃ k₄, fork 0 mixedKernel = .ok (r, k₁) ∧ run 1 k₁ = .ok (0, k₂) ∧
      exit 1 k₂ = .ok (0, k₃) ∧ wait 0 k₃ = .ok ((k₃.table 1).pid, k₄) ∧
      Restored 0 1 mixedKernel k₄ ∧
      ∃ s₁, Icache.perform Fs.mkfsSuperblock 0 .fork 1 mixedInodes = some ((), s₁) ∧
        Threads.Always (Icache.perform Fs.mkfsSuperblock 1) Icache.exit
          (fun _ s₂ => ∀ j, (s₂.inode j).ref = (mixedInodes.inode j).ref) s₁ := by
  have hpages : mixedMem.pages = 3000 := List.length_range'
  obtain ⟨y, m₁, hk, hleft⟩ := Mem.kalloc_of_pages (m := mixedMem) (by omega)
  obtain ⟨nd, m, hcopy, -⟩ := copyuvm_succeeds (c := ⟨some 0, 524287⟩) (d := mixedDir) (m := m₁) (by
    have := mixedDir_needs
    omega)
  have halloc : allocproc mixedKernel.table =
      .ok (some 1, Function.update mixedKernel.table 1 ⟨.embryo, 2, none, none, false⟩) := rfl
  obtain ⟨k₁, hfork, htable⟩ := fork_succeeds mixedKernel_parent halloc hk hcopy
  have hdead : ¬ mixedKernel.Live 1 := by decide
  have hrun : (k₁.table 1).state = .runnable := by
    rw [htable, Function.update_self]
  have hcwd : mixedInodes.cwd 0 = some ⟨0, by decide⟩ := rfl
  obtain ⟨⟨k₂, k₃, hrun₂, hexit, hwait⟩, hinodes⟩ := @fork_exit_wait_neutral _ _ _ _ _ _
    Fs.mkfsSuperblock _ _ mixedKernel_parent hcwd (by decide) rfl (by decide) hfork hdead hrun
  -- the only zombie is the child
  have hscan : waitScan k₃.table 0 = .reaped 1 := by
    obtain ⟨y', m₁', nd', m', e, -, -, rfl⟩ := fork_child mixedKernel_parent hfork hdead hrun
    have he : e = ⟨.runnable, 2, some 0, none, false⟩ := by
      have hslot : Function.update mixedKernel.table 1 e 1 = _ := congrFun htable 1
      rwa [Function.update_self, Function.update_self, Function.update_self] at hslot
    cases run_child.symm.trans hrun₂
    cases (exit_child mixedKernel_parent hdead).symm.trans hexit
    subst he
    show waitScan (exitTable 0 1 (Function.update mixedKernel.table 1
      ⟨.running, 2, some 0, none, false⟩)) 0 = .reaped 1
    decide
  obtain ⟨k₄, hk₄, hrestored⟩ := hwait hscan
  exact ⟨_, k₁, k₂, k₃, k₄, hfork, hrun₂, hexit, hk₄, hrestored, hinodes⟩

end Kernel

end Xv6
