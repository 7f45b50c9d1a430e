import Xv6.Fs.Paths

/-!
# Path resolution

`namex` follows the components of a path, the parts between slashes that are not empty. How many
slashes there are between them does not matter, and neither does one at the end.
-/

namespace Xv6.Fs

open Fallible

/-! ### Components -/

/-- The maximal non-empty parts of a path without a slash. -/
def components (path : List UInt8) : List (List UInt8) := (path.splitOn SLASH).filter (· ≠ [])

variable {e path : List UInt8}

@[simp]
lemma components_nil : components [] = [] := by simp [components, List.splitOn]

lemma components_append (x y : List UInt8) :
    components (x ++ SLASH :: y) = components x ++ components y := by
  unfold components List.splitOn
  rw [List.splitOnP_append_cons (p := fun c => c == SLASH) x y (beq_self_eq_true SLASH),
    List.filter_append]

lemma components_cons (y : List UInt8) : components (SLASH :: y) = components y := by
  have h := components_append [] y
  rwa [List.nil_append, components_nil, List.nil_append] at h

lemma components_elem (he : e ≠ []) (hs : SLASH ∉ e) : components e = [e] := by
  unfold components List.splitOn
  rw [List.splitOnP_eq_singleton]
  · simp [he]
  · intro c hc
    rw [beq_eq_false_iff_ne]
    rintro rfl
    exact hs hc

lemma components_dropWhile (path : List UInt8) :
    components (path.dropWhile (· = SLASH)) = components path := by
  induction path with
  | nil => rfl
  | cons c path ih =>
    by_cases hc : c = SLASH
    · rw [List.dropWhile_cons_of_pos (by simpa using hc), ih, hc, components_cons]
    · rw [List.dropWhile_cons_of_neg (by simpa using hc)]

/-- The first component and what follows it. -/
lemma components_takeWhile (hne : path ≠ []) (hhead : path.head? ≠ some SLASH) :
    components path =
      path.takeWhile (· ≠ SLASH) :: components (path.dropWhile (· ≠ SLASH)) := by
  have helem : path.takeWhile (· ≠ SLASH) ≠ [] := by
    obtain ⟨c, l, rfl⟩ := List.exists_cons_of_ne_nil hne
    rw [List.head?_cons, ne_eq, Option.some.injEq] at hhead
    rw [List.takeWhile_cons_of_pos (by simpa using hhead)]
    exact List.cons_ne_nil _ _
  have hslash : SLASH ∉ path.takeWhile (· ≠ SLASH) := by
    intro hmem
    have := List.mem_takeWhile_imp hmem
    simp at this
  have hsplit := List.takeWhile_append_dropWhile (p := fun c => decide (c ≠ SLASH)) (l := path)
  cases hrest : path.dropWhile (· ≠ SLASH) with
  | nil =>
    rw [hrest, List.append_nil] at hsplit
    rw [components_nil, ← components_elem helem hslash, hsplit]
  | cons c rest =>
    have hc : c = SLASH := by
      have := List.head?_dropWhile_not (fun c => decide (c ≠ SLASH)) path
      rw [hrest] at this
      simpa using this
    rw [hrest, hc] at hsplit
    rw [hc, components_cons]
    conv_lhs => rw [← hsplit, components_append, components_elem helem hslash]
    rfl

lemma head?_dropWhile_slash (path : List UInt8) :
    (path.dropWhile (· = SLASH)).head? ≠ some SLASH := by
  intro h
  have := List.head?_dropWhile_not (fun c => decide (c = SLASH)) path
  rw [h] at this
  simp at this

/-- A path without slashes in front has components unless it is empty. -/
lemma components_eq_nil_iff (hhead : path.head? ≠ some SLASH) :
    components path = [] ↔ path = [] := by
  constructor
  · intro h
    by_contra hne
    rw [components_takeWhile hne hhead] at h
    cases h
  · rintro rfl
    exact components_nil

lemma skipelem_none (h : components path = []) : skipelem path = none := by
  rw [← components_dropWhile, components_eq_nil_iff (head?_dropWhile_slash path)] at h
  rw [skipelem, if_pos h]

/-- `skipelem` takes off the first component. -/
lemma skipelem_some {c : List UInt8} {cs : List (List UInt8)} (h : components path = c :: cs) :
    ∃ rest, skipelem path = some (c.take DIRSIZ, rest) ∧ components rest = cs ∧
      rest.length < path.length ∧ (rest = [] ↔ cs = []) := by
  have hhead := head?_dropWhile_slash path
  have hne : path.dropWhile (· = SLASH) ≠ [] := by
    intro hnil
    rw [← components_dropWhile, hnil, components_nil] at h
    cases h
  rw [← components_dropWhile, components_takeWhile hne hhead] at h
  obtain ⟨rfl, rfl⟩ := List.cons.inj h
  refine ⟨((path.dropWhile (· = SLASH)).dropWhile (· ≠ SLASH)).dropWhile (· = SLASH), ?_,
    components_dropWhile _, ?_, ?_⟩
  · rw [skipelem, if_neg hne]
  · have h₁ := List.length_dropWhile_le (fun c => decide (c = SLASH)) path
    have h₂ := List.length_dropWhile_le (fun c => decide (c = SLASH))
      ((path.dropWhile (· = SLASH)).dropWhile (· ≠ SLASH))
    obtain ⟨c, l, hl⟩ := List.exists_cons_of_ne_nil hne
    have hc : c ≠ SLASH := by
      rintro rfl
      rw [hl] at hhead
      exact hhead rfl
    have h₃ := List.length_dropWhile_le (fun c => decide (c ≠ SLASH)) l
    rw [hl] at h₁ h₂ ⊢
    rw [List.dropWhile_cons_of_pos (by simpa using hc)] at h₂ ⊢
    rw [List.length_cons] at h₁
    omega
  · rw [← components_dropWhile ((path.dropWhile (· = SLASH)).dropWhile (· ≠ SLASH)),
      components_eq_nil_iff (head?_dropWhile_slash _)]

/-! ### Following components -/

namespace Core

variable (sb : Superblock) (dev : Devsw) {s t : Core} {i cwd : Nat} {name : List UInt8}
  {cs : List (List UInt8)}

/-- Follow the given components, each cut to `DIRSIZ` bytes, from directory `i`; with `nameiparent`
the last one is not looked up. -/
def walk (nameiparent : Bool) : Core → (i : Nat) → List (List UInt8) → (name : List UInt8) →
    Except Fault (Option (Nat × List UInt8) × Core)
  | s, i, [], name =>
    if nameiparent then do
      let s ← s.iput sb i
      return (none, s)
    else return (some (i, name), s)
  | s, i, c :: cs, _ => do
    let (ip, s) ← s.ilock sb i
    if ip.type ≠ T_DIR then do
      let s ← s.iput sb i
      return (none, s)
    else if nameiparent ∧ cs = [] then return (some (i, c.take DIRSIZ), s)
    else do
      let (next, s) ← s.dirlookup sb dev i ip (c.take DIRSIZ)
      let s ← s.iput sb i
      match next with
      | none => return (none, s)
      | some (inum, _) => walk nameiparent s inum cs (c.take DIRSIZ)

lemma namexLoop_eq_walk (b : Bool) (fuel : Nat) (path : List UInt8) (h : path.length < fuel) :
    namexLoop sb dev b fuel s i path name = walk sb dev b s i (components path) name := by
  induction fuel generalizing s i path name with
  | zero => exact absurd h (Nat.not_lt_zero _)
  | succ fuel ih =>
    cases hcs : components path with
    | nil =>
      rw [namexLoop, skipelem_none hcs]
      rfl
    | cons c cs =>
      obtain ⟨rest, hskip, hrest, hlen, hnil⟩ := skipelem_some hcs
      have hloop : ∀ t j, namexLoop sb dev b fuel t j rest (c.take DIRSIZ) =
          walk sb dev b t j cs (c.take DIRSIZ) := by
        intro t j
        rw [ih rest (by omega), hrest]
      generalize hx : namexLoop sb dev b (fuel + 1) s i path name = x
      simp only [namexLoop, hskip, hnil, hloop] at hx
      exact hx.symm

/-- Where a path starts: the root directory, or the current directory of the process. -/
def startDir (s : Core) (cwd : Nat) (path : List UInt8) : Except Fault (Nat × Core) :=
  if path.head? = some SLASH then do
    let s ← s.iget Icache.ROOTINO
    pure (Icache.ROOTINO, s)
  else pure (cwd, s.idup cwd)

/-- `namex` visits exactly the components of the path, in order. -/
lemma namex_eq_walk (s : Core) (cwd : Nat) (path : List UInt8) (b : Bool) :
    s.namex sb dev cwd path b = (do
      let (i, s) ← s.startDir cwd path
      walk sb dev b s i (components path) []) := by
  unfold namex startDir
  simp only [namexLoop_eq_walk sb dev b _ path (Nat.lt_succ_self _)]
  split_ifs
  · cases s.iget Icache.ROOTINO <;> rfl
  · rfl

/-! ### The parent directory -/

/-- Look a name up in a directory and give up the reference to it. -/
def lookupIn (s : Core) (i : Nat) (name : List UInt8) : Except Fault (Option Nat × Core) := do
  let (ip, s) ← s.ilock sb i
  let (next, s) ← s.dirlookup sb dev i ip name
  let s ← s.iput sb i
  return (next.map Prod.fst, s)

/-- A second `ilock` finds the copy valid. -/
lemma ilock_again {ip : Dinode} (h : s.ilock sb i = .ok (ip, t)) : t.ilock sb i = .ok (ip, t) := by
  obtain ⟨⟨ip', u⟩, hlock, hok⟩ := bind_eq_ok.mp h
  cases hok
  unfold ilock State.ilock at *
  cases hmem : s.mem i with
  | some jp =>
    rw [hmem] at hlock
    cases hlock
    dsimp only
    rw [hmem]
    rfl
  | none =>
    rw [hmem] at hlock
    dsimp only at hlock
    split_ifs at hlock
    cases hlock
    dsimp only
    rw [Function.update_self]
    rfl

/-- Without its last component a path leads to the directory in which this one is looked up. -/
lemma walk_parent (s : Core) (i : Nat) (cs : List (List UInt8)) (c name : List UInt8) :
    (do
      let (r, t) ← walk sb dev false s i (cs ++ [c]) name
      return (r.map Prod.fst, t)) =
    (do
      let (r, t) ← walk sb dev true s i (cs ++ [c]) name
      match r with
      | none => return (none, t)
      | some (j, _) => t.lookupIn sb dev j (c.take DIRSIZ)) := by
  induction cs generalizing s i name with
  | nil =>
    rw [List.nil_append, walk, walk]
    rcases hlock : s.ilock sb i with e | ⟨ip, s₁⟩
    · rfl
    · dsimp only [bind, Except.bind]
      by_cases hdir : ip.type ≠ T_DIR
      · rw [if_pos hdir, if_pos hdir]
        cases s₁.iput sb i <;> rfl
      · rw [if_neg hdir, if_neg hdir, if_neg (fun h => Bool.noConfusion h.1), if_pos ⟨rfl, rfl⟩]
        dsimp only [pure, Except.pure]
        rw [lookupIn, ilock_again sb hlock]
        dsimp only [bind, Except.bind]
        rcases s₁.dirlookup sb dev i ip (c.take DIRSIZ) with e | ⟨next, s₂⟩
        · rfl
        · dsimp only
          cases s₂.iput sb i with
          | error e => rfl
          | ok s₃ => cases next <;> rfl
  | cons c' cs ih =>
    rw [List.cons_append, walk, walk]
    rcases hlock : s.ilock sb i with e | ⟨ip, s₁⟩
    · rfl
    · dsimp only [bind, Except.bind]
      by_cases hdir : ip.type ≠ T_DIR
      · rw [if_pos hdir, if_pos hdir]
        cases s₁.iput sb i <;> rfl
      · have hne : ¬ (true = true ∧ cs ++ [c] = []) := fun h => by simp at h
        rw [if_neg hdir, if_neg hdir, if_neg (fun h => Bool.noConfusion h.1), if_neg hne]
        rcases s₁.dirlookup sb dev i ip (c'.take DIRSIZ) with e | ⟨next, s₂⟩
        · rfl
        · dsimp only
          cases s₂.iput sb i with
          | error e => rfl
          | ok s₃ =>
            cases next with
            | none => rfl
            | some x => exact ih s₃ x.1 (c'.take DIRSIZ)

lemma namei_eq_nameiparent (s : Core) (cwd : Nat) (path : List UInt8) {c : List UInt8}
    (hcs : components path = cs ++ [c]) :
    s.namei sb dev cwd path = (do
      let (r, t) ← s.nameiparent sb dev cwd path
      match r with
      | none => return (none, t)
      | some (j, _) => t.lookupIn sb dev j (c.take DIRSIZ)) := by
  unfold namei nameiparent
  rw [namex_eq_walk, namex_eq_walk, hcs]
  cases s.startDir cwd path with
  | error e => rfl
  | ok x => exact walk_parent sb dev x.2 x.1 cs c []

/-! ### References -/

lemma ilock_refs {ip : Dinode} (h : s.ilock sb i = .ok (ip, t)) : t.refs = s.refs := by
  obtain ⟨x, -, hok⟩ := bind_eq_ok.mp h
  cases hok
  rfl

lemma iput_refs (h : s.iput sb i = .ok t) : t.refs = s.refs.erase i := by
  obtain ⟨x, -, hok⟩ := bind_eq_ok.mp h
  cases hok
  rfl

lemma iget_refs (h : s.iget i = .ok t) : t.refs = i ::ₘ s.refs := by
  unfold iget at h
  split_ifs at h <;> cases h <;> rfl

lemma dirlookup_refs {ip : Dinode} {next : Option (Nat × Nat)}
    (h : s.dirlookup sb dev i ip name = .ok (next, t)) :
    t.refs = next.elim s.refs fun x => x.1 ::ₘ s.refs := by
  obtain ⟨⟨r, dp, d⟩, -, hok⟩ := bind_eq_ok.mp h
  cases r with
  | none =>
    cases hok
    rfl
  | some x =>
    obtain ⟨u, hget, hok⟩ := bind_eq_ok.mp hok
    cases hok
    have hrefs := iget_refs hget
    exact hrefs

/-- The references that are there at the end: the one to `i` is gone, and there is one to the
result. -/
lemma walk_refs (b : Bool) (hi : i ∈ s.refs) :
    Ensures (walk sb dev b s i cs name) fun x =>
      x.2.refs = x.1.elim (s.refs.erase i) fun r => r.1 ::ₘ s.refs.erase i := by
  induction cs generalizing s i name with
  | nil =>
    rw [walk]
    split_ifs
    · refine Ensures.bind (R := fun t => t.refs = s.refs.erase i) (fun t ht => iput_refs sb ht) ?_
      exact fun t ht => Ensures.pure ht
    · exact Ensures.pure (Multiset.cons_erase hi).symm
  | cons c cs ih =>
    rw [walk]
    refine Ensures.bind (R := fun x => x.2.refs = s.refs)
      (fun ⟨ip, t⟩ ht => ilock_refs sb ht) ?_
    rintro ⟨ip, s₁⟩ hs₁
    dsimp only at hs₁ ⊢
    split_ifs
    · refine Ensures.bind (R := fun t => t.refs = s₁.refs.erase i) (fun t ht => iput_refs sb ht) ?_
      intro t ht
      rw [hs₁] at ht
      exact Ensures.pure ht
    · rw [← hs₁]
      exact Ensures.pure (Multiset.cons_erase (hs₁ ▸ hi)).symm
    · refine Ensures.bind (R := fun x => x.2.refs = x.1.elim s₁.refs fun y => y.1 ::ₘ s₁.refs)
        (fun ⟨next, t⟩ ht => dirlookup_refs sb dev ht) ?_
      rintro ⟨next, s₂⟩ hs₂
      dsimp only at hs₂ ⊢
      refine Ensures.bind (R := fun t => t.refs = s₂.refs.erase i) (fun t ht => iput_refs sb ht) ?_
      intro s₃ hs₃
      cases next with
      | none =>
        rw [hs₂, hs₁] at hs₃
        exact Ensures.pure hs₃
      | some y =>
        have hnext : s₃.refs = y.1 ::ₘ s.refs.erase i := by
          rw [hs₃, hs₂, hs₁]
          exact Multiset.erase_cons_tail_of_mem hi
        have hmem : y.1 ∈ s₃.refs := by
          rw [hnext]
          exact Multiset.mem_cons_self _ _
        refine (ih hmem).mono fun x hx => ?_
        rwa [hnext, Multiset.erase_cons_head] at hx

lemma startDir_refs {path : List UInt8} (h : s.startDir cwd path = .ok (i, t)) :
    t.refs = i ::ₘ s.refs := by
  unfold startDir at h
  split_ifs at h
  · obtain ⟨u, hget, hok⟩ := bind_eq_ok.mp h
    cases hok
    exact iget_refs hget
  · cases h
    rfl

lemma namex_refs (b : Bool) (path : List UInt8) :
    Ensures (s.namex sb dev cwd path b) fun x =>
      x.2.refs = x.1.elim s.refs fun r => r.1 ::ₘ s.refs := by
  rw [namex_eq_walk]
  refine Ensures.bind (R := fun x => x.2.refs = x.1 ::ₘ s.refs)
    (fun ⟨i, t⟩ ht => startDir_refs ht) ?_
  rintro ⟨i, t⟩ ht
  dsimp only at ht ⊢
  refine (walk_refs sb dev b (by rw [ht]; exact Multiset.mem_cons_self _ _)).mono fun x hx => ?_
  rwa [ht, Multiset.erase_cons_head] at hx

/-! ### Paths without components -/

/-- Giving up a reference that is not the last one, or to an inode that was not read. -/
lemma iput_spare (hi : 2 ≤ s.refs.count i ∨ s.mem i = none) :
    s.iput sb i = .ok ⟨s.toState, s.refs.erase i⟩ := by
  unfold iput State.iput
  cases hmem : s.mem i with
  | none => rfl
  | some ip =>
    have hcount : s.refs.count i ≠ 1 := by
      rcases hi with hi | hi
      · omega
      · rw [hmem] at hi
        cases hi
    dsimp only
    rw [if_neg (fun h => hcount (of_decide_eq_true h.2))]
    rfl

/-- The reference to the directory where a path starts is given up at once. -/
lemma startDir_iput {path : List UInt8} (hcwd : cwd ∈ s.refs)
    (h : s.startDir cwd path = .ok (i, t)) : t.iput sb i = .ok ⟨t.toState, s.refs⟩ := by
  have hrefs := startDir_refs h
  have hspare : 2 ≤ t.refs.count i ∨ t.mem i = none := by
    rw [hrefs, Multiset.count_cons_self]
    unfold startDir at h
    split_ifs at h
    · obtain ⟨u, hget, hok⟩ := bind_eq_ok.mp h
      cases hok
      unfold iget at hget
      split_ifs at hget with hmem
      · exact Or.inl (Nat.succ_le_succ (Multiset.one_le_count_iff_mem.mpr hmem))
      · cases hget
        refine Or.inr ?_
        change Function.update s.mem Icache.ROOTINO none Icache.ROOTINO = none
        rw [Function.update_self]
    · cases h
      exact Or.inl (Nat.succ_le_succ (Multiset.one_le_count_iff_mem.mpr hcwd))
  rw [iput_spare sb hspare, hrefs, Multiset.erase_cons_head]

/-! ### The result -/

lemma namex_congr {path path' : List UInt8} (hcs : components path' = components path)
    (habs : path'.head? = some SLASH ↔ path.head? = some SLASH) (b : Bool) :
    s.namex sb dev cwd path' b = s.namex sb dev cwd path b := by
  rw [namex_eq_walk, namex_eq_walk, hcs]
  unfold startDir
  simp only [habs]

theorem path_resolution (s : Core) (cwd : Nat) (hcwd : cwd ∈ s.refs) (path : List UInt8) :
    (∀ cs c, components path = cs ++ [c] → s.namei sb dev cwd path = (do
      let (r, t) ← s.nameiparent sb dev cwd path
      match r with
      | none => return (none, t)
      | some (j, _) => t.lookupIn sb dev j (c.take DIRSIZ))) ∧
    (∀ b, s.namex sb dev cwd path b = (do
      let (i, t) ← s.startDir cwd path
      walk sb dev b t i (components path) [])) ∧
    (∀ b x y, s.namex sb dev cwd (x ++ SLASH :: SLASH :: y) b =
      s.namex sb dev cwd (x ++ SLASH :: y) b) ∧
    (path ≠ [] → ∀ b, s.namex sb dev cwd (path ++ [SLASH]) b = s.namex sb dev cwd path b) ∧
    (components path = [] →
      s.namei sb dev cwd path = (do
        let (i, t) ← s.startDir cwd path
        return (some i, t)) ∧
      s.nameiparent sb dev cwd path = (do
        let (_, t) ← s.startDir cwd path
        return (none, ⟨t.toState, s.refs⟩))) ∧
    ∀ b, Ensures (s.namex sb dev cwd path b) fun x =>
      x.2.refs = x.1.elim s.refs fun r => r.1 ::ₘ s.refs := by
  refine ⟨fun cs c => namei_eq_nameiparent sb dev s cwd path, namex_eq_walk sb dev s cwd path,
    fun b x y => ?_, fun hne b => ?_, fun hcs => ⟨?_, ?_⟩, fun b => namex_refs sb dev b path⟩
  · refine namex_congr sb dev ?_ ?_ b
    · rw [components_append, components_append, components_cons]
    · cases x <;> simp
  · refine namex_congr sb dev ?_ ?_ b
    · rw [components_append, components_nil, List.append_nil]
    · obtain ⟨c, l, rfl⟩ := List.exists_cons_of_ne_nil hne
      simp
  · unfold namei
    rw [namex_eq_walk, hcs]
    cases s.startDir cwd path <;> rfl
  · unfold nameiparent
    rw [namex_eq_walk, hcs]
    rcases hstart : s.startDir cwd path with e | ⟨i, t⟩
    · rfl
    · change (t.iput sb i >>= _) = _
      rw [startDir_iput sb hcwd hstart]
      rfl

end Core

/-- The root directory has the directory `d` as inode 2, which has the entry `a` for inode 3. -/
def nestedDisk : Disk :=
  let dir (b : UInt32) : Dinode :=
    { zeroDinode with
      type := T_DIR, nlink := 1, size := 16, addrs := fun i => if i = 0 then b else 0 }
  let d := (emptyDisk.putDinode mkfsSuperblock 1 (dir 59)).putDinode mkfsSuperblock 2 (dir 60)
  Function.update (Function.update d 59 (zeroBlock.set 0 0x640002)) 60 (zeroBlock.set 0 0x610003)

/-- The machine after booting, with the root directory as current directory. -/
def nested : Core := ⟨State.boot nestedDisk, {1}⟩

def noDevices : Devsw := ⟨fun _ _ => none, fun _ _ => none⟩

/-- `//d//a` is looked up as `a` in the parent directory `d`, and the inode found has one more
reference. -/
theorem path_resolution_nested :
    ∃ t u, nested.nameiparent mkfsSuperblock noDevices 1 [SLASH, SLASH, 100, SLASH, SLASH, 97] =
        .ok (some (2, [97]), t) ∧ t.lookupIn mkfsSuperblock noDevices 2 [97] = .ok (some 3, u) ∧
      nested.namei mkfsSuperblock noDevices 1 [SLASH, SLASH, 100, SLASH, SLASH, 97] =
        .ok (some 3, u) ∧ u.refs = {3, 1} := by
  have hpath := (Core.path_resolution mkfsSuperblock noDevices nested 1
    (Multiset.mem_singleton_self 1) [SLASH, SLASH, 100, SLASH, SLASH, 97]).1 [[100]] [97]
    (by decide)
  have heval : ((nested.nameiparent mkfsSuperblock noDevices 1
      [SLASH, SLASH, 100, SLASH, SLASH, 97]).toOption.bind fun x =>
        (x.2.lookupIn mkfsSuperblock noDevices 2 [97]).toOption.map fun y =>
          (x.1, y.1, y.2.refs)) = some (some (2, [97]), some 3, {3, 1}) := by decide +kernel
  rcases hparent : nested.nameiparent mkfsSuperblock noDevices 1
    [SLASH, SLASH, 100, SLASH, SLASH, 97] with e | ⟨r, t⟩
  · simp [hparent, Except.toOption] at heval
  · rw [hparent] at heval hpath
    rcases hlookup : t.lookupIn mkfsSuperblock noDevices 2 [97] with e | ⟨q, u⟩
    · simp [hlookup, Except.toOption] at heval
    · simp only [Except.toOption, Option.bind_some, hlookup, Option.map_some, Option.some.injEq,
        Prod.mk.injEq] at heval
      obtain ⟨rfl, rfl, hrefs⟩ := heval
      exact ⟨t, u, rfl, hlookup, hpath.trans hlookup, hrefs⟩

end Xv6.Fs
