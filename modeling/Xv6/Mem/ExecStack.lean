import Xv6.Mem.ExecPhases

/-!
# The stack of a new program

What `exec` leaves behind, in each way it can return, and that a program finds its arguments on its
stack. The stack page holds them until the old directory has been freed, because it was a free page
before.
-/

namespace Xv6.Program

open Count Fallible Recorded

variable {c : ShmField} {path bs : List UInt8} {file : Option Reads} {reads : Reads}
  {argv : List (List UInt8)} {u u' : Caller} {d d' : PageDir} {m m' m₁ : Mem} {sz : Nat}

/-! ### How the call ends -/

/-- The record of a call that found its file. -/
def opened : List FsCall := [.beginOp, .namei, .ilock, .iunlockput, .endOp]

/-- The ways in which `exec` returns: the record, the result, and how the memory came about. -/
inductive Ended (c : ShmField) (path : List UInt8) (file : Option Reads) (argv : List (List UInt8))
    (u : Caller) (m : Mem) : List FsCall → Int × Caller × Mem → Prop
  | missing (hfile : file = none) : Ended c path file argv u m [.beginOp, .endOp] (-1, u, m)
  | unread : Ended c path file argv u m opened (-1, u, m)
  | noDirectory {m' : Mem} (hsetup : setupkvm c m = .ok (none, m')) :
    Ended c path file argv u m opened (-1, u, m')
  | abandoned {d : PageDir} {m₁ m' : Mem} (hun : Unfinished m d m₁) (hfree : freevm c d m₁ = .ok m') :
    Ended c path file argv u m opened (-1, u, m')
  | done {reads : Reads} {bs : List UInt8} {sz esp : Nat} {d : PageDir} {m₁ m₂ m' : Mem}
      (hfile : file = some reads) (hload : Loads c reads m bs sz d m₁)
      (hpush : pushStack d argv sz m₁ = .ok (some esp, m₂)) (hfree : freevm c u.pgdir m₂ = .ok m') :
    Ended c path file argv u m opened
      (0, ⟨d, sz, entryPoint bs, esp, safestrcpy u.name (lastElem path path) NAMESZ⟩, m')

/-- Giving up with the inode still locked, or after it was released. -/
lemma bad_returns {ip : Bool} {l : List FsCall} (hl : l ++ (if ip then [.iunlockput, .endOp] else []) =
    opened) (hun : Unfinished m d m₁) :
    Returns (bad c (some d) ip u m₁) fun l' => Ended c path file argv u m (l ++ l') := by
  unfold bad
  dsimp only
  generalize hx : freevm c d m₁ = x
  refine .lift fun m' hm' => ?_
  rw [hm'] at hx
  cases ip with
  | true =>
    refine .tell (.tell (.pure ?_))
    rw [if_pos rfl] at hl
    rw [hl]
    exact .abandoned hun hx
  | false =>
    refine .pure ?_
    rw [if_neg Bool.false_ne_true] at hl
    rw [hl]
    exact .abandoned hun hx

/-- Giving up before there is a directory. -/
lemma bad_none_returns {S : List FsCall → Int × Caller × Mem → Prop}
    (h : S [.iunlockput, .endOp] (-1, u, m)) : Returns (bad c none true u m) S := by
  intro r hr
  cases hr
  exact h

/-- Every call that returns ends in one of these ways. -/
theorem exec_returns (hfree : m.FreeOk) :
    Returns (exec c path file argv u m) (Ended c path file argv u m) := by
  refine .tell ?_
  cases file with
  | none => exact .tell (.pure (.missing rfl))
  | some reads =>
    refine .tell (.tell ?_)
    dsimp only
    split
    · exact bad_none_returns .unread
    · next bs header =>
      split
      · exact bad_none_returns .unread
      · next hgood =>
        refine .lift ?_
        rintro ⟨_ | d₀, m₀⟩ setup
        · exact bad_none_returns (.noDirectory setup)
        · have hload : Ensures (loadSegments c reads (ElfHdr.parse bs).phnum 0 (ElfHdr.parse bs).phoff
              0 d₀ m₀) _ := loadSegments_loading hfree (loading_setupkvm hfree setup) 0
          refine .lift ?_
          rintro ⟨_ | sz₁, d₁, m₁⟩ segments
          · exact bad_returns (l := [.beginOp, .namei, .ilock]) rfl ((hload _ segments).1 rfl)
          · refine .tell (.tell (.lift ?_))
            rintro ⟨_ | sz, d, m₂⟩ stack
            · have hun := (allocStack_ensures hfree ((hload _ segments).2 _ rfl) _ stack).1
              exact bad_returns (l := opened) rfl hun
            · have hloads : Loads c reads m bs sz d m₂ := by
                obtain ⟨hsize, hmagic⟩ := not_or.mp hgood
                exact ⟨header, not_not.mp hsize, not_not.mp hmagic, setup, segments, stack⟩
              refine .lift ?_
              rintro ⟨_ | esp, m₃⟩ hpush
              · have hun := (hloads.ensures hfree).1.written (pushStack_ensures _ hpush)
                exact bad_returns (l := opened) rfl hun
              · exact .lift fun m' hm' => .pure (.done rfl hloads hpush hm')

/-! ### The arguments -/

/-- The free pages are in order, and the directory of the caller uses none of them. -/
structure Ready (u : Caller) (m : Mem) : Prop extends m.FreeOk where
  apart : ∀ x, m.free x ≠ 0 → u.pgdir.refs x = 0

lemma Loads.stackPage_free (h : Loads c reads m bs sz d m₁) (hfree : m.FreeOk) :
    m.free (stackPage sz d) ≠ 0 := by
  obtain ⟨hun, himage, -⟩ := h.ensures hfree
  have hlast : sz / PGSIZE - 1 < KERNBASE :=
    (Nat.sub_le _ _).trans_lt ((Nat.div_lt_iff_lt_mul (by decide)).mpr himage.lt)
  have hpos : 0 < d.userRefs (stackPage sz d) := PageDir.userRefs_pos hlast himage.stack.1
  have hrefs := hun.refs (stackPage sz d)
  unfold PageDir.refs at hrefs
  omega

/-- A program that has been loaded and has its arguments pushed finds them, also after the directory
of the old program has been freed. -/
lemma Loads.mainFrame {esp : Nat} {m₂ : Mem} (h : Loads c reads m bs sz d m₁) (hr : Ready u m)
    (hargs : argv.length < MAXARG) (hs : ∀ s ∈ argv, s.length < 2 ^ 31)
    (hpush : pushStack d argv sz m₁ = .ok (some esp, m₂)) (hold : freevm c u.pgdir m₂ = .ok m') :
    ∃ ps, MainFrame sz argv ps d esp m' := by
  obtain ⟨hun, himage, -⟩ := h.ensures hr.toFreeOk
  have hfit : Fits argv := by
    by_contra hfull
    obtain ⟨hgives, hfaults⟩ := pushStack_overflow (m := m₁) himage hargs hs hfull
    by_cases hwraps : WrapsToTable d (sz - PGSIZE) sz argv
    · obtain ⟨m₃, hnone⟩ := hgives hwraps
      rw [hpush] at hnone
      cases hnone
    · rw [hfaults hwraps] at hpush
      cases hpush
  have hshared : m₂.shared = m.shared := (pushStack_ensures _ hpush).shared.trans hun.shared
  rw [pushStack_fits himage hargs hfit] at hpush
  cases hpush
  have hfree := h.stackPage_free hr.toFreeOk
  have hbytes := freevm_bytes (c := c) (hshared.symm ▸ hr.sharedOk) (hr.apart _ hfree)
    (hshared.symm ▸ hr.unshared _ hfree) _ hold
  exact ⟨_, mainFrame_storeStack himage hfit hargs hbytes⟩

/-- `exec` builds the stack as `main` expects it, and fails if it reaches the arguments and they do
not fit into the stack page. -/
structure StackExact (c : ShmField) (path : List UInt8) (file : Option Reads)
    (argv : List (List UInt8)) (u : Caller) (m : Mem) : Prop where
  frame : ∀ u' m', (exec c path file argv u m).result = .ok (0, u', m') →
    ∃ ps, MainFrame u'.sz argv ps u'.pgdir u'.esp m'
  overflow : ∀ reads bs sz d m₁, file = some reads → Loads c reads m bs sz d m₁ → ¬ Fits argv →
    ∃ m', (exec c path file argv u m).result = .ok (-1, u, m')

/-- No string that is pushed makes the stack pointer wrap around to an address between the memory of
the kernel and the devices. -/
def WrapsToKernel (sz : Nat) (argv : List (List UInt8)) : Prop :=
  ∀ i s, argv[i]? = some s → sz - PGSIZE + roomFor (argv.take i) ≤ sz →
    sz - roomFor (argv.take i) < room s →
    (2 ^ 32 + (sz - roomFor (argv.take i)) - room s) / PGSIZE < KERNBASE + PHYSTOP ∨
      DEVSPACE ≤ (2 ^ 32 + (sz - roomFor (argv.take i)) - room s) / PGSIZE

/-- If the shared page is the first one of a page table, the image reaches up to it. -/
def SharedPassed (c : ShmField) (sz : Nat) : Prop :=
  c.idx ≠ none → c.va < KERNBASE → c.va % NPTENTRIES = 0 → c.va < sz / PGSIZE

/-- Above `KERNBASE` there are page tables for the memory of the kernel and for the devices. -/
lemma hasTable_kernel_iff {n v : Nat} (h : TablesUpTo n d) (hn : n ≤ KERNBASE) (hv : KERNBASE ≤ v)
    (hlt : v < NVPAGES) : d.HasTable v ↔ v < KERNBASE + PHYSTOP ∨ DEVSPACE ≤ v := by
  have h3 : PHYSTOP = 57344 := rfl
  have h5 : NVPAGES = 1048576 := rfl
  have h6 : DEVSPACE = 1040384 := rfl
  have h7 : KERNBASE = 524288 := KERNBASE_eq
  have h8 : NPTENTRIES = 1024 := rfl
  have hnone : ¬ SharesTable v 0 n := by
    rintro ⟨x, -, hx, heq⟩
    rw [h8] at heq
    omega
  rw [h v, or_iff_left hnone, kernelTables, Finset.mem_union, Finset.mem_Ico, Finset.mem_Ico, h8]
  omega

lemma hasTable_first_iff {n v : Nat} (h : TablesUpTo n d) (hv : v < KERNBASE)
    (hmod : v % NPTENTRIES = 0) : d.HasTable v ↔ v < n := by
  have h7 : KERNBASE = 524288 := KERNBASE_eq
  have h8 : NPTENTRIES = 1024 := rfl
  have hnone : ¬ v / NPTENTRIES ∈ kernelTables := by
    rw [kernelTables, Finset.mem_union, Finset.mem_Ico, Finset.mem_Ico, h8]
    omega
  rw [h v, or_iff_right hnone]
  constructor
  · rintro ⟨x, -, hx, heq⟩
    rw [h8] at heq hmod
    omega
  · intro hvn
    exact ⟨v, Nat.zero_le _, hvn, rfl⟩

lemma wrapsToTable_iff (himage : StackImage sz d) (ht : TablesUpTo (sz / PGSIZE) d)
    (hs : ∀ s ∈ argv, s.length < 2 ^ 31) :
    WrapsToTable d (sz - PGSIZE) sz argv ↔ WrapsToKernel sz argv := by
  have hlt := himage.lt_two_pow
  have hK : sz / PGSIZE ≤ KERNBASE := ((Nat.div_lt_iff_lt_mul (by decide)).mpr himage.lt).le
  refine forall_congr' fun i => forall_congr' fun s => forall_congr' fun hi =>
    forall_congr' fun _ => forall_congr' fun hwrap => ?_
  have hlen := hs s (List.mem_of_getElem? hi)
  have hroom : room s ≤ 2 ^ 31 := by
    unfold room
    omega
  refine hasTable_kernel_iff ht hK ?_ ?_
  · rw [Nat.le_div_iff_mul_le (by decide), KERNBASE_eq]
    change 2 ^ 31 ≤ _
    omega
  · have hN : NVPAGES * PGSIZE = 2 ^ 32 := rfl
    rw [Nat.div_lt_iff_lt_mul (by decide), hN]
    omega

/-- `freevm` gets past the shared page. -/
lemma passable_iff (ht : TablesUpTo (sz / PGSIZE) d) :
    (∀ v < KERNBASE, Passable c d 0 v) ↔ SharedPassed c sz := by
  constructor
  · intro h hidx hv hmod
    rcases h c.va hv ⟨hidx, rfl⟩ with htable | ⟨-, hne⟩
    · exact (hasTable_first_iff ht hv hmod).mp htable
    · exact absurd hmod hne
  · rintro h v hv ⟨hidx, rfl⟩
    by_cases hmod : c.va % NPTENTRIES = 0
    · exact Or.inl ((hasTable_first_iff ht hv hmod).mpr (h hidx hv hmod))
    · refine Or.inr ⟨fun h0 => hmod ?_, hmod⟩
      rw [h0]
      rfl

/-- When the arguments do not fit, `exec` fails exactly if the stack pointer never wraps around to an
address without a page table and `freevm` gets past the shared page. -/
lemma Loads.fails_iff (h : Loads c reads m bs sz d m₁) (hfree : m.FreeOk)
    (hargs : argv.length < MAXARG) (hs : ∀ s ∈ argv, s.length < 2 ^ 31) (hfull : ¬ Fits argv) :
    (∃ m', (exec c path (some reads) argv u m).result = .ok (-1, u, m')) ↔
      WrapsToKernel sz argv ∧ SharedPassed c sz := by
  obtain ⟨hun, himage, htables⟩ := h.ensures hfree
  obtain ⟨hgives, hfaults⟩ := pushStack_overflow (m := m₁) himage hargs hs hfull
  rw [h.exec_result, ← wrapsToTable_iff himage htables hs, ← passable_iff htables]
  by_cases hwraps : WrapsToTable d (sz - PGSIZE) sz argv
  · obtain ⟨m₂, hpush⟩ := hgives hwraps
    have hun₂ := hun.written (pushStack_ensures _ hpush)
    rw [hpush, ← freevm_returns_iff hun₂.ok (hun₂.sharedOk hfree) fun x hx => hun₂.inRange hfree hx]
    dsimp only [ok_bind]
    constructor
    · rintro ⟨m', hm'⟩
      obtain ⟨m₃, hfreed, -⟩ := bind_eq_ok.mp hm'
      exact ⟨hwraps, m₃, hfreed⟩
    · rintro ⟨-, m', hm'⟩
      exact ⟨m', bind_eq_ok.mpr ⟨m', hm', rfl⟩⟩
  · rw [hfaults hwraps]
    constructor
    · rintro ⟨m', hm'⟩
      cases hm'
    · rintro ⟨hyes, -⟩
      exact absurd hyes hwraps

/-- For fewer than `MAXARG` strings, which are in user memory, the stack is as it should be exactly
if, whenever the program is loaded and the strings do not fit, the stack pointer never wraps around to
an address between the memory of the kernel and the devices, and the image reaches up to the shared
page of the caller if that is the first one of a page table. -/
theorem exec_stack_iff (hr : Ready u m) (hargs : argv.length < MAXARG)
    (hs : ∀ s ∈ argv, s.length < KERNBASE * PGSIZE) :
    StackExact c path file argv u m ↔
      ∀ reads bs sz d m₁, file = some reads → Loads c reads m bs sz d m₁ → ¬ Fits argv →
        WrapsToKernel sz argv ∧ SharedPassed c sz := by
  rw [KERNBASE_eq] at hs
  constructor
  · rintro h reads bs sz d m₁ rfl hload hfull
    exact (hload.fails_iff hr.toFreeOk hargs hs hfull).mp (h.overflow _ _ _ _ _ rfl hload hfull)
  · intro h
    constructor
    · intro u' m' hres
      have hended := exec_returns hr.toFreeOk _ hres
      generalize (exec c path file argv u m).log = l at hended
      cases hended with
      | done hfile hload hpush hfreed => exact hload.mainFrame hr hargs hs hpush hfreed
    · rintro reads bs sz d m₁ rfl hload hfull
      exact (hload.fails_iff hr.toFreeOk hargs hs hfull).mpr (h _ _ _ _ _ rfl hload hfull)

/-- A hundred free pages, and no shared page. -/
def hundredPages : Mem := { zeroMem with freelist := List.range' 300 100 }

/-- A process whose directory has no page tables. -/
def bareCaller : Caller := ⟨emptyDir, 0, 0, 0, []⟩

lemma refs_emptyDir (x : Nat) : emptyDir.refs x = one 299 x := by
  have hbare : emptyDir.Bare := fun _ _ => rfl
  have hnone : ∑ i ∈ Finset.range NPDENTRIES, ((emptyDir.pde i).elim 0 fun t => one t.page x) = 0 :=
    Finset.sum_eq_zero fun _ _ => rfl
  rw [PageDir.refs, hbare.userRefs, PageDir.tableRefs, hnone]
  rfl

lemma ready_hundredPages : Ready bareCaller hundredPages := by
  have hmem : ∀ x, hundredPages.free x ≠ 0 → 300 ≤ x ∧ x < 400 := by
    intro x hx
    have := List.count_pos_iff.mp (Nat.pos_of_ne_zero hx)
    exact List.mem_range'_1.mp this
  refine ⟨⟨⟨fun _ => Iff.rfl, fun i j _ h => absurd rfl h⟩, fun x => ?_, fun x hx => ?_,
    fun x _ => ?_⟩, fun x hx => ?_⟩
  · exact List.nodup_iff_count_le_one.mp List.nodup_range' x
  · obtain ⟨h1, h2⟩ := hmem x hx
    exact ⟨(by decide : 280 ≤ 300).trans h1, h2.trans (by decide)⟩
  · exact Finset.sum_eq_zero fun i _ => ite_self 0
  · refine (refs_emptyDir x).trans (if_neg ?_)
    have := (hmem x hx).1
    omega

/-- `exec` of a program without segments, with one argument. -/
theorem exec_stack_one_argument :
    ∃ u m, (exec ⟨none, 0⟩ [101] (some (ofFile emptyHeader)) [[97]] bareCaller
      hundredPages).result = .ok (0, u, m) ∧ ∃ ps, MainFrame u.sz [[97]] ps u.pgdir u.esp m := by
  have hr := ready_hundredPages
  obtain ⟨d, m₁, hload, -⟩ := loads_empty (c := ⟨none, 0⟩) (m := hundredPages) (by decide)
  obtain ⟨hun, himage, -⟩ := hload.ensures hr.toFreeOk
  have hfit : Fits [[97]] := by decide
  have hpush := pushStack_fits (m := m₁) himage (by decide) hfit
  have hw := pushStack_ensures _ hpush
  obtain ⟨m', hm'⟩ : ∃ m', freevm ⟨none, 0⟩ bareCaller.pgdir
      (storeStack (stackPage (2 * PGSIZE) d) (2 * PGSIZE) [[97]] m₁) = .ok m' := by
    refine freevm_succeeds (hw.shared.trans hun.shared ▸ hr.sharedOk) (fun x hx => ?_)
      fun v _ hit => absurd rfl hit.1
    have h299 : 299 = x := by
      by_contra hne
      exact hx ((refs_emptyDir x).trans (if_neg hne))
    have hin : hundredPages.InRange x := h299 ▸ ⟨by decide, by decide⟩
    exact hin.congr (hw.layout.trans hun.layout)
  have hres : (exec ⟨none, 0⟩ [101] (some (ofFile emptyHeader)) [[97]] bareCaller
      hundredPages).result = .ok (0, ⟨d, 2 * PGSIZE, entryPoint emptyHeader,
        2 * PGSIZE - roomFor [[97]] - frameRoom [[97]],
        safestrcpy bareCaller.name (lastElem [101] [101]) NAMESZ⟩, m') := by
    rw [hload.exec_result, hpush, ok_bind]
    dsimp only
    rw [hm', ok_bind]
  refine ⟨_, _, hres, ?_⟩
  refine ((exec_stack_iff hr (by decide) ?_).mpr fun _ _ _ _ _ _ _ hno => absurd hfit hno).frame _ _ hres
  rw [KERNBASE_eq]
  decide

/-- With an argument of 40 MB, the stack pointer wraps around to an address that has no page table,
and `exec` does not fail but follows a null pointer. -/
theorem exec_stack_wraps_around :
    (exec ⟨none, 0⟩ [101] (some (ofFile emptyHeader)) [List.replicate 0x2800000 97]
      bareCaller hundredPages).result = .error .nullDeref ∧
    ¬ StackExact ⟨none, 0⟩ [101] (some (ofFile emptyHeader))
      [List.replicate 0x2800000 97] bareCaller hundredPages := by
  have hfree := ready_hundredPages.toFreeOk
  obtain ⟨d, m₁, hload, -⟩ := loads_empty (c := ⟨none, 0⟩) (m := hundredPages) (by decide)
  obtain ⟨-, himage, htables⟩ := hload.ensures hfree
  have hroom : room (List.replicate 0x2800000 97) = 0x2800004 := by
    rw [room, List.length_replicate]
  have hfull : ¬ Fits [List.replicate 0x2800000 97] := by
    rw [Fits, roomFor_cons, hroom]
    decide
  have hs : ∀ s ∈ [List.replicate 0x2800000 (97 : UInt8)], s.length < 2 ^ 31 := by
    intro s hs
    rw [List.mem_singleton.mp hs, List.length_replicate]
    decide
  have hwraps : ¬ WrapsToTable d (2 * PGSIZE - PGSIZE) (2 * PGSIZE) [List.replicate 0x2800000 97] := by
    rw [wrapsToTable_iff himage htables hs]
    intro h
    have := h 0 _ rfl (by decide)
    rw [hroom, KERNBASE_eq] at this
    exact absurd (this (by decide)) (by decide)
  have hres : (exec ⟨none, 0⟩ [101] (some (ofFile emptyHeader))
      [List.replicate 0x2800000 97] bareCaller hundredPages).result = .error .nullDeref := by
    rw [hload.exec_result, (pushStack_overflow himage (by decide) hs hfull).2 hwraps]
    rfl
  refine ⟨hres, fun h => ?_⟩
  obtain ⟨m', hm'⟩ := h.overflow _ _ _ _ _ rfl hload hfull
  rw [hres] at hm'
  cases hm'

end Xv6.Program
