import Xv6.Kernel.Exclusive
import Xv6.Kernel.Faults

/-!
# Growing into mapped pages

`growproc` takes everything above `sz` to be unmapped, but `mmap` and `shm_open` map pages there.
Here the memory calls of one process are followed, including the last one, which may stop the kernel:
`mappages` panics with "remap" exactly when a growing `sbrk` reaches a page that is present.
-/

namespace Xv6

namespace Kernel

open Fallible TransitionSystem

variable {k k' : Kernel} {p : Slot} {d : PageDir} {m : Mem} {v : Nat} {a : Action}

/-! ### Which call panics -/

/-- The new size is one that `allocuvm` accepts, and between the old size and the new one there is a
present page that memory suffices to reach. -/
def GrowsInto (p : Slot) (n : Int32) (k : Kernel) : Prop :=
  0 < n.toInt ∧ newSize (k.mm p).sz n < KERNBASE * PGSIZE ∧
    ∃ d, (k.mm p).pgdir = some d ∧
      ∃ w, pgUp (k.mm p).sz ≤ w ∧ w < pgUp (newSize (k.mm p).sz n) ∧ (d.entry w).present = true ∧
        needs d (pgUp (k.mm p).sz) w < k.mem.pages

lemma bind_eq_error {α β : Type} {x : Except Fault α} {f : α → Except Fault β} {e : Fault}
    (hf : ∀ r, Avoids (f r) fun e' => e' = e) : (x >>= f) = .error e ↔ x = .error e := by
  constructor
  · intro h
    cases x with
    | error e' =>
      cases h
      rfl
    | ok r => exact absurd rfl (hf r e h)
  · rintro rfl
    rfl

/-- `sbrk` panics with "remap" exactly if it grows into a present page. -/
lemma sbrk_remap_iff {n : Int32} : sbrk p n k = .error (.panic "remap") ↔ GrowsInto p n k := by
  refine (bind_eq_error fun r => .ok).trans ?_
  unfold growproc dir
  cases hd : (k.mm p).pgdir with
  | none =>
    constructor
    · intro h
      cases h
    · rintro ⟨-, -, d, h, -⟩
      rw [hd] at h
      cases h
  | some d =>
    change (if 0 < n.toInt then (allocuvm _ _ _ (newSize (k.mm p).sz n) _ >>= _) else
      if n.toInt < 0 then (deallocuvm _ _ _ (newSize (k.mm p).sz n) _ >>= _) else _) = _ ↔ _
    by_cases hpos : 0 < n.toInt
    · rw [if_pos hpos]
      refine (bind_eq_error fun r => ?_).trans ?_
      · dsimp only
        split <;> exact .ok
      · unfold allocuvm
        split
        · next hbig =>
          constructor
          · intro h
            cases h
          · rintro ⟨-, h, -⟩
            omega
        · next hbig =>
          split
          · next hlt =>
            have := pgUp_mono hlt.le
            constructor
            · intro h
              cases h
            · rintro ⟨-, -, d', -, w, h1, h2, -⟩
              omega
          · next hlt =>
            have hle := pgUp_mono (Nat.le_of_not_lt hlt)
            have htop : pgUp (newSize (k.mm p).sz n) ≤ KERNBASE := pgUp_le_KERNBASE (by omega)
            rw [allocPages_remap_iff (c := (k.mm p).shm) (by omega), Nat.add_sub_cancel' hle]
            constructor
            · rintro ⟨w, hw⟩
              exact ⟨hpos, by omega, d, hd, w, hw⟩
            · rintro ⟨-, -, d', hd', w, hw⟩
              obtain rfl : d = d' := by simpa [hd] using hd'
              exact ⟨w, hw⟩
    · rw [if_neg hpos]
      constructor
      · intro h
        split at h
        · refine absurd ((bind_eq_error fun r => ?_).mp h) fun h' =>
            deallocuvm_avoids (E := IsRemap) (by decide) (by decide) _ h' rfl
          split
          split <;> exact .ok
        · cases h
      · rintro ⟨h, -⟩
        exact absurd h hpos

/-! ### The other calls -/

lemma dir_avoids : Avoids (k.dir p) IsRemap := by
  unfold dir
  split
  · exact .ok
  · exact .error (by decide)

lemma mmapPages_not_remap {n : Nat} : Avoids (mmapPages n v d m) IsRemap := by
  induction n generalizing v d m with
  | zero => exact .ok
  | succ n ih =>
    unfold mmapPages
    split
    · exact .error (by decide)
    · split
      · exact .ok
      · exact ih

lemma munmapPages_not_remap {n : Nat} : Avoids (munmapPages n v d m) IsRemap := by
  induction n generalizing v d m with
  | zero => exact .ok
  | succ n ih =>
    unfold munmapPages
    split
    · exact .ok
    · split
      · exact (kfree_avoids (by decide) _ _).bind fun _ _ => ih
      · exact ih

lemma pageFault_not_remap : Avoids (pageFault d v m) IsRemap := by
  unfold pageFault
  split
  · exact .error (by decide)
  · split
    · split <;> exact .ok
    · exact .ok

/-- The calls of a process on its memory, and its page faults. -/
def Action.OnMemory (p : Slot) : Action → Prop
  | .sbrk q _ | .mmap q _ _ | .munmap q _ _ | .shmOpen q | .shmClose q | .fault q _ => q = p
  | _ => False

/-- Of these only `sbrk` can panic with "remap". -/
lemma perform_not_remap (ha : a.OnMemory p) (hs : ∀ n, a ≠ .sbrk p n) :
    Avoids (k.perform a) IsRemap := by
  cases a with
  | sbrk q n =>
    obtain rfl : q = p := ha
    exact absurd rfl (hs n)
  | mmap q start n =>
    unfold perform mmap
    dsimp only
    split
    · exact dir_avoids.bind fun d _ => mmapPages_not_remap.bind fun r _ => .ok
    · exact .ok
  | munmap q start n =>
    unfold perform munmap
    dsimp only
    split
    · exact dir_avoids.bind fun d _ => munmapPages_not_remap.bind fun r _ => .ok
    · exact .ok
  | fault q addr =>
    refine dir_avoids.bind fun d _ => pageFault_not_remap.bind fun r _ => ?_
    dsimp only
    split
    · exact .ok
    · exact exit_faults (by decide) (by decide) (by decide)
  | shmOpen q =>
    unfold perform shmOpen
    dsimp only
    split
    · exact .ok
    · split
      · exact .ok
      · refine dir_avoids.bind fun d _ => ?_
        split
        · exact .ok
        · split <;> exact .ok
  | shmClose q =>
    unfold perform shmClose
    dsimp only
    split
    · exact .ok
    · refine dir_avoids.bind fun d _ => ?_
      split
      · exact .error (by decide)
      · refine (shmRemove_avoids (by decide)).bind fun r _ => ?_
        split <;> exact .ok
  | _ => exact absurd ha id

/-! ### Runs that may end in a fault -/

/-- A memory call of process `p`, whether it returns or stops the kernel. -/
def Attempt (p : Slot) (s : Except Fault Kernel) (a : Action) (s' : Except Fault Kernel) : Prop :=
  ∃ k, s = .ok k ∧ a.OnMemory p ∧ k.Enabled a ∧ s' = (k.perform a).map Prod.snd

/-- Whatever memory calls one process makes, `mappages` panics with "remap" at some point of the run
exactly if one of them is an `sbrk` that grows into a present page. -/
theorem remap_free_iff {k₀ : Kernel} {s : Except Fault Kernel}
    {tr : List (Except Fault Kernel × Action)} (hr : Run (Attempt p) (.ok k₀) tr s) :
    AllStates (· ≠ .error (.panic "remap")) tr s ↔
      AllSteps (fun s a => ∀ k n, s = .ok k → a = .sbrk p n → ¬ GrowsInto p n k) tr := by
  have hsbrk : ∀ {k : Kernel} {n : Int32},
      (k.perform (.sbrk p n)).map Prod.snd = .error (.panic "remap") ↔ GrowsInto p n k := by
    intro k n
    rw [← sbrk_remap_iff]
    change (sbrk p n k).map Prod.snd = _ ↔ _
    cases sbrk p n k <;> simp [Except.map]
  refine hr.allStates_iff (I := (· ≠ .error (.panic "remap"))) (fun _ h => h) ?_ ?_ (by simp)
  · rintro s a s' - hC ⟨k, rfl, hmem, -, rfl⟩ hbad
    by_cases hs : ∃ n, a = .sbrk p n
    · obtain ⟨n, rfl⟩ := hs
      exact hC k n rfl rfl (hsbrk.mp hbad)
    · have havoid := perform_not_remap (k := k) hmem fun n hn => hs ⟨n, hn⟩
      cases hperf : k.perform a with
      | ok r =>
        rw [hperf] at hbad
        cases hbad
      | error e =>
        rw [hperf] at hbad
        cases hbad
        exact havoid _ hperf rfl
  · rintro s a s' - ⟨k, rfl, -, -, rfl⟩ hgood k' n hk rfl hgrow
    cases hk
    exact hgood (hsbrk.mpr hgrow)

/-! ### A fresh image -/

/-- An ELF file without segments: the magic number, and zeros for the rest of the header. -/
def emptyProgram : Reads := fun _ _ => readi (wordBytes ELF_MAGIC ++ List.replicate 48 0)

/-- `exec` of a program without segments gives an image of two pages, the stack and its guard. -/
lemma execImage_empty {c : ShmField} (hfree : m.FreeOk) (hpages : 100 ≤ m.pages) :
    ∃ nd m', execImage c emptyProgram [] m = .ok (some (nd, 2 * PGSIZE), m') ∧ 6 ≤ m'.pages := by
  obtain ⟨d, m₁, hload, hleft⟩ := Program.loads_empty (c := c) (m := m) (by omega)
  obtain ⟨-, himage, -⟩ := hload.ensures hfree
  have hpush := Program.pushStack_fits (m := m₁) himage
    (show ([] : List (List UInt8)).length < MAXARG by decide) (by decide)
  have himage : execImage c emptyProgram [] m = .ok (some (d, 2 * PGSIZE),
      Program.storeStack (Program.stackPage (2 * PGSIZE) d) (2 * PGSIZE) [] m₁) := by
    refine hload.execImage_result.trans ?_
    rw [hpush]
    rfl
  refine ⟨d, _, himage, ?_⟩
  show 6 ≤ m₁.pages
  omega

lemma pages_le_of_free {m m' : Mem} (h : ∀ x, m.free x ≤ m'.free x) : m.pages ≤ m'.pages :=
  (List.subperm_ext_iff.mpr fun x _ => h x).length_le

/-- The first process after boot executes a program without segments. -/
lemma Booted.exec_empty (h : k.Booted) :
    ∃ k' d', exec k.initproc (some emptyProgram) [] k.started = .ok (0, k') ∧
      (k'.table k.initproc).state = .running ∧ (k'.mm k.initproc).sz = 2 * PGSIZE ∧
      (k'.mm k.initproc).pgdir = some d' ∧ Image (2 * PGSIZE) d' ∧ 6 ≤ k'.mem.pages := by
  have hrun := h.step_run (fun a => ∀ p, a ≠ .shmOpen p) fun p hp => by cases hp
  have howned := (h.isPrivate.step hrun).sound.owned
  obtain ⟨d, hd, -⟩ := h.pgdir
  have hlive : k.started.Live k.initproc := by simp [Live, started_running]
  have hpages : 100 ≤ k.started.mem.pages := by
    have := h.pages
    show 100 ≤ k.mem.pages
    omega
  have hfree : k.started.mem.FreeOk := howned.freeOk
  obtain ⟨nd, m₁, himage, hsix⟩ := execImage_empty (c := (k.started.mm k.initproc).shm) hfree hpages
  have hidx : (k.started.mm k.initproc).shm.idx = none := congrArg ShmField.idx h.shm
  have hloaded := (Program.execImage_ensures hfree _ himage).2 _ _ rfl
  have hs₁ : Mem.SharedOk m₁.shared := hloaded.shared ▸ howned.sharedOk
  have hin : ∀ x, d.refs x ≠ 0 → m₁.InRange x := by
    intro x hx
    refine (howned.inRange x ?_).congr hloaded.layout
    have h1 := uses_dir hlive (show (k.started.mm k.initproc).pgdir = some d from hd) x
    have h2 := uses_le_places k.started k.initproc x
    have h3 := sum_uses_le_places k.started x
    omega
  have hhit : ∀ v < KERNBASE, (k.started.mm k.initproc).shm.Hits v → (d.entry v).present = true :=
    fun v _ hit => absurd hidx hit.1
  obtain ⟨m₂, hfreevm⟩ := freevm_succeeds hs₁ hin hhit
  have hfreed := freevm_ensures hs₁ m₂ hfreevm
  have hmore : m₁.pages ≤ m₂.pages := by
    refine pages_le_of_free fun x => ?_
    have h1 := hfreed.free x
    have h2 : kept (k.started.mm k.initproc).shm d x = 0 := if_neg fun hc => hc.1 hidx
    omega
  refine ⟨{ k.started.setMm k.initproc
    { k.started.mm k.initproc with pgdir := some nd, sz := 2 * PGSIZE } with mem := m₂ }, nd, ?_,
    started_running k, by simp [setMm], by simp [setMm], Program.execImage_image _ himage nd _ rfl,
    hsix.trans hmore⟩
  simp only [exec, himage, dir, show (k.started.mm k.initproc).pgdir = some d from hd, hfreevm, bind,
    Except.bind]

section Fresh

variable (hp : (k.table p).state = .running) (hsz : (k.mm p).sz = 2 * PGSIZE)
  (hd : (k.mm p).pgdir = some d) (himage : Image (2 * PGSIZE) d) (hpages : 6 ≤ k.mem.pages)

include hp hd himage hpages in
/-- `mmap` of the page above the image, and its first touch. -/
lemma attempt_mmap_touch :
    ∃ d' m', Run (Attempt p) (.ok k)
        [(.ok k, .mmap p 0x2000 4096), (.ok (k.setDir p (d.set 2 lazyPte) k.mem), .fault p 0x2000)]
        (.ok ((k.setDir p (d.set 2 lazyPte) k.mem).setDir p d' m')) ∧
      (d'.entry 2).present = true ∧ 5 ≤ m'.pages := by
  have hrange : RangeOk (0x2000 : UInt32).toNat (4096 : Int32).toInt := by
    refine ⟨by decide, by decide, ?_⟩
    rw [KERNBASE_eq]
    decide
  have h0 := PageDir.hasTable_of_present (himage.mapped 0 (by decide))
  have ht : d.HasTable 2 := h0
  obtain ⟨t, hpde⟩ := Option.isSome_iff_exists.mp ht
  have hK : 2 < KERNBASE := by
    rw [KERNBASE_eq]
    decide
  have hentry : d.entry 2 = 0 := himage.rest 2 hK (by decide)
  have hnot : (d.entry 2).present = false := by
    rw [hentry]
    rfl
  have hmmap : k.perform (.mmap p 0x2000 4096) = .ok (0, k.setDir p (d.set 2 lazyPte) k.mem) := by
    have hn : rangePages (0x2000 : UInt32).toNat (4096 : Int32).toInt.toNat = 1 := by decide
    have hv : (0x2000 : UInt32).toNat / PGSIZE = 2 := by decide
    simp only [perform, mmap, if_pos hrange, dir, hd, hn, hv, bind, Except.bind, mmapPages, walkpgdir,
      hpde, hnot, if_true, Bool.false_eq_true, if_false]
  have hpend : (d.set 2 lazyPte).Pending 2 :=
    pending_of_entry (PageDir.entry_set_self ht) rfl rfl
  cases hfree : k.mem.freelist with
  | nil =>
    rw [Mem.pages, hfree] at hpages
    cases hpages
  | cons y l =>
    have hfault : (k.setDir p (d.set 2 lazyPte) k.mem).perform (.fault p 0x2000) = .ok (0,
        (k.setDir p (d.set 2 lazyPte) k.mem).setDir p
          ((d.set 2 lazyPte).set 2 ((⟨true, true⟩ : Perm).pte y)) { k.mem with freelist := l }) := by
      have hv : (0x2000 : UInt32).toNat / PGSIZE = 2 := by decide
      have hdir : (k.setDir p (d.set 2 lazyPte) k.mem).dir p = .ok (d.set 2 lazyPte) := by
        simp [dir, setDir, setMm]
      have hpf : pageFault (d.set 2 lazyPte) 2 (k.setDir p (d.set 2 lazyPte) k.mem).mem = _ :=
        pageFault_pending hpend hfree
      simp only [perform, fault, hdir, hv, hpf, bind, Except.bind, if_true]
      rfl
    have hstep₁ : Attempt p (.ok k) (.mmap p 0x2000 4096) _ :=
      ⟨k, rfl, rfl, enabled_of_running hp rfl, (congrArg (Except.map Prod.snd) hmmap).symm⟩
    have hstep₂ : Attempt p (.ok (k.setDir p (d.set 2 lazyPte) k.mem)) (.fault p 0x2000) _ :=
      ⟨_, rfl, rfl, enabled_of_running (p := p) hp rfl, (congrArg (Except.map Prod.snd) hfault).symm⟩
    refine ⟨_, { k.mem with freelist := l }, (Run.refl.tail hstep₁).tail hstep₂, ?_, ?_⟩
    · rw [PageDir.entry_set_self (PageDir.hasTable_set.mpr ht)]
      rfl
    · rw [Mem.pages, hfree] at hpages
      exact Nat.le_of_succ_le_succ hpages

include hsz in
lemma newSize_fresh : newSize (k.mm p).sz 4096 = 3 * PGSIZE := by
  rw [hsz]
  decide

end Fresh

/-- A process that has just executed a program grows by a page. -/
theorem remap_free_growth :
    ∃ k₀ k₁ s tr, boot smallLayout 1 [] (fun _ _ => 0) = .ok k₀ ∧
      exec k₀.initproc (some emptyProgram) [] k₀.started = .ok (0, k₁) ∧
      Run (Attempt k₀.initproc) (.ok k₁) tr s ∧
      tr.map Prod.snd = [.sbrk k₀.initproc 4096] ∧
      AllStates (· ≠ .error (.panic "remap")) tr s := by
  obtain ⟨k₀, hboot⟩ := boot_smallLayout
  obtain ⟨k₁, d, hexec, hp, hsz, hd, himage, -⟩ := (boot_ensures k₀ hboot).exec_empty
  have hr : Run (Attempt k₀.initproc) (.ok k₁) [(.ok k₁, .sbrk k₀.initproc 4096)] _ :=
    Run.refl.tail ⟨k₁, rfl, rfl, enabled_of_running hp rfl, rfl⟩
  refine ⟨k₀, k₁, _, _, hboot, hexec, hr, rfl, (remap_free_iff hr).mpr ?_⟩
  rintro ⟨s, a⟩ hmem k n hk ha ⟨-, hnew, d', hd', w, h1, h2, hpres, -⟩
  obtain ⟨rfl, rfl⟩ : s = .ok k₁ ∧ a = .sbrk k₀.initproc 4096 := by simpa using hmem
  cases hk
  cases ha
  obtain rfl : d = d' := by simpa [hd] using hd'
  have hw : w < KERNBASE := lt_of_lt_of_le h2 (pgUp_le_KERNBASE hnew)
  rw [hsz] at h1
  rw [himage.rest w hw h1] at hpres
  cases hpres

/-- A process that has just executed a program maps the page above its image with `mmap`, touches it,
and grows by a page. -/
theorem remap_after_mmap :
    ∃ k₀ k₁ tr, boot smallLayout 1 [] (fun _ _ => 0) = .ok k₀ ∧
      exec k₀.initproc (some emptyProgram) [] k₀.started = .ok (0, k₁) ∧
      Run (Attempt k₀.initproc) (.ok k₁) tr (.error (.panic "remap")) ∧
      tr.map Prod.snd = [.mmap k₀.initproc 0x2000 4096, .fault k₀.initproc 0x2000,
        .sbrk k₀.initproc 4096] := by
  obtain ⟨k₀, hboot⟩ := boot_smallLayout
  obtain ⟨k₁, d, hexec, hp, hsz, hd, himage, hpages⟩ := (boot_ensures k₀ hboot).exec_empty
  obtain ⟨d', m', hr, hpres, hfive⟩ := attempt_mmap_touch hp hd himage hpages
  let k₂ := (k₁.setDir k₀.initproc (d.set 2 lazyPte) k₁.mem).setDir k₀.initproc d' m'
  have hsz₂ : (k₂.mm k₀.initproc).sz = 2 * PGSIZE := by simp [k₂, setDir, setMm, hsz]
  have hd₂ : (k₂.mm k₀.initproc).pgdir = some d' := by simp [k₂, setDir, setMm]
  have hgrow : GrowsInto k₀.initproc 4096 k₂ := by
    refine ⟨by decide, ?_, d', hd₂, 2, ?_, ?_, hpres, ?_⟩
    · rw [newSize_fresh hsz₂, KERNBASE_eq]
      decide
    · rw [hsz₂]
      decide
    · rw [newSize_fresh hsz₂]
      decide
    · rw [hsz₂]
      show needs d' 2 2 < m'.pages
      rw [needs_self]
      omega
  have hstep : Attempt k₀.initproc (.ok k₂) (.sbrk k₀.initproc 4096) (.error (.panic "remap")) :=
    ⟨k₂, rfl, rfl, enabled_of_running hp rfl,
      (congrArg (Except.map Prod.snd) (sbrk_remap_iff.mpr hgrow)).symm⟩
  exact ⟨k₀, k₁, _, hboot, hexec, hr.tail hstep, rfl⟩

end Kernel

end Xv6
