import Xv6.Kernel.Files

/-!
# What a system call can do

One type per system call that changes address spaces: the states it can lead to, each with the calls
of `vm.c`, `kalloc.c` and `sh_mem.c` that led there. The invariants of the kernel are derived from
these, so that no system call is taken apart twice.
-/

namespace Xv6

namespace Kernel

open Fallible

variable {k k' : Kernel} {p q : Slot}

lemma dir_ensures : Ensures (k.dir p) fun d => (k.mm p).pgdir = some d := by
  unfold dir
  split
  · next d hd => exact .ok hd
  · exact .error

/-! ### fork -/

inductive Forked (p : Slot) (k : Kernel) : Kernel → Prop
  | full : Forked p k k
  | noStack {q : Slot} {u : Mm} {e : Proc} (dead : ¬ k.Live q) (unused : e.state = .unused)
      (ofile : u.ofile = (k.mm q).ofile) : Forked p k ((k.setMm q u).setProc q e)
  | noCopy {q : Slot} {u : Mm} {e : Proc} {y : Nat} {d : PageDir} {m₁ m₂ m : Mem} (dead : ¬ k.Live q)
      (unused : e.state = .unused) (kalloc : k.mem.kalloc = (some y, m₁))
      (pgdir : (k.mm p).pgdir = some d) (copyuvm : copyuvm (k.mm p).shm d m₁ = .ok (none, m₂))
      (kfree : m₂.kfree y = .ok m) (ofile : u.ofile = (k.mm q).ofile) :
      Forked p k { (k.setMm q u).setProc q e with mem := m }
  | spawned {q : Slot} {u : Mm} {e : Proc} {y : Nat} {d nd : PageDir} {m₁ m : Mem} {k' : Kernel}
      (dead : ¬ k.Live q) (runnable : e.state = .runnable) (kalloc : k.mem.kalloc = (some y, m₁))
      (pgdir : (k.mm p).pgdir = some d) (copyuvm : copyuvm (k.mm p).shm d m₁ = .ok (some nd, m))
      (mm : u = { u with kstack := some y, pgdir := some nd, sz := (k.mm p).sz, shm := (k.mm p).shm })
      (files : Harmless { (k.setMm q u).setProc q e with mem := m } k')
      (ofile : u.ofile = (k.mm q).ofile)
      (dup : dupFiles p q (List.finRange NOFILE) { (k.setMm q u).setProc q e with mem := m } = .ok k') :
      Forked p k k'

/-- The state of the child does not matter to the copying of open files. -/
lemma dupFiles_setProc (l : List (Fin NOFILE)) (e : Proc) :
    dupFiles p q l (k.setProc q e) = (dupFiles p q l k).map fun k => k.setProc q e := by
  induction l generalizing k with
  | nil => rfl
  | cons fd l ih =>
    have hmm : (k.setProc q e).mm = k.mm := rfl
    unfold dupFiles
    rw [hmm]
    split
    · exact ih
    · next f _ =>
      have hfile : (k.setProc q e).file = k.file := rfl
      simp only [filedup, hfile]
      split
      · rfl
      · exact ih (k := (k.setFile f { k.file f with ref := (k.file f).ref + 1 }).setMm q
          { k.mm q with ofile := Function.update (k.mm q).ofile fd (some f) })

lemma allocproc_unused {t t' : PTable} (h : allocproc t = .ok (some q, t')) :
    (t q).state = .unused := by
  unfold allocproc at h
  split at h
  · simp at h
  · next i hi =>
    split at h
    · simp only [Except.ok.injEq, Prod.mk.injEq, Option.some.injEq] at h
      obtain ⟨rfl, -⟩ := h
      exact firstUnused_some hi
    · simp at h

lemma fork_ensures : Ensures (fork p k) fun r => Forked p k r.2 := by
  unfold fork
  split
  · exact .error
  · exact .ok .full
  · next q t halloc =>
    have hdead : ¬ k.Live q := fun h => h (allocproc_unused halloc)
    split
    · next m hk =>
      obtain ⟨-, rfl⟩ := Mem.kalloc_none hk
      exact .ok (.noStack hdead rfl rfl)
    · next y m₁ hk =>
      refine dir_ensures.bind fun d hd => ?_
      intro r hr
      obtain ⟨⟨o, m₂⟩, hcopy, hr⟩ := bind_eq_ok.mp hr
      cases o with
      | none =>
        obtain ⟨m, hfree, hr⟩ := bind_eq_ok.mp hr
        cases hr
        exact .noCopy hdead rfl hk hd hcopy hfree rfl
      | some nd =>
        obtain ⟨k₁, hdup, hr⟩ := bind_eq_ok.mp hr
        cases hr
        have hset := dupFiles_setProc (p := p) (q := q)
          (k := { k.setMm q { k.mm q with
            kstack := some y, pgdir := some nd, sz := (k.mm p).sz, shm := (k.mm p).shm } with
            mem := m₂ }) (List.finRange NOFILE) { t q with parent := some p, state := .runnable }
        rw [hdup] at hset
        exact .spawned (u := { k.mm q with
          kstack := some y, pgdir := some nd, sz := (k.mm p).sz, shm := (k.mm p).shm })
          (e := { t q with parent := some p, state := .runnable }) hdead rfl hk hd hcopy rfl
          (dupFiles_harmless (List.finRange NOFILE) _ hset) rfl hset

/-! ### exec -/

/-- The result of `exec` and the state it leads to. -/
inductive Execed (p : Slot) (k : Kernel) : Int → Kernel → Prop
  | noFile : Execed p k (-1) k
  | failed {reads : Reads} {argv : List (List UInt8)} {m : Mem}
      (image : execImage (k.mm p).shm reads argv k.mem = .ok (none, m)) :
      Execed p k (-1) { k with mem := m }
  | loaded {reads : Reads} {argv : List (List UInt8)} {d nd : PageDir} {sz : Nat} {m₁ m : Mem}
      (image : execImage (k.mm p).shm reads argv k.mem = .ok (some (nd, sz), m₁))
      (pgdir : (k.mm p).pgdir = some d) (freevm : freevm (k.mm p).shm d m₁ = .ok m) :
      Execed p k 0 { k.setMm p { k.mm p with pgdir := some nd, sz := sz } with mem := m }

lemma exec_ensures {file : Option Reads} {argv : List (List UInt8)} :
    Ensures (exec p file argv k) fun r => Execed p k r.1 r.2 := by
  unfold exec
  split
  · exact .ok .noFile
  · next reads =>
    intro r hr
    obtain ⟨⟨o, m₁⟩, himage, hr⟩ := bind_eq_ok.mp hr
    rcases o with _ | ⟨nd, sz⟩
    · cases hr
      exact .failed himage
    · obtain ⟨d, hd, hr⟩ := bind_eq_ok.mp hr
      obtain ⟨m, hfree, hr⟩ := bind_eq_ok.mp hr
      cases hr
      exact .loaded himage (dir_ensures d hd) hfree

/-! ### wait -/

inductive Waited (p : Slot) (k : Kernel) : Kernel → Prop
  | noChildren (scan : waitScan k.table p = .noChildren) : Waited p k k
  | block (scan : waitScan k.table p = .block)
      (harmless : Harmless k { k with table := sleepOn (.proc p) p k.table }) :
      Waited p k { k with table := sleepOn (.proc p) p k.table }
  | reaped {z : Slot} {y : Nat} {d : PageDir} {m₁ m : Mem} (scan : waitScan k.table p = .reaped z)
      (kstack : (k.mm z).kstack = some y) (pgdir : (k.mm z).pgdir = some d)
      (kfree : k.mem.kfree y = .ok m₁) (freevm : freevm (k.mm p).shm d m₁ = .ok m) :
      Waited p k
        { k.setMm z { k.mm z with kstack := none } with table := reapSlot z k.table, mem := m }

lemma waitScan_reaped {t : PTable} {z : Slot} (h : waitScan t p = .reaped z) :
    (t z).parent = some p ∧ (t z).state = .zombie := by
  unfold waitScan at h
  split at h
  · next i hi =>
    cases h
    simpa using List.find?_some hi
  · split_ifs at h

lemma wait_ensures (hp : (k.table p).state = .running) :
    Ensures (wait p k) fun r => Waited p k r.2 := by
  unfold wait
  split
  · next hscan => exact .ok (.noChildren hscan)
  · next hscan =>
    refine .ok (.block hscan (harmless_table (.update_of_active ?_ ?_ ?_))) <;> simp [hp]
  · next z hz =>
    split
    · exact .error
    · exact .error
    · next y d hy hd =>
      intro r hr
      obtain ⟨m₁, hfree, hr⟩ := bind_eq_ok.mp hr
      obtain ⟨m, hvm, hr⟩ := bind_eq_ok.mp hr
      cases hr
      exact .reaped hz hy hd hfree hvm

/-! ### sbrk, mmap, munmap and page faults -/

inductive Sbrked (p : Slot) (n : Int32) (k : Kernel) : Kernel → Prop
  | zero (zero : n.toInt = 0) : Sbrked p n k k
  | grown {d d' : PageDir} {sz : Nat} {m : Mem} (pos : 0 < n.toInt) (pgdir : (k.mm p).pgdir = some d)
      (alloc : allocuvm (k.mm p).shm d (k.mm p).sz (newSize (k.mm p).sz n) k.mem = .ok (sz, d', m)) :
      Sbrked p n k { k.setMm p { k.mm p with
        pgdir := some d', sz := if sz = 0 then (k.mm p).sz else sz } with mem := m }
  | shrunk {d d' : PageDir} {sz : Nat} {m : Mem} (neg : n.toInt < 0) (pgdir : (k.mm p).pgdir = some d)
      (dealloc : deallocuvm (k.mm p).shm d (k.mm p).sz (newSize (k.mm p).sz n) k.mem =
        .ok (sz, d', m)) :
      Sbrked p n k { k.setMm p { k.mm p with
        pgdir := some d', sz := if sz = 0 then (k.mm p).sz else sz } with mem := m }

lemma growproc_ensures {n : Int32} : Ensures (growproc p n k) fun r => Sbrked p n k r.2 := by
  refine dir_ensures.bind fun d hd => ?_
  dsimp only
  split
  · next hpos =>
    intro r hr
    obtain ⟨⟨sz, d', m⟩, halloc, hr⟩ := bind_eq_ok.mp hr
    have hout := Sbrked.grown (n := n) hpos hd halloc
    dsimp only at hr
    split at hr <;> cases hr
    · next hsz =>
      rw [if_pos hsz] at hout
      exact hout
    · next hsz =>
      rw [if_neg hsz] at hout
      exact hout
  · split
    · next hneg =>
      intro r hr
      obtain ⟨⟨sz, d', m⟩, hdealloc, hr⟩ := bind_eq_ok.mp hr
      have hout := Sbrked.shrunk (n := n) hneg hd hdealloc
      dsimp only at hr
      split at hr <;> cases hr
      · next hsz =>
        rw [if_pos hsz] at hout
        exact hout
      · next hsz =>
        rw [if_neg hsz] at hout
        exact hout
    · exact .ok (.zero (by omega))

lemma sbrk_ensures {n : Int32} : Ensures (sbrk p n k) fun r => Sbrked p n k r.2 :=
  growproc_ensures.bind fun _ h => .ok h

inductive Mmapped (p : Slot) (start : UInt32) (n : Int32) (k : Kernel) : Kernel → Prop
  | refused : Mmapped p start n k k
  | mapped {d d' : PageDir} {ok : Bool} {m : Mem} (range : RangeOk start.toNat n.toInt)
      (pgdir : (k.mm p).pgdir = some d)
      (pages : mmapPages (rangePages start.toNat n.toInt.toNat) (start.toNat / PGSIZE) d k.mem =
        .ok (ok, d', m)) : Mmapped p start n k (k.setDir p d' m)

lemma mmap_ensures {start : UInt32} {n : Int32} :
    Ensures (mmap p start n k) fun r => Mmapped p start n k r.2 := by
  unfold mmap
  split
  · next hrange =>
    refine dir_ensures.bind fun d hd => ?_
    intro r hr
    obtain ⟨⟨ok, d', m⟩, hpages, hr⟩ := bind_eq_ok.mp hr
    cases hr
    exact .mapped hrange hd hpages
  · exact .ok .refused

inductive Munmapped (p : Slot) (start : UInt32) (n : Int32) (k : Kernel) : Kernel → Prop
  | refused (range : ¬ RangeOk start.toNat n.toInt) : Munmapped p start n k k
  | unmapped {d d' : PageDir} {ok : Bool} {m : Mem} (range : RangeOk start.toNat n.toInt)
      (pgdir : (k.mm p).pgdir = some d)
      (pages : munmapPages (rangePages start.toNat n.toInt.toNat) (start.toNat / PGSIZE) d k.mem =
        .ok (ok, d', m)) : Munmapped p start n k (k.setDir p d' m)

lemma munmap_ensures {start : UInt32} {n : Int32} :
    Ensures (munmap p start n k) fun r => Munmapped p start n k r.2 := by
  unfold munmap
  split
  · next hrange =>
    refine dir_ensures.bind fun d hd => ?_
    intro r hr
    obtain ⟨⟨ok, d', m⟩, hpages, hr⟩ := bind_eq_ok.mp hr
    cases hr
    exact .unmapped hrange hd hpages
  · next hrange => exact .ok (.refused hrange)

/-- The range of pages over which `mmap` and `munmap` run lies below the kernel. -/
lemma range_le {start : UInt32} {n : Int32} (h : RangeOk start.toNat n.toInt) :
    start.toNat / PGSIZE + rangePages start.toNat n.toInt.toNat ≤ KERNBASE ∨
      rangePages start.toNat n.toInt.toNat = 0 := by
  obtain ⟨-, h1, h2⟩ := h
  unfold rangePages
  simp only [PGSIZE] at h1 h2 ⊢
  omega

inductive Faulted (p : Slot) (addr : UInt32) (k : Kernel) : Kernel → Prop
  | handled {d d' : PageDir} {m : Mem} (pgdir : (k.mm p).pgdir = some d)
      (pageFault : pageFault d (addr.toNat / PGSIZE) k.mem = .ok (true, d', m)) :
      Faulted p addr k (k.setDir p d' m)
  | exited {d d' : PageDir} {m : Mem} {k' : Kernel} (pgdir : (k.mm p).pgdir = some d)
      (pageFault : pageFault d (addr.toNat / PGSIZE) k.mem = .ok (false, d', m))
      (harmless : Harmless (k.setDir p d' m) k') (zombie : (k'.table p).state = .zombie)
      (exits : ∃ r, exit p (k.setDir p d' m) = .ok (r, k')) : Faulted p addr k k'

lemma exit_zombie : Ensures (exit p k) fun r => (r.2.table p).state = .zombie := by
  unfold exit
  split
  · exact .error
  · refine Ensures.bind (R := fun _ => True) (fun _ _ => trivial) fun k₁ _ => .ok ?_
    simp [exitTable]

lemma fault_ensures {addr : UInt32} (hp : k.Live p) :
    Ensures (fault p addr k) fun r => Faulted p addr k r.2 := by
  refine dir_ensures.bind fun d hd => ?_
  intro r hr
  obtain ⟨⟨ok, d', m⟩, hfault, hr⟩ := bind_eq_ok.mp hr
  cases ok with
  | true =>
    cases hr
    exact .handled hd hfault
  | false =>
    have hlive : (k.setDir p d' m).Live p := hp
    exact .exited hd hfault (exit_harmless hlive r hr) (exit_zombie r hr) ⟨r.1, hr⟩

/-! ### Shared pages -/

inductive ShmOpened (p : Slot) (k : Kernel) : Kernel → Prop
  | same : ShmOpened p k k
  | failed {y v : Nat} {d d' : PageDir} {m₁ m : Mem} (va : (k.mm p).shm.va = 0)
      (kalloc : k.mem.kalloc = (some y, m₁)) (pgdir : (k.mm p).pgdir = some d)
      (mapped : mapLastPage y ⟨true, true⟩ (List.range 512).reverse d m₁ = (v, d', m))
      (fails : v = 0 ∨ (m.shmAdd y).1 = none) : ShmOpened p k (k.setDir p d' m)
  | opened {y v : Nat} {d d' : PageDir} {m₁ m₂ m : Mem} {i : Fin N_SHARED_PAGES}
      (va : (k.mm p).shm.va = 0) (kalloc : k.mem.kalloc = (some y, m₁))
      (pgdir : (k.mm p).pgdir = some d)
      (mapped : mapLastPage y ⟨true, true⟩ (List.range 512).reverse d m₁ = (v, d', m₂))
      (ne : v ≠ 0) (shmAdd : m₂.shmAdd y = (some i, m)) :
      ShmOpened p k
        { k.setMm p { k.mm p with pgdir := some d', shm := ⟨some i, v⟩ } with mem := m }

lemma shmOpen_ensures : Ensures (shmOpen p k) fun r => ShmOpened p k r.2 := by
  unfold shmOpen
  split
  · exact .ok .same
  · next hva =>
    have hva : (k.mm p).shm.va = 0 := by simpa using hva
    split
    · exact .ok .same
    · next y m₁ hk =>
      refine dir_ensures.bind fun d hd => ?_
      rcases hmap : mapLastPage y ⟨true, true⟩ (List.range 512).reverse d m₁ with ⟨v, d', m₂⟩
      dsimp only
      split
      · next hv => exact .ok (.failed hva hk hd hmap (Or.inl hv))
      · next hv =>
        split
        · next m hadd =>
          obtain ⟨rfl, -⟩ := Mem.shmAdd_none hadd
          exact .ok (.failed hva hk hd hmap (Or.inr (by rw [hadd])))
        · next i m hadd => exact .ok (.opened hva hk hd hmap hv hadd)

inductive ShmClosed (p : Slot) (k : Kernel) : Kernel → Prop
  | same (va : (k.mm p).shm.va = 0) : ShmClosed p k k
  | notFound {d : PageDir} (va : (k.mm p).shm.va ≠ 0) (pgdir : (k.mm p).pgdir = some d)
      (remove : k.mem.shmRemove (d.entry (k.mm p).shm.va).ppn = .ok (false, k.mem)) :
      ShmClosed p k k
  | closed {d : PageDir} {m : Mem} (va : (k.mm p).shm.va ≠ 0) (pgdir : (k.mm p).pgdir = some d)
      (table : d.HasTable (k.mm p).shm.va)
      (remove : k.mem.shmRemove (d.entry (k.mm p).shm.va).ppn = .ok (true, m)) :
      ShmClosed p k { k.setMm p
        { k.mm p with pgdir := some (d.set (k.mm p).shm.va 0), shm := ⟨none, 0⟩ } with mem := m }

/-- A page that is not found leaves memory as it is. -/
lemma shmRemove_false {x : Nat} {m m' : Mem} (h : m.shmRemove x = .ok (false, m')) : m' = m := by
  unfold Mem.shmRemove at h
  split at h
  · split at h
    · obtain ⟨m₁, -, h⟩ := bind_eq_ok.mp h
      cases h
    · cases h
  · cases h
    rfl

lemma shmClose_ensures : Ensures (shmClose p k) fun r => ShmClosed p k r.2 := by
  unfold shmClose
  split
  · next hva => exact .ok (.same hva)
  · next hva =>
    refine dir_ensures.bind fun d hd => ?_
    split
    · exact .error
    · next e he =>
      obtain ⟨htable, rfl⟩ := PageDir.walk_eq_some_iff.mp he
      intro r hr
      obtain ⟨⟨found, m⟩, hremove, hr⟩ := bind_eq_ok.mp hr
      cases found with
      | false =>
        cases hr
        obtain rfl := shmRemove_false hremove
        exact .notFound hva hd hremove
      | true =>
        cases hr
        exact .closed hva hd htable hremove

/-! ### Every action -/

/-- What an action can lead to. -/
inductive Outcome (k : Kernel) : Action → Kernel → Prop
  | harmless {a : Action} {k' : Kernel} (h : Harmless k k') : Outcome k a k'
  | fork {p : Slot} {k' : Kernel} (live : k.Live p) (h : Forked p k k') : Outcome k (.fork p) k'
  | exec {p : Slot} {file : Option Reads} {argv : List (List UInt8)} {r : Int} {k' : Kernel}
      (live : k.Live p) (result : exec p file argv k = .ok (r, k')) (h : Execed p k r k') :
      Outcome k (.exec p file argv) k'
  | wait {p : Slot} {k' : Kernel} (live : k.Live p) (h : Waited p k k') : Outcome k (.wait p) k'
  | sbrk {p : Slot} {n : Int32} {k' : Kernel} (live : k.Live p) (h : Sbrked p n k k') :
      Outcome k (.sbrk p n) k'
  | mmap {p : Slot} {start : UInt32} {n : Int32} {k' : Kernel} (live : k.Live p)
      (h : Mmapped p start n k k') : Outcome k (.mmap p start n) k'
  | munmap {p : Slot} {start : UInt32} {n : Int32} {k' : Kernel} (live : k.Live p)
      (h : Munmapped p start n k k') : Outcome k (.munmap p start n) k'
  | fault {p : Slot} {addr : UInt32} {k' : Kernel} (live : k.Live p) (h : Faulted p addr k k') :
      Outcome k (.fault p addr) k'
  | shmOpen {p : Slot} {k' : Kernel} (live : k.Live p) (h : ShmOpened p k k') :
      Outcome k (.shmOpen p) k'
  | shmClose {p : Slot} {k' : Kernel} (live : k.Live p) (h : ShmClosed p k k') :
      Outcome k (.shmClose p) k'

lemma run_harmless (hp : (k.table p).state = .runnable) :
    Ensures (run p k) fun r => Harmless k r.2 := by
  unfold run
  split
  · exact .error
  · exact .error
  · refine .ok (harmless_table (.update_of_active ?_ ?_ ?_)) <;> simp [hp]

theorem Step.outcome {ops : Action → Prop} {a : Action} (h : Step ops k a k') : Outcome k a k' := by
  obtain ⟨-, ⟨hcaller, hrun⟩, r, hr⟩ := h
  have hlive : ∀ p, a.caller = some p → k.Live p := by
    intro p hp
    simp [Live, hcaller p hp]
  cases a with
  | run p => exact .harmless (run_harmless (hrun p rfl) _ hr)
  | yield p =>
    cases hr
    exact .harmless (harmless_table (.update_of_active (hlive p rfl)
      (by simp [hcaller p rfl]) (by simp)))
  | sleep p addr =>
    cases hr
    exact .harmless (harmless_table (.update_of_active (hlive p rfl)
      (by simp [hcaller p rfl]) (by simp)))
  | wakeup addr =>
    cases hr
    exact .harmless (harmless_table (alike_wakeup1 _ _))
  | kill pid =>
    cases hr
    exact .harmless (harmless_table (alike_kill _ _))
  | fork p => exact .fork (hlive p rfl) (fork_ensures _ hr)
  | exit p => exact .harmless (exit_harmless (hlive p rfl) _ hr)
  | wait p => exact .wait (hlive p rfl) (wait_ensures (hcaller p rfl) _ hr)
  | exec p file argv => exact .exec (hlive p rfl) hr (exec_ensures _ hr)
  | sbrk p n => exact .sbrk (hlive p rfl) (sbrk_ensures _ hr)
  | mmap p start n => exact .mmap (hlive p rfl) (mmap_ensures _ hr)
  | munmap p start n => exact .munmap (hlive p rfl) (munmap_ensures _ hr)
  | fault p addr => exact .fault (hlive p rfl) (fault_ensures (hlive p rfl) _ hr)
  | shmOpen p => exact .shmOpen (hlive p rfl) (shmOpen_ensures _ hr)
  | shmGet p =>
    cases hr
    exact .harmless (.refl k)
  | shmClose p => exact .shmClose (hlive p rfl) (shmClose_ensures _ hr)
  | pipe p => exact .harmless (sysPipe_harmless _ hr)
  | «open» p readable writable => exact .harmless (sysOpen_harmless _ hr)
  | dup p fd => exact .harmless (sysDup_harmless _ hr)
  | close p fd => exact .harmless (sysClose_harmless _ hr)

/-! ### What holds of every address space -/

/-- A set of process states that no harmless step enters. -/
structure Steady (A : ProcState → Prop) : Prop where
  unused : ¬ A .unused
  alike : ∀ {t t' : PTable}, Alike t t' → ∀ q, A (t' q).state → A (t q).state

lemma steady_live : Steady fun s => s ≠ .unused :=
  ⟨fun h => h rfl, fun h q hq hu => hq ((h.unused q).mpr hu)⟩

lemma steady_active : Steady fun s => s ≠ .unused ∧ s ≠ .zombie :=
  ⟨fun h => h.1 rfl, fun h q hq => ⟨fun hu => hq.1 ((h.unused q).mpr hu),
    fun hz => hq.2 (h.zombie q hz)⟩⟩

/-- A property of size, directory and shared page of every process in one of the states `A`. -/
def Every (A : ProcState → Prop) (φ : Nat → Option PageDir → ShmField → Prop) (k : Kernel) : Prop :=
  ∀ p, A (k.table p).state → φ (k.mm p).sz (k.mm p).pgdir (k.mm p).shm

section Every

variable {A : ProcState → Prop} {φ : Nat → Option PageDir → ShmField → Prop} (hA : Steady A)

include hA

lemma Every.keep (h : k.Every A φ) (hk : KeepsSpaces k k') : k'.Every A φ := by
  intro q hq
  rw [hk.sz q, hk.pgdir q, hk.shm q]
  exact h q (hA.alike hk.alike q hq)

/-- A slot that is not in use may hold anything. -/
lemma Every.dead {u : Mm} {e : Proc} {m : Mem} (h : k.Every A φ) (he : e.state = .unused) :
    Every A φ { (k.setMm q u).setProc q e with mem := m } := by
  intro r hr
  by_cases hrq : r = q
  · subst hrq
    simp only [setProc, setMm, Function.update_self, he] at hr
    exact absurd hr hA.unused
  · simp only [setProc, setMm, Function.update_of_ne hrq] at hr ⊢
    exact h r hr

lemma Forked.every (hf : Forked p k k') (h : k.Every A φ)
    (hcopy : ∀ {y d nd m₁ m}, k.mem.kalloc = (some y, m₁) → (k.mm p).pgdir = some d →
      copyuvm (k.mm p).shm d m₁ = .ok (some nd, m) → φ (k.mm p).sz (some nd) (k.mm p).shm) :
    k'.Every A φ := by
  cases hf with
  | full => exact h
  | noStack dead unused => exact h.dead hA (m := k.mem) unused
  | noCopy dead unused _ _ _ _ => exact h.dead hA unused
  | @spawned q u e y d nd m₁ m _ dead runnable kalloc pgdir copyuvm mm files =>
    refine Every.keep hA (fun r hr => ?_) files.only
    by_cases hrq : r = q
    · subst hrq
      rw [mm]
      simp only [setProc, setMm, Function.update_self]
      exact hcopy kalloc pgdir copyuvm
    · simp only [setProc, setMm, Function.update_of_ne hrq] at hr ⊢
      exact h r hr

lemma Waited.every (hw : Waited p k k') (h : k.Every A φ) : k'.Every A φ := by
  cases hw with
  | noChildren => exact h
  | block _ harmless => exact h.keep hA harmless.only
  | @reaped z _ _ _ _ _ _ _ _ _ =>
    intro r hr
    by_cases hrz : r = z
    · subst hrz
      simp only [reapSlot, Function.update_self] at hr
      exact absurd hr hA.unused
    · simp only [reapSlot, setMm, Function.update_of_ne hrz] at hr ⊢
      exact h r hr

omit hA in
/-- The address space of one process changes. -/
lemma Every.setMm {u : Mm} {m : Mem} (h : k.Every A φ) (hu : φ u.sz u.pgdir u.shm) :
    Every A φ { k.setMm p u with mem := m } := by
  intro r hr
  by_cases hrp : r = p
  · subst hrp
    simpa only [Kernel.setMm, Function.update_self] using hu
  · simp only [Kernel.setMm, Function.update_of_ne hrp] at hr ⊢
    exact h r hr

omit hA in
lemma Every.setDir {d : PageDir} {m : Mem} (h : k.Every A φ)
    (hd : φ (k.mm p).sz (some d) (k.mm p).shm) : Every A φ (k.setDir p d m) :=
  h.setMm hd

end Every

end Kernel

end Xv6
