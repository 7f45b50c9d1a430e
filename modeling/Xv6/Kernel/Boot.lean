import Xv6.Kernel.Calls

/-!
# The state after boot

`main` leaves one process, with one page at address 0, and every other page of physical memory above
the kernel in one place. With a kernel of ordinary size it gets there.
-/

namespace Xv6

open Fallible Count

variable {d d' : PageDir} {m m' : Mem} {n lo x : Nat}

namespace Kernel

/-! ### Filling the free list -/

lemma freerange_ensures : Ensures (freerange n lo m) fun m' =>
    (∀ x, m'.free x = m.free x + if lo ≤ x ∧ x < lo + n then 1 else 0) ∧
    (∀ x, lo ≤ x → x < lo + n → m.InRange x) ∧ m'.shared = m.shared ∧ m'.layout = m.layout ∧
    m'.pages = m.pages + n := by
  induction n generalizing lo m with
  | zero =>
    refine .ok ⟨fun x => ?_, fun x h1 h2 => ?_, rfl, rfl, rfl⟩
    · rw [if_neg (by omega), Nat.add_zero]
    · omega
  | succ n ih =>
    intro m'' h
    unfold freerange at h
    obtain ⟨m₁, hkfree, h⟩ := bind_eq_ok.mp h
    obtain ⟨hin, hfree, hshared, hlayout⟩ := Mem.kfree_ensures _ _ _ hkfree
    obtain ⟨hfree', hin', hshared', hlayout', hpages⟩ := ih _ h
    refine ⟨fun x => ?_, fun x h1 h2 => ?_, hshared'.trans hshared, hlayout'.trans hlayout, ?_⟩
    · rw [hfree' x, hfree x, one]
      split_ifs <;> omega
    · by_cases hx : x = lo
      · exact hx ▸ hin
      · exact (hin' x (by omega) (by omega)).congr hlayout.symm
    · rw [Mem.kfree_eq_ok hin] at hkfree
      cases hkfree
      rw [hpages]
      show m.pages + 1 + n = _
      omega

lemma freerange_succeeds (lo : Nat) (h : ∀ x, lo ≤ x → x < lo + n → m.InRange x) :
    ∃ m', freerange n lo m = .ok m' := by
  induction n generalizing lo m with
  | zero => exact ⟨m, rfl⟩
  | succ n ih =>
    have hlo := h lo le_rfl (by omega)
    obtain ⟨m', hm'⟩ := ih (m := { m.junk lo with freelist := lo :: m.freelist }) (lo + 1)
      fun x h1 h2 => h x (by omega) (by omega)
    refine ⟨m', ?_⟩
    unfold freerange
    rw [Mem.kfree_eq_ok hlo]
    exact hm'

lemma startothers_ensures : Ensures (startothers n m) fun m' =>
    (∀ x, m'.free x ≤ m.free x) ∧ m'.shared = m.shared ∧ m'.layout = m.layout := by
  induction n generalizing m with
  | zero => exact .ok ⟨fun _ => le_rfl, rfl, rfl⟩
  | succ n ih =>
    unfold startothers
    split
    · exact .error
    · next y m₁ hk =>
      refine ih.mono ?_
      rintro m' ⟨h1, h2, h3⟩
      refine ⟨fun x => ?_, h2.trans (Mem.shared_kalloc hk), h3.trans (Mem.layout_kalloc hk)⟩
      have := h1 x
      have := Mem.free_kalloc hk x
      omega

lemma startothers_succeeds (h : n ≤ m.pages) : ∃ m', startothers n m = .ok m' := by
  induction n generalizing m with
  | zero => exact ⟨m, rfl⟩
  | succ n ih =>
    obtain ⟨y, m₁, hk, hpages⟩ := Mem.kalloc_of_pages (m := m) (by omega)
    obtain ⟨m', hm'⟩ := ih (m := m₁) (by omega)
    refine ⟨m', ?_⟩
    unfold startothers
    rw [hk]
    exact hm'

/-! ### The first process -/

/-- With two pages left `inituvm` maps page 0, and nothing else. -/
lemma inituvm_spec {init : List UInt8} (hbare : d.Bare) (hlen : init.length < PGSIZE)
    (hpages : 2 ≤ m.pages) : ∃ d' m', inituvm d init m = .ok (d', m') ∧ Moved d m d' m' ∧
      (d'.entry 0).present = true ∧ (∀ v < KERNBASE, v ≠ 0 → d'.entry v = 0) ∧
      m.pages ≤ m'.pages + 2 := by
  have hK : 0 < KERNBASE := by
    rw [KERNBASE_eq]
    decide
  obtain ⟨y, m₁, hk, hlen₁⟩ := Mem.kalloc_of_pages (m := m) (by omega)
  have hmiss : missing {0} d ≤ (m₁.memset y 0).pages := by
    have h1 := missing_le {0} d
    have h2 : (m₁.memset y 0).pages = m₁.pages := rfl
    rw [Finset.card_singleton] at h1
    omega
  obtain ⟨d', m₂, hmap, hpages₂⟩ := mappages_succeeds ⟨true, true⟩ y (v := 0)
    (n := 1) (d := d) (S := {0}) (by decide) (fun w _ hw => by
      obtain rfl : w = 0 := by omega
      exact ⟨by simp, by rw [hbare.entry hK]; rfl⟩) hmiss
  obtain ⟨hshared, hlayout, hone, -, -⟩ := mappages_one hK _ hmap
  obtain ⟨-, hentry, hrefs⟩ := hone rfl
  refine ⟨d', m₂.write y 0 init, ?_, ⟨fun x => ?_, fun _ v hv => ?_, ?_, ?_⟩, ?_, fun v hv hne => ?_, ?_⟩
  · unfold inituvm
    rw [if_neg (by omega), hk]
    dsimp only
    rw [hmap]
    rfl
  · have h1 := hrefs x
    have h2 := Mem.free_kalloc hk x
    change d'.refs x + m₂.free x = d.refs x + m₁.free x + one y x at h1
    show d'.refs x + m₂.free x ≤ _
    omega
  · rw [hentry v]
    split_ifs
    · exact Perm.pte_ok _ y
    · exact hbare.ok v hv
  · exact Eq.trans (b := m₁.shared) hshared (Mem.shared_kalloc hk)
  · exact Eq.trans (b := m₁.layout) hlayout (Mem.layout_kalloc hk)
  · rw [hentry 0, if_pos rfl]
    rfl
  · rw [hentry v, if_neg hne]
    exact hbare.entry hv
  · have h1 := missing_le {0} d
    rw [Finset.card_singleton] at h1
    have h2 : (m₁.memset y 0).pages = m₁.pages := rfl
    have h3 : (m₂.write y 0 init).pages = m₂.pages := rfl
    omega

/-- The process table when `allocproc` has taken the first slot. -/
def firstTable : PTable :=
  Function.update (fun _ => ⟨.unused, 0, none, none, false⟩) 0 ⟨.embryo, 1, none, none, false⟩

/-- The state in which the scheduler starts. -/
structure Booted (k : Kernel) : Prop where
  sound : k.Sound
  initproc : k.initproc = 0
  table : k.table = Function.update firstTable 0 ⟨.runnable, 1, none, none, false⟩
  only : ∀ q, k.Live q → q = k.initproc
  shared : ∀ i, k.mem.shared i = ⟨0, 0⟩
  kstack : ∃ y, (k.mm k.initproc).kstack = some y
  shm : (k.mm k.initproc).shm = ⟨none, 0⟩
  sz : (k.mm k.initproc).sz = PGSIZE
  pgdir : ∃ d, (k.mm k.initproc).pgdir = some d ∧ (d.entry 0).present = true ∧
    ∀ v < KERNBASE, v ≠ 0 → d.entry v = 0
  pages : 3000 ≤ k.mem.pages
  file : ∀ f, k.file f = ⟨.none, 0, false, false, 0⟩
  pipe : ∀ x, k.pipe x = ⟨false, false⟩
  ofile : ∀ q fd, (k.mm q).ofile fd = none

lemma allocproc_empty :
    allocproc (fun _ => ⟨.unused, 0, none, none, false⟩) = .ok (some 0, firstTable) := rfl

lemma shmRef_empty {sh : Fin N_SHARED_PAGES → ShmEntry} (h : ∀ i, sh i = ⟨0, 0⟩) (x : Nat) :
    Mem.shmRef sh x = 0 := by
  apply Finset.sum_eq_zero
  intro i _
  rw [h i]
  simp

lemma sharedOk_empty {sh : Fin N_SHARED_PAGES → ShmEntry} (h : ∀ i, sh i = ⟨0, 0⟩) :
    Mem.SharedOk sh :=
  ⟨fun i => by simp [h i], fun i j _ hne => absurd (by rw [h i]) hne⟩

/-- The first process, with its pages, the kernel's directory and the free list apart. -/
lemma firstProcess_booted {y : Nat} {kpgdir : PageDir}
    (hshared : ∀ i, m.shared i = ⟨0, 0⟩)
    (hplaces : ∀ x, m.free x + (one y x + d.refs x) + kpgdir.refs x ≤ 1)
    (hin : ∀ x, m.free x + (one y x + d.refs x) + kpgdir.refs x ≠ 0 → m.InRange x) (hok : d.Ok)
    (hzero : (d.entry 0).present = true) (hother : ∀ v < KERNBASE, v ≠ 0 → d.entry v = 0)
    (hpages : 3000 ≤ m.pages) : Booted (firstProcess 0 firstTable y d kpgdir m) := by
  have hmm : (firstProcess 0 firstTable y d kpgdir m).mm 0 =
      ⟨PGSIZE, some d, some y, fun _ => none, ⟨none, 0⟩⟩ := by
    unfold firstProcess
    dsimp only
    rw [Function.update_self]
  have honly : ∀ q, (firstProcess 0 firstTable y d kpgdir m).Live q → q = 0 := by
    intro q hq
    by_contra hne
    apply hq
    simp [firstProcess, firstTable, Function.update_of_ne hne]
  have hstate : ((firstProcess 0 firstTable y d kpgdir m).table 0).state = .runnable := by
    simp [firstProcess]
  have hlive : (firstProcess 0 firstTable y d kpgdir m).Live 0 := by simp [Live, hstate]
  have hcount : ∀ x, (firstProcess 0 firstTable y d kpgdir m).places x =
      m.free x + (one y x + d.refs x) + kpgdir.refs x := by
    intro x
    have hdead : ∀ q ∈ Finset.univ, q ≠ 0 → (firstProcess 0 firstTable y d kpgdir m).uses q x = 0 :=
      fun q _ hq => if_neg fun h => hq (honly q h)
    have hsum : ∑ q, (firstProcess 0 firstTable y d kpgdir m).uses q x = one y x + d.refs x := by
      rw [Finset.sum_eq_single_of_mem 0 (Finset.mem_univ 0) hdead,
        uses_dir (d := d) hlive (by rw [hmm]), hmm, Mm.stackUses, Option.elim_some]
    unfold places
    rw [hsum]
    exact Nat.add_zero _
  have hzeroRef : ∀ x, Mem.shmRef (firstProcess 0 firstTable y d kpgdir m).mem.shared x = 0 := fun x =>
    shmRef_empty hshared x
  refine ⟨⟨⟨fun x => ?_, fun x => ?_, sharedOk_empty hshared, fun x hx => ?_, fun q hq => ?_⟩, ?_⟩,
    rfl, rfl, honly, hshared, ⟨y, congrArg Mm.kstack hmm⟩, congrArg Mm.shm hmm, congrArg Mm.sz hmm,
    ⟨d, congrArg Mm.pgdir hmm, hzero, hother⟩, hpages, fun _ => rfl, fun _ => rfl, fun q fd => ?_⟩
  · rw [hcount]
    exact (hplaces x).trans (le_max_left _ _)
  · rw [hzeroRef]
    exact Nat.zero_le _
  · exact hin x (hcount x ▸ hx)
  · obtain rfl := honly q hq
    rw [hmm]
    refine ⟨fun d' hd' => ?_, fun _ _ _ _ _ hx => absurd (hzeroRef _) hx,
      fun _ _ hidx => absurd rfl hidx⟩
    cases hd'
    exact hok
  · exact ⟨fun _ _ => by simp [firstProcess], fun f hf => by simp [firstProcess] at hf,
      fun f g hf => by simp [firstProcess] at hf⟩
  · by_cases hq : q = 0
    · rw [hq, hmm]
    · simp [firstProcess, Function.update_of_ne hq]

/-- With the free list and the kernel's directory apart, and enough memory, `userinit` makes the first
process. -/
lemma userinit_spec {initcode : List UInt8} {kpgdir : PageDir} (hlen : initcode.length < PGSIZE)
    (hpages : 3100 ≤ m.pages) (hshared : ∀ i, m.shared i = ⟨0, 0⟩)
    (hfree : ∀ x, kpgdir.refs x + m.free x ≤ 1)
    (hin : ∀ x, kpgdir.refs x + m.free x ≠ 0 → m.InRange x) :
    ∃ k, userinit initcode kpgdir m = .ok k ∧ Booted k := by
  obtain ⟨y, m₁, hk, hlen₁⟩ := Mem.kalloc_of_pages (m := m) (by omega)
  have hs₁ : Mem.SharedOk m₁.shared := Mem.shared_kalloc hk ▸ sharedOk_empty hshared
  obtain ⟨d, m₂, hkvm, hlen₂⟩ := setupkvm_succeeds (c := ⟨none, 0⟩) (m := m₁) (by omega)
  obtain ⟨hsh₂, hlay₂, -, hd⟩ := setupkvm_ensures hs₁ _ hkvm
  obtain ⟨hbare, hrefs₂, -⟩ := hd d rfl
  obtain ⟨d', m₃, hinit, hmoved, hzero, hother, hlen₃⟩ :=
    inituvm_spec (m := m₂) hbare hlen (by omega)
  have hcount : ∀ x, m₃.free x + (one y x + d'.refs x) + kpgdir.refs x ≤
      kpgdir.refs x + m.free x := by
    intro x
    have h1 := Mem.free_kalloc hk x
    have h2 : d.refs x + m₂.free x = m₁.free x := hrefs₂ x
    have h3 := hmoved.refs x
    omega
  have hlayout : m₃.layout = m.layout :=
    hmoved.layout.trans (Eq.trans (b := m₁.layout) hlay₂ (Mem.layout_kalloc hk))
  refine ⟨firstProcess 0 firstTable y d' kpgdir m₃, ?_, firstProcess_booted (fun i => ?_) (fun x => ?_)
    (fun x hx => ?_) (hmoved.ok hbare.ok) hzero hother (by omega)⟩
  · simp only [userinit, allocproc_empty, bind, Except.bind, hk, hkvm, hinit]
  · rw [hmoved.shared]
    exact (congrFun (Eq.trans (b := m₁.shared) hsh₂ (Mem.shared_kalloc hk)) i).trans (hshared i)
  · exact (hcount x).trans (hfree x)
  · refine (hin x ?_).congr hlayout
    have := hcount x
    omega

/-- The memory in which `main` calls `userinit`. -/
lemma boot_memory {l : Layout} {m₁ m₂ m₃ m₄ : Mem} {kpgdir : PageDir} {ncpu : Nat}
    {bytes : Nat → Nat → UInt8}
    (h₁ : freerange (kinitSplit - l.kernelEnd) l.kernelEnd ⟨l, [], fun _ => ⟨0, 0⟩, bytes⟩ = .ok m₁)
    (h₂ : setupkvm ⟨none, 0⟩ m₁ = .ok (some kpgdir, m₂)) (h₃ : startothers (ncpu - 1) m₂ = .ok m₃)
    (h₄ : freerange (PHYSTOP - kinitSplit) kinitSplit m₃ = .ok m₄) :
    (∀ x, kpgdir.refs x + m₄.free x ≤ 1) ∧ (∀ x, kpgdir.refs x + m₄.free x ≠ 0 → m₄.InRange x) ∧
      (∀ i, m₄.shared i = ⟨0, 0⟩) ∧ 3100 ≤ m₄.pages := by
  obtain ⟨hfree₁, hin₁, hsh₁, hlay₁, -⟩ := freerange_ensures _ h₁
  have hempty : ∀ i, m₁.shared i = ⟨0, 0⟩ := fun i => by rw [hsh₁]
  obtain ⟨hsh₂, hlay₂, -, hd⟩ := setupkvm_ensures (sharedOk_empty hempty) _ h₂
  obtain ⟨-, hrefs, -⟩ := hd kpgdir rfl
  obtain ⟨hfree₃, hsh₃, hlay₃⟩ := startothers_ensures _ h₃
  obtain ⟨hfree₄, hin₄, hsh₄, hlay₄, hpages⟩ := freerange_ensures _ h₄
  have hsplit : kinitSplit = 1024 := rfl
  have hphys : PHYSTOP = 57344 := rfl
  have hlayout : m₄.layout = l := hlay₄.trans (hlay₃.trans (Eq.trans (b := m₁.layout) hlay₂ hlay₁))
  have hcount : ∀ x, kpgdir.refs x + m₄.free x ≤
      (if l.kernelEnd ≤ x ∧ x < l.kernelEnd + (kinitSplit - l.kernelEnd) then 1 else 0) +
        if kinitSplit ≤ x ∧ x < kinitSplit + (PHYSTOP - kinitSplit) then 1 else 0 := by
    intro x
    have h1 := hfree₁ x
    have h2 : kpgdir.refs x + m₂.free x = m₁.free x := hrefs x
    have h3 := hfree₃ x
    have h4 := hfree₄ x
    have h5 : Mem.free ⟨l, [], fun _ => ⟨0, 0⟩, bytes⟩ x = 0 := rfl
    omega
  refine ⟨fun x => ?_, fun x hx => ?_, fun i => ?_, by omega⟩
  · have := hcount x
    split_ifs at this <;> omega
  · have := hcount x
    by_cases hlow : l.kernelEnd ≤ x ∧ x < l.kernelEnd + (kinitSplit - l.kernelEnd)
    · exact (hin₁ x hlow.1 hlow.2).congr hlayout
    · rw [if_neg hlow] at this
      split_ifs at this with hhigh
      · exact (hin₄ x hhigh.1 hhigh.2).congr hlay₄
      · omega
  · rw [hsh₄, hsh₃]
    exact (congrFun hsh₂ i).trans (hempty i)

theorem boot_ensures {l : Layout} {ncpu : Nat} {initcode : List UInt8} {bytes : Nat → Nat → UInt8} :
    Ensures (boot l ncpu initcode bytes) Booted := by
  intro k hk
  unfold boot at hk
  obtain ⟨m₁, h₁, hk⟩ := bind_eq_ok.mp hk
  obtain ⟨⟨_ | kpgdir, m₂⟩, h₂, hk⟩ := bind_eq_ok.mp hk
  · cases hk
  · obtain ⟨m₃, h₃, hk⟩ := bind_eq_ok.mp hk
    obtain ⟨m₄, h₄, hk⟩ := bind_eq_ok.mp hk
    obtain ⟨hfree, hin, hshared, hpages⟩ := boot_memory h₁ h₂ h₃ h₄
    by_cases hlen : initcode.length < PGSIZE
    · obtain ⟨k', hk', hbooted⟩ := userinit_spec hlen hpages hshared hfree hin
      rw [hk'] at hk
      cases hk
      exact hbooted
    · -- `inituvm` panics
      exfalso
      have hfail : ∀ d m, inituvm d initcode m = .error (.panic "inituvm: more than a page") := by
        intro d m
        rw [inituvm, if_pos (by omega)]
      unfold userinit at hk
      obtain ⟨⟨_ | p, t⟩, -, hk⟩ := bind_eq_ok.mp hk
      · cases hk
      · dsimp only at hk
        split at hk
        · cases hk
        · obtain ⟨⟨_ | d, m₅⟩, -, hk⟩ := bind_eq_ok.mp hk
          · cases hk
          · dsimp only at hk
            rw [hfail] at hk
            cases hk

/-- A kernel that leaves room for its page tables and stacks below 4 MB boots. -/
theorem boot_succeeds {l : Layout} {ncpu : Nat} {initcode : List UInt8} {bytes : Nat → Nat → UInt8}
    (hroom : l.kernelEnd + 65 + (ncpu - 1) ≤ kinitSplit) (hlen : initcode.length < PGSIZE) :
    ∃ k, boot l ncpu initcode bytes = .ok k := by
  have hsplit : kinitSplit = 1024 := rfl
  have hphys : PHYSTOP = 57344 := rfl
  obtain ⟨m₁, h₁⟩ := freerange_succeeds (n := kinitSplit - l.kernelEnd)
    (m := ⟨l, [], fun _ => ⟨0, 0⟩, bytes⟩) l.kernelEnd fun x h1 h2 => ⟨h1, by omega⟩
  obtain ⟨-, -, -, hlay₁, hpages₁⟩ := freerange_ensures _ h₁
  obtain ⟨kpgdir, m₂, h₂, hpages₂⟩ := setupkvm_succeeds (c := ⟨none, 0⟩) (m := m₁) (by omega)
  obtain ⟨m₃, h₃⟩ := startothers_succeeds (n := ncpu - 1) (m := m₂) (by omega)
  obtain ⟨-, -, hlay₃⟩ := startothers_ensures _ h₃
  have hs₁ : Mem.SharedOk m₁.shared := by
    obtain ⟨-, -, hsh₁, -⟩ := freerange_ensures _ h₁
    exact sharedOk_empty fun i => by rw [hsh₁]
  obtain ⟨-, hlay₂, -⟩ := setupkvm_ensures hs₁ _ h₂
  have hlayout : m₃.layout = l := hlay₃.trans (Eq.trans (b := m₁.layout) hlay₂ hlay₁)
  obtain ⟨m₄, h₄⟩ := freerange_succeeds (n := PHYSTOP - kinitSplit) (m := m₃) kinitSplit
    fun x h1 h2 => ⟨by rw [hlayout]; omega, by omega⟩
  obtain ⟨hfree, hin, hshared, hpages⟩ := boot_memory h₁ h₂ h₃ h₄
  obtain ⟨k, hk, -⟩ := userinit_spec hlen hpages hshared hfree hin
  exact ⟨k, by simp only [boot, bind, Except.bind, h₁, h₂, h₃, h₄, hk]⟩

/-! ### First steps -/

/-- A kernel whose data starts 32 KB above the first megabyte and takes 64 KB. -/
def smallLayout : Layout := ⟨264, 280, small_data_gt, small_data_lt, small_data_le⟩

lemma boot_smallLayout : ∃ k, boot smallLayout 1 [] (fun _ _ => 0) = .ok k :=
  boot_succeeds (by decide) (by decide)

section FirstSteps

variable {k : Kernel} {p : Slot} (ops : Action → Prop)

/-- The first process is scheduled. -/
def started (k : Kernel) : Kernel :=
  k.setProc k.initproc { k.table k.initproc with state := .running }

lemma Booted.step_run (h : k.Booted) (hops : ops (.run k.initproc)) :
    Step ops k (.run k.initproc) k.started := by
  obtain ⟨y, hy⟩ := h.kstack
  obtain ⟨d, hd, -⟩ := h.pgdir
  refine ⟨hops, ⟨fun p hp => by simp [Action.caller] at hp, fun p hp => ?_⟩, 0, ?_⟩
  · cases hp
    rw [h.table, h.initproc]
    rfl
  · simp only [perform, run, hy, hd, started]

lemma started_running (k : Kernel) : (k.started.table k.initproc).state = .running := by
  simp [started, setProc]

lemma enabled_of_running {a : Action} (hp : (k.table p).state = .running)
    (ha : a.caller = some p) : k.Enabled a := by
  refine ⟨fun q hq => ?_, fun q hq => ?_⟩
  · rw [ha] at hq
    cases hq
    exact hp
  · rw [hq] at ha
    cases ha

/-- Unmapping one present page. -/
lemma munmapPages_one {v : Nat} (hpres : (d.entry v).present = true)
    (hin : m.InRange (d.entry v).ppn) :
    ∃ m', munmapPages 1 v d m = .ok (true, d.set v 0, m') := by
  have hwalk := PageDir.walk_eq_some_iff.mpr ⟨PageDir.hasTable_of_present hpres, rfl⟩
  refine ⟨{ m.junk (d.entry v).ppn with freelist := (d.entry v).ppn :: m.freelist }, ?_⟩
  simp only [munmapPages, hwalk, hpres, if_true, Mem.kfree_eq_ok hin]
  rfl

/-- `munmap` of one present page below the kernel. -/
lemma Owned.step_munmap {v : Nat} {start : UInt32} (h : k.Owned)
    (hp : (k.table p).state = .running) (hd : (k.mm p).pgdir = some d) (hv : v < KERNBASE)
    (hpres : (d.entry v).present = true) (hops : ops (.munmap p start 4096))
    (hrange : RangeOk start.toNat (4096 : Int32).toInt) (hstart : start.toNat / PGSIZE = v)
    (hone : rangePages start.toNat (4096 : Int32).toInt.toNat = 1) :
    ∃ m', Step ops k (.munmap p start 4096) (k.setDir p (d.set v 0) m') := by
  have hlive : k.Live p := by simp [Live, hp]
  have hin : k.mem.InRange (d.entry v).ppn := by
    apply h.inRange
    have h1 := maps_pos hlive hd hv hpres
    have h2 := maps_le_uses k p (d.entry v).ppn
    have h3 := uses_le_places k p (d.entry v).ppn
    have h4 := sum_uses_le_places k (d.entry v).ppn
    omega
  obtain ⟨m', hm'⟩ := munmapPages_one hpres hin
  refine ⟨m', hops, enabled_of_running hp rfl, 0, ?_⟩
  simp only [perform, munmap, if_pos hrange, dir, hd, hstart, hone, bind, Except.bind, hm', if_true]

lemma tables_reverse : (List.range 512).reverse = 511 :: (List.range 511).reverse :=
  (congrArg List.reverse List.range_succ).trans List.reverse_concat

/-- `shm_open` by a process with nothing at the top of its address space, while there are pages and
entries left. -/
lemma Owned.step_shmOpen {i : Fin N_SHARED_PAGES} (h : k.Owned) (hp : (k.table p).state = .running)
    (hva : (k.mm p).shm.va = 0) (hd : (k.mm p).pgdir = some d)
    (htop : (d.entry (KERNBASE - 1)).present = false) (hpages : 2 ≤ k.mem.pages)
    (hfree : (k.mem.shared i).refCnt = 0) (hops : ops (.shmOpen p)) :
    ∃ k' d', Step ops k (.shmOpen p) k' ∧ k'.table = k.table ∧ (k'.mm p).pgdir = some d' ∧
      (d'.entry (KERNBASE - 1)).present = true ∧
      Mem.shmRef k'.mem.shared (d'.entry (KERNBASE - 1)).ppn ≠ 0 ∧
      (∀ v, v ≠ KERNBASE - 1 → d'.entry v = d.entry v) ∧ ∀ q, q ≠ p → k'.mm q = k.mm q := by
  obtain ⟨y, m₁, hk, hlen⟩ := Mem.kalloc_of_pages (m := k.mem) (by omega)
  rcases hmap : mapLastPage y ⟨true, true⟩ (List.range 512).reverse d m₁ with ⟨v, d', m₂⟩
  have hv : v = KERNBASE - 1 := by
    rw [tables_reverse] at hmap
    refine (mapLastPage_last htop hmap).resolve_right fun h => ?_
    have : m₁.pages = 0 := by simp [Mem.pages, h.2]
    omega
  subst hv
  have hne : KERNBASE - 1 ≠ 0 := by
    rw [KERNBASE_eq]
    decide
  have hshared := (mapLastPage_moved hk hmap).shared
  have hentry := ((mapLastPage_spec (fun _ => mem_tables) hmap).resolve_left fun h =>
    hne h.1).entry
  have htop := hentry (KERNBASE - 1)
  rw [if_pos rfl] at htop
  rcases hadd : m₂.shmAdd y with ⟨_ | j, m⟩
  · have hfull := (Mem.shmAdd_none hadd).2 i
    rw [hshared] at hfull
    exact absurd hfree hfull
  · have hy : k.mem.free y ≠ 0 := by
      rw [Mem.free_kalloc hk, one, if_pos rfl]
      omega
    have hy0 : y ≠ 0 := (h.inRange y (by unfold places; omega)).ne_zero
    have href := (Mem.shmAdd_some (hshared ▸ h.sharedOk) hy0 hadd).2.2.2 y
    rw [one, if_pos rfl] at href
    refine ⟨{ k.setMm p { k.mm p with pgdir := some d', shm := ⟨some j, KERNBASE - 1⟩ } with
      mem := m }, d', ⟨hops, enabled_of_running hp rfl, ((KERNBASE - 1) * PGSIZE : Nat), ?_⟩, ?_⟩
    · simp only [perform, shmOpen, hva, ne_eq, not_true_eq_false, if_false, hk, dir, hd, bind,
        Except.bind, hmap, hne, hadd]
    · refine ⟨rfl, by simp [setMm], by rw [htop]; rfl, ?_, fun v hv => ?_, fun q hq => ?_⟩
      · rw [htop]
        show Mem.shmRef m.shared y ≠ 0
        omega
      · rw [hentry v, if_neg hv]
      · simp [setMm, Function.update_of_ne hq]

/-- The first process opens a shared page. -/
lemma Booted.step_shmOpen (h : k.Booted) (howned : k.started.Owned)
    (hops : ops (.shmOpen k.initproc)) :
    ∃ k' d', Step ops k.started (.shmOpen k.initproc) k' ∧ k'.table = k.started.table ∧
      (k'.mm k.initproc).pgdir = some d' ∧ (d'.entry (KERNBASE - 1)).present = true ∧
      Mem.shmRef k'.mem.shared (d'.entry (KERNBASE - 1)).ppn ≠ 0 := by
  obtain ⟨d, hd, -, hother⟩ := h.pgdir
  have htop : (d.entry (KERNBASE - 1)).present = false := by
    rw [hother _ (by rw [KERNBASE_eq]; decide) (by rw [KERNBASE_eq]; decide)]
    rfl
  have hva : (k.started.mm k.initproc).shm.va = 0 := congrArg ShmField.va h.shm
  have hpages : 2 ≤ k.started.mem.pages := by
    have := h.pages
    show 2 ≤ k.mem.pages
    omega
  have hfree : (k.started.mem.shared 0).refCnt = 0 := by
    show (k.mem.shared 0).refCnt = 0
    rw [h.shared]
  obtain ⟨k', d', hs, htable, hd', hpres, href, -⟩ :=
    howned.step_shmOpen ops (started_running k) hva hd htop hpages hfree hops
  exact ⟨k', d', hs, htable, hd', hpres, href⟩

/-! ### The first fork -/

/-- With nothing but page 0 present `copyuvm` takes few pages for a table. -/
lemma copyNeeds_first {c : ShmField} {i : Nat} (h : ∀ v < KERNBASE, v ≠ 0 → d.entry v = 0)
    (hi : i < 512) : copyNeeds c d i ≤ 2 := by
  unfold copyNeeds
  cases ht : d.pde i with
  | none => exact Nat.zero_le 2
  | some t =>
    have hcount : entryCopies c i t.pte (List.range NPTENTRIES) ≤
        (List.range NPTENTRIES).count 0 := by
      refine List.countP_mono_left fun j hj hc => beq_iff_eq.mpr ?_
      by_contra hne
      have hj := List.mem_range.mp hj
      have hz := h (i * NPTENTRIES + j) (by rw [KERNBASE_eq]; simp only [NPTENTRIES] at hj ⊢; omega)
        (by omega)
      rw [PageDir.entry_block hj, ht] at hz
      have hc := (of_decide_eq_true hc).1
      rw [show t.pte j = 0 from hz] at hc
      cases hc
    exact Nat.succ_le_succ (hcount.trans (List.nodup_iff_count_le_one.mp List.nodup_range 0))

lemma dupFiles_none {q : Slot} (h : ∀ fd, (k.mm p).ofile fd = none) (l : List (Fin NOFILE)) :
    dupFiles p q l k = .ok k := by
  induction l with
  | nil => rfl
  | cons fd l ih =>
    rw [dupFiles, h fd]
    exact ih

/-- `fork` when there is memory and no file is open. -/
lemma fork_noFiles {q : Slot} {t : PTable} {y : Nat} {nd : PageDir} {m₁ m₂ : Mem}
    (halloc : allocproc k.table = .ok (some q, t)) (hk : k.mem.kalloc = (some y, m₁))
    (hd : (k.mm p).pgdir = some d) (hcopy : copyuvm (k.mm p).shm d m₁ = .ok (some nd, m₂))
    (hno : ∀ q fd, (k.mm q).ofile fd = none) :
    fork p k = .ok ((t q).pid, Kernel.setProc { k.setMm q { k.mm q with
      kstack := some y, pgdir := some nd, sz := (k.mm p).sz, shm := (k.mm p).shm } with mem := m₂ } q
      { t q with parent := some p, state := .runnable }) := by
  have hdir : k.dir p = .ok d := by
    rw [dir, hd]
  unfold fork
  rw [halloc]
  simp only [hk, hdir, hcopy, bind, Except.bind]
  rw [dupFiles_none]
  intro fd
  show (Function.update k.mm q _ p).ofile fd = none
  rw [Function.update_apply]
  split_ifs
  · exact hno q fd
  · exact hno p fd

/-- The first process forks: the child has page 0 as well. -/
lemma Booted.step_fork (h : k.Booted) (howned : k.started.Owned) (hops : ops (.fork 0)) :
    ∃ k' d nd, Step ops k.started (.fork 0) k' ∧ (k'.table 0).state = .running ∧ k'.Live 1 ∧
      k'.mm 0 = k.mm 0 ∧ (k.mm 0).pgdir = some d ∧ (k'.mm 1).pgdir = some nd ∧
      (nd.entry 0).present = true ∧ 2 ≤ k'.mem.pages ∧ (k'.mem.shared 0).refCnt = 0 := by
  obtain ⟨d, hd, hzero, hother⟩ := h.pgdir
  have hshm := h.shm
  have hpages := h.pages
  have hinit := h.initproc
  rw [hinit] at hd hshm
  have hneeds : copyNeedsBelow ⟨none, 0⟩ d 512 ≤ 1024 := by
    refine (List.sum_le_card_nsmul _ 2 fun x hx => ?_).trans (by simp)
    obtain ⟨i, hi, rfl⟩ := List.mem_map.mp hx
    exact copyNeeds_first hother (List.mem_range.mp hi)
  obtain ⟨y, m₁, hk, hlen⟩ := Mem.kalloc_of_pages (m := k.mem) (by omega)
  obtain ⟨nd, m, hcopy, hleft⟩ := copyuvm_succeeds (c := ⟨none, 0⟩) (d := d) (m := m₁) (by omega)
  have htable : k.started.table = Function.update firstTable 0 ⟨.running, 1, none, none, false⟩ := by
    simp only [started, setProc, h.table, hinit, Function.update_self, Function.update_idem]
  have halloc : allocproc k.started.table = .ok (some 1, Function.update k.started.table 1
      ⟨.embryo, 2, none, none, false⟩) := by
    rw [htable]
    rfl
  have hcopied := (copyuvm_ensures ((howned.copyReady (p := 0) (by simp [Live, htable]) hd).kalloc
    (show k.started.mem.kalloc = _ from hk)) _ (hshm ▸ hcopy)).1 nd rfl
  have hfork := fork_noFiles (p := 0) halloc (show k.started.mem.kalloc = _ from hk) hd
    (hshm ▸ hcopy) h.ofile
  refine ⟨_, d, nd, ⟨hops, enabled_of_running (by rw [htable]; rfl) rfl, _, hfork⟩,
    congrArg Proc.state (congrFun htable 0), by simp [Live, setProc], rfl, hd, rfl, ?_, ?_, ?_⟩
  · rw [Pte.present_of_flags (copyuvm_flags _ hcopy nd rfl 0 (by rw [KERNBASE_eq]; decide))]
    exact hzero
  · show 2 ≤ m.pages
    omega
  · refine (hcopied.copying.sharedOk.zero 0).mpr ((hcopied.copying.pa 0).trans ?_)
    rw [Mem.shared_kalloc hk, h.shared]

end FirstSteps

end Kernel

end Xv6
