import Xv6.Kernel.Shared

/-!
# Pointers passed to system calls

`argptr`, `fetchint` and `fetchstr` compare a user address with `sz` and nothing else, so they are right
as long as every page below `sz` is mapped. A process can leave a hole there with `munmap`, and with an
`sbrk` down to size 0, after which `growproc` reports a failure and leaves `sz` as it was.
-/

namespace Xv6

variable {sz : Nat} {d : PageDir}

/-! ### The checks -/

/-- What a process shows to the kernel in a system call: its memory and its stack pointer. -/
structure UserState where
  byte : UInt32 → UInt8
  esp : UInt32

/-- The little-endian word at an address. -/
def UserState.word (u : UserState) (addr : UInt32) : Int32 :=
  ((u.byte addr).toUInt32 ||| (u.byte (addr + 1)).toUInt32 <<< 8 |||
    (u.byte (addr + 2)).toUInt32 <<< 16 ||| (u.byte (addr + 3)).toUInt32 <<< 24).toInt32

def fetchint (sz : Nat) (u : UserState) (addr : UInt32) : Option Int32 :=
  if sz ≤ addr.toNat ∨ sz < (addr + 4).toNat then none else some (u.word addr)

/-- The loop of `fetchstr` over the `n` bytes from `s` up to `sz`. -/
def strlenBelow (u : UserState) (s : UInt32) : Nat → Option Nat
  | 0 => none
  | n + 1 => if u.byte s = 0 then some 0 else (strlenBelow u (s + 1) n).map (· + 1)

def fetchstr (sz : Nat) (u : UserState) (addr : UInt32) : Option Nat :=
  if sz ≤ addr.toNat then none else strlenBelow u addr (sz - addr.toNat)

def argint (sz : Nat) (u : UserState) (n : UInt32) : Option Int32 := fetchint sz u (u.esp + 4 + 4 * n)

def argptr (sz : Nat) (u : UserState) (n : UInt32) (size : Int32) : Option UInt32 :=
  match argint sz u n with
  | none => none
  | some i =>
    if size.toInt < 0 ∨ sz ≤ i.toUInt32.toNat ∨ sz < (i.toUInt32 + size.toUInt32).toNat then none
    else some i.toUInt32

/-- The byte is in a page that is present or lazily mapped. -/
def PageDir.Backed (d : PageDir) (b : Nat) : Prop :=
  (d.entry (b / PGSIZE)).present = true ∨ (d.entry (b / PGSIZE)).lazy = true

/-- Whatever the process has in its memory, all that the checks accept is backed. -/
structure PointersBacked (sz : Nat) (d : PageDir) : Prop where
  word : ∀ u addr i, fetchint sz u addr = some i →
    ∀ b, addr.toNat ≤ b → b < addr.toNat + 4 → d.Backed b
  block : ∀ u n size addr, argptr sz u n size = some addr →
    ∀ b : Nat, addr.toNat ≤ b → (b : Int) < addr.toNat + size.toInt → d.Backed b
  string : ∀ u addr len, fetchstr sz u addr = some len →
    ∀ b, addr.toNat ≤ b → b ≤ addr.toNat + len → d.Backed b

lemma strlenBelow_lt {u : UserState} {s : UInt32} {n len : Nat}
    (h : strlenBelow u s n = some len) : len < n := by
  induction n generalizing s len with
  | zero => cases h
  | succ n ih =>
    unfold strlenBelow at h
    split_ifs at h
    · cases h
      omega
    · obtain ⟨l, hl, rfl⟩ := Option.map_eq_some_iff.mp h
      have := ih hl
      omega

lemma div_lt_pgUp {b : Nat} (h : b < sz) : b / PGSIZE < pgUp sz := by
  unfold pgUp PGSIZE
  omega

lemma mul_lt_of_lt_pgUp {v : Nat} (h : v < pgUp sz) : v * PGSIZE < sz := by
  unfold pgUp PGSIZE at h
  unfold PGSIZE
  omega

lemma lt_of_lt_KERNBASE (h : sz < KERNBASE * PGSIZE) : sz < 2 ^ 31 := by
  rw [KERNBASE_eq] at h
  exact h

lemma toInt_eq_toNat {n : Int32} (h : 0 ≤ n.toInt) :
    n.toInt = n.toUInt32.toNat ∧ n.toUInt32.toNat < 2 ^ 31 := by
  have hn : n.toInt = if 2 * n.toUInt32.toNat < 2 ^ 32 then (n.toUInt32.toNat : Int)
      else n.toUInt32.toNat - (2 ^ 32 : Nat) := BitVec.toInt_eq_toNat_cond n.toBitVec
  have hlt := n.toUInt32.toNat_lt
  split_ifs at hn <;> omega

/-- No sum of the checks wraps around, because `sz` is below the kernel. -/
lemma PointersBacked.of_mapped (hsz : sz < KERNBASE * PGSIZE)
    (h : ∀ v < pgUp sz, (d.entry v).present = true) : PointersBacked sz d := by
  have hlt := lt_of_lt_KERNBASE hsz
  have hback : ∀ b < sz, d.Backed b := fun b hb => Or.inl (h _ (div_lt_pgUp hb))
  refine ⟨fun u addr i hi b h1 h2 => ?_, fun u n size addr hi b h1 h2 => ?_,
    fun u addr len hi b h1 h2 => ?_⟩
  · unfold fetchint at hi
    split_ifs at hi with hc
    apply hback
    have hsum : (addr + 4).toNat = (addr.toNat + 4) % 2 ^ 32 := UInt32.toNat_add ..
    omega
  · unfold argptr at hi
    split at hi
    · cases hi
    · next j _ =>
      split_ifs at hi with hc
      cases hi
      apply hback
      have hsum : (j.toUInt32 + size.toUInt32).toNat =
          (j.toUInt32.toNat + size.toUInt32.toNat) % 2 ^ 32 := UInt32.toNat_add ..
      obtain ⟨hsize, hsize'⟩ := toInt_eq_toNat (n := size) (by omega)
      omega
  · unfold fetchstr at hi
    split_ifs at hi with hc
    have := strlenBelow_lt hi
    exact hback b (by omega)

/-- A hole below `sz` is accepted as an empty string. -/
lemma PointersBacked.backed (h : PointersBacked sz d) (hsz : sz < KERNBASE * PGSIZE) {v : Nat}
    (hv : v < pgUp sz) : (d.entry v).present = true ∨ (d.entry v).lazy = true := by
  have hlt : v * PGSIZE < sz := mul_lt_of_lt_pgUp hv
  have haddr : (UInt32.ofNat (v * PGSIZE)).toNat = v * PGSIZE := by
    rw [UInt32.toNat_ofNat']
    have := lt_of_lt_KERNBASE hsz
    exact Nat.mod_eq_of_lt (by omega)
  have hfetch : fetchstr sz ⟨fun _ => 0, 0⟩ (UInt32.ofNat (v * PGSIZE)) = some 0 := by
    unfold fetchstr
    rw [haddr, if_neg (by omega)]
    obtain ⟨n, hn⟩ : ∃ n, sz - v * PGSIZE = n + 1 := ⟨sz - v * PGSIZE - 1, by omega⟩
    rw [hn]
    rfl
  have := h.string _ _ _ hfetch (v * PGSIZE) (by omega) (by omega)
  unfold PageDir.Backed at this
  rwa [Nat.mul_div_cancel _ (by decide)] at this

namespace Kernel

open Fallible TransitionSystem

variable {k k' : Kernel} {p q : Slot} {a : Action} {d' : PageDir}

/-- The checks are right for every process that can still make a system call. -/
def PointersSound (k : Kernel) : Prop :=
  k.Every (fun s => s ≠ .unused ∧ s ≠ .zombie) fun sz pgdir _ => ∀ d, pgdir = some d →
    PointersBacked sz d

/-! ### Pages below the size -/

/-- Every page below `sz` is present. -/
structure Mapped (sz : Nat) (pgdir : Option PageDir) (shm : ShmField) : Prop where
  va : shm.idx ≠ none → shm.va ≠ 0
  lt : sz < KERNBASE * PGSIZE
  present : ∀ d, pgdir = some d → ∀ v < pgUp sz, (d.entry v).present = true

/-- The invariant: every active process has all pages below its size. -/
def AllMapped (k : Kernel) : Prop := k.Every (fun s => s ≠ .unused ∧ s ≠ .zombie) Mapped

lemma AllMapped.pointersSound (h : k.AllMapped) : k.PointersSound := fun p hp d hd =>
  .of_mapped (h p hp).lt ((h p hp).present d hd)

/-- Present pages stay present. -/
lemma Mapped.keep {shm : ShmField} (h : Mapped sz (some d) shm)
    (hd : ∀ v, v < pgUp sz → (d.entry v).present = true → (d'.entry v).present = true) :
    Mapped sz (some d') shm := by
  refine ⟨h.va, h.lt, fun d₁ hd₁ v hv => ?_⟩
  cases hd₁
  exact hd v hv (h.present d rfl v hv)

lemma Execed.allMapped {r : Int} (he : Execed p k r k') (h : k.AllMapped)
    (hp : Mapped (k.mm p).sz (k.mm p).pgdir (k.mm p).shm) : k'.AllMapped := by
  cases he with
  | noFile => exact h
  | failed => exact h
  | @loaded _ _ d nd sz m₁ m image pgdir freevm =>
    have himg := Program.execImage_image _ image nd sz rfl
    refine Every.setMm h ⟨hp.va, himg.lt, fun d₁ hd₁ => ?_⟩
    cases hd₁
    exact himg.mapped

lemma Sbrked.allMapped {n : Int32} (hb : Sbrked p n k k') (h : k.AllMapped)
    (hp : Mapped (k.mm p).sz (k.mm p).pgdir (k.mm p).shm)
    (hn : n.toInt < 0 → newSize (k.mm p).sz n ≠ 0) : k'.AllMapped := by
  cases hb with
  | zero => exact h
  | @grown d d' sz m pos pgdir alloc =>
    rw [pgdir] at hp
    refine Every.setMm h ?_
    dsimp only
    rcases allocuvm_allocated _ alloc with ⟨hmax, hnew, halloc⟩ | ⟨hzero, halloc⟩
    · change sz = _ at hmax
      have hsz : (if sz = 0 then (k.mm p).sz else sz) = max (k.mm p).sz (newSize (k.mm p).sz n) := by
        split_ifs <;> omega
      rw [hsz]
      refine ⟨hp.va, Nat.max_lt.mpr ⟨hp.lt, hnew⟩, fun d₁ hd₁ v hv => ?_⟩
      cases hd₁
      by_cases hold : v < pgUp (k.mm p).sz
      · rw [halloc.outside v (Or.inl hold)]
        exact hp.present d rfl v hold
      · rw [pgUp_max] at hv
        exact (halloc.inside rfl v (by omega) (by omega)).1
    · change sz = 0 at hzero
      rw [if_pos hzero]
      refine hp.keep fun v hv hpres => ?_
      rw [halloc.outside v (Or.inl hv)]
      exact hpres
  | @shrunk d d' sz m neg pgdir dealloc =>
    rw [pgdir] at hp
    refine Every.setMm h ?_
    dsimp only
    obtain ⟨hmin, hempty⟩ := deallocuvm_emptied _ dealloc
    change sz = _ at hmin
    have hne := hn neg
    have hsz : (if sz = 0 then (k.mm p).sz else sz) = min (k.mm p).sz (newSize (k.mm p).sz n) := by
      split_ifs <;> omega
    rw [hsz]
    refine ⟨hp.va, lt_of_le_of_lt (Nat.min_le_left _ _) hp.lt, fun d₁ hd₁ v hv => ?_⟩
    cases hd₁
    have hnew := pgUp_mono (Nat.min_le_right (k.mm p).sz (newSize (k.mm p).sz n))
    have hold := pgUp_mono (Nat.min_le_left (k.mm p).sz (newSize (k.mm p).sz n))
    rw [hempty v, if_neg (by omega)]
    exact hp.present d rfl v (by omega)

lemma Mmapped.allMapped {start : UInt32} {n : Int32} (hm : Mmapped p start n k k') (h : k.AllMapped)
    (hp : Mapped (k.mm p).sz (k.mm p).pgdir (k.mm p).shm) : k'.AllMapped := by
  cases hm with
  | refused => exact h
  | mapped range pgdir pages =>
    rw [pgdir] at hp
    refine Every.setDir h (hp.keep fun v _ hpres => ?_)
    rcases (mmapPages_range range _ pages).2 v with he | ⟨hno, -⟩
    · exact he ▸ hpres
    · rw [hno] at hpres
      cases hpres

lemma Munmapped.allMapped {start : UInt32} {n : Int32} (hm : Munmapped p start n k k')
    (h : k.AllMapped) (hp : Mapped (k.mm p).sz (k.mm p).pgdir (k.mm p).shm)
    (hc : RangeOk start.toNat n.toInt → 0 < rangePages start.toNat n.toInt.toNat →
      pgUp (k.mm p).sz ≤ start.toNat / PGSIZE) : k'.AllMapped := by
  cases hm with
  | refused => exact h
  | unmapped range pgdir pages =>
    rw [pgdir] at hp
    refine Every.setDir h (hp.keep fun v hv hpres => ?_)
    rw [(munmapPages_range range _ pages).rest v ?_]
    · exact hpres
    · rintro ⟨h1, h2, -⟩
      have := hc range (by omega)
      omega

lemma Faulted.allMapped {addr : UInt32} (hf : Faulted p addr k k') (h : k.AllMapped)
    (hp : Mapped (k.mm p).sz (k.mm p).pgdir (k.mm p).shm) : k'.AllMapped := by
  cases hf with
  | @handled d d' m pgdir pageFault =>
    obtain ⟨hother, hpres⟩ := pageFault_entries _ pageFault
    rw [pgdir] at hp
    refine Every.setDir h (hp.keep fun v _ hv => ?_)
    by_cases hva : v = addr.toNat / PGSIZE
    · subst hva
      exact hpres rfl
    · rw [hother v hva]
      exact hv
  | @exited d d' m k' pgdir pageFault harmless zombie =>
    -- the process itself is a zombie now, the others have not changed
    intro q hq
    by_cases hqp : q = p
    · subst hqp
      exact absurd zombie hq.2
    · have hmm : (k.setDir p d' m).mm q = k.mm q := Function.update_of_ne hqp _ _
      rw [harmless.only.sz q, harmless.only.pgdir q, harmless.only.shm q, hmm]
      exact h q (steady_active.alike harmless.only.alike q hq)

lemma ShmOpened.allMapped (ho : ShmOpened p k k') (h : k.AllMapped)
    (hp : Mapped (k.mm p).sz (k.mm p).pgdir (k.mm p).shm) : k'.AllMapped := by
  have hkeep : ∀ {y v d d' m₁ m}, mapLastPage y ⟨true, true⟩ (List.range 512).reverse d m₁ =
      (v, d', m) → ∀ w, (d.entry w).present = true → (d'.entry w).present = true := by
    intro y v d d' m₁ m hmap w hw
    rcases mapLastPage_spec (fun _ => mem_tables) hmap with ⟨-, hext⟩ | hlast
    · rw [hext.entry w]
      exact hw
    · rw [hlast.entry w]
      split_ifs
      · rfl
      · exact hw
  cases ho with
  | same => exact h
  | failed va kalloc pgdir mapped fails =>
    rw [pgdir] at hp
    exact Every.setDir h (hp.keep fun v _ => hkeep mapped v)
  | opened va kalloc pgdir mapped ne shmAdd =>
    rw [pgdir] at hp
    obtain ⟨-, hlt, hpres⟩ := hp.keep fun v _ => hkeep mapped v
    exact Every.setMm h ⟨fun _ => ne, hlt, hpres⟩

/-- The actions that leave no hole below `sz`: `munmap` of nothing or of pages above it, `sbrk` down to
a size other than 0, and `shm_close` of a page above `sz`, or one that fails. -/
def KeepsMapped (k : Kernel) : Action → Prop
  | .munmap p start n => RangeOk start.toNat n.toInt → 0 < rangePages start.toNat n.toInt.toNat →
      pgUp (k.mm p).sz ≤ start.toNat / PGSIZE
  | .sbrk p n => n.toInt < 0 → newSize (k.mm p).sz n ≠ 0
  | .shmClose p => (k.mm p).shm.va ≠ 0 → (k.mm p).shm.va < pgUp (k.mm p).sz →
      ∀ d, (k.mm p).pgdir = some d → ∀ m, k.mem.shmRemove (d.entry (k.mm p).shm.va).ppn ≠ .ok (true, m)
  | _ => True

lemma ShmClosed.allMapped (hc : ShmClosed p k k') (h : k.AllMapped)
    (hp : Mapped (k.mm p).sz (k.mm p).pgdir (k.mm p).shm) (hk : k.KeepsMapped (.shmClose p)) :
    k'.AllMapped := by
  cases hc with
  | same => exact h
  | notFound => exact h
  | closed va pgdir table remove =>
    refine Every.setMm h ⟨fun hne => absurd rfl hne, hp.lt, fun d₁ hd₁ v hv => ?_⟩
    cases hd₁
    have hne : v ≠ (k.mm p).shm.va := by
      rintro rfl
      exact hk va hv _ pgdir _ remove
    rw [PageDir.entry_set_ne hne]
    exact hp.present _ pgdir v hv

lemma AllMapped.step (h : k.AllMapped) {ops : Action → Prop} (hs : Step ops k a k')
    (hc : k.KeepsMapped a) : k'.AllMapped := by
  have hp : ∀ p, a.caller = some p → Mapped (k.mm p).sz (k.mm p).pgdir (k.mm p).shm := fun p hp =>
    h p (by simp [hs.2.1.1 p hp])
  cases hs.outcome with
  | harmless hh => exact Every.keep steady_active h hh.only
  | fork live hf =>
    refine Forked.every steady_active hf h fun {y d nd m₁ m} _ hd hcopy => ?_
    have hmap := hp _ rfl
    rw [hd] at hmap
    refine hmap.keep fun v hv hpres => ?_
    have hlt : v < KERNBASE := lt_of_lt_of_le hv (pgUp_le_KERNBASE hmap.lt)
    rw [Pte.present_of_flags (copyuvm_flags _ hcopy nd rfl v hlt)]
    exact hpres
  | exec live _ he => exact he.allMapped h (hp _ rfl)
  | wait live hw => exact hw.every steady_active h
  | sbrk live hb => exact hb.allMapped h (hp _ rfl) hc
  | mmap live hm => exact hm.allMapped h (hp _ rfl)
  | munmap live hm => exact hm.allMapped h (hp _ rfl) hc
  | fault live hf => exact hf.allMapped h (hp _ rfl)
  | shmOpen live ho => exact ho.allMapped h (hp _ rfl)
  | shmClose live hcl => exact hcl.allMapped h (hp _ rfl) hc

/-! ### Holes -/

/-- A page below `sz` that is neither present nor lazy shows in the checks. -/
lemma PointersSound.backed (h : k.PointersSound) (hp : (k.table p).state = .running)
    (hd : (k.mm p).pgdir = some d) (hsz : (k.mm p).sz < KERNBASE * PGSIZE) {v : Nat}
    (hv : v < pgUp (k.mm p).sz) : d.entry v ≠ 0 := by
  intro hzero
  rcases (h p (by simp [hp]) d hd).backed hsz hv with hpres | hlazy
  · rw [hzero] at hpres
    cases hpres
  · rw [hzero] at hlazy
    cases hlazy

lemma Munmapped.keepsMapped {start : UInt32} {n : Int32} (hm : Munmapped p start n k k')
    (hp : (k.table p).state = .running) (h : Mapped (k.mm p).sz (k.mm p).pgdir (k.mm p).shm)
    (hP : k'.PointersSound) : k.KeepsMapped (.munmap p start n) := by
  intro hrange hpos
  by_contra hlt
  cases hm with
  | refused hno => exact hno hrange
  | @unmapped d d' ok m range pgdir pages =>
    have hmm : (k.setDir p d' m).mm p = { k.mm p with pgdir := some d' } := Function.update_self ..
    have hvis : Visited d (start.toNat / PGSIZE) (rangePages start.toNat n.toInt.toNat)
        (start.toNat / PGSIZE) := by
      refine ⟨le_rfl, by omega, fun u h1 h2 => ?_⟩
      obtain rfl : u = start.toNat / PGSIZE := by omega
      exact PageDir.hasTable_of_present (h.present d pgdir _ (by omega))
    refine hP.backed (p := p) (d := d') (v := start.toNat / PGSIZE) hp (by rw [hmm]) ?_ ?_
      ((munmapPages_range range _ pages).visited _ hvis)
    · rw [hmm]
      exact h.lt
    · rw [hmm]
      dsimp only
      omega

/-- `sbrk` down to size 0 frees page 0 and leaves `sz` as it is. -/
lemma Sbrked.keepsMapped {n : Int32} (hb : Sbrked p n k k') (hp : (k.table p).state = .running)
    (h : Mapped (k.mm p).sz (k.mm p).pgdir (k.mm p).shm) (hP : k'.PointersSound) :
    k.KeepsMapped (.sbrk p n) := by
  intro hneg hnew
  have hsz : (k.mm p).sz ≠ 0 := by
    intro h0
    have hlo : -2 ^ 31 ≤ n.toInt := n.le_toInt
    unfold newSize at hnew
    rw [h0] at hnew
    omega
  cases hb with
  | zero h0 => omega
  | grown pos => omega
  | @shrunk d d' sz m neg pgdir dealloc =>
    obtain ⟨hmin, hempty⟩ := deallocuvm_emptied _ dealloc
    change sz = _ at hmin
    have hzero : sz = 0 := by omega
    have hmm : Kernel.mm { k.setMm p { k.mm p with
        pgdir := some d', sz := if sz = 0 then (k.mm p).sz else sz } with mem := m } p =
        { k.mm p with pgdir := some d', sz := (k.mm p).sz } := by
      rw [if_pos hzero]
      exact Function.update_self ..
    have hpos : 0 < pgUp (k.mm p).sz := by
      unfold pgUp PGSIZE
      omega
    have hpages : pgUp (newSize (k.mm p).sz n) = 0 := by
      rw [hnew]
      rfl
    refine hP.backed (p := p) (d := d') (v := 0) hp (by rw [hmm]) ?_ ?_ ?_
    · rw [hmm]
      exact h.lt
    · rw [hmm]
      exact hpos
    · have hentry := hempty 0
      rw [hpages, if_pos ⟨le_rfl, hpos, fun hhit => h.va hhit.1 hhit.2.symm,
        h.present d pgdir 0 hpos⟩] at hentry
      exact hentry

lemma ShmClosed.keepsMapped (hc : ShmClosed p k k') (hp : (k.table p).state = .running)
    (h : Mapped (k.mm p).sz (k.mm p).pgdir (k.mm p).shm) (hP : k'.PointersSound) :
    k.KeepsMapped (.shmClose p) := by
  intro hva hlt d hd m hremove
  cases hc with
  | same h0 => exact hva h0
  | notFound _ pgdir remove =>
    rw [pgdir] at hd
    cases hd
    rw [remove] at hremove
    cases hremove
  | @closed d₁ m₁ va pgdir table remove =>
    have hmm : Kernel.mm { k.setMm p { k.mm p with
        pgdir := some (d₁.set (k.mm p).shm.va 0), shm := ⟨none, 0⟩ } with mem := m₁ } p =
        { k.mm p with pgdir := some (d₁.set (k.mm p).shm.va 0), shm := ⟨none, 0⟩ } :=
      Function.update_self ..
    refine hP.backed (p := p) (d := d₁.set (k.mm p).shm.va 0) (v := (k.mm p).shm.va) hp
      (by rw [hmm]) ?_ ?_ (PageDir.entry_set_self table)
    · rw [hmm]
      exact h.lt
    · rw [hmm]
      exact hlt

lemma Booted.allMapped (h : k.Booted) : k.AllMapped := by
  intro q hq
  obtain rfl := h.only q hq.1
  refine ⟨fun hidx => ?_, ?_, fun d hd v hv => ?_⟩
  · rw [h.shm] at hidx
    exact absurd rfl hidx
  · rw [h.sz, KERNBASE_eq]
    decide
  · obtain ⟨d₁, hd₁, hpres, -⟩ := h.pgdir
    rw [hd₁] at hd
    cases hd
    rw [h.sz, show pgUp PGSIZE = 1 from rfl] at hv
    obtain rfl : v = 0 := by omega
    exact hpres

/-- In a run from boot the checks of system call arguments are right in all states exactly if no step
leaves a hole below `sz`. -/
theorem pointersSound_iff_keepsMapped {l : Layout} {ncpu : Nat} {initcode : List UInt8}
    {bytes : Nat → Nat → UInt8} {k₀ : Kernel} {tr : List (Kernel × Action)}
    (hboot : boot l ncpu initcode bytes = .ok k₀) (hr : Run (Step fun _ => True) k₀ tr k) :
    AllStates PointersSound tr k ↔ AllSteps KeepsMapped tr := by
  refine hr.allStates_iff (I := AllMapped) (fun _ h => h.pointersSound)
    (fun _ _ _ h hc hs => h.step hs hc) (fun k a k' h hs hP => ?_)
    (boot_ensures k₀ hboot).allMapped
  have hp : ∀ p, a.caller = some p → Mapped (k.mm p).sz (k.mm p).pgdir (k.mm p).shm := fun p hp =>
    h p (by simp [hs.2.1.1 p hp])
  have hrun := hs.2.1.1
  obtain ⟨r, hperform⟩ := hs.2.2
  cases a with
  | munmap p start n =>
    exact (munmap_ensures _ hperform).keepsMapped (hrun p rfl) (hp p rfl) hP
  | sbrk p n => exact (sbrk_ensures _ hperform).keepsMapped (hrun p rfl) (hp p rfl) hP
  | shmClose p => exact (shmClose_ensures _ hperform).keepsMapped (hrun p rfl) (hp p rfl) hP
  | _ => trivial

/-- The first process opens a shared page. -/
theorem pointersSound_after_shmOpen :
    ∃ k₀ tr k, boot smallLayout 1 [] (fun _ _ => 0) = .ok k₀ ∧ Run (Step fun _ => True) k₀ tr k ∧
      tr.length = 2 ∧ AllSteps KeepsMapped tr ∧ AllStates PointersSound tr k := by
  obtain ⟨k₀, tr, k, hboot, hr, hlen, hall⟩ := exists_run_shmOpen (fun _ => True) KeepsMapped
    (fun _ => ⟨trivial, trivial⟩) fun _ _ => ⟨trivial, trivial⟩
  exact ⟨k₀, tr, k, hboot, hr, hlen, hall, (pointersSound_iff_keepsMapped hboot hr).mpr hall⟩

/-- The first process unmaps its only page: a pointer into it still passes the checks. -/
theorem pointer_accepted_after_munmap :
    ∃ k₀ tr k, boot smallLayout 1 [] (fun _ _ => 0) = .ok k₀ ∧ Run (Step fun _ => True) k₀ tr k ∧
      tr.length = 2 ∧ ¬ k.PointersSound := by
  obtain ⟨k₀, hboot⟩ := boot_smallLayout
  have hb := boot_ensures k₀ hboot
  obtain ⟨d, hd, hpres, -⟩ := hb.pgdir
  have hrun := hb.step_run (fun _ => True) trivial
  have hrange : RangeOk (0 : UInt32).toNat (4096 : Int32).toInt := by
    refine ⟨by decide, by decide, ?_⟩
    rw [KERNBASE_pos]
    decide
  obtain ⟨m', hmunmap⟩ := (hb.topped.step hrun id trivial).sound.owned.step_munmap
    (fun _ => True) (v := 0) (started_running k₀) hd
    (by rw [KERNBASE_pos]; decide) hpres trivial hrange (by decide) (by decide)
  refine ⟨k₀, _, _, hboot, (Run.refl.tail hrun).tail hmunmap, rfl, fun hP => ?_⟩
  obtain ⟨r, hperform⟩ := hmunmap.2.2
  have hmapped := hb.allMapped.step hrun trivial k₀.initproc (by simp [started_running k₀])
  have hle := (munmap_ensures _ hperform).keepsMapped (started_running k₀) hmapped hP hrange (by decide)
  change pgUp (k₀.mm k₀.initproc).sz ≤ 0 at hle
  rw [hb.sz] at hle
  exact absurd hle (by decide)

end Kernel

end Xv6
