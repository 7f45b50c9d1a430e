import Xv6.Mem.PageTable

/-!
# Virtual memory

The functions of `vm.c` that build, change and free page directories, the page-fault branch of
`trap` and `map_last_page` of `proc.c`. A function that the source gives a pointer to a directory
takes the directory as it is before the call and returns it as it is afterwards. What C leaves
undefined, a null pointer dereferenced or an uninitialised one used, stops the kernel, as a `panic`
does.
-/

namespace Xv6

/-- First page of the devices at high addresses. -/
def DEVSPACE : Nat := 0xFE000000 / PGSIZE

/-- Number of pages of the virtual address space. -/
def NVPAGES : Nat := NPDENTRIES * NPTENTRIES

/-- The number of pages that `n` bytes reach into: `PGROUNDUP(n)` counted in pages. -/
def pgUp (n : Nat) : Nat := (n + PGSIZE - 1) / PGSIZE

/-- The shared page of a process: `shm_idx`, `none` for -1, and the page of `shm_va`, 0 if the
process has none. -/
structure ShmField where
  idx : Option (Fin N_SHARED_PAGES)
  va : Nat
  deriving DecidableEq

/-- The test by which `deallocuvm` and `copyuvm` recognise the shared page of the current process. -/
def ShmField.Hits (c : ShmField) (v : Nat) : Prop := c.idx ≠ none ∧ v = c.va

instance (c : ShmField) (v : Nat) : Decidable (c.Hits v) := inferInstanceAs (Decidable (_ ∧ _))

/-! ### Building directories -/

/-- `walkpgdir` with allocation; the result is whether it found or made a page table. -/
def walkpgdir (d : PageDir) (v : Nat) (m : Mem) : Bool × PageDir × Mem :=
  match d.pde (v / NPTENTRIES) with
  | some _ => (true, d, m)
  | none =>
    match m.kalloc with
    | (none, m) => (false, d, m)
    | (some y, m) => (true, d.addTable (v / NPTENTRIES) ⟨y, fun _ => 0⟩, m.memset y 0)

/-- The permission bits passed to `mappages`. -/
structure Perm where
  writable : Bool
  user : Bool

/-- The entry `pa | perm | PTE_P`. -/
def Perm.pte (perm : Perm) (pa : Nat) : Pte := ⟨pa, true, perm.writable, perm.user, false, 0⟩

/-- `mappages` of `n` pages from page `v` on; the result is whether it succeeded. -/
def mappages (perm : Perm) : Nat → PageDir → Nat → Nat → Mem → Except Fault (Bool × PageDir × Mem)
  | 0, d, _, _, m => .ok (true, d, m)
  | n + 1, d, v, pa, m =>
    match walkpgdir d v m with
    | (false, d, m) => .ok (false, d, m)
    | (true, d, m) =>
      if (d.entry v).present then
        .error (.panic "remap")
      else
        mappages perm n (d.set v (perm.pte pa)) (v + 1) (pa + 1) m

/-- One line of the table `kmap`. -/
structure KMap where
  virt : Nat
  phys : Nat
  pages : Nat
  perm : Perm

def kmap (l : Layout) : List KMap :=
  [⟨KERNBASE, 0, EXTMEM, ⟨true, false⟩⟩,
   ⟨KERNBASE + EXTMEM, EXTMEM, l.data - EXTMEM, ⟨false, false⟩⟩,
   ⟨KERNBASE + l.data, l.data, PHYSTOP - l.data, ⟨true, false⟩⟩,
   ⟨DEVSPACE, DEVSPACE, NVPAGES - DEVSPACE, ⟨true, false⟩⟩]

/-- The loop of `setupkvm` over `kmap`. -/
def mapKernel : List KMap → PageDir → Mem → Except Fault (Bool × PageDir × Mem)
  | [], d, m => .ok (true, d, m)
  | k :: l, d, m =>
    match mappages k.perm k.pages d k.virt k.phys m with
    | .error e => .error e
    | .ok (false, d, m) => .ok (false, d, m)
    | .ok (true, d, m) => mapKernel l d m

/-! ### Freeing directories -/

/-- The loop of `deallocuvm`, from page `v` up to page `stop`. The first argument bounds the number
of iterations; each one moves `v` on. -/
def deallocPages (c : ShmField) : Nat → Nat → Nat → PageDir → Mem → Except Fault (PageDir × Mem)
  | 0, _, _, d, m => .ok (d, m)
  | n + 1, v, stop, d, m =>
    if v < stop then
      if c.Hits v then
        match d.walk v with
        | none => .error .nullDeref
        | some e => do
          let (_, m) ← m.shmRemove e.ppn
          deallocPages c n (v + 1) stop d m
      else
        match d.walk v with
        | none => deallocPages c n ((v / NPTENTRIES + 1) * NPTENTRIES) stop d m
        | some e =>
          if e.present then
            if e.ppn = 0 then
              .error (.panic "kfree")
            else do
              let m ← m.kfree e.ppn
              deallocPages c n (v + 1) stop (d.set v 0) m
          else
            deallocPages c n (v + 1) stop d m
    else
      .ok (d, m)

/-- `deallocuvm` on behalf of a current process with shared page `c`. -/
def deallocuvm (c : ShmField) (d : PageDir) (oldsz newsz : Nat) (m : Mem) :
    Except Fault (Nat × PageDir × Mem) :=
  if oldsz ≤ newsz then
    .ok (oldsz, d, m)
  else do
    let (d, m) ← deallocPages c (pgUp oldsz) (pgUp newsz) (pgUp oldsz) d m
    pure (newsz, d, m)

/-- The loop of `freevm` over the directory. -/
def freeTables (d : PageDir) : List Nat → Mem → Except Fault Mem
  | [], m => .ok m
  | i :: l, m =>
    match d.pde i with
    | none => freeTables d l m
    | some t => do
      let m ← m.kfree t.page
      freeTables d l m

def freevm (c : ShmField) (d : PageDir) (m : Mem) : Except Fault Mem := do
  let (_, d, m) ← deallocuvm c d (KERNBASE * PGSIZE) 0 m
  let m ← freeTables d (List.range NPDENTRIES) m
  m.kfree d.page

/-- `setupkvm`; `none` when it returns 0. -/
def setupkvm (c : ShmField) (m : Mem) : Except Fault (Option PageDir × Mem) :=
  match m.kalloc with
  | (none, m) => .ok (none, m)
  | (some y, m) =>
    if DEVSPACE < KERNBASE + PHYSTOP then
      .error (.panic "PHYSTOP too high")
    else do
      let (ok, d, m) ← mapKernel (kmap m.layout) ⟨y, fun _ => none⟩ (m.memset y 0)
      if ok then
        pure (some d, m)
      else do
        let m ← freevm c d m
        pure (none, m)

/-! ### User pages -/

/-- The loop of `allocuvm` over `n` pages from page `v` on; `none` when memory runs out. -/
def allocPages (c : ShmField) (oldsz newsz : Nat) :
    Nat → Nat → PageDir → Mem → Except Fault (Nat × PageDir × Mem)
  | 0, _, d, m => .ok (newsz, d, m)
  | n + 1, v, d, m =>
    match m.kalloc with
    | (none, m) => do
      let (_, d, m) ← deallocuvm c d newsz oldsz m
      pure (0, d, m)
    | (some y, m) => do
      let (ok, d, m) ← mappages ⟨true, true⟩ 1 d v y (m.memset y 0)
      if ok then
        allocPages c oldsz newsz n (v + 1) d m
      else do
        let (_, d, m) ← deallocuvm c d newsz oldsz m
        let m ← m.kfree y
        pure (0, d, m)

/-- `allocuvm`: the new size, or 0 on error. -/
def allocuvm (c : ShmField) (d : PageDir) (oldsz newsz : Nat) (m : Mem) :
    Except Fault (Nat × PageDir × Mem) :=
  if KERNBASE * PGSIZE ≤ newsz then
    .ok (0, d, m)
  else if newsz < oldsz then
    .ok (oldsz, d, m)
  else
    allocPages c oldsz newsz (pgUp newsz - pgUp oldsz) (pgUp oldsz) d m

/-- `inituvm`: one zeroed page at address 0 that holds `init`. -/
def inituvm (d : PageDir) (init : List UInt8) (m : Mem) : Except Fault (PageDir × Mem) :=
  if PGSIZE ≤ init.length then
    .error (.panic "inituvm: more than a page")
  else
    match m.kalloc with
    | (none, _) => .error .nullDeref
    | (some y, m) => do
      let (_, d, m) ← mappages ⟨true, true⟩ 1 d 0 y (m.memset y 0)
      pure (d, m.write y 0 init)

def clearpteu (d : PageDir) (v : Nat) : Except Fault PageDir :=
  match d.walk v with
  | none => .error (.panic "clearpteu")
  | some e => .ok (d.set v { e with user := false })

/-! ### Copying an address space -/

/-- The inner loop of `copyuvm`, over entries of page table `i`: `pgtable` is the parent's, `new` the
child's as far as it is rewritten. -/
def copyTable (c : ShmField) (i : Nat) (pgtable : Nat → Pte) :
    List Nat → (Nat → Pte) → Mem → Option (Nat → Pte) × Mem
  | [], new, m => (some new, m)
  | j :: l, new, m =>
    let e := pgtable j
    if e.mapped = false then
      copyTable c i pgtable l new m
    else if e.lazy then
      copyTable c i pgtable l (Function.update new j e.flags) m
    else if c.Hits (i * NPTENTRIES + j) then
      copyTable c i pgtable l (Function.update new j e) (m.shmAdd e.ppn).2
    else
      match m.kalloc with
      | (none, m) => (none, m)
      | (some y, m) =>
        copyTable c i pgtable l (Function.update new j { e with ppn := y }) (m.copyPage y e.ppn)

/-- One iteration of the outer loop of `copyuvm`, over page table `i`; the result is whether memory
sufficed. -/
def copyPgtable (c : ShmField) (d : PageDir) (i : Nat) (nd : PageDir) (m : Mem) :
    Bool × PageDir × Mem :=
  match d.pde i with
  | none => (true, nd, m)
  | some t =>
    match m.kalloc with
    | (none, m) => (false, nd, m)
    | (some y, m) =>
      match copyTable c i t.pte (List.range NPTENTRIES) t.pte m with
      | (none, m) => (false, nd, m)
      | (some pte, m) => (true, nd.addTable i ⟨y, pte⟩, m)

/-- The outer loop of `copyuvm`. -/
def copyTables (c : ShmField) (d : PageDir) : List Nat → PageDir → Mem → Bool × PageDir × Mem
  | [], nd, m => (true, nd, m)
  | i :: l, nd, m =>
    match copyPgtable c d i nd m with
    | (false, nd, m) => (false, nd, m)
    | (true, nd, m) => copyTables c d l nd m

/-- `copyuvm` of the directory of the current process; `none` when it returns 0. -/
def copyuvm (c : ShmField) (d : PageDir) (m : Mem) : Except Fault (Option PageDir × Mem) := do
  match ← setupkvm c m with
  | (none, m) => pure (none, m)
  | (some nd, m) =>
    match copyTables c d (List.range (KERNBASE / NPTENTRIES)) nd m with
    | (true, nd, m) => pure (some nd, m)
    | (false, nd, m) => do
      let m ← freevm c nd m
      pure (none, m)

/-! ### Mapping and unmapping single pages -/

/-- The end of the range of `mmap` and `munmap`: `start + PGROUNDUP(n)`, in 32 bits. -/
def rangeEnd (start n : Nat) : Nat := (start + pgUp n * PGSIZE) % 2 ^ 32

/-- The argument checks shared by `sys_mmap` and `sys_munmap`. -/
def RangeOk (start : Nat) (n : Int) : Prop :=
  0 ≤ n ∧ start % PGSIZE = 0 ∧ rangeEnd start n.toNat ≤ KERNBASE * PGSIZE

instance (start : Nat) (n : Int) : Decidable (RangeOk start n) :=
  inferInstanceAs (Decidable (_ ∧ _))

/-- The number of pages over which the loops of `mmap` and `munmap` run. -/
def rangePages (start n : Nat) : Nat := (rangeEnd start n - start) / PGSIZE

/-- The entry `0 | PTE_LAZY`. -/
def lazyPte : Pte := ⟨0, false, false, false, true, 0⟩

/-- The loop of `sys_mmap`; the result is whether all pages were free. -/
def mmapPages : Nat → Nat → PageDir → Mem → Except Fault (Bool × PageDir × Mem)
  | 0, _, d, m => .ok (true, d, m)
  | n + 1, v, d, m =>
    match walkpgdir d v m with
    | (false, _, _) => .error .nullDeref
    | (true, d, m) =>
      if (d.entry v).present then .ok (false, d, m) else mmapPages n (v + 1) (d.set v lazyPte) m

/-- The loop of `sys_munmap`; the result is whether all pages had a page table. -/
def munmapPages : Nat → Nat → PageDir → Mem → Except Fault (Bool × PageDir × Mem)
  | 0, _, d, m => .ok (true, d, m)
  | n + 1, v, d, m =>
    match d.walk v with
    | none => .ok (false, d, m)
    | some e =>
      if e.present then do
        let m ← m.kfree e.ppn
        munmapPages n (v + 1) (d.set v 0) m
      else
        munmapPages n (v + 1) (d.set v 0) m

/-- The page-fault branch of `trap` for an address in page `v`; the result is whether the process
goes on. -/
def pageFault (d : PageDir) (v : Nat) (m : Mem) : Except Fault (Bool × PageDir × Mem) :=
  match d.walk v with
  | none => .error .uninitialized
  | some e =>
    if e.lazy then
      match m.kalloc with
      | (none, m) => .ok (false, d.set v 0, m)
      | (some y, m) => .ok (true, d.set v ((⟨true, true⟩ : Perm).pte y), m)
    else
      .ok (false, d, m)

/-- The highest entry of a page table that is not present. -/
def lastFree (pte : Nat → Pte) : Option Nat :=
  (List.range NPTENTRIES).reverse.find? fun j => !(pte j).present

/-- One iteration of `map_last_page`, over page table `i`: the value it returns, or `none` if it goes
on to the next table. -/
def mapInTable (pa : Nat) (perm : Perm) (i : Nat) (d : PageDir) (m : Mem) :
    Option Nat × PageDir × Mem :=
  match walkpgdir d (i * NPTENTRIES) m with
  | (false, d, m) => (some 0, d, m)
  | (true, d, m) =>
    match d.pde i with
    | none => (some 0, d, m)
    | some t =>
      match lastFree t.pte with
      | some j => (some (i * NPTENTRIES + j), d.set (i * NPTENTRIES + j) (perm.pte pa), m)
      | none => (none, d, m)

/-- `map_last_page` over page tables in descending order: the page at which `pa` is mapped, or 0. -/
def mapLastPage (pa : Nat) (perm : Perm) : List Nat → PageDir → Mem → Nat × PageDir × Mem
  | [], d, m => (0, d, m)
  | i :: l, d, m =>
    match mapInTable pa perm i d m with
    | (some v, d, m) => (v, d, m)
    | (none, d, m) => mapLastPage pa perm l d m

/-! ### Counting pages -/

/-- The entries below `KERNBASE` that satisfy a test, counted table by table. -/
def countEntries (p : Pte → Bool) (d : PageDir) : Nat :=
  ((List.range (NPDENTRIES / 2)).map fun i =>
    match d.pde i with
    | none => 0
    | some t => ((List.range NPTENTRIES).filter fun j => p (t.pte j)).length).sum

/-- `sys_numvp`; one is added for the stack guard page. -/
def numvp (d : PageDir) : Nat := countEntries Pte.mapped d + 1

/-- `sys_numpp`; one is added for the stack guard page. -/
def numpp (d : PageDir) : Nat := countEntries Pte.present d + 1

end Xv6
