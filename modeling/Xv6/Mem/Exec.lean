import Xv6.Mem.CopySpec

/-!
# Loading a program

The part of `exec` that builds the new address space, with `loaduvm` and `copyout` of `vm.c`. What
`exec` reads from the inode is given by the results of its calls of `readi`, so that nothing is
assumed about the file; `readi` itself, for a regular file, is one way they can come out. The trap
frame and the name of the process are left out.
-/

namespace Xv6

open Fallible Count

/-- Maximum number of `exec` arguments. -/
def MAXARG : Nat := 32

def ELF_MAGIC : Nat := 0x464C457F

def ELF_PROG_LOAD : Nat := 1

/-- The results of the calls of `readi` in one `exec`: `reads i j off n` is what the call for `n` bytes
at `off` returns, `none` for -1. Program header `i` is read with `i + 1` and `j = 0`, page `j` of its
segment with `j + 1`, and the file header with `i = j = 0`. -/
def Reads := Nat → Nat → Nat → Nat → Option (List UInt8)

/-- `readi` of a regular file with the given contents. -/
def readi (data : List UInt8) (off n : Nat) : Option (List UInt8) :=
  if data.length < off ∨ 2 ^ 32 ≤ off + n then
    none
  else
    some ((data.drop off).take n)

/-- A little-endian number of `n` bytes at an offset. -/
def littleEndian (bs : List UInt8) (off n : Nat) : Nat :=
  ((bs.drop off).take n).foldr (fun b a => b.toNat + 256 * a) 0

/-- The fields of `struct elfhdr` that `exec` reads. -/
structure ElfHdr where
  magic : Nat
  phoff : Nat
  phnum : Nat

def ElfHdr.size : Nat := 52

def ElfHdr.parse (bs : List UInt8) : ElfHdr :=
  ⟨littleEndian bs 0 4, littleEndian bs 28 4, littleEndian bs 44 2⟩

/-- The fields of `struct proghdr` that `exec` reads. -/
structure ProgHdr where
  type : Nat
  off : Nat
  vaddr : Nat
  filesz : Nat
  memsz : Nat

def ProgHdr.size : Nat := 32

def ProgHdr.parse (bs : List UInt8) : ProgHdr :=
  ⟨littleEndian bs 0 4, littleEndian bs 4 4, littleEndian bs 8 4, littleEndian bs 16 4,
    littleEndian bs 20 4⟩

/-- The loop of `loaduvm` over `n` pages, of which `j` are done. -/
def loadPages (read : Nat → Nat → Nat → Option (List UInt8)) (d : PageDir) (v off sz : Nat) :
    Nat → Nat → Mem → Except Fault (Bool × Mem)
  | 0, _, m => .ok (true, m)
  | n + 1, j, m =>
    match d.walk (v + j) with
    | none => .error (.panic "loaduvm: address should exist")
    | some e =>
      match read j ((off + j * PGSIZE) % 2 ^ 32) (min PGSIZE (sz - j * PGSIZE)) with
      | none => .ok (false, m)
      | some bs =>
        if bs.length = min PGSIZE (sz - j * PGSIZE) then
          loadPages read d v off sz n (j + 1) (m.write e.ppn 0 bs)
        else
          .ok (false, m.write e.ppn 0 bs)

/-- `loaduvm`; the result is whether all was read. -/
def loaduvm (read : Nat → Nat → Nat → Option (List UInt8)) (d : PageDir) (addr off sz : Nat)
    (m : Mem) : Except Fault (Bool × Mem) :=
  if addr % PGSIZE ≠ 0 then
    .error (.panic "loaduvm: addr must be page aligned")
  else
    loadPages read d (addr / PGSIZE) off sz (pgUp sz) 0 m

/-- `uva2ka`: the page behind a user address. -/
def uva2ka (d : PageDir) (va : Nat) : Except Fault (Option Nat) :=
  match d.walk (va / PGSIZE) with
  | none => .error .nullDeref
  | some e => .ok (if e.present && e.user then some e.ppn else none)

/-- `copyout` of `bs` to address `va`; the first argument bounds the number of pages. -/
def copyout (d : PageDir) : Nat → Nat → List UInt8 → Mem → Except Fault (Bool × Mem)
  | 0, _, _, m => .ok (true, m)
  | n + 1, va, bs, m =>
    if bs = [] then
      .ok (true, m)
    else do
      match ← uva2ka d va with
      | none => .ok (false, m)
      | some y =>
        let k := PGSIZE - va % PGSIZE
        copyout d n ((va / PGSIZE + 1) * PGSIZE % 2 ^ 32) (bs.drop k)
          (m.write y (va % PGSIZE) (bs.take k))

/-- The loop of `exec` that pushes the argument strings: `args` are the addresses pushed so far. The
result is the stack pointer and the addresses, or `none` on failure. -/
def pushArgs (d : PageDir) : List (List UInt8) → Nat → List Nat → Mem →
    Except Fault (Option (Nat × List Nat) × Mem)
  | [], sp, args, m => .ok (some (sp, args), m)
  | s :: l, sp, args, m =>
    if MAXARG ≤ args.length then
      .ok (none, m)
    else do
      let sp := (2 ^ 32 + sp - (s.length + 1) % 2 ^ 32) % 2 ^ 32 / 4 * 4
      match ← copyout d (s.length + 1) sp (s ++ [0]) m with
      | (false, m) => .ok (none, m)
      | (true, m) => pushArgs d l sp (args ++ [sp]) m

/-- The words that `exec` pushes last: a return address, `argc`, `argv` and the argument pointers. -/
def ustack (sp : Nat) (args : List Nat) : List Nat :=
  [0xffffffff, args.length, (2 ^ 32 + sp - (args.length + 1) * 4) % 2 ^ 32] ++ args ++ [0]

/-- The loop of `exec` over `n` program headers from number `i` on; `none` for a jump to `bad`. -/
def loadSegments (c : ShmField) (reads : Reads) :
    Nat → Nat → Nat → Nat → PageDir → Mem → Except Fault (Option Nat × PageDir × Mem)
  | 0, _, _, sz, d, m => .ok (some sz, d, m)
  | n + 1, i, off, sz, d, m =>
    match reads (i + 1) 0 off ProgHdr.size with
    | none => .ok (none, d, m)
    | some bs =>
      let ph := ProgHdr.parse bs
      if bs.length ≠ ProgHdr.size then
        .ok (none, d, m)
      else if ph.type ≠ ELF_PROG_LOAD then
        loadSegments c reads n (i + 1) ((off + ProgHdr.size) % 2 ^ 32) sz d m
      else if ph.memsz < ph.filesz then
        .ok (none, d, m)
      else if 2 ^ 32 ≤ ph.vaddr + ph.memsz then
        .ok (none, d, m)
      else do
        let (sz, d, m) ← allocuvm c d sz (ph.vaddr + ph.memsz) m
        if sz = 0 then
          .ok (none, d, m)
        else if ph.vaddr % PGSIZE ≠ 0 then
          .ok (none, d, m)
        else do
          let (ok, m) ← loaduvm (fun j => reads (i + 1) (j + 1)) d ph.vaddr ph.off ph.filesz m
          if ok then
            loadSegments c reads n (i + 1) ((off + ProgHdr.size) % 2 ^ 32) sz d m
          else
            .ok (none, d, m)

/-- The stack and the guard page below it; the result is the size of the image. -/
def allocStack (c : ShmField) (sz : Nat) (d : PageDir) (m : Mem) :
    Except Fault (Option Nat × PageDir × Mem) := do
  let (sz, d, m) ← allocuvm c d (pgUp sz * PGSIZE) (pgUp sz * PGSIZE + 2 * PGSIZE) m
  if sz = 0 then
    .ok (none, d, m)
  else do
    let d ← clearpteu d ((sz - 2 * PGSIZE) / PGSIZE)
    .ok (some sz, d, m)

/-- The arguments and the frame of `main` are pushed; the result is the stack pointer. -/
def pushStack (d : PageDir) (argv : List (List UInt8)) (sz : Nat) (m : Mem) :
    Except Fault (Option Nat × Mem) := do
  match ← pushArgs d argv sz [] m with
  | (none, m) => .ok (none, m)
  | (some (sp, args), m) => do
    let words := ustack sp args
    let esp := (2 ^ 32 + sp - 4 * words.length) % 2 ^ 32
    let (ok, m) ← copyout d (4 * words.length) esp (words.flatMap wordBytes) m
    .ok (if ok then some esp else none, m)

/-- The new image of `exec`, its directory and size; `none` if it fails before it commits. -/
def execImage (c : ShmField) (reads : Reads) (argv : List (List UInt8)) (m : Mem) :
    Except Fault (Option (PageDir × Nat) × Mem) :=
  match reads 0 0 0 ElfHdr.size with
  | none => .ok (none, m)
  | some bs =>
    let elf := ElfHdr.parse bs
    if bs.length ≠ ElfHdr.size ∨ elf.magic ≠ ELF_MAGIC then
      .ok (none, m)
    else do
      match ← setupkvm c m with
      | (none, m) => .ok (none, m)
      | (some d, m) =>
        match ← loadSegments c reads elf.phnum 0 elf.phoff 0 d m with
        | (none, d, m) => do
          let m ← freevm c d m
          .ok (none, m)
        | (some sz, d, m) =>
          match ← allocStack c sz d m with
          | (none, d, m) => do
            let m ← freevm c d m
            .ok (none, m)
          | (some sz, d, m) =>
            match ← pushStack d argv sz m with
            | (none, m) => do
              let m ← freevm c d m
              .ok (none, m)
            | (some _, m) => .ok (some (d, sz), m)

/-! ### Writing to memory -/

/-- Only the contents of pages have changed. -/
structure Mem.Written (m m' : Mem) : Prop where
  freelist : m'.freelist = m.freelist
  shared : m'.shared = m.shared
  layout : m'.layout = m.layout

variable {c : ShmField} {d d' nd : PageDir} {m m' m'' m₀ : Mem} {v w x sz : Nat}

lemma Mem.Written.refl (m : Mem) : m.Written m := ⟨rfl, rfl, rfl⟩

lemma Mem.Written.trans (h : m.Written m') (h' : m'.Written m'') : m.Written m'' :=
  ⟨h'.freelist.trans h.freelist, h'.shared.trans h.shared, h'.layout.trans h.layout⟩

lemma Mem.Written.write (m : Mem) (y off : Nat) (bs : List UInt8) : m.Written (m.write y off bs) :=
  ⟨rfl, rfl, rfl⟩

lemma Mem.Written.conserved (h : m.Written m') : Conserved d m d m' :=
  ⟨fun x => by rw [Mem.free, h.freelist, ← Mem.free], id, h.shared, h.layout⟩

lemma loadPages_ensures {read : Nat → Nat → Nat → Option (List UInt8)} {off n j : Nat} :
    Ensures (loadPages read d v off sz n j m) fun r => m.Written r.2 := by
  induction n generalizing j m with
  | zero => exact .ok (.refl m)
  | succ n ih =>
    unfold loadPages
    split
    · exact .error
    · next e _ =>
      split
      · exact .ok (.refl m)
      · next bs _ =>
        split
        · exact ih.mono fun r hr => (Mem.Written.write m e.ppn 0 bs).trans hr
        · exact .ok (.write m e.ppn 0 bs)

lemma loaduvm_ensures {read : Nat → Nat → Nat → Option (List UInt8)} {addr off : Nat} :
    Ensures (loaduvm read d addr off sz m) fun r => m.Written r.2 := by
  unfold loaduvm
  split
  · exact .error
  · exact loadPages_ensures

lemma copyout_ensures {n va : Nat} {bs : List UInt8} :
    Ensures (copyout d n va bs m) fun r => m.Written r.2 := by
  induction n generalizing va bs m with
  | zero => exact .ok (.refl m)
  | succ n ih =>
    unfold copyout
    split
    · exact .ok (.refl m)
    · refine Ensures.bind (R := fun _ => True) (fun _ _ => trivial) ?_
      rintro (_ | y) -
      · exact .ok (.refl m)
      · exact ih.mono fun r hr => (Mem.Written.write m y _ _).trans hr

lemma pushArgs_ensures {argv : List (List UInt8)} {sp : Nat} {args : List Nat} :
    Ensures (pushArgs d argv sp args m) fun r => m.Written r.2 := by
  induction argv generalizing sp args m with
  | nil => exact .ok (.refl m)
  | cons s l ih =>
    unfold pushArgs
    split
    · exact .ok (.refl m)
    · refine copyout_ensures.bind ?_
      rintro ⟨_ | _, m₁⟩ h
      · exact .ok h
      · exact ih.mono fun r hr => h.trans hr

lemma pushStack_ensures {argv : List (List UInt8)} :
    Ensures (pushStack d argv sz m) fun r => m.Written r.2 := by
  refine pushArgs_ensures.bind ?_
  rintro ⟨_ | ⟨sp, args⟩, m₁⟩ hw
  · exact .ok hw
  · refine copyout_ensures.bind ?_
    rintro ⟨ok, m₂⟩ hw'
    exact .ok (hw.trans hw')

/-! ### The image -/

/-- The directory has the pages below `sz` mapped, and nothing else. -/
structure Image (sz : Nat) (d : PageDir) : Prop where
  lt : sz < KERNBASE * PGSIZE
  mapped : ∀ v, v < pgUp sz → (d.entry v).present = true
  rest : ∀ v < KERNBASE, pgUp sz ≤ v → d.entry v = 0

lemma Image.of_bare (h : d.Bare) : Image 0 d := by
  have hzero : pgUp 0 = 0 := rfl
  refine ⟨?_, fun v hv => ?_, fun v hv _ => h.entry hv⟩
  · rw [KERNBASE_eq]
    decide
  · omega

lemma pgUp_max (a b : Nat) : pgUp (max a b) = max (pgUp a) (pgUp b) := by
  rcases Nat.le_total a b with h | h
  · rw [Nat.max_eq_right h, Nat.max_eq_right (pgUp_mono h)]
  · rw [Nat.max_eq_left h, Nat.max_eq_left (pgUp_mono h)]

/-- Growing an image with `allocuvm`. -/
lemma Image.alloc {newsz : Nat} (h : Image sz d) (hnew : newsz < KERNBASE * PGSIZE)
    (ha : Allocated (pgUp sz) (pgUp newsz) true d d') : Image (max sz newsz) d' := by
  refine ⟨Nat.max_lt.mpr ⟨h.lt, hnew⟩, fun v hv => ?_, fun v hv hle => ?_⟩
  · rw [pgUp_max] at hv
    by_cases hlo : v < pgUp sz
    · rw [ha.outside v (Or.inl hlo)]
      exact h.mapped v hlo
    · exact (ha.inside rfl v (by omega) (by omega)).1
  · rw [pgUp_max] at hle
    rw [ha.outside v (by omega)]
    exact h.rest v hv (by omega)

/-- Growing an image by the stack and its guard page. -/
lemma Image.alloc_stack (h : Image sz d) (hlt : (pgUp sz + 2) * PGSIZE < KERNBASE * PGSIZE)
    (ha : Allocated (pgUp sz) (pgUp sz + 2) true d d') : Image ((pgUp sz + 2) * PGSIZE) d' := by
  have hle : sz ≤ (pgUp sz + 2) * PGSIZE :=
    (le_pgUp_mul sz).trans (Nat.mul_le_mul_right _ (Nat.le_add_right _ _))
  rw [← Nat.max_eq_right hle]
  exact h.alloc hlt (by rwa [pgUp_mul])

/-- Without its user bit an entry maps the same page. -/
lemma PageDir.refs_set_user {e : Pte} (hv : v < KERNBASE) (hwalk : d.walk v = some e) (x : Nat) :
    (d.set v { e with user := false }).refs x = d.refs x := by
  obtain ⟨ht, he⟩ := PageDir.walk_eq_some_iff.mp hwalk
  have hset := PageDir.userRefs_set (e := { e with user := false }) ht hv x
  have hmaps : ({ e with user := false } : Pte).maps x = e.maps x := rfl
  rw [hmaps, he] at hset
  rw [PageDir.refs, PageDir.tableRefs_set, PageDir.refs]
  omega

lemma PageDir.Ok.set_user {e : Pte} (hok : d.Ok) (hv : v < KERNBASE) (hwalk : d.walk v = some e) :
    (d.set v { e with user := false }).Ok := by
  have hok' := (PageDir.walk_eq_some_iff.mp hwalk).2 ▸ hok v hv
  exact hok.set ⟨hok'.not_both, hok'.ppn_zero⟩

lemma clearpteu_conserved (hv : v < KERNBASE) :
    Ensures (clearpteu d v) fun d' => Conserved d m d' m := by
  unfold clearpteu
  split
  · exact .error
  · next e hwalk =>
    refine .ok ⟨fun x => ?_, fun hok => hok.set_user hv hwalk, rfl, rfl⟩
    rw [PageDir.refs_set_user hv hwalk]

end Xv6
