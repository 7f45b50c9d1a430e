import Xv6.Lib.Extents
import Xv6.Lib.Run
import Xv6.Lib.Words

/-!
# The user-level memory allocator

`umalloc.c`: a circular list of free blocks, each beginning with a header of two words, the address
of the next block and the size of this one in units of the header. The static header `base`, of size
0, is always on the list.

Besides the bytes of the user's memory and `freep`, a state records what the two callers of the
allocator agree on: the memory obtained from `sbrk` and the blocks handed out. The loops of `malloc`
and `free` follow pointers, so they take the number of iterations they may make; a result is an
execution that ends within that number.
-/

namespace Xv6

namespace Malloc

open Words

/-- `sizeof(Header)`. -/
def HEADER : Nat := 8

/-- Addresses and sizes are 32-bit numbers. -/
def wrap (v : Nat) : Nat := v % 2 ^ 32

/-- `p + n` for a `Header *p`. -/
def plus (p n : Nat) : Nat := wrap (p + HEADER * n)

/-- `p->s.ptr`. -/
def ptr (m : Memory) (p : Nat) : Nat := load m p

/-- `p->s.size`. -/
def size (m : Memory) (p : Nat) : Nat := load m (p + 4)

def setPtr (m : Memory) (p v : Nat) : Memory := store m p v

def setSize (m : Memory) (p v : Nat) : Memory := store m (p + 4) v

structure State where
  mem : Memory
  freep : Nat
  /-- The end of the memory the process has. -/
  brk : Nat
  /-- The memory obtained from `sbrk`. -/
  chunks : List Extent
  /-- The blocks that `malloc` has returned and that are not freed, with their headers. -/
  live : List Extent

/-! ### Free -/

/-- The loop of `free`: it stops at the block after which `bp` goes. -/
def search (m : Memory) (bp : Nat) : Nat → Nat → Option Nat
  | 0, _ => none
  | fuel + 1, p =>
    if bp > p ∧ bp < ptr m p then
      some p
    else if p ≥ ptr m p ∧ (bp > p ∨ bp < ptr m p) then
      some p
    else
      search m bp fuel (ptr m p)

/-- Join `bp` with the block after `p`, or link to it. -/
def linkNext (m : Memory) (p bp : Nat) : Memory :=
  if plus bp (size m bp) = ptr m p then
    let m := setSize m bp (wrap (size m bp + size m (ptr m p)))
    setPtr m bp (ptr m (ptr m p))
  else
    setPtr m bp (ptr m p)

/-- Join `p` with `bp`, or link to it. -/
def linkPrev (m : Memory) (p bp : Nat) : Memory :=
  if plus p (size m p) = bp then
    let m := setSize m p (wrap (size m p + size m bp))
    setPtr m p (ptr m bp)
  else
    setPtr m p bp

def free (fuel ap : Nat) (s : State) : Option State :=
  let bp := wrap (ap + 2 ^ 32 - HEADER)
  (search s.mem bp fuel s.freep).map fun p =>
    { s with mem := linkPrev (linkNext s.mem p bp) p bp, freep := p }

/-! ### Malloc -/

/-- The kernel may answer -1 to `sbrk(n)`, or the start of `n` fresh bytes above all earlier ones.
The end of the memory is an address as well. -/
def State.MayAnswer (s : State) (n : Nat) (answer : Option Nat) : Prop :=
  ∀ p ∈ answer, s.brk ≤ p ∧ p + n < 2 ^ 32

instance (s : State) (n : Nat) (answer : Option Nat) : Decidable (s.MayAnswer n answer) :=
  inferInstanceAs (Decidable (∀ p ∈ answer, _))

/-- `sbrk(n)` for a positive `int n`, with the answer of the kernel. -/
def sbrk (n : Nat) (answer : Option Nat) (s : State) : Option State :=
  if 0 < n ∧ n < 2 ^ 31 ∧ s.MayAnswer n answer then
    match answer with
    | none => some s
    | some p => some { s with brk := p + n, chunks := ⟨p, n⟩ :: s.chunks }
  else
    none

/-- The units that `morecore` asks for. -/
def moreUnits (nu : Nat) : Nat := if nu < 4096 then 4096 else nu

def morecore (fuel nu : Nat) (answer : Option Nat) (s : State) : Option (Nat × State) :=
  let nu := moreUnits nu
  match sbrk (wrap (nu * HEADER)) answer s, answer with
  | none, _ => none
  | some s, none => some (0, s)
  | some s, some hp =>
    (free fuel (plus hp 1) { s with mem := setSize s.mem hp nu }).map fun s => (s.freep, s)

/-- `malloc` has found the block `p`, behind `prevp`. -/
def take (nunits prevp p : Nat) (s : State) : Nat × State :=
  if size s.mem p = nunits then
    (plus p 1, { s with mem := setPtr s.mem prevp (ptr s.mem p), freep := prevp })
  else
    let m := setSize s.mem p (size s.mem p - nunits)
    let p := plus p (size m p)
    (plus p 1, { s with mem := setSize m p nunits, freep := prevp })

/-- The loop of `malloc`. There is one answer of the kernel for the whole call. -/
def mallocLoop (nunits : Nat) : Nat → Option (Option Nat) → Nat → Nat → State → Option (Nat × State)
  | 0, _, _, _, _ => none
  | fuel + 1, answer, prevp, p, s =>
    if size s.mem p ≥ nunits then
      some (take nunits prevp p s)
    else if p = s.freep then
      match answer with
      | none => none
      | some answer =>
        match morecore fuel nunits answer s with
        | none => none
        | some (p, s) =>
          if p = 0 then some (0, s) else mallocLoop nunits fuel none p (ptr s.mem p) s
    else
      mallocLoop nunits fuel answer p (ptr s.mem p) s

/-- The units of a block for `nbytes` bytes. -/
def unitsFor (nbytes : Nat) : Nat := wrap (nbytes + HEADER - 1) / HEADER + 1

/-- The first call makes a list of `base` alone. -/
def start (base : Nat) (s : State) : State :=
  if s.freep = 0 then
    { s with mem := setSize (setPtr s.mem base base) base 0, freep := base }
  else
    s

def malloc (base fuel nbytes : Nat) (answer : Option Nat) (s : State) : Option (Nat × State) :=
  let s := start base s
  mallocLoop (unitsFor nbytes) fuel (some answer) s.freep (ptr s.mem s.freep) s

/-! ### Programs -/

/-- The bytes of a block that belong to the program. -/
def payload (b : Extent) : Extent := ⟨b.start + HEADER, b.len - HEADER⟩

inductive Act
  | malloc (nbytes : Nat) (answer : Option Nat)
  | free (ap : Nat)
  /-- The program writes to its memory. -/
  | write (m : Memory)

/-- The caller of `malloc` has got the pointer `r`. -/
def State.handOut (s : State) (r : Nat) : State :=
  if r = 0 then s
  else { s with live := ⟨r - HEADER, HEADER * size s.mem (r - HEADER)⟩ :: s.live }

/-- The program changes nothing of the allocator's memory: `base` and what came from `sbrk`, except
for the bytes it was given. -/
def State.MayWrite (base : Nat) (s : State) (m : Memory) : Prop :=
  ∀ x, (base ≤ x ∧ x < base + HEADER) ∨ Extent.Covers s.chunks x →
    ¬ Extent.Covers (s.live.map payload) x → m x = s.mem x

/-- One action of a program that calls `malloc` with fewer than `2 ^ 30` bytes and `free` on what
`malloc` returned. -/
inductive Step (base : Nat) (s : State) : Act → State → Prop
  | malloc {nbytes : Nat} {answer : Option Nat} {fuel r : Nat} {s' : State} :
      nbytes < 2 ^ 30 → malloc base fuel nbytes answer s = some (r, s') →
      Step base s (.malloc nbytes answer) (s'.handOut r)
  | free {b : Extent} {fuel : Nat} {s' : State} :
      b ∈ s.live → free fuel (b.start + HEADER) s = some s' →
      Step base s (.free (b.start + HEADER)) { s' with live := s.live.erase b }
  | write {m : Memory} : s.MayWrite base m → Step base s (.write m) { s with mem := m }

/-- A process that has not called `malloc` yet. Its memory ends behind the static data. -/
structure Initial (base : Nat) (s : State) : Prop where
  base_pos : 0 < base
  brk_le : base + HEADER ≤ s.brk
  brk_lt : s.brk < 2 ^ 32
  freep : s.freep = 0
  chunks : s.chunks = []
  live : s.live = []

end Malloc

end Xv6
