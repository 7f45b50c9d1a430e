import Xv6.Mem.Program

/-!
# The argument stack

`exec` pushes the argument strings downward from the top of the new image, each at a multiple of
four, and then the frame of `main`: a return address, `argc`, `argv`, and the array of pointers that
`argv` points to. All of it has to fit into one page. Nothing checks that: when it does not fit,
`copyout` meets the guard page, which the user may not access.
-/

namespace Xv6.Program

open Fallible

variable {c : ShmField} {d : PageDir} {m m' : Mem} {sz sp a n : Nat} {s bs : List UInt8}
  {argv : List (List UInt8)} {args : List Nat}

/-! ### The image below the stack -/

/-- An image that is ready for the stack: all pages below `sz` have page tables, of the last two the
user may access the upper one only, and the user may not access the pages of the kernel. -/
structure StackImage (sz : Nat) (d : PageDir) : Prop where
  aligned : sz % PGSIZE = 0
  two : 2 * PGSIZE ≤ sz
  lt : sz < KERNBASE * PGSIZE
  tables : ∀ v < sz / PGSIZE, d.HasTable v
  guard : ¬ d.UserPage (sz / PGSIZE - 2)
  stack : d.UserPage (sz / PGSIZE - 1)
  kernel : ∀ v, KERNBASE ≤ v → ¬ d.UserPage v

/-- The physical page behind the stack. -/
def stackPage (sz : Nat) (d : PageDir) : Nat := (d.entry (sz / PGSIZE - 1)).ppn

namespace StackImage

lemma lt_two_pow (h : StackImage sz d) : sz < 2 ^ 31 := by
  have := h.lt
  rw [KERNBASE_eq] at this
  exact this

/-- An address of the stack page. -/
lemma page_eq (h : StackImage sz d) (h1 : sz - PGSIZE ≤ a) (h2 : a < sz) :
    a / PGSIZE = sz / PGSIZE - 1 ∧ a % PGSIZE = a - (sz - PGSIZE) := by
  have h3 := h.aligned
  have h4 := h.two
  simp only [PGSIZE] at h1 h3 h4 ⊢
  omega

/-- What lies inside the stack page is stored there. -/
lemma copyout_stack (h : StackImage sz d) (hne : bs ≠ []) (hn : bs.length ≤ n)
    (h1 : sz - PGSIZE ≤ a) (h2 : a + bs.length ≤ sz) :
    copyout d n a bs m = .ok (true, m.write (stackPage sz d) (a - (sz - PGSIZE)) bs) := by
  have hpos := List.length_pos_iff.mpr hne
  have htwo := h.two
  have hlt := h.lt_two_pow
  obtain ⟨hdiv, hmod⟩ := h.page_eq h1 (by omega)
  have hka : uva2ka d a = .ok (some (stackPage sz d)) := by
    have hu : d.UserPage (a / PGSIZE) := hdiv ▸ h.stack
    rw [uva2ka_of_hasTable hu.hasTable, if_pos hu, PageDir.place, hdiv]
    rfl
  have hpage : copyBytes d a (bs ++ []) m = copyBytes d (addrAt a bs.length) []
      (m.write (stackPage sz d) (a % PGSIZE) bs) := copyBytes_page (by omega) (by omega) hka
  rw [copyout_eq_copyBytes (by omega) hn, ← List.append_nil bs, hpage, hmod, copyBytes,
    List.append_nil]

/-- What begins below the stack page and reaches up to it runs into the guard page. -/
lemma copyout_guard (h : StackImage sz d) (hn : bs.length ≤ n) (h1 : a < sz - PGSIZE)
    (h2 : sz - PGSIZE < a + bs.length + 4) (h3 : a + bs.length ≤ sz) (hpos : bs ≠ []) :
    ∃ m', copyout d n a bs m = .ok (false, m') := by
  have htwo := h.two
  have hlt := h.lt_two_pow
  have halign := h.aligned
  have hlen := List.length_pos_iff.mpr hpos
  rw [copyout_eq_copyBytes (by omega) hn]
  have haddr : ∀ i < bs.length, addrAt a i = a + i := fun i hi => Nat.mod_eq_of_lt (by omega)
  obtain ⟨⟨ok, m'⟩, hcopy⟩ : ∃ r, copyBytes d a bs m = .ok r := by
    refine (copyBytes_returns_iff (by omega)).mpr fun i hi _ => h.tables _ ?_
    rw [haddr i hi]
    simp only [PGSIZE] at halign htwo ⊢
    omega
  obtain ⟨k, hk, hbefore, -, hok, -⟩ := copyBytes_outcome (by omega) _ hcopy
  -- an address of the guard page in the range
  obtain ⟨i, hi, hguard⟩ : ∃ i < bs.length, (a + i) / PGSIZE = sz / PGSIZE - 2 := by
    by_cases hin : sz - 2 * PGSIZE ≤ a
    · refine ⟨0, hlen, ?_⟩
      simp only [PGSIZE] at halign htwo h1 hin ⊢
      omega
    · refine ⟨sz - 2 * PGSIZE - a, ?_, ?_⟩
      · simp only [PGSIZE] at htwo h2 ⊢
        omega
      · simp only [PGSIZE] at halign htwo hin ⊢
        omega
  have hfalse : ok = false := by
    by_contra htrue
    have hall := hok.mp (by simpa using htrue)
    have hu := hbefore i (by omega)
    rw [haddr i hi, hguard] at hu
    exact h.guard hu
  exact ⟨m', hfalse ▸ hcopy⟩

/-- An address of the kernel is refused, if there is a page table for it. -/
lemma copyout_kernel (h : StackImage sz d) (hne : bs ≠ []) (hn : bs.length ≤ n)
    (ha : KERNBASE * PGSIZE ≤ a) :
    copyout d n a bs m = if d.HasTable (a / PGSIZE) then .ok (false, m) else .error .nullDeref := by
  have hpos := List.length_pos_iff.mpr hne
  obtain ⟨n, rfl⟩ : ∃ k, n = k + 1 := ⟨n - 1, by omega⟩
  have hu : ¬ d.UserPage (a / PGSIZE) := h.kernel _ ((Nat.le_div_iff_mul_le (by decide)).mpr ha)
  rw [copyout, if_neg hne]
  by_cases ht : d.HasTable (a / PGSIZE)
  · rw [uva2ka_of_hasTable ht, if_neg hu, if_pos ht]
    rfl
  · rw [uva2ka_of_not_hasTable ht, if_neg ht]
    rfl

end StackImage

/-! ### Pushing the strings -/

/-- The space that a string takes on the stack, with its NUL byte. -/
def room (s : List UInt8) : Nat := (s.length / 4 + 1) * 4

/-- The space that the strings take. -/
def roomFor (argv : List (List UInt8)) : Nat := (argv.map room).sum

/-- The addresses of the strings, the first one highest. -/
def pointers : Nat → List (List UInt8) → List Nat
  | _, [] => []
  | sp, s :: l => (sp - room s) :: pointers (sp - room s) l

/-- The strings, stored in page `y`, which begins at address `lo`. -/
def storeArgs (y lo : Nat) : Nat → List (List UInt8) → Mem → Mem
  | _, [], m => m
  | sp, s :: l, m => storeArgs y lo (sp - room s) l (m.write y (sp - room s - lo) (s ++ [0]))

@[simp] lemma roomFor_nil : roomFor [] = 0 := rfl

@[simp] lemma roomFor_cons (s : List UInt8) (l : List (List UInt8)) :
    roomFor (s :: l) = room s + roomFor l := List.sum_cons

lemma length_lt_room (s : List UInt8) : s.length + 1 ≤ room s := by
  unfold room
  omega

/-- The stack pointer after a push that does not wrap around. -/
lemma push_eq (hsp : sp % 4 = 0) (hlt : sp < 2 ^ 31) (h : room s ≤ sp) :
    (2 ^ 32 + sp - (s.length + 1) % 2 ^ 32) % 2 ^ 32 / 4 * 4 = sp - room s := by
  unfold room at h ⊢
  omega

/-- The stack pointer after a push that wraps around is an address of the kernel. -/
lemma push_wraps (hsp : sp % 4 = 0) (hlt : sp < 2 ^ 31) (hs : s.length < 2 ^ 31) (h : sp < room s) :
    (2 ^ 32 + sp - (s.length + 1) % 2 ^ 32) % 2 ^ 32 / 4 * 4 = 2 ^ 32 + sp - room s ∧
      2 ^ 31 ≤ 2 ^ 32 + sp - room s := by
  unfold room at h ⊢
  omega

/-- A string that fits is stored below the stack pointer. -/
lemma pushArgs_fits (h : StackImage sz d) (l : List (List UInt8)) (hargs : args.length < MAXARG)
    (hsp : sp % 4 = 0) (hle : sp ≤ sz) (hlo : sz - PGSIZE + room s ≤ sp) :
    pushArgs d (s :: l) sp args m =
      pushArgs d l (sp - room s) (args ++ [sp - room s])
        (m.write (stackPage sz d) (sp - room s - (sz - PGSIZE)) (s ++ [0])) := by
  have hlt := h.lt_two_pow
  have hroom := length_lt_room s
  have hlen : (s ++ [0]).length = s.length + 1 := by simp
  have hne : s ++ [0] ≠ [] := by simp
  rw [pushArgs, if_neg (Nat.not_le.mpr hargs)]
  dsimp only
  rw [push_eq hsp (by omega) (by omega),
    h.copyout_stack hne hlen.le (by omega) (by omega)]
  rfl

/-- The computation gives up if `P` holds, and follows a null pointer if not. -/
def GivesUpIf {α : Type} (P : Prop) (x : Except Fault (Option α × Mem)) : Prop :=
  (P → ∃ m', x = .ok (none, m')) ∧ (¬ P → x = .error .nullDeref)

lemma GivesUpIf.congr {α : Type} {P Q : Prop} {x : Except Fault (Option α × Mem)}
    (h : GivesUpIf P x) (hiff : Q ↔ P) : GivesUpIf Q x :=
  ⟨fun hq => h.1 (hiff.mp hq), fun hq => h.2 fun hp => hq (hiff.mpr hp)⟩

/-- A string that does not fit: `exec` gives up, unless the address has wrapped around to one without
a page table. -/
lemma pushArgs_full (h : StackImage sz d) (l : List (List UInt8)) (hargs : args.length < MAXARG)
    (hsp : sp % 4 = 0) (hge : sz - PGSIZE ≤ sp) (hle : sp ≤ sz) (hs : s.length < 2 ^ 31)
    (hfull : sp < sz - PGSIZE + room s) :
    GivesUpIf (sp < room s → d.HasTable ((2 ^ 32 + sp - room s) / PGSIZE))
      (pushArgs d (s :: l) sp args m) := by
  have hlt := h.lt_two_pow
  have hK : KERNBASE * PGSIZE = 2 ^ 31 := by
    rw [KERNBASE_eq]
    rfl
  have hroom := length_lt_room s
  have hlen : (s ++ [0]).length = s.length + 1 := by simp
  have hne : s ++ [0] ≠ [] := by simp
  rw [pushArgs, if_neg (Nat.not_le.mpr hargs)]
  dsimp only
  by_cases hwrap : sp < room s
  · obtain ⟨heq, hkernel⟩ := push_wraps hsp (by omega) hs hwrap
    rw [heq, h.copyout_kernel hne hlen.le (by omega)]
    constructor
    · intro himp
      rw [if_pos (himp hwrap)]
      exact ⟨_, rfl⟩
    · intro hno
      rw [if_neg fun ht => hno fun _ => ht]
      rfl
  · rw [push_eq hsp (by omega) (by omega)]
    obtain ⟨m', hm'⟩ := h.copyout_guard (m := m) hlen.le (a := sp - room s) (by omega)
      (by unfold room at *; omega) (by omega) hne
    rw [hm']
    exact ⟨fun _ => ⟨_, rfl⟩, fun hno => absurd (fun hlt => absurd hlt hwrap) hno⟩

/-- For a string that is pushed after others that fit, and takes more space than there is below the
stack pointer, there is a page table at the address that the stack pointer wraps around to. -/
def WrapsToTable (d : PageDir) (lo sp : Nat) (argv : List (List UInt8)) : Prop :=
  ∀ i s, argv[i]? = some s → lo + roomFor (argv.take i) ≤ sp → sp - roomFor (argv.take i) < room s →
    d.HasTable ((2 ^ 32 + (sp - roomFor (argv.take i)) - room s) / PGSIZE)

lemma wrapsToTable_cons {lo : Nat} (l : List (List UInt8)) (hlo : lo ≤ sp) :
    WrapsToTable d lo sp (s :: l) ↔
      (sp < room s → d.HasTable ((2 ^ 32 + sp - room s) / PGSIZE)) ∧
        (lo + room s ≤ sp → WrapsToTable d lo (sp - room s) l) := by
  constructor
  · intro h
    refine ⟨fun hwrap => ?_, fun hfit i t hi hbefore hlt => ?_⟩
    · exact h 0 s rfl (by simpa using hlo) (by simpa using hwrap)
    · have := h (i + 1) t (by simpa using hi)
      rw [List.take_succ_cons, roomFor_cons, Nat.sub_add_eq] at this
      exact this (by omega) hlt
  · rintro ⟨hfirst, hrest⟩ i t hi hbefore hlt
    cases i with
    | zero =>
      obtain rfl : s = t := by simpa using hi
      exact hfirst (by simpa using hlt)
    | succ i =>
      rw [List.take_succ_cons, roomFor_cons] at hbefore hlt ⊢
      rw [Nat.sub_add_eq] at hlt ⊢
      exact hrest (by omega) i t (by simpa using hi) (by omega) hlt

/-- Strings that fit never wrap around. -/
lemma wrapsToTable_of_fits {lo : Nat} (hfit : lo + roomFor argv ≤ sp) :
    WrapsToTable d lo sp argv := by
  induction argv generalizing sp with
  | nil => exact fun i s hi => by simp at hi
  | cons s l ih =>
    rw [roomFor_cons] at hfit
    exact (wrapsToTable_cons l (by omega)).mpr
      ⟨fun hlt => absurd hlt (by omega), fun _ => ih (by omega)⟩

lemma room_mod (s : List UInt8) : room s % 4 = 0 := Nat.mul_mod_left _ _

/-- All strings fit. -/
lemma pushArgs_all (h : StackImage sz d) (hargs : args.length + argv.length < MAXARG)
    (hsp : sp % 4 = 0) (hle : sp ≤ sz) (hfit : sz - PGSIZE + roomFor argv ≤ sp) :
    pushArgs d argv sp args m = .ok (some (sp - roomFor argv, args ++ pointers sp argv),
      storeArgs (stackPage sz d) (sz - PGSIZE) sp argv m) := by
  induction argv generalizing sp args m with
  | nil => rw [pushArgs, roomFor_nil, pointers, List.append_nil, storeArgs, Nat.sub_zero]
  | cons s l ih =>
    rw [roomFor_cons] at hfit
    rw [List.length_cons] at hargs
    have hmod := room_mod s
    rw [pushArgs_fits h l (by omega) hsp hle (by omega), ih _ (by omega) (by omega) (by omega),
      roomFor_cons, Nat.sub_add_eq, pointers, storeArgs, List.append_assoc, List.singleton_append]
    rw [List.length_append, List.length_singleton]
    omega

/-- Some string does not fit. -/
lemma pushArgs_overflow (h : StackImage sz d) (hargs : args.length + argv.length < MAXARG)
    (hs : ∀ s ∈ argv, s.length < 2 ^ 31) (hsp : sp % 4 = 0) (hge : sz - PGSIZE ≤ sp) (hle : sp ≤ sz)
    (hfull : sp < sz - PGSIZE + roomFor argv) :
    GivesUpIf (WrapsToTable d (sz - PGSIZE) sp argv) (pushArgs d argv sp args m) := by
  induction argv generalizing sp args m with
  | nil =>
    rw [roomFor_nil] at hfull
    omega
  | cons s l ih =>
    rw [roomFor_cons] at hfull
    rw [List.length_cons] at hargs
    have hcons := wrapsToTable_cons (d := d) (s := s) l hge
    by_cases hfit : sz - PGSIZE + room s ≤ sp
    · have hmod := room_mod s
      have hlen : (args ++ [sp - room s]).length + l.length < MAXARG := by
        rw [List.length_append, List.length_singleton]
        omega
      rw [pushArgs_fits h l (by omega) hsp hle hfit]
      have hiff : WrapsToTable d (sz - PGSIZE) sp (s :: l) ↔
          WrapsToTable d (sz - PGSIZE) (sp - room s) l := by
        rw [hcons]
        exact ⟨fun hw => hw.2 hfit, fun hw => ⟨fun hlt => absurd hlt (by omega), fun _ => hw⟩⟩
      exact (ih hlen (fun t ht => hs t (List.mem_cons_of_mem _ ht)) (by omega) (by omega) (by omega)
        (by omega)).congr hiff
    · have hiff : WrapsToTable d (sz - PGSIZE) sp (s :: l) ↔
          (sp < room s → d.HasTable ((2 ^ 32 + sp - room s) / PGSIZE)) := by
        rw [hcons]
        exact ⟨fun hw => hw.1, fun hw => ⟨hw, fun hf => absurd hf hfit⟩⟩
      exact (pushArgs_full h l (by omega) hsp hge hle (hs s List.mem_cons_self) (by omega)).congr
        hiff

/-! ### The frame of main -/

/-- The space that the frame takes. -/
def frameRoom (argv : List (List UInt8)) : Nat := 4 * (argv.length + 4)

/-- The strings and the frame fit into one page. -/
def Fits (argv : List (List UInt8)) : Prop := roomFor argv + frameRoom argv ≤ PGSIZE

instance (argv : List (List UInt8)) : Decidable (Fits argv) :=
  Nat.decLe (roomFor argv + frameRoom argv) PGSIZE

lemma length_pointers (sp : Nat) (argv : List (List UInt8)) :
    (pointers sp argv).length = argv.length := by
  induction argv generalizing sp with
  | nil => rfl
  | cons s l ih => rw [pointers, List.length_cons, List.length_cons, ih]

lemma length_ustack (sp : Nat) (args : List Nat) : (ustack sp args).length = args.length + 4 := by
  simp [ustack]

lemma length_flatMap_wordBytes (l : List Nat) : (l.flatMap wordBytes).length = 4 * l.length := by
  induction l with
  | nil => rfl
  | cons w l ih =>
    rw [List.flatMap_cons, List.length_append, ih, List.length_cons]
    change 4 + 4 * l.length = _
    omega

/-- The memory of the new image, with the strings and the frame in place. -/
def storeStack (y sz : Nat) (argv : List (List UInt8)) (m : Mem) : Mem :=
  (storeArgs y (sz - PGSIZE) sz argv m).write y (PGSIZE - roomFor argv - frameRoom argv)
    ((ustack (sz - roomFor argv) (pointers sz argv)).flatMap wordBytes)

lemma StackImage.mod_four (h : StackImage sz d) : sz % 4 = 0 := by
  have := h.aligned
  simp only [PGSIZE] at this
  omega

lemma length_frame (sz : Nat) (argv : List (List UInt8)) :
    ((ustack (sz - roomFor argv) (pointers sz argv)).flatMap wordBytes).length =
      frameRoom argv := by
  rw [length_flatMap_wordBytes, length_ustack, length_pointers, frameRoom]

lemma frameRoom_bounds (h : argv.length < MAXARG) :
    0 < frameRoom argv ∧ frameRoom argv ≤ PGSIZE := by
  simp only [frameRoom, MAXARG, PGSIZE] at h ⊢
  omega

/-- If the strings fit, the frame is copied to below them. -/
lemma pushStack_eq (h : StackImage sz d) (hargs : argv.length < MAXARG)
    (hroom : roomFor argv ≤ PGSIZE) :
    pushStack d argv sz m = (do
      let (ok, m) ← copyout d (frameRoom argv) (sz - roomFor argv - frameRoom argv)
        ((ustack (sz - roomFor argv) (pointers sz argv)).flatMap wordBytes)
        (storeArgs (stackPage sz d) (sz - PGSIZE) sz argv m)
      .ok (if ok then some (sz - roomFor argv - frameRoom argv) else none, m)) := by
  have htwo := h.two
  have hlt := h.lt_two_pow
  have hframe := frameRoom_bounds hargs
  have hargs' : ([] : List Nat).length + argv.length < MAXARG := by simpa using hargs
  have hesp : (2 ^ 32 + (sz - roomFor argv) - frameRoom argv) % 2 ^ 32 =
      sz - roomFor argv - frameRoom argv := by omega
  rw [pushStack, pushArgs_all h hargs' h.mod_four le_rfl (by omega)]
  dsimp only [bind, Except.bind]
  rw [List.nil_append, ← length_flatMap_wordBytes, length_frame, hesp]

/-- The stack of arguments that fit. -/
lemma pushStack_fits (h : StackImage sz d) (hargs : argv.length < MAXARG) (hfit : Fits argv) :
    pushStack d argv sz m = .ok (some (sz - roomFor argv - frameRoom argv),
      storeStack (stackPage sz d) sz argv m) := by
  have htwo := h.two
  have hlen := length_frame sz argv
  have hframe := frameRoom_bounds hargs
  unfold Fits at hfit
  have hoff : sz - roomFor argv - frameRoom argv - (sz - PGSIZE) =
      PGSIZE - roomFor argv - frameRoom argv := by omega
  rw [pushStack_eq h hargs (by omega), h.copyout_stack (List.length_pos_iff.mp (by omega)) hlen.le
    (by omega) (by omega), hoff]
  rfl

/-- The stack of arguments that do not fit. -/
lemma pushStack_overflow (h : StackImage sz d) (hargs : argv.length < MAXARG)
    (hs : ∀ s ∈ argv, s.length < 2 ^ 31) (hfull : ¬ Fits argv) :
    GivesUpIf (WrapsToTable d (sz - PGSIZE) sz argv) (pushStack d argv sz m) := by
  have htwo := h.two
  have hlt := h.lt_two_pow
  have hargs' : ([] : List Nat).length + argv.length < MAXARG := by simpa using hargs
  unfold Fits at hfull
  by_cases hfit : roomFor argv ≤ PGSIZE
  · -- the strings fit, the frame does not
    have hfits : sz - PGSIZE + roomFor argv ≤ sz := by omega
    have hlen := length_frame sz argv
    have hframe := frameRoom_bounds hargs
    rw [pushStack_eq h hargs hfit]
    obtain ⟨m', hm'⟩ := h.copyout_guard
      (m := storeArgs (stackPage sz d) (sz - PGSIZE) sz argv m)
      (a := sz - roomFor argv - frameRoom argv) hlen.le (by omega) (by omega) (by omega)
      (List.length_pos_iff.mp (by omega))
    rw [hm']
    exact ⟨fun _ => ⟨m', rfl⟩, fun hno => absurd (wrapsToTable_of_fits hfits) hno⟩
  · obtain ⟨hgives, hfaults⟩ := pushArgs_overflow (m := m) h hargs' hs h.mod_four (by omega) le_rfl
      (by omega)
    constructor
    · intro hw
      obtain ⟨m', hm'⟩ := hgives hw
      rw [pushStack, hm']
      exact ⟨m', rfl⟩
    · intro hw
      rw [pushStack, hfaults hw]
      rfl

/-! ### Reading the stack -/

/-- The byte that a process reads at an address. -/
def byteAt (d : PageDir) (m : Mem) (a : Nat) : Option UInt8 := loadByte d m (a / PGSIZE) (a % PGSIZE)

/-- The number with the given bytes, the lowest first. -/
def wordOf (b₀ b₁ b₂ b₃ : UInt8) : Nat :=
  b₀.toNat + 256 * b₁.toNat + 65536 * b₂.toNat + 16777216 * b₃.toNat

/-- The word that a process reads at an address. -/
def wordAt (d : PageDir) (m : Mem) (a : Nat) : Option Nat := do
  let b₀ ← byteAt d m a
  let b₁ ← byteAt d m (a + 1)
  let b₂ ← byteAt d m (a + 2)
  let b₃ ← byteAt d m (a + 3)
  some (wordOf b₀ b₁ b₂ b₃)

/-- The stack as `main` finds it: a return address, the number of arguments, the address of the array
of pointers, and the array, which is in the frame and ends with a null pointer. Every pointer points
to a NUL-terminated copy of its argument. The frame and the strings are in the page below `sz`, the
page below that is inaccessible, and they do not overlap. -/
structure MainFrame (sz : Nat) (argv : List (List UInt8)) (ps : List Nat) (d : PageDir) (esp : Nat)
    (m : Mem) : Prop where
  length : ps.length = argv.length
  ret : wordAt d m esp = some 0xffffffff
  argc : wordAt d m (esp + 4) = some argv.length
  array : wordAt d m (esp + 8) = some (esp + 12)
  pointer : ∀ (i p : Nat), ps[i]? = some p → wordAt d m (esp + 12 + 4 * i) = some p
  null : wordAt d m (esp + 12 + 4 * argv.length) = some 0
  string : ∀ (i p : Nat) s, ps[i]? = some p → argv[i]? = some s →
    ∀ (j : Nat) b, (s ++ [0])[j]? = some b → byteAt d m (p + j) = some b
  guard : ¬ d.UserPage (sz / PGSIZE - 2)
  bottom : sz - PGSIZE ≤ esp
  above : ∀ (i p : Nat) s, ps[i]? = some p → argv[i]? = some s →
    esp + frameRoom argv ≤ p ∧ p + s.length + 1 ≤ sz
  apart : ∀ (i j p q : Nat) s, i < j → ps[i]? = some p → ps[j]? = some q → argv[j]? = some s →
    q + s.length + 1 ≤ p

lemma StackImage.byteAt_eq (h : StackImage sz d) (h1 : sz - PGSIZE ≤ a) (h2 : a < sz) :
    byteAt d m a = some (m.bytes (stackPage sz d) (a - (sz - PGSIZE))) := by
  obtain ⟨hdiv, hmod⟩ := h.page_eq h1 h2
  rw [byteAt, hdiv, hmod, loadByte, h.stack.1, h.stack.2]
  rfl

lemma StackImage.wordAt_eq (h : StackImage sz d) (h1 : sz - PGSIZE ≤ a) (h2 : a + 4 ≤ sz) :
    wordAt d m a = some (wordOf (m.bytes (stackPage sz d) (a - (sz - PGSIZE)))
      (m.bytes (stackPage sz d) (a - (sz - PGSIZE) + 1))
      (m.bytes (stackPage sz d) (a - (sz - PGSIZE) + 2))
      (m.bytes (stackPage sz d) (a - (sz - PGSIZE) + 3))) := by
  rw [wordAt, h.byteAt_eq h1 (by omega), h.byteAt_eq (by omega) (by omega),
    h.byteAt_eq (by omega) (by omega), h.byteAt_eq (by omega) (by omega), Nat.sub_add_comm h1,
    Nat.sub_add_comm h1, Nat.sub_add_comm h1]
  rfl

/-- The bytes of a word make up the word. -/
lemma wordOf_wordBytes {w : Nat} (h : w < 2 ^ 32) :
    wordOf (UInt8.ofNat w) (UInt8.ofNat (w / 256)) (UInt8.ofNat (w / 65536))
      (UInt8.ofNat (w / 16777216)) = w := by
  simp only [wordOf, UInt8.toNat_ofNat']
  omega

lemma getElem?_flatMap_wordBytes (l : List Nat) (i j : Nat) (hj : j < 4) :
    (l.flatMap wordBytes)[4 * i + j]? = l[i]?.bind fun w => (wordBytes w)[j]? := by
  induction l generalizing i with
  | nil => simp
  | cons w l ih =>
    have hlen : (wordBytes w).length = 4 := rfl
    rw [List.flatMap_cons]
    cases i with
    | zero =>
      rw [Nat.mul_zero, Nat.zero_add, List.getElem?_append_left (by omega)]
      rfl
    | succ i =>
      rw [List.getElem?_append_right (by omega), hlen, List.getElem?_cons_succ, ← ih]
      congr 1
      omega

/-- A word of a list that has been stored. -/
lemma bytes_write_words (m : Mem) (y o : Nat) {l : List Nat} {i w : Nat} (hi : l[i]? = some w) (j : Nat)
    (hj : j < 4) :
    some ((m.write y o (l.flatMap wordBytes)).bytes y (o + 4 * i + j)) = (wordBytes w)[j]? := by
  have hlt : i < l.length := (List.getElem?_eq_some_iff.mp hi).1
  have hlen := length_flatMap_wordBytes l
  have hget := getElem?_flatMap_wordBytes l i j hj
  have hsub : o + 4 * i + j - o = 4 * i + j := by omega
  rw [hi, Option.bind_some] at hget
  rw [Mem.bytes_write, if_pos ⟨rfl, by omega, by omega⟩, hsub, ← hget, List.getD_eq_getElem?_getD]
  rw [List.getElem?_eq_getElem (by omega)]
  rfl

/-! ### The strings in the stack page -/

/-- The address of a string is below the strings pushed before it by the space it takes. -/
lemma getElem?_pointers (sp : Nat) (argv : List (List UInt8)) (i : Nat) {p : Nat}
    (h : (pointers sp argv)[i]? = some p) : p = sp - roomFor (argv.take (i + 1)) := by
  induction argv generalizing sp i with
  | nil => simp [pointers] at h
  | cons s l ih =>
    rw [pointers] at h
    rw [List.take_succ_cons, roomFor_cons, Nat.sub_add_eq]
    cases i with
    | zero => simpa using h.symm
    | succ i => exact ih _ i (by simpa using h)

lemma roomFor_take_succ {i : Nat} (h : argv[i]? = some s) :
    roomFor (argv.take (i + 1)) = roomFor (argv.take i) + room s := by
  rw [List.take_add_one, h, Option.toList_some, roomFor, List.map_append, List.sum_append]
  rfl

lemma roomFor_take_mono (argv : List (List UInt8)) {i j : Nat} (h : i ≤ j) :
    roomFor (argv.take i) ≤ roomFor (argv.take j) := by
  obtain ⟨k, rfl⟩ := Nat.exists_eq_add_of_le h
  rw [List.take_add, roomFor, roomFor, List.map_append, List.sum_append]
  exact Nat.le_add_right _ _

lemma roomFor_take_le (argv : List (List UInt8)) (i : Nat) :
    roomFor (argv.take i) ≤ roomFor argv := by
  rcases Nat.le_total i argv.length with h | h
  · have := roomFor_take_mono argv h
    rwa [List.take_length] at this
  · rw [List.take_of_length_le h]

/-- Nothing but the space of the strings is written. -/
lemma storeArgs_outside {y lo : Nat} {x o : Nat} (hfit : lo + roomFor argv ≤ sp)
    (h : x ≠ y ∨ o < sp - roomFor argv - lo ∨ sp - lo ≤ o) :
    (storeArgs y lo sp argv m).bytes x o = m.bytes x o := by
  induction argv generalizing sp m with
  | nil => rfl
  | cons s l ih =>
    have hroom := length_lt_room s
    rw [roomFor_cons] at hfit h
    rw [storeArgs, ih (by omega) (by omega), Mem.bytes_write, if_neg]
    rintro ⟨rfl, h1, h2⟩
    rw [List.length_append, List.length_singleton] at h2
    omega

/-- Every string is there. -/
lemma storeArgs_string {y lo : Nat} {i j : Nat} {b : UInt8} (hfit : lo + roomFor argv ≤ sp)
    (hi : argv[i]? = some s) (hj : (s ++ [0])[j]? = some b) :
    (storeArgs y lo sp argv m).bytes y (sp - roomFor (argv.take (i + 1)) - lo + j) = b := by
  induction argv generalizing sp m i with
  | nil => simp at hi
  | cons t l ih =>
    rw [roomFor_cons] at hfit
    rw [List.take_succ_cons, roomFor_cons, Nat.sub_add_eq, storeArgs]
    cases i with
    | zero =>
      obtain rfl : t = s := by simpa using hi
      obtain ⟨hlt, hb⟩ := List.getElem?_eq_some_iff.mp hj
      rw [List.take_zero, roomFor_nil, Nat.sub_zero, storeArgs_outside (by omega) (by omega),
        Mem.bytes_write, if_pos ⟨rfl, by omega, by omega⟩, Nat.add_sub_cancel_left,
        List.getD_eq_getElem?_getD, hj]
      rfl
    | succ i => exact ih (by omega) (by simpa using hi)

section Frame

variable (h : StackImage sz d) (hfit : Fits argv)

include h hfit

/-- A word of the frame. -/
lemma storeStack_word (hm : m'.bytes (stackPage sz d) =
      (storeStack (stackPage sz d) sz argv m).bytes (stackPage sz d)) {i w : Nat}
    (hi : (ustack (sz - roomFor argv) (pointers sz argv))[i]? = some w) (hw : w < 2 ^ 32) :
    wordAt d m' (sz - roomFor argv - frameRoom argv + 4 * i) = some w := by
  have htwo := h.two
  have hlt : i < argv.length + 4 := by
    rw [← length_pointers sz argv, ← length_ustack (sz - roomFor argv)]
    exact (List.getElem?_eq_some_iff.mp hi).1
  have hroom : frameRoom argv = 4 * (argv.length + 4) := rfl
  unfold Fits at hfit
  have hword : ∀ j < 4, some (m'.bytes (stackPage sz d)
      (PGSIZE - roomFor argv - frameRoom argv + 4 * i + j)) = (wordBytes w)[j]? := by
    intro j hj
    rw [hm, storeStack]
    exact bytes_write_words _ _ _ hi j hj
  have hoff : sz - roomFor argv - frameRoom argv + 4 * i - (sz - PGSIZE) =
      PGSIZE - roomFor argv - frameRoom argv + 4 * i := by omega
  have hword₀ := hword 0 (by omega)
  rw [Nat.add_zero] at hword₀
  rw [h.wordAt_eq (by omega) (by omega), hoff, Option.some.inj hword₀,
    Option.some.inj (hword 1 (by omega)), Option.some.inj (hword 2 (by omega)),
    Option.some.inj (hword 3 (by omega)), wordOf_wordBytes hw]

/-- What is stored is a frame for `main`. -/
lemma mainFrame_storeStack (hargs : argv.length < MAXARG) (hm : m'.bytes (stackPage sz d) =
      (storeStack (stackPage sz d) sz argv m).bytes (stackPage sz d)) :
    MainFrame sz argv (pointers sz argv) d (sz - roomFor argv - frameRoom argv) m' := by
  have htwo := h.two
  have hlt := h.lt_two_pow
  have hlen := length_pointers sz argv
  have hroom : frameRoom argv = 4 * (argv.length + 4) := rfl
  have hfit' := hfit
  unfold Fits at hfit'
  have hfits : sz - PGSIZE + roomFor argv ≤ sz := by omega
  have hword {i w : Nat} (hi : (ustack (sz - roomFor argv) (pointers sz argv))[i]? = some w)
      (hw : w < 2 ^ 32) := storeStack_word h hfit hm hi hw
  refine ⟨hlen, hword (i := 0) rfl (by decide), ?_, ?_, fun i p hp => ?_, ?_,
    fun i p s hp hs j b hb => ?_, h.guard, by omega, fun i p s hp hs => ?_,
    fun i j p q s hij hp hq hs => ?_⟩
  · rw [← hlen]
    refine hword (i := 1) rfl ?_
    rw [hlen]
    exact hargs.trans (by decide)
  · have harray : (ustack (sz - roomFor argv) (pointers sz argv))[2]? =
        some (sz - roomFor argv - frameRoom argv + 12) := by
      change some ((2 ^ 32 + (sz - roomFor argv) - ((pointers sz argv).length + 1) * 4) % 2 ^ 32) = _
      rw [hlen]
      congr 1
      omega
    exact hword (i := 2) harray (by omega)
  · have hp' := getElem?_pointers sz argv i hp
    have := hword (i := 3 + i) (w := p) ?_ (by omega)
    · rw [← this]
      congr 1
      omega
    · have hi : i < (pointers sz argv).length := (List.getElem?_eq_some_iff.mp hp).1
      rw [ustack, List.append_assoc, List.getElem?_append_right (by simp),
        List.getElem?_append_left (by simp; omega), ← hp]
      congr 1
      simp
  · have := hword (i := 3 + argv.length) (w := 0) ?_ (by decide)
    · rw [← this]
      congr 1
      omega
    · rw [ustack, List.append_assoc, List.getElem?_append_right (by simp),
        List.getElem?_append_right (by simp; omega)]
      simp [hlen]
  · have hp' := getElem?_pointers sz argv i hp
    have hle := roomFor_take_le argv (i + 1)
    have hsucc := roomFor_take_succ hs
    have hj := (List.getElem?_eq_some_iff.mp hb).1
    have hroom' := length_lt_room s
    rw [List.length_append, List.length_singleton] at hj
    rw [h.byteAt_eq (by omega) (by omega), hm, storeStack, Mem.bytes_write, if_neg]
    · have := storeArgs_string (m := m) (y := stackPage sz d) hfits hs hb
      have hoff : p + j - (sz - PGSIZE) =
          sz - roomFor (argv.take (i + 1)) - (sz - PGSIZE) + j := by omega
      rw [hoff, this]
    · rw [length_flatMap_wordBytes, length_ustack, hlen]
      rintro ⟨-, -, h2⟩
      omega
  · have hp' := getElem?_pointers sz argv i hp
    have hle := roomFor_take_le argv (i + 1)
    have hsucc := roomFor_take_succ hs
    have hroom' := length_lt_room s
    omega
  · have hp' := getElem?_pointers sz argv i hp
    have hq' := getElem?_pointers sz argv j hq
    have hle := roomFor_take_le argv (j + 1)
    have hmono : roomFor (argv.take (i + 1)) ≤ roomFor (argv.take j) := roomFor_take_mono argv hij
    have hsucc := roomFor_take_succ hs
    have hroom' := length_lt_room s
    omega

end Frame

end Xv6.Program
