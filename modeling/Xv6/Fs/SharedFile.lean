import Xv6.Fs.ByteFiles

/-!
# Writing through a shared descriptor

`filewrite` cuts a write into transactions of a few blocks. Each of them takes the lock of the inode,
writes at the offset of the file and advances it; between them other processes that share the file
may write. The offset advances exactly by what was written, so the pieces follow one another in the
file in the order in which they were written.
-/

namespace Xv6.Fs

open Disk Fallible Splice TransitionSystem

/-- `struct file` of an open inode. -/
structure File where
  writable : Bool
  ip : Nat
  off : UInt32

/-- `((MAXOPBLOCKS-1-1-2) / 2) * 512` -/
def maxChunk : Nat := (MAXOPBLOCKS - 1 - 1 - 2) / 2 * 512

section

variable (sb : Superblock) (dev : Devsw)

/-- The part of the loop between `begin_op` and `end_op`: `ilock`, `writei` at the offset of the
file, which is advanced, and `iunlock`. -/
def writeChunk (s : State) (f : File) (src : List UInt8) :
    Except Fault (Option Nat × State × File) := do
  let (r, s) ← s.writei sb dev f.ip f.off src
  match r with
  | some n => return (r, s, if 0 < n then { f with off := f.off + UInt32.ofNat n } else f)
  | none => return (r, s, f)

/-- One round of the loop of `filewrite`, with `i` bytes written; the flag tells whether there is
another round. -/
def writeRound (s : State) (f : File) (src : List UInt8) (i : Nat) :
    Except Fault (Nat × Bool × State × File) :=
  if i < src.length then do
    let n1 := min (src.length - i) maxChunk
    let (r, s, f) ← writeChunk sb dev s f ((src.drop i).take n1)
    match r with
    | none => return (i, false, s, f)
    | some n => if n = n1 then return (i + n, true, s, f) else .error (.panic "short filewrite")
  else return (i, false, s, f)

def filewriteLoop : Nat → State → File → List UInt8 → Nat → Except Fault (Nat × State × File)
  | 0, s, f, _, i => .ok (i, s, f)
  | fuel + 1, s, f, src, i => do
    let (i, more, s, f) ← writeRound sb dev s f src i
    if more then filewriteLoop fuel s f src i else return (i, s, f)

/-- `filewrite` of the bytes `src` to an open inode, by a process that runs alone; the result `none`
is -1. Every round but the last writes at least one byte. -/
def filewrite (s : State) (f : File) (src : List UInt8) :
    Except Fault (Option Nat × State × File) :=
  if f.writable = false then .ok (none, s, f)
  else do
    let (i, s, f) ← filewriteLoop sb dev (src.length + 1) s f src 0
    return (if i = src.length then some src.length else none, s, f)

end

variable {sb : Superblock} (dev : Devsw) {s s' : State} {f f' : File} {src : List UInt8} {i : Nat}

/-! ### One round -/

/-- What a round does when it writes the bytes of `src` from `i` up to `i'`. -/
structure Rounded (sb : Superblock) (s : State) (f : File) (src : List UInt8) (i i' : Nat)
    (s' : State) (f' : File) : Prop where
  coherent : Coherent sb s'
  types : ∀ j, j < sb.ninodes → (dinode sb s'.disk j).type = (dinode sb s.disk j).type
  writable : f'.writable = f.writable
  ip : f'.ip = f.ip
  le : i ≤ i'
  le_length : i' ≤ src.length
  file : s'.files sb f.ip = splice (s.files sb f.ip) f.off.toNat ((src.drop i).take (i' - i))
  fits : i < i' → f.off.toNat ≤ (s.files sb f.ip).length
  off : f'.off.toNat = f.off.toNat + (i' - i)
  others : ∀ j, j < sb.ninodes → j ≠ f.ip → (dinode sb s.disk j).type ≠ 0 →
    s'.files sb j = s.files sb j
  paid : ∀ K, (s'.files sb f.ip).length ≤ K * BSIZE →
    Paid sb K s.disk (dinode sb s.disk f.ip) s'.disk (dinode sb s'.disk f.ip)

lemma Rounded.of_disk (h : Coherent sb s') (hdisk : s'.disk = s.disk) (hi : i ≤ src.length) :
    Rounded sb s f src i i s' f where
  coherent := h
  types j _ := by rw [hdisk]
  writable := rfl
  ip := rfl
  le := le_rfl
  le_length := hi
  file := by rw [Nat.sub_self, List.take_zero, splice_nil, State.files, State.files, hdisk]
  fits hlt := absurd hlt (Nat.lt_irrefl i)
  off := by rw [Nat.sub_self, Nat.add_zero]
  others j _ _ _ := by rw [State.files, State.files, hdisk]
  paid K _ := by
    rw [hdisk]
    exact Paid.refl

lemma toNat_add_ofNat {x : UInt32} {n : Nat} (h : x.toNat + n < 2 ^ 32) :
    (x + UInt32.ofNat n).toNat = x.toNat + n := by
  rw [UInt32.toNat_add, UInt32.toNat_ofNat', Nat.mod_eq_of_lt (show n < 2 ^ 32 by omega),
    Nat.mod_eq_of_lt h]

/-- A chunk that is written. -/
lemma Coherent.rounded {n1 : Nat} {g : List UInt8} (hn : i + n1 ≤ src.length)
    (hw : writeFile (s.files sb f.ip) f.off.toNat ((src.drop i).take n1) = some g)
    (h' : Coherent sb s') (hwrote : Wrote sb s.disk f.ip g s'.disk)
    (hoff : f'.off = f.off + UInt32.ofNat n1) (hip : f'.ip = f.ip)
    (hwritable : f'.writable = f.writable) : Rounded sb s f src i (i + n1) s' f' := by
  have hlen : ((src.drop i).take n1).length = n1 := by
    rw [List.length_take, List.length_drop]
    omega
  obtain ⟨hg, hle, hmax, -⟩ := writeFile_some hw
  rw [hlen] at hmax
  refine ⟨h', hwrote.types, hwritable, hip, Nat.le_add_right _ _, hn, ?_, fun _ => ?_, ?_,
    hwrote.others, fun K hK => hwrote.paid K ?_⟩
  · rw [Nat.add_sub_cancel_left, State.files, hwrote.file, hg]
    rfl
  · rwa [State.files, length_contents]
  · rw [Nat.add_sub_cancel_left, hoff, toNat_add_ofNat]
    simp only [MAXFILE, BSIZE, NDIRECT, NINDIRECT, BWORDS] at hmax
    omega
  · rwa [State.files, hwrote.file] at hK

/-- `writei` refuses the next piece. -/
def Refuses (sb : Superblock) (s : State) (f : File) (src : List UInt8) (i : Nat) : Prop :=
  writeFile (s.files sb f.ip) f.off.toNat ((src.drop i).take (min (src.length - i) maxChunk)) = none

/-- A round writes a piece and goes on, or it writes nothing and stops. -/
lemma Coherent.writeRound_ensures (h : Coherent sb s) (hi : InUse sb s.disk f.ip)
    (hlen : src.length < 2 ^ 31) (hle : i ≤ src.length) :
    Ensures (writeRound sb dev s f src i) fun x =>
      Rounded sb s f src i x.1 x.2.2.1 x.2.2.2 ∧ (x.2.1 = true ↔ i < x.1) ∧
      (x.2.1 = false → i = src.length ∨ Refuses sb s f src i) := by
  unfold writeRound
  split_ifs with hlt
  · dsimp only
    generalize hn1 : min (src.length - i) maxChunk = n1
    have hpos : 0 < n1 := by
      have : 0 < maxChunk := by decide
      omega
    have hpiece : ((src.drop i).take n1).length = n1 := by
      rw [List.length_take, List.length_drop]
      omega
    unfold writeChunk
    cases hw : writeFile (s.files sb f.ip) f.off.toNat ((src.drop i).take n1) with
    | none =>
      obtain ⟨s', hs', hdisk, h'⟩ := h.writei_refused dev hi (by omega) hw
      rw [hs']
      refine Ensures.ok ⟨Rounded.of_disk h' hdisk hle, by simp, fun _ => Or.inr ?_⟩
      rwa [Refuses, hn1]
    | some g =>
      refine Ensures.bind (Ensures.bind (h.writei_accepted dev hi (by omega) hw)
        (S := fun y => y.1 = some n1 ∧ Rounded sb s f src i (i + n1) y.2.1 y.2.2) ?_) ?_
      · rintro ⟨r, s'⟩ ⟨hr, h', hwrote⟩
        dsimp only at hr h' hwrote ⊢
        subst hr
        rw [hpiece]
        refine Ensures.pure ⟨rfl, Coherent.rounded (by omega) hw h' hwrote ?_ ?_ ?_⟩ <;>
          dsimp only <;> rw [if_pos hpos]
      · rintro ⟨r, s', f'⟩ ⟨hr, hround⟩
        dsimp only at hr hround ⊢
        subst hr
        dsimp only
        rw [if_pos rfl]
        exact Ensures.pure ⟨hround, by simp [hpos], nofun⟩
  · obtain rfl : i = src.length := by omega
    exact Ensures.ok ⟨Rounded.of_disk h rfl le_rfl, by simp, fun _ => Or.inl rfl⟩

/-! ### A process that runs alone -/

/-- What the loop has done when it is at byte `k` of `src`. -/
structure Progress (sb : Superblock) (s : State) (f : File) (src : List UInt8) (k : Nat)
    (s' : State) (f' : File) : Prop where
  coherent : Coherent sb s'
  types : ∀ j, j < sb.ninodes → (dinode sb s'.disk j).type = (dinode sb s.disk j).type
  same : f'.writable = f.writable ∧ f'.ip = f.ip
  le : k ≤ src.length
  file : s'.files sb f.ip = splice (s.files sb f.ip) f.off.toNat (src.take k)
  fits : 0 < k → f.off.toNat ≤ (s.files sb f.ip).length
  off : f'.off.toNat = f.off.toNat + k
  others : ∀ j, j < sb.ninodes → j ≠ f.ip → (dinode sb s.disk j).type ≠ 0 →
    s'.files sb j = s.files sb j
  paid : ∀ K, (s'.files sb f.ip).length ≤ K * BSIZE →
    Paid sb K s.disk (dinode sb s.disk f.ip) s'.disk (dinode sb s'.disk f.ip)

lemma Progress.start (h : Coherent sb s) : Progress sb s f src 0 s f where
  coherent := h
  types _ _ := rfl
  same := ⟨rfl, rfl⟩
  le := Nat.zero_le _
  file := by rw [List.take_zero, splice_nil]
  fits hlt := absurd hlt (Nat.lt_irrefl 0)
  off := rfl
  others _ _ _ _ := rfl
  paid _ _ := Paid.refl

lemma take_add_piece {k k' : Nat} (hle : k ≤ k') (src : List UInt8) :
    src.take k ++ (src.drop k).take (k' - k) = src.take k' := by
  rw [← List.take_add, Nat.add_sub_cancel' hle]

lemma Progress.round {s₁ : State} {f₁ : File} {k k' : Nat} (h : Progress sb s f src k s₁ f₁)
    (hr : Rounded sb s₁ f₁ src k k' s' f') : Progress sb s f src k' s' f' := by
  have hlen : (src.take k).length = k := by
    rw [List.length_take]
    exact Nat.min_eq_left h.le
  have hfits : 0 < k' → f.off.toNat ≤ (s.files sb f.ip).length := by
    intro hpos
    rcases Nat.eq_zero_or_pos k with rfl | hk
    · have hoff := hr.fits hpos
      rwa [h.off, h.same.2, h.file, List.take_zero, splice_nil, Nat.add_zero] at hoff
    · exact h.fits hk
  have hle := hr.le
  have hfile : s'.files sb f.ip = splice (s.files sb f.ip) f.off.toNat (src.take k') := by
    rw [← h.same.2, hr.file, h.same.2, h.off, h.file]
    rcases Nat.eq_zero_or_pos k' with rfl | hpos
    · obtain rfl : k = 0 := by omega
      simp [splice_nil]
    · have hsplice : splice (splice (s.files sb f.ip) f.off.toNat (src.take k))
          (f.off.toNat + (src.take k).length) ((src.drop k).take (k' - k)) =
          splice (s.files sb f.ip) f.off.toNat (src.take k ++ (src.drop k).take (k' - k)) :=
        splice_splice (hfits hpos)
      rwa [hlen, take_add_piece hle] at hsplice
  refine ⟨hr.coherent, fun j hj => (hr.types j hj).trans (h.types j hj),
    ⟨hr.writable.trans h.same.1, hr.ip.trans h.same.2⟩, hr.le_length, hfile, hfits, ?_,
    fun j hj hji ht => ?_, fun K hK => ?_⟩
  · rw [hr.off, h.off]
    omega
  · rw [hr.others j hj (by rwa [h.same.2]) (by rwa [h.types j hj]), h.others j hj hji ht]
  · refine (h.paid K (hK.trans' ?_)).trans (h.same.2 ▸ hr.paid K (by rwa [h.same.2]))
    rw [h.file, hfile]
    rcases Nat.eq_zero_or_pos k' with rfl | hpos
    · obtain rfl : k = 0 := by omega
      exact le_rfl
    · rw [length_splice (hfits hpos), length_splice (hfits hpos), List.length_take,
        List.length_take]
      omega

/-- The loop ends when all bytes are written or a piece is refused. -/
lemma filewriteLoop_ensures (fuel : Nat) {s₁ : State} {f₁ : File} {k : Nat}
    (hi : InUse sb s.disk f.ip) (hlen : src.length < 2 ^ 31) (h : Progress sb s f src k s₁ f₁)
    (hfuel : src.length < fuel + k) :
    Ensures (filewriteLoop sb dev fuel s₁ f₁ src k) fun x =>
      Progress sb s f src x.1 x.2.1 x.2.2 ∧ (x.1 = src.length ∨ Refuses sb x.2.1 x.2.2 src x.1) := by
  induction fuel generalizing s₁ f₁ k with
  | zero =>
    have := h.le
    omega
  | succ fuel ih =>
    have hi₁ : InUse sb s₁.disk f₁.ip := by
      rw [h.same.2]
      exact hi.congr h.types
    refine Ensures.bind (h.coherent.writeRound_ensures dev hi₁ hlen h.le) ?_
    rintro ⟨k', more, s₂, f₂⟩ ⟨hround, hmore, hstop⟩
    dsimp only at hround hmore hstop ⊢
    cases more with
    | true =>
      have := hmore.mp rfl
      exact ih (h.round hround) (by omega)
    | false =>
      obtain rfl : k' = k := Nat.le_antisymm (Nat.le_of_not_lt fun hlt => by simpa using hmore.mpr hlt)
        hround.le
      refine Ensures.pure ⟨h.round hround, (hstop rfl).imp id fun hrefuses => ?_⟩
      have hfile := hround.file
      have hoff := hround.off
      rw [Nat.sub_self, List.take_zero, splice_nil] at hfile
      rw [Nat.sub_self, Nat.add_zero] at hoff
      unfold Refuses at *
      dsimp only
      rwa [hround.ip, hfile, hoff]

/-- With enough free blocks a round returns. -/
lemma Coherent.writeRound_succeeds {K : Nat} (h : Coherent sb s) (hi : InUse sb s.disk f.ip)
    (hlen : src.length < 2 ^ 31) (hfits : f.off.toNat ≤ (s.files sb f.ip).length)
    (hmax : f.off.toNat + (src.length - i) ≤ MAXFILE * BSIZE)
    (hK : max (s.files sb f.ip).length (f.off.toNat + (src.length - i)) ≤ K * BSIZE)
    (hfree : missing s.disk (dinode sb s.disk f.ip) K ≤ freeBlocks sb s.disk) :
    ∃ x, writeRound sb dev s f src i = .ok x := by
  unfold writeRound
  split_ifs with hlt
  · dsimp only
    generalize hn1 : min (src.length - i) maxChunk = n1
    have hpiece : ((src.drop i).take n1).length = n1 := by
      rw [List.length_take, List.length_drop]
      omega
    have hw : writeFile (s.files sb f.ip) f.off.toNat ((src.drop i).take n1) =
        some (splice (s.files sb f.ip) f.off.toNat ((src.drop i).take n1)) := by
      rw [writeFile, if_neg]
      rw [hpiece]
      simp only [MAXFILE, BSIZE, NDIRECT, NINDIRECT, BWORDS] at *
      omega
    have hblocks : fileBlocks (splice (s.files sb f.ip) f.off.toNat ((src.drop i).take n1)).length ≤ K := by
      rw [length_splice hfits, hpiece]
      simp only [fileBlocks, BSIZE] at *
      omega
    obtain ⟨⟨r, s'⟩, hs'⟩ := h.writei_succeeds dev hi hw
      ((missing_mono hblocks).trans hfree)
    obtain ⟨hr, -, -⟩ := h.writei_accepted dev hi (by omega) hw _ hs'
    dsimp only at hr
    subst hr
    rw [writeChunk, hs']
    dsimp only [bind, Except.bind, pure, Except.pure]
    rw [hpiece, if_pos rfl]
    exact ⟨_, rfl⟩
  · exact ⟨_, rfl⟩

/-- The bytes can be written at the offset of the file, and there are blocks for them. -/
structure Room (sb : Superblock) (s : State) (f : File) (n K : Nat) : Prop where
  fits : f.off.toNat ≤ (s.files sb f.ip).length
  limit : f.off.toNat + n ≤ MAXFILE * BSIZE
  blocks : max (s.files sb f.ip).length (f.off.toNat + n) ≤ K * BSIZE
  free : missing s.disk (dinode sb s.disk f.ip) K ≤ freeBlocks sb s.disk

/-- What is left to write has room when all of it had. -/
lemma Progress.room {s₁ : State} {f₁ : File} {k K : Nat} (h : Progress sb s f src k s₁ f₁)
    (hroom : Room sb s f src.length K) : Room sb s₁ f₁ (src.length - k) K := by
  have hle := h.le
  have hlen : (s₁.files sb f.ip).length = max (s.files sb f.ip).length (f.off.toNat + k) := by
    rw [h.file, length_splice hroom.fits, List.length_take, Nat.min_eq_left hle]
  have hmax := hroom.limit
  have hblocks := hroom.blocks
  have hfree := hroom.free
  have hpaid := h.paid K (by rw [hlen]; omega)
  unfold Paid at hpaid
  refine ⟨?_, ?_, ?_, ?_⟩
  · rw [h.same.2, h.off, hlen]
    exact Nat.le_max_right _ _
  · rw [h.off]
    omega
  · rw [h.same.2, h.off, hlen]
    omega
  · rw [h.same.2]
    omega

lemma filewriteLoop_succeeds (fuel : Nat) {s₁ : State} {f₁ : File} {k K : Nat}
    (hi : InUse sb s.disk f.ip) (hlen : src.length < 2 ^ 31) (hroom : Room sb s f src.length K)
    (h : Progress sb s f src k s₁ f₁) : ∃ x, filewriteLoop sb dev fuel s₁ f₁ src k = .ok x := by
  induction fuel generalizing s₁ f₁ k with
  | zero => exact ⟨_, rfl⟩
  | succ fuel ih =>
    have hi₁ : InUse sb s₁.disk f₁.ip := by
      rw [h.same.2]
      exact hi.congr h.types
    have hroom₁ := h.room hroom
    obtain ⟨⟨k', more, s₂, f₂⟩, hround⟩ := h.coherent.writeRound_succeeds dev hi₁ hlen
      hroom₁.fits hroom₁.limit hroom₁.blocks hroom₁.free
    obtain ⟨hr, -⟩ := h.coherent.writeRound_ensures dev hi₁ hlen h.le _ hround
    rw [filewriteLoop, hround]
    dsimp only [bind, Except.bind]
    split_ifs
    · exact ih (h.round hr)
    · exact ⟨_, rfl⟩

/-- What has room is not refused. -/
lemma Room.not_refuses {K k : Nat} (h : Room sb s f (src.length - k) K) : ¬ Refuses sb s f src k := by
  intro hrefuses
  have hmax := h.limit
  have hfits := h.fits
  unfold Refuses writeFile at hrefuses
  split_ifs at hrefuses with hfail
  rw [List.length_take, List.length_drop] at hfail
  simp only [MAXFILE, BSIZE, NDIRECT, NINDIRECT, BWORDS] at *
  omega

/-- What `filewrite` has done when it returns. -/
lemma Coherent.filewrite_ensures (h : Coherent sb s) (hi : InUse sb s.disk f.ip)
    (hwritable : f.writable = true) (hlen : src.length < 2 ^ 31) :
    Ensures (filewrite sb dev s f src) fun x => ∃ k, Progress sb s f src k x.2.1 x.2.2 ∧
      (k = src.length ∨ Refuses sb x.2.1 x.2.2 src k) ∧
      x.1 = if k = src.length then some src.length else none := by
  unfold filewrite
  rw [if_neg (by rw [hwritable]; decide)]
  refine Ensures.bind (filewriteLoop_ensures dev (src.length + 1) hi hlen (Progress.start h) (by omega)) ?_
  rintro ⟨k, s', f'⟩ ⟨hprogress, hend⟩
  exact Ensures.pure ⟨k, hprogress, hend, rfl⟩

/-- `filewrite` writes everything when there is room for it. -/
lemma Coherent.filewrite_room {K : Nat} (h : Coherent sb s) (hi : InUse sb s.disk f.ip)
    (hwritable : f.writable = true) (hlen : src.length < 2 ^ 31)
    (hroom : Room sb s f src.length K) :
    ∃ s' f', filewrite sb dev s f src = .ok (some src.length, s', f') ∧
      Progress sb s f src src.length s' f' := by
  obtain ⟨⟨k, s', f'⟩, hloop⟩ := filewriteLoop_succeeds dev (src.length + 1) hi hlen hroom
    (Progress.start h)
  obtain ⟨hprogress, hend⟩ := filewriteLoop_ensures dev (src.length + 1) hi hlen (Progress.start h)
    (by omega) _ hloop
  dsimp only at hprogress hend
  obtain rfl : k = src.length :=
    hend.resolve_right (hprogress.room hroom).not_refuses
  refine ⟨s', f', ?_, hprogress⟩
  rw [filewrite, if_neg (by rw [hwritable]; decide), hloop]
  dsimp only [bind, Except.bind, pure, Except.pure]
  rw [if_pos rfl]

/-! ### Processes that share the file -/

/-- A call of `filewrite` that has returned: its bytes, how many of them were written, and its
result. -/
structure Returned where
  src : List UInt8
  written : Nat
  result : Option Nat
  deriving DecidableEq

/-- The file system, the shared file, and the call of `filewrite` that each process is in, with the
number of bytes written. The chunks that were written and the calls that returned are recorded in
their order. -/
structure Shared (P : Type) where
  fs : State
  file : File
  proc : P → Option (List UInt8 × Nat)
  chunks : List (P × List UInt8)
  returned : List (P × Returned)

/-- What happens next: a process calls `filewrite` or takes the next round of its loop, or a call
comes by another way that does not write to the file. -/
inductive Event (P : Type)
  | call (p : P) (src : List UInt8)
  | round (p : P)
  | other (c : Call)

namespace Shared

variable {P : Type} [DecidableEq P]

/-- The round of the process `p` is over with `i'` bytes written. -/
def afterRound (s : Shared P) (p : P) (src : List UInt8) (i i' : Nat) (more : Bool) (fs : State)
    (file : File) : Shared P where
  fs := fs
  file := file
  proc := Function.update s.proc p (if more then some (src, i') else none)
  chunks := s.chunks ++ if more then [(p, (src.drop i).take (i' - i))] else []
  returned := s.returned ++
    if more then [] else [(p, ⟨src, i', if i' = src.length then some src.length else none⟩)]

def exec (sb : Superblock) (dev : Devsw) (s : Shared P) : Event P → Option (Shared P)
  | .call p src =>
    if s.proc p = none ∧ src.length < 2 ^ 31 then
      some { s with proc := Function.update s.proc p (some (src, 0)) }
    else none
  | .round p =>
    match s.proc p with
    | none => none
    | some (src, i) =>
      match writeRound sb dev s.fs s.file src i with
      | .ok (i', more, fs, file) => some (s.afterRound p src i i' more fs file)
      | .error _ => none
  | .other c =>
    if c.Valid sb s.fs.disk ∧ c.Spares s.file.ip then
      match s.fs.call sb dev c with
      | .ok (_, fs) => some { s with fs := fs }
      | .error _ => none
    else none

def Step (sb : Superblock) (dev : Devsw) (s : Shared P) (e : Event P) (s' : Shared P) : Prop :=
  s.exec sb dev e = some s'

/-- The bytes written so far. -/
def data (s : Shared P) : List UInt8 := s.chunks.flatMap Prod.snd

/-- The bytes written by the process `p`. -/
def dataOf (s : Shared P) (p : P) : List UInt8 :=
  (s.chunks.filter fun x => x.1 = p).flatMap Prod.snd

/-- What the process `p` wrote in calls that returned. -/
def returnedOf (s : Shared P) (p : P) : List UInt8 :=
  (s.returned.filter fun x => x.1 = p).flatMap fun x => x.2.src.take x.2.written

/-- What the process `p` has written in the call it is in. -/
def current (s : Shared P) (p : P) : List UInt8 :=
  match s.proc p with
  | none => []
  | some (src, i) => src.take i

/-- With the old contents `g` and the first offset `o`: the chunks stand one behind the other from
`o` on, in the order in which they were written, and the offset is behind them. The chunks of each
process are, in its own order, the bytes that its calls wrote, and a call returned the number of its
bytes exactly when it wrote them all. -/
structure Orderly (sb : Superblock) (g : List UInt8) (o : Nat) (s : Shared P) : Prop where
  file : s.fs.files sb s.file.ip = g.take o ++ s.data ++ g.drop (o + s.data.length)
  off : s.file.off.toNat = o + s.data.length
  own : ∀ p, s.dataOf p = s.returnedOf p ++ s.current p
  results : ∀ x ∈ s.returned, x.2.written ≤ x.2.src.length ∧
    x.2.result = if x.2.written = x.2.src.length then some x.2.src.length else none

/-- The state of a run of processes that share a file. -/
structure Inv (sb : Superblock) (g : List UInt8) (o : Nat) (s : Shared P) : Prop where
  orderly : s.Orderly sb g o
  coherent : Coherent sb s.fs
  inUse : InUse sb s.fs.disk s.file.ip
  fits : s.data ≠ [] → o ≤ g.length
  proc : ∀ p src i, s.proc p = some (src, i) → i ≤ src.length ∧ src.length < 2 ^ 31

variable {g : List UInt8} {o : Nat} {s s' : Shared P} {p : P}

lemma Inv.call (h : Inv sb g o s) {src : List UInt8} (hp : s.proc p = none)
    (hlen : src.length < 2 ^ 31) :
    Inv sb g o { s with proc := Function.update s.proc p (some (src, 0)) } := by
  refine ⟨⟨h.orderly.file, h.orderly.off, fun q => ?_, h.orderly.results⟩, h.coherent, h.inUse,
    h.fits, fun q src' i hq => ?_⟩
  · refine (h.orderly.own q).trans (congrArg (s.returnedOf q ++ ·) ?_)
    unfold current
    by_cases hqp : q = p
    · subst hqp
      simp only [hp, Function.update_self, List.take_zero]
    · simp only [Function.update_of_ne hqp]
  · dsimp only at hq
    by_cases hqp : q = p
    · subst hqp
      rw [Function.update_self] at hq
      cases hq
      exact ⟨Nat.zero_le _, hlen⟩
    · rw [Function.update_of_ne hqp] at hq
      exact h.proc q src' i hq

/-- What a round adds to the chunks. -/
lemma data_afterRound (s : Shared P) (p : P) (src : List UInt8) {i i' : Nat} {more : Bool}
    (hmore : more = true ↔ i < i') (fs : State) (file : File) (hle : i ≤ i') :
    (s.afterRound p src i i' more fs file).data = s.data ++ (src.drop i).take (i' - i) := by
  cases more with
  | true => simp [data, afterRound]
  | false =>
    obtain rfl : i' = i := Nat.le_antisymm (Nat.le_of_not_lt fun hlt => by simpa using hmore.mpr hlt) hle
    simp [data, afterRound]

lemma own_afterRound {src : List UInt8} {i i' : Nat} {more : Bool} (hp : s.proc p = some (src, i))
    (hmore : more = true ↔ i < i') (fs : State) (file : File) (hle : i ≤ i')
    (hown : ∀ q, s.dataOf q = s.returnedOf q ++ s.current q) (q : P) :
    (s.afterRound p src i i' more fs file).dataOf q =
      (s.afterRound p src i i' more fs file).returnedOf q ++
        (s.afterRound p src i i' more fs file).current q := by
  have hq := hown q
  unfold dataOf returnedOf current at *
  by_cases hqp : q = p
  · subst hqp
    rw [hp] at hq
    cases more with
    | true =>
      simp only [afterRound, if_true, List.append_nil, Function.update_self, List.filter_append,
        List.flatMap_append, hq]
      simp [take_add_piece hle]
    | false =>
      obtain rfl : i' = i :=
        Nat.le_antisymm (Nat.le_of_not_lt fun hlt => by simpa using hmore.mpr hlt) hle
      simp [afterRound, hq]
  · cases more <;> simp [afterRound, Function.update_of_ne hqp, Ne.symm hqp, hq]

lemma Inv.round (h : Inv sb g o s) {src : List UInt8} {i i' : Nat} {more : Bool} {fs : State}
    {file : File} (hp : s.proc p = some (src, i))
    (hround : writeRound sb dev s.fs s.file src i = .ok (i', more, fs, file)) :
    Inv sb g o (s.afterRound p src i i' more fs file) := by
  obtain ⟨hi, hlen⟩ := h.proc p src i hp
  obtain ⟨hr, hmore, -⟩ := h.coherent.writeRound_ensures dev h.inUse hlen hi _ hround
  dsimp only at hr hmore
  have hdata := s.data_afterRound p src hmore fs file hr.le
  have hpiece : ((src.drop i).take (i' - i)).length = i' - i := by
    have := hr.le_length
    rw [List.length_take, List.length_drop]
    omega
  have hold : s.fs.files sb s.file.ip = splice g o s.data := h.orderly.file
  have hfits : (s.afterRound p src i i' more fs file).data ≠ [] → o ≤ g.length := by
    intro hne
    by_cases hnil : s.data = []
    · have hlt : i < i' := by
        by_contra hge
        rw [hdata, hnil, show i' - i = 0 by omega] at hne
        exact hne rfl
      have hoff := hr.fits hlt
      rwa [h.orderly.off, hold, hnil, splice_nil, List.length_nil, Nat.add_zero] at hoff
    · exact h.fits hnil
  refine ⟨⟨?_, ?_, own_afterRound hp hmore fs file hr.le h.orderly.own, fun x hx => ?_⟩,
    hr.coherent, ?_, hfits, fun q src' k hq => ?_⟩
  · show fs.files sb file.ip = splice g o _
    rw [hr.ip, hr.file, hold, h.orderly.off, hdata]
    by_cases hnil : (s.afterRound p src i i' more fs file).data = []
    · rw [hdata, List.append_eq_nil_iff] at hnil
      rw [hnil.1, hnil.2, splice_nil, splice_nil, List.append_nil, splice_nil]
    · exact splice_splice (hfits hnil)
  · show file.off.toNat = _
    rw [hr.off, h.orderly.off, hdata, List.length_append, hpiece]
    omega
  · rcases List.mem_append.mp hx with hx | hx
    · exact h.orderly.results x hx
    · cases more with
      | true => exact absurd hx List.not_mem_nil
      | false =>
        obtain rfl := List.mem_singleton.mp hx
        exact ⟨hr.le_length, rfl⟩
  · show InUse sb fs.disk file.ip
    rw [hr.ip]
    exact h.inUse.congr hr.types
  · dsimp only [afterRound] at hq
    by_cases hqp : q = p
    · subst hqp
      rw [Function.update_self] at hq
      cases more with
      | true =>
        cases hq
        exact ⟨hr.le_length, hlen⟩
      | false => cases hq
    · rw [Function.update_of_ne hqp] at hq
      exact h.proc q src' k hq

lemma Inv.other (h : Inv sb g o s) {c : Call} {r : Result} {fs : State}
    (hc : c.Valid sb s.fs.disk) (hspares : c.Spares s.file.ip)
    (hcall : s.fs.call sb dev c = .ok (r, fs)) : Inv sb g o { s with fs := fs } := by
  obtain ⟨hcoherent, htypes, hfiles⟩ := h.coherent.call_ensures dev hc _ hcall
  have hfile := hfiles s.file.ip hspares h.inUse.1 h.inUse.2.1
  exact ⟨⟨hfile.trans h.orderly.file, h.orderly.off, h.orderly.own, h.orderly.results⟩, hcoherent,
    h.inUse.congr htypes, h.fits, h.proc⟩

lemma Inv.step (h : Inv sb g o s) {e : Event P} (hstep : s.Step sb dev e s') : Inv sb g o s' := by
  unfold Step exec at hstep
  cases e with
  | call p src =>
    dsimp only at hstep
    split_ifs at hstep with hcall
    cases hstep
    exact h.call hcall.1 hcall.2
  | round p =>
    dsimp only at hstep
    split at hstep
    · cases hstep
    · rename_i src i hp
      split at hstep
      · rename_i hround
        cases hstep
        exact h.round dev hp hround
      · cases hstep
  | other c =>
    dsimp only at hstep
    split_ifs at hstep with hc
    split at hstep
    · rename_i hcall
      cases hstep
      exact h.other dev hc.1 hc.2 hcall
    · cases hstep

/-- No process is in a call yet. -/
structure Start (sb : Superblock) (s : Shared P) : Prop where
  coherent : Coherent sb s.fs
  inUse : InUse sb s.fs.disk s.file.ip
  writable : s.file.writable = true
  proc : ∀ p, s.proc p = none
  chunks : s.chunks = []
  returned : s.returned = []

lemma Start.inv (h : Start sb s) :
    Inv sb (s.fs.files sb s.file.ip) s.file.off.toNat s := by
  have hdata : s.data = [] := by rw [data, h.chunks, List.flatMap_nil]
  refine ⟨⟨?_, ?_, fun p => ?_, fun x hx => ?_⟩, h.coherent, h.inUse, fun hne => absurd hdata hne,
    fun p src i hp => ?_⟩
  · rw [hdata]
    exact (splice_nil _ _).symm
  · rw [hdata, List.length_nil, Nat.add_zero]
  · rw [dataOf, returnedOf, current, h.chunks, h.returned, h.proc p]
    rfl
  · rw [h.returned] at hx
    exact absurd hx List.not_mem_nil
  · rw [h.proc p] at hp
    cases hp

end Shared

/-- Processes that share an open file do not lose each other's writes, whatever the order of their
rounds. A process that runs alone leaves what one `writei` of all its bytes leaves when that one
succeeds, and in any case it writes a first part of its bytes and returns their number exactly when
this part is all of them. -/
theorem shared_writes {P : Type} [DecidableEq P] {s : Shared P} (h : s.Start sb) :
    (∀ tr t, Run (Shared.Step sb dev) s tr t →
      AllStates (Shared.Orderly sb (s.fs.files sb s.file.ip) s.file.off.toNat) tr t) ∧
    (∀ src : List UInt8, src.length < 2 ^ 31 → ∀ ip d,
      writei sb dev s.fs.disk s.file.ip (dinode sb s.fs.disk s.file.ip) s.file.off src =
        .ok (some src.length, ip, d) →
      ∃ fs file, filewrite sb dev s.fs s.file src = .ok (some src.length, fs, file) ∧
        file.off.toNat = s.file.off.toNat + src.length ∧
        ∀ j, j < sb.ninodes → (dinode sb s.fs.disk j).type ≠ 0 →
          fs.files sb j = contents d (dinode sb d j)) ∧
    ∀ src : List UInt8, src.length < 2 ^ 31 → ∀ r fs file,
      filewrite sb dev s.fs s.file src = .ok (r, fs, file) →
      ∃ k, k ≤ src.length ∧
        fs.files sb s.file.ip = splice (s.fs.files sb s.file.ip) s.file.off.toNat (src.take k) ∧
        file.off.toNat = s.file.off.toNat + k ∧ (r = some src.length ↔ k = src.length) := by
  refine ⟨fun tr t hr => ?_, fun src hlen ip d hwritei => ?_, fun src hlen r fs file hwrite => ?_⟩
  · exact (hr.invariant (fun _ _ _ hs hstep => hs.step dev hstep) h.inv).mono fun _ hs => hs.orderly
  · have hi := h.inUse
    cases hw : writeFile (s.fs.files sb s.file.ip) s.file.off.toNat src with
    | none =>
      rw [writei_none sb dev _ hi.2.2 (by omega) hw] at hwritei
      cases hwritei
    | some g =>
      obtain ⟨-, hwrote⟩ := h.coherent.sound.writei_wrote dev hi.1 hi.2.1 hi.2.2 (by omega) hw _ hwritei
      obtain ⟨hsound, -⟩ := h.coherent.sound.writei_ensures dev hi.1 hi.2.1 _ src (by omega) _ hwritei
      obtain ⟨hg, hfits, hmax, hglen⟩ := writeFile_some hw
      have hfree := hwrote.free hsound hi
      have hroom : Room sb s.fs s.file src.length (fileBlocks g.length) := by
        refine ⟨by rwa [State.files, length_contents], hmax, ?_, by omega⟩
        rw [State.files, length_contents, ← hglen]
        simp only [fileBlocks, BSIZE]
        omega
      obtain ⟨fs, file, hfw, hprogress⟩ := h.coherent.filewrite_room dev hi h.writable hlen hroom
      refine ⟨fs, file, hfw, hprogress.off, fun j hj ht => ?_⟩
      by_cases hji : j = s.file.ip
      · subst hji
        rw [hwrote.file, hprogress.file, List.take_length, hg]
        rfl
      · rw [hwrote.others j hj hji ht, hprogress.others j hj hji ht]
        rfl
  · obtain ⟨k, hprogress, -, hr⟩ :=
      h.coherent.filewrite_ensures dev h.inUse h.writable hlen _ hwrite
    refine ⟨k, hprogress.le, hprogress.file, hprogress.off, ?_⟩
    dsimp only at hr
    rw [hr]
    split_ifs with hk <;> simp [hk]

/-- Two processes share an empty file. -/
def twoWriters : Shared Bool :=
  ⟨.boot oneFile, ⟨true, 1, 0⟩, fun _ => none, [], []⟩

/-- The second process writes its bytes between the call and the first round of the other. -/
theorem shared_writes_two_processes : ∃ tr t,
    Run (Shared.Step mkfsSuperblock ⟨fun _ _ => none, fun _ _ => none⟩) twoWriters tr t ∧
    t.fs.files mkfsSuperblock 1 = [3, 1, 2] ∧
    t.returned = [(false, ⟨[3], 1, some 1⟩), (true, ⟨[1, 2], 2, some 2⟩)] ∧
    AllStates (Shared.Orderly mkfsSuperblock [] 0) tr t := by
  have hstart : twoWriters.Start mkfsSuperblock :=
    ⟨coherent_oneFile, by decide +kernel, rfl, fun _ => rfl, rfl, rfl⟩
  have hempty : twoWriters.fs.files mkfsSuperblock twoWriters.file.ip = [] := by decide +kernel
  have hfollow : ((follow (Shared.exec mkfsSuperblock ⟨fun _ _ => none, fun _ _ => none⟩) twoWriters
      [.call true [1, 2], .call false [3], .round false, .round true, .round false,
        .round true]).map fun t => (t.fs.files mkfsSuperblock 1, t.returned)) =
      some ([3, 1, 2], [(false, ⟨[3], 1, some 1⟩), (true, ⟨[1, 2], 2, some 2⟩)]) := by
    decide +kernel
  obtain ⟨t, ht, hresult⟩ := Option.map_eq_some_iff.mp hfollow
  obtain ⟨tr, hr, -⟩ := Run.of_follow ht
  have horderly := (shared_writes ⟨fun _ _ => none, fun _ _ => none⟩ hstart).1 tr t hr
  rw [hempty] at horderly
  exact ⟨tr, t, hr, (Prod.mk.inj hresult).1, (Prod.mk.inj hresult).2, horderly⟩

end Xv6.Fs
