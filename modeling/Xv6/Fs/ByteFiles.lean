import Xv6.Fs.Operations
import Xv6.Fs.ReadWrite

/-!
# Files are byte strings

What the calls of `readi` and `writei` on the inodes of a disk return, and what they leave, is what
they would return and leave if every file were a string of bytes of its own.
-/

namespace Xv6.Fs

open Disk Fallible Splice

/-- A call on an inode, which is locked for it. -/
inductive Call
  | readi (i : Nat) (off n : UInt32)
  | writei (i : Nat) (off : UInt32) (src : List UInt8)

/-- What a call returns; `none` is -1. -/
inductive Result
  | bytes (r : Option (List UInt8))
  | count (r : Option Nat)
  deriving DecidableEq

/-! ### On the disk -/

section

variable (sb : Superblock) (dev : Devsw)

/-- `ilock`, `readi` and `iunlock`. -/
def State.readi (s : State) (i : Nat) (off n : UInt32) :
    Except Fault (Option (List UInt8) × State) := do
  let (ip, s) ← s.ilock sb i
  let (r, ip, d) ← Fs.readi sb dev s.disk ip off n
  return (r, ⟨d, Function.update s.mem i (some ip)⟩)

/-- `ilock`, `writei` and `iunlock`. -/
def State.writei (s : State) (i : Nat) (off : UInt32) (src : List UInt8) :
    Except Fault (Option Nat × State) := do
  let (ip, s) ← s.ilock sb i
  let (r, ip, d) ← Fs.writei sb dev s.disk i ip off src
  return (r, ⟨d, Function.update s.mem i (some ip)⟩)

def State.call (s : State) : Call → Except Fault (Result × State)
  | .readi i off n => do
    let (r, s) ← s.readi sb dev i off n
    return (.bytes r, s)
  | .writei i off src => do
    let (r, s) ← s.writei sb dev i off src
    return (.count r, s)

def State.calls : State → List Call → Except Fault (List Result × State)
  | s, [] => .ok ([], s)
  | s, c :: cs => do
    let (r, s) ← s.call sb dev c
    let (rs, s) ← s.calls cs
    return (r :: rs, s)

/-- The inode is allocated and no device. -/
def InUse (d : Disk) (i : Nat) : Prop :=
  i < sb.ninodes ∧ (dinode sb d i).type ≠ 0 ∧ (dinode sb d i).type ≠ T_DEV

/-- The inode is in use, and the length fits its argument. -/
def Call.Valid (d : Disk) : Call → Prop
  | .readi i _ _ => InUse sb d i
  | .writei i _ src => InUse sb d i ∧ src.length < 2 ^ 32

instance (d : Disk) (i : Nat) : Decidable (InUse sb d i) := by
  unfold InUse
  infer_instance

instance (d : Disk) (c : Call) : Decidable (c.Valid sb d) := by
  cases c <;> unfold Call.Valid <;> infer_instance

end

/-! ### On byte strings -/

abbrev Files := Nat → List UInt8

def Files.call (F : Files) : Call → Result × Files
  | .readi i off n => (.bytes (readFile (F i) off.toNat n.toNat), F)
  | .writei i off src =>
    match writeFile (F i) off.toNat src with
    | none => (.count none, F)
    | some f => (.count (some src.length), Function.update F i f)

def Files.calls : Files → List Call → List Result × Files
  | F, [] => ([], F)
  | F, c :: cs => ((F.call c).1 :: ((F.call c).2.calls cs).1, ((F.call c).2.calls cs).2)

/-- The blocks by which the files grow. -/
def needed (sb : Superblock) (F F' : Files) : Nat :=
  ∑ i ∈ Finset.range sb.ninodes, (blocksFor (F' i).length - blocksFor (F i).length)

/-- The files on disk. -/
def State.files (sb : Superblock) (s : State) : Files :=
  fun i => contents s.disk (dinode sb s.disk i)

variable {sb : Superblock} (dev : Devsw) {s s' : State} {F F' : Files} {c : Call} {i : Nat}

/-! ### Files only grow -/

lemma length_le_writeFile {f f' src : List UInt8} {off : Nat} (h : writeFile f off src = some f') :
    f.length ≤ f'.length := by
  unfold writeFile at h
  split_ifs at h with hfail
  obtain rfl := Option.some.inj h
  rw [length_splice (by omega)]
  exact Nat.le_max_left _ _

lemma length_le_call (F : Files) (c : Call) (i : Nat) : (F i).length ≤ ((F.call c).2 i).length := by
  cases c with
  | readi j off n => exact le_rfl
  | writei j off src =>
    simp only [Files.call]
    split
    · exact le_rfl
    · rename_i f hf
      dsimp only
      by_cases hij : i = j
      · subst hij
        rw [Function.update_self]
        exact length_le_writeFile hf
      · rw [Function.update_of_ne hij]

lemma length_le_calls (F : Files) (cs : List Call) (i : Nat) :
    (F i).length ≤ ((F.calls cs).2 i).length := by
  induction cs generalizing F with
  | nil => exact le_rfl
  | cons c cs ih => exact (length_le_call F c i).trans (ih (F.call c).2)

/-- What a call needs is part of what all calls need. -/
lemma needed_add (sb : Superblock) (F : Files) (c : Call) (cs : List Call) :
    needed sb F (F.calls (c :: cs)).2 =
      needed sb F (F.call c).2 + needed sb (F.call c).2 (F.calls (c :: cs)).2 := by
  unfold needed
  rw [← Finset.sum_add_distrib]
  refine Finset.sum_congr rfl fun i _ => ?_
  have h₁ := blocksFor_mono (length_le_call F c i)
  have h₂ := blocksFor_mono (length_le_calls (F.call c).2 cs i)
  simp only [Files.calls]
  omega

lemma needed_update {i : Nat} (hi : i < sb.ninodes) (f : List UInt8) :
    needed sb F (Function.update F i f) = blocksFor f.length - blocksFor (F i).length := by
  unfold needed
  rw [Finset.sum_eq_single i]
  · rw [Function.update_self]
  · intro j _ hji
    rw [Function.update_of_ne hji, Nat.sub_self]
  · intro hno
    exact absurd (Finset.mem_range.mpr hi) hno

/-! ### One call -/

/-- The byte strings `F` are the files of the allocated inodes. -/
def Agrees (sb : Superblock) (s : State) (F : Files) : Prop :=
  ∀ j, j < sb.ninodes → (dinode sb s.disk j).type ≠ 0 → s.files sb j = F j

lemma Coherent.ilock_ok (h : Coherent sb s) (hi : i < sb.ninodes)
    (ht : (dinode sb s.disk i).type ≠ 0) :
    ∃ s', s.ilock sb i = .ok (dinode sb s.disk i, s') ∧ s'.disk = s.disk ∧ Coherent sb s' := by
  unfold State.ilock
  cases hmem : s.mem i with
  | some ip =>
    obtain ⟨-, rfl, -⟩ := h.mem i ip hmem
    exact ⟨s, rfl, rfl, h⟩
  | none =>
    dsimp only
    rw [if_neg ht]
    exact ⟨_, rfl, rfl, h.store h.sound hi rfl ht fun _ _ _ => rfl⟩

lemma Coherent.readi_file (h : Coherent sb s) (hi : InUse sb s.disk i) (off n : UInt32) :
    ∃ s', s.readi sb dev i off n = .ok (readFile (s.files sb i) off.toNat n.toNat, s') ∧
      s'.disk = s.disk ∧ Coherent sb s' := by
  obtain ⟨hlt, ht, hdev⟩ := hi
  obtain ⟨s₁, hlock, hdisk, h₁⟩ := h.ilock_ok hlt ht
  have hread := readi_eq sb dev (h.sound.noHoles i hlt ht) hdev off n
  refine ⟨⟨s.disk, Function.update s₁.mem i (some (dinode sb s.disk i))⟩, ?_, rfl, ?_⟩
  · rw [State.readi, hlock]
    change (Fs.readi sb dev s₁.disk _ off n >>= _) = _
    rw [hdisk, hread]
    rfl
  · rw [← hdisk]
    exact h₁.store h₁.sound hlt rfl (by rwa [hdisk]) fun _ _ _ => rfl

section Writei

variable {off : UInt32} {src f : List UInt8}

lemma Coherent.writei_eq (h : Coherent sb s) (hi : InUse sb s.disk i) :
    ∃ s₁, s₁.disk = s.disk ∧ Coherent sb s₁ ∧
      ∀ off src, s.writei sb dev i off src = (do
        let (r, ip, d) ← Fs.writei sb dev s.disk i (dinode sb s.disk i) off src
        return (r, ⟨d, Function.update s₁.mem i (some ip)⟩)) := by
  obtain ⟨s₁, hlock, hdisk, h₁⟩ := h.ilock_ok hi.1 hi.2.1
  refine ⟨s₁, hdisk, h₁, fun off src => ?_⟩
  rw [State.writei, hlock, ← hdisk]
  rfl

/-- A write that is refused changes nothing. -/
lemma Coherent.writei_refused (h : Coherent sb s) (hi : InUse sb s.disk i)
    (hsrc : src.length < 2 ^ 32) (hw : writeFile (s.files sb i) off.toNat src = none) :
    ∃ s', s.writei sb dev i off src = .ok (none, s') ∧ s'.disk = s.disk ∧ Coherent sb s' := by
  obtain ⟨s₁, hdisk, h₁, heq⟩ := h.writei_eq dev hi
  rw [heq, writei_none sb dev i hi.2.2 hsrc hw]
  refine ⟨_, rfl, rfl, ?_⟩
  rw [← hdisk]
  exact h₁.store h₁.sound hi.1 rfl (by rw [hdisk]; exact hi.2.1) fun _ _ _ => rfl

/-- What a write does that is not refused. -/
lemma Coherent.writei_accepted (h : Coherent sb s) (hi : InUse sb s.disk i)
    (hsrc : src.length < 2 ^ 32) (hw : writeFile (s.files sb i) off.toNat src = some f) :
    Ensures (s.writei sb dev i off src) fun x =>
      x.1 = some src.length ∧ Coherent sb x.2 ∧ Wrote sb s.disk i f x.2.disk := by
  obtain ⟨s₁, hdisk, h₁, heq⟩ := h.writei_eq dev hi
  obtain ⟨hlt, ht, hdev⟩ := hi
  rw [heq]
  refine Ensures.bind ((h.sound.writei_wrote dev hlt ht hdev hsrc hw).and
    (h.sound.writei_ensures dev hlt ht off src hsrc)) ?_
  rintro ⟨r, ip, d⟩ ⟨⟨hr, hwrote⟩, hsound, hip, htype, hothers⟩
  refine Ensures.pure ⟨hr, h₁.store hsound hlt hip htype fun j hj hji => ?_, hwrote⟩
  rw [hdisk]
  exact hothers j hj hji

lemma Coherent.writei_succeeds (h : Coherent sb s) (hi : InUse sb s.disk i)
    (hw : writeFile (s.files sb i) off.toNat src = some f)
    (hfree : missing s.disk (dinode sb s.disk i) (fileBlocks f.length) ≤ freeBlocks sb s.disk) :
    ∃ x, s.writei sb dev i off src = .ok x := by
  obtain ⟨s₁, -, -, heq⟩ := h.writei_eq dev hi
  obtain ⟨x, hx⟩ := h.sound.writei_succeeds dev hi.1 hi.2.1 hw hfree
  rw [heq, hx]
  exact ⟨_, rfl⟩

/-- A file that was written has all its blocks. -/
lemma Wrote.missing {d d' : Disk} (h : Wrote sb d i f d') (hsound : Sound sb d') (hi : InUse sb d i) :
    missing d' (dinode sb d' i) (fileBlocks f.length) = 0 := by
  have hsize : (dinode sb d' i).size.toNat = f.length := by rw [← h.file, length_contents]
  refine missing_eq_zero fun bn hbn => ?_
  rw [lt_fileBlocks, ← hsize] at hbn
  exact hsound.noHoles i hi.1 (by rw [h.types i hi.1]; exact hi.2.1) bn hbn

/-- The blocks by which the file grew were free. -/
lemma Wrote.free {d d' : Disk} (h : Wrote sb d i f d') (hsound : Sound sb d') (hi : InUse sb d i) :
    freeBlocks sb d' + Fs.missing d (dinode sb d i) (fileBlocks f.length) = freeBlocks sb d := by
  have hpaid := h.paid (fileBlocks f.length) (by simp only [fileBlocks, BSIZE]; omega)
  rwa [Paid, h.missing hsound hi, Nat.add_zero] at hpaid

end Writei

/-- The state `s'` has the files `F'`, and the free blocks that `s` with the files `F` had, but for
those that were needed. -/
structure Simulated (sb : Superblock) (s : State) (F : Files) (s' : State) (F' : Files) : Prop where
  coherent : Coherent sb s'
  agrees : Agrees sb s' F'
  types : ∀ j, j < sb.ninodes → (dinode sb s'.disk j).type = (dinode sb s.disk j).type
  free : freeBlocks sb s.disk ≤ freeBlocks sb s'.disk + needed sb F F'

/-- The disk is as before. -/
lemma Simulated.of_disk (hF : Agrees sb s F) (h : Coherent sb s') (hdisk : s'.disk = s.disk) :
    Simulated sb s F s' F where
  coherent := h
  agrees := by
    intro j hj ht
    have := hF j hj (by rwa [← hdisk])
    rwa [State.files, hdisk]
  types j _ := by rw [hdisk]
  free := by
    rw [hdisk]
    exact Nat.le_add_right _ _

/-- One file was written. -/
lemma Simulated.of_wrote {f : List UInt8} (h : Coherent sb s) (hF : Agrees sb s F)
    (hi : InUse sb s.disk i) (hlen : (F i).length ≤ f.length) (h' : Coherent sb s')
    (hwrote : Wrote sb s.disk i f s'.disk) : Simulated sb s F s' (Function.update F i f) where
  coherent := h'
  agrees := by
    intro j hj ht
    rw [hwrote.types j hj] at ht
    by_cases hji : j = i
    · subst hji
      rw [Function.update_self]
      exact hwrote.file
    · rw [Function.update_of_ne hji, State.files, hwrote.others j hj hji ht]
      exact hF j hj ht
  types := hwrote.types
  free := by
    have hFi : (F i).length = (dinode sb s.disk i).size.toNat := by
      rw [← hF i hi.1 hi.2.1, State.files, length_contents]
    have hmissing := (h.sound.noHoles i hi.1 hi.2.1).missing_le (hFi ▸ hlen)
    have hfree := hwrote.free h'.sound hi
    rw [needed_update hi.1, hFi]
    omega

/-- One call does on the disk what it does on byte strings. -/
lemma Coherent.call_simulated (h : Coherent sb s) (hF : Agrees sb s F) (hc : c.Valid sb s.disk)
    (hfree : needed sb F (F.call c).2 ≤ freeBlocks sb s.disk) :
    ∃ s', s.call sb dev c = .ok ((F.call c).1, s') ∧ Simulated sb s F s' (F.call c).2 := by
  cases c with
  | readi i off n =>
    have hi : InUse sb s.disk i := hc
    obtain ⟨s', hs', hdisk, h'⟩ := h.readi_file dev hi off n
    refine ⟨s', ?_, Simulated.of_disk hF h' hdisk⟩
    rw [State.call, hs', Files.call, hF i hi.1 hi.2.1]
    rfl
  | writei i off src =>
    obtain ⟨hi, hsrc⟩ := hc
    have hFi := hF i hi.1 hi.2.1
    cases hw : writeFile (F i) off.toNat src with
    | none =>
      obtain ⟨s', hs', hdisk, h'⟩ := h.writei_refused dev hi hsrc (by rwa [hFi])
      simp only [Files.call, hw]
      refine ⟨s', ?_, Simulated.of_disk hF h' hdisk⟩
      rw [State.call, hs']
      rfl
    | some f =>
      simp only [Files.call, hw] at hfree ⊢
      have hlen := length_le_writeFile hw
      rw [← hFi] at hw
      have hsize : (F i).length = (dinode sb s.disk i).size.toNat := by
        rw [← hFi, State.files, length_contents]
      have hmissing := (h.sound.noHoles i hi.1 hi.2.1).missing_le (hsize ▸ hlen)
      rw [needed_update hi.1, hsize] at hfree
      obtain ⟨⟨r, s'⟩, hs'⟩ := h.writei_succeeds dev hi hw (by omega)
      obtain ⟨hr, h', hwrote⟩ := h.writei_accepted dev hi hsrc hw _ hs'
      dsimp only at hr h' hwrote
      subst hr
      refine ⟨s', ?_, Simulated.of_wrote h hF hi hlen h' hwrote⟩
      rw [State.call, hs']
      rfl

/-- The call does not write to inode `i`. -/
def Call.Spares (i : Nat) : Call → Prop
  | .readi _ _ _ => True
  | .writei j _ _ => j ≠ i

instance (i : Nat) (c : Call) : Decidable (c.Spares i) := by
  cases c <;> unfold Call.Spares <;> infer_instance

/-- A call leaves the files alone that it does not write to. -/
lemma Coherent.call_ensures (h : Coherent sb s) (hc : c.Valid sb s.disk) :
    Ensures (s.call sb dev c) fun x => Coherent sb x.2 ∧
      (∀ j, j < sb.ninodes → (dinode sb x.2.disk j).type = (dinode sb s.disk j).type) ∧
      ∀ j, c.Spares j → j < sb.ninodes → (dinode sb s.disk j).type ≠ 0 →
        x.2.files sb j = s.files sb j := by
  have hsame : ∀ {s' : State}, s'.disk = s.disk → Coherent sb s' → Coherent sb s' ∧
      (∀ j, j < sb.ninodes → (dinode sb s'.disk j).type = (dinode sb s.disk j).type) ∧
      ∀ j, c.Spares j → j < sb.ninodes → (dinode sb s.disk j).type ≠ 0 →
        s'.files sb j = s.files sb j := by
    intro s' hdisk h'
    simp only [State.files, hdisk, implies_true, and_self, and_true]
    exact h'
  cases c with
  | readi i off n =>
    obtain ⟨s', hs', hdisk, h'⟩ := h.readi_file dev hc off n
    rw [State.call, hs']
    exact Ensures.ok (hsame hdisk h')
  | writei i off src =>
    obtain ⟨hi, hsrc⟩ := hc
    cases hw : writeFile (s.files sb i) off.toNat src with
    | none =>
      obtain ⟨s', hs', hdisk, h'⟩ := h.writei_refused dev hi hsrc hw
      rw [State.call, hs']
      exact Ensures.ok (hsame hdisk h')
    | some f =>
      refine Ensures.bind (h.writei_accepted dev hi hsrc hw) ?_
      rintro ⟨r, s'⟩ ⟨-, h', hwrote⟩
      exact Ensures.pure ⟨h', hwrote.types, fun j hji hj ht => hwrote.others j hj (Ne.symm hji) ht⟩

/-! ### Runs -/

lemma InUse.congr {d d' : Disk} (h : InUse sb d i)
    (htypes : ∀ j, j < sb.ninodes → (dinode sb d' j).type = (dinode sb d j).type) :
    InUse sb d' i := by
  unfold InUse at *
  rwa [htypes i h.1]

lemma Call.Valid.congr {d d' : Disk} (h : c.Valid sb d)
    (htypes : ∀ j, j < sb.ninodes → (dinode sb d' j).type = (dinode sb d j).type) :
    c.Valid sb d' := by
  cases c with
  | readi i off n => exact InUse.congr h htypes
  | writei i off src => exact ⟨InUse.congr h.1 htypes, h.2⟩

lemma Coherent.calls_simulated (h : Coherent sb s) (hF : Agrees sb s F) (cs : List Call)
    (hcs : ∀ c ∈ cs, c.Valid sb s.disk)
    (hfree : needed sb F (F.calls cs).2 ≤ freeBlocks sb s.disk) :
    ∃ s', s.calls sb dev cs = .ok ((F.calls cs).1, s') ∧ Agrees sb s' (F.calls cs).2 ∧
      ∀ j, j < sb.ninodes → (dinode sb s'.disk j).type = (dinode sb s.disk j).type := by
  induction cs generalizing s F with
  | nil => exact ⟨s, rfl, hF, fun _ _ => rfl⟩
  | cons c cs ih =>
    rw [needed_add] at hfree
    obtain ⟨s₁, hs₁, hsim⟩ := h.call_simulated dev hF (hcs c List.mem_cons_self) (by omega)
    have hfree₁ := hsim.free
    obtain ⟨s₂, hs₂, hagrees, htypes⟩ := ih hsim.coherent hsim.agrees
      (fun c' hc' => (hcs c' (List.mem_cons_of_mem c hc')).congr hsim.types)
      (by simp only [Files.calls] at hfree; omega)
    refine ⟨s₂, ?_, hagrees, fun j hj => (htypes j hj).trans (hsim.types j hj)⟩
    rw [State.calls, hs₁]
    change (s₁.calls sb dev cs >>= _) = _
    rw [hs₂]
    rfl

/-- The files of a coherent disk with enough free blocks are byte strings: any calls of `readi` and
`writei` return what they return on the byte strings and leave the byte strings they leave there,
with these as the sizes of the inodes. A call of `writei` that is refused leaves the disk as it is. -/
theorem files_are_byte_strings (h : Coherent sb s) (cs : List Call)
    (hcs : ∀ c ∈ cs, c.Valid sb s.disk)
    (hfree : needed sb (s.files sb) ((s.files sb).calls cs).2 ≤ freeBlocks sb s.disk) :
    ∃ s', s.calls sb dev cs = .ok (((s.files sb).calls cs).1, s') ∧
      (∀ j, j < sb.ninodes → (dinode sb s.disk j).type ≠ 0 →
        s'.files sb j = ((s.files sb).calls cs).2 j ∧
        (dinode sb s'.disk j).size.toNat = (((s.files sb).calls cs).2 j).length) ∧
      ∀ i off src, (Call.writei i off src).Valid sb s.disk →
        writeFile (s.files sb i) off.toNat src = none →
        ∃ s₁, s.call sb dev (.writei i off src) = .ok (.count none, s₁) ∧ s₁.disk = s.disk := by
  have hF : Agrees sb s (s.files sb) := fun _ _ _ => rfl
  obtain ⟨s', hs', hagrees, htypes⟩ := h.calls_simulated dev hF cs hcs hfree
  refine ⟨s', hs', fun j hj ht => ?_, fun i off src hc hnone => ?_⟩
  · have hfile := hagrees j hj (by rwa [htypes j hj])
    refine ⟨hfile, ?_⟩
    rw [← hfile, State.files, length_contents]
  · obtain ⟨s₁, hs₁, hdisk, -⟩ := h.writei_refused dev hc.1 hc.2 hnone
    refine ⟨s₁, ?_, hdisk⟩
    rw [State.call, hs₁]
    rfl

/-- The disk of `mkfs` with one empty file. -/
def oneFile : Disk := putDinode mkfsSuperblock emptyDisk 1 { zeroDinode with type := T_FILE }

lemma coherent_oneFile : Coherent mkfsSuperblock (.boot oneFile) := by
  have halloc : ialloc mkfsSuperblock emptyDisk T_FILE = .ok (1, oneFile) := by
    have hfind : (List.range mkfsSuperblock.ninodes).find?
        (fun i => 1 ≤ i ∧ (dinode mkfsSuperblock emptyDisk i).type = 0) = some 1 := by
      decide +kernel
    rw [ialloc, hfind]
    rfl
  exact (Coherent.boot sound_emptyDisk).ialloc_ensures (by decide) _ halloc

/-- A write, a read across the end of the file, a read behind it and a refused write. -/
theorem files_are_byte_strings_write_read : ∃ s',
    (State.boot oneFile).calls mkfsSuperblock ⟨fun _ _ => none, fun _ _ => none⟩
      [.writei 1 0 [104, 105], .readi 1 1 5, .readi 1 3 1, .writei 1 4 [33]] =
    .ok ([.count (some 2), .bytes (some [105]), .bytes none, .count none], s') := by
  obtain ⟨s', hs', -⟩ := files_are_byte_strings ⟨fun _ _ => none, fun _ _ => none⟩
    coherent_oneFile [.writei 1 0 [104, 105], .readi 1 1 5, .readi 1 3 1, .writei 1 4 [33]]
    (by decide +kernel) (by decide +kernel)
  refine ⟨s', hs'.trans ?_⟩
  have hresults : (((State.boot oneFile).files mkfsSuperblock).calls
      [.writei 1 0 [104, 105], .readi 1 1 5, .readi 1 3 1, .writei 1 4 [33]]).1 =
      [.count (some 2), .bytes (some [105]), .bytes none, .count none] := by
    decide +kernel
  rw [hresults]

end Xv6.Fs
