import Xv6.Fs.Accounting

/-!
# Runs of the file system

The operations on inodes that the system calls are made of, each on an inode that is locked first.
The directory operations are sequences of these: `dirlookup` reads, `dirlink` and `unlink` read and
write, `create`, `link` and `unlink` set fields. Every one of them is a whole number of operations,
so a state at a transaction boundary is a state of the run.
-/

namespace Xv6.Fs

open Disk Fallible TransitionSystem

/-- The disk, and the copies of inodes in memory that are valid. -/
structure State where
  disk : Disk
  mem : Nat → Option Dinode

namespace State

/-- After booting from a disk no inode is in memory. -/
def boot (d : Disk) : State := ⟨d, fun _ => none⟩

variable (sb : Superblock) (dev : Devsw)

/-- `ilock`: the copy of the inode, read from disk if it is not valid. -/
def ilock (s : State) (i : Nat) : Except Fault (Dinode × State) :=
  match s.mem i with
  | some ip => .ok (ip, s)
  | none =>
    let ip := dinode sb s.disk i
    if ip.type = 0 then .error (.panic "ilock: no type")
    else .ok (ip, { s with mem := Function.update s.mem i (some ip) })

/-- `iput`; `last` tells whether the reference that is dropped is the only one. -/
def iput (s : State) (i : Nat) (last : Bool) : Except Fault State :=
  match s.mem i with
  | none => .ok s
  | some ip =>
    if ip.nlink = 0 ∧ last = true then do
      let (ip, d) ← itrunc sb s.disk i ip
      return ⟨iupdate sb d i { ip with type := 0 }, Function.update s.mem i none⟩
    else .ok s

end State

inductive Act
  | readi (i : Nat) (off n : UInt32)
  | writei (i : Nat) (off : UInt32) (src : List UInt8)
  | ialloc (type : UInt16)
  /-- `create`, `link` and `unlink` change the link count or the device, and call `iupdate`. -/
  | setFields (i : Nat) (major minor nlink : UInt16)
  | iput (i : Nat) (last : Bool)
  /-- `iget` takes the cache entry of an inode that nobody uses for another one. -/
  | recycle (i : Nat)

/-- The inode exists, the length fits its argument and an inode is not created free. -/
def Act.Valid (sb : Superblock) : Act → Prop
  | .readi i _ _ => i < sb.ninodes
  | .writei i _ src => i < sb.ninodes ∧ src.length < 2 ^ 32
  | .ialloc type => type ≠ 0
  | .setFields i _ _ _ => i < sb.ninodes
  | .iput _ _ => True
  | .recycle _ => True

/-- Carry out an operation. -/
def State.exec (sb : Superblock) (dev : Devsw) (s : State) : Act → Except Fault State
  | .readi i off n => do
    let (ip, s) ← s.ilock sb i
    let (_, ip, d) ← readi sb dev s.disk ip off n
    return ⟨d, Function.update s.mem i (some ip)⟩
  | .writei i off src => do
    let (ip, s) ← s.ilock sb i
    let (_, ip, d) ← writei sb dev s.disk i ip off src
    return ⟨d, Function.update s.mem i (some ip)⟩
  | .ialloc type => do
    let (_, d) ← ialloc sb s.disk type
    return ⟨d, s.mem⟩
  | .setFields i major minor nlink => do
    let (ip, s) ← s.ilock sb i
    let ip := { ip with major := major, minor := minor, nlink := nlink }
    return ⟨iupdate sb s.disk i ip, Function.update s.mem i (some ip)⟩
  | .iput i last => s.iput sb i last
  | .recycle i => .ok { s with mem := Function.update s.mem i none }

def State.Step (sb : Superblock) (dev : Devsw) (s : State) (a : Act) (s' : State) : Prop :=
  a.Valid sb ∧ s.exec sb dev a = .ok s'

/-- The disk is sound and the copies in memory are those on disk. -/
structure Coherent (sb : Superblock) (s : State) : Prop where
  sound : Sound sb s.disk
  mem : ∀ i ip, s.mem i = some ip →
    i < sb.ninodes ∧ ip = dinode sb s.disk i ∧ (dinode sb s.disk i).type ≠ 0

variable {sb : Superblock} {dev : Devsw} {s s' : State} {d : Disk} {i : Nat} {ip : Dinode}

namespace Coherent

lemma boot (h : Sound sb d) : Coherent sb (.boot d) := ⟨h, by rintro i ip ⟨⟩⟩

/-- The inode that was locked is changed, in memory and on disk. -/
lemma store (h : Coherent sb s) (hd : Sound sb d) (hi : i < sb.ninodes) (hip : ip = dinode sb d i)
    (ht : ip.type ≠ 0) (hothers : ∀ j, j < sb.ninodes → j ≠ i → dinode sb d j = dinode sb s.disk j) :
    Coherent sb ⟨d, Function.update s.mem i (some ip)⟩ := by
  refine ⟨hd, fun j jp hj => ?_⟩
  by_cases hji : j = i
  · subst hji
    dsimp only at hj ⊢
    rw [Function.update_self, Option.some.injEq] at hj
    subst hj
    exact ⟨hi, hip, hip ▸ ht⟩
  · dsimp only at hj ⊢
    rw [Function.update_of_ne hji] at hj
    obtain ⟨hlt, hjp, htj⟩ := h.mem j jp hj
    rw [hothers j hlt hji]
    exact ⟨hlt, hjp, htj⟩

lemma discard (h : Coherent sb s) (hd : Sound sb d)
    (hothers : ∀ j, j < sb.ninodes → j ≠ i → dinode sb d j = dinode sb s.disk j) :
    Coherent sb ⟨d, Function.update s.mem i none⟩ := by
  refine ⟨hd, fun j jp hj => ?_⟩
  dsimp only at hj ⊢
  by_cases hji : j = i
  · subst hji
    rw [Function.update_self] at hj
    cases hj
  · rw [Function.update_of_ne hji] at hj
    obtain ⟨hlt, hjp, htj⟩ := h.mem j jp hj
    rw [hothers j hlt hji]
    exact ⟨hlt, hjp, htj⟩

/-- `ilock` returns the inode on disk. -/
lemma ilock_ensures (h : Coherent sb s) (hi : i < sb.ninodes) :
    Ensures (s.ilock sb i) fun x => x.1 = dinode sb s.disk i ∧ (dinode sb s.disk i).type ≠ 0 ∧
      x.2.disk = s.disk ∧ Coherent sb x.2 := by
  unfold State.ilock
  split
  · rename_i ip hip
    exact Ensures.ok ⟨(h.mem i ip hip).2.1, (h.mem i ip hip).2.2, rfl, h⟩
  · dsimp only
    split_ifs with ht
    · exact Ensures.error
    · exact Ensures.ok ⟨rfl, ht, rfl, h.store h.sound hi rfl ht fun _ _ _ => rfl⟩

/-- The copy of the locked inode is the one on disk when it is written back. -/
lemma setFields (h : Coherent sb s) (hi : i < sb.ninodes) (ht : (dinode sb s.disk i).type ≠ 0)
    (htype : ip.type = (dinode sb s.disk i).type) (hsize : ip.size = (dinode sb s.disk i).size)
    (haddrs : ip.addrs = (dinode sb s.disk i).addrs) :
    Coherent sb ⟨iupdate sb s.disk i ip, Function.update s.mem i (some ip)⟩ := by
  have ht' : ip.type ≠ 0 := htype ▸ ht
  refine h.store (h.sound.replace hi (fun c _ => ?_) fun _ bn hbn => ?_) hi ?_ ht' fun j _ hji => ?_
  · rw [refsOf_of_type _ ht', refsOf_of_type _ ht, refs_fields haddrs]
  · rw [hsize] at hbn
    exact (mapped_fields haddrs).mpr (h.sound.noHoles i hi ht bn hbn)
  · rw [iupdate, dinode_putDinode, if_pos rfl]
  · rw [iupdate, dinode_putDinode, if_neg hji]

lemma ialloc_ensures (h : Coherent sb s) {type : UInt16} (htype : type ≠ 0) :
    Ensures (ialloc sb s.disk type) fun x => Coherent sb ⟨x.2, s.mem⟩ := by
  unfold ialloc
  split
  · rename_i i hi
    have hlt := List.mem_range.mp (List.mem_of_find?_eq_some hi)
    have hfree : (dinode sb s.disk i).type = 0 := by
      have := List.find?_some hi
      rw [decide_eq_true_eq] at this
      exact this.2
    refine Ensures.ok ⟨h.sound.replace hlt (fun c hc => ?_) fun _ => noHoles_of_size_zero rfl,
      fun j jp hj => ?_⟩
    · rw [refsOf_of_type { zeroDinode with type := type } htype, refsOf, if_pos hfree]
      exact refs_emptied s.disk { zeroDinode with type := type } hc
    · obtain ⟨hjlt, hjp, htj⟩ := h.mem j jp hj
      -- the copy of a free inode is never valid
      have hji : j ≠ i := fun hji => htj (hji ▸ hfree)
      dsimp only
      rw [dinode_putDinode, if_neg hji]
      exact ⟨hjlt, hjp, htj⟩
  · exact Ensures.error

/-- `iput` does not panic, whether it frees the inode or not. -/
lemma iput_ok (h : Coherent sb s) (i : Nat) (last : Bool) :
    ∃ s', s.iput sb i last = .ok s' ∧ Coherent sb s' := by
  unfold State.iput
  split
  · exact ⟨s, rfl, h⟩
  · rename_i ip hip
    obtain ⟨hi, rfl, ht⟩ := h.mem i ip hip
    split_ifs
    · obtain ⟨d', hd', hsound, hinodes⟩ := h.sound.itrunc_ok hi ht
      have hself : dinode sb d' i = (dinode sb s.disk i).emptied := by
        rw [hinodes i hi, if_pos rfl]
      refine ⟨_, by rw [hd']; rfl, h.discard (hsound.replace hi (fun c hc => ?_) ?_) ?_⟩
      · rw [refsOf, if_pos rfl, hself, refsOf_of_type (dinode sb s.disk i).emptied ht,
          refs_emptied _ _ hc]
      · exact fun hne => absurd rfl hne
      · intro j hj hji
        rw [iupdate, dinode_putDinode, if_neg hji, hinodes j hj, if_neg hji]
    · exact ⟨s, rfl, h⟩

end Coherent

/-- Reading changes nothing on disk. -/
lemma Coherent.exec_readi (h : Coherent sb s) (hi : i < sb.ninodes) (off n : UInt32) :
    Ensures (s.exec sb dev (.readi i off n)) fun s' => s'.disk = s.disk ∧ Coherent sb s' := by
  refine Ensures.bind (h.ilock_ensures hi) ?_
  rintro ⟨ip, s₁⟩ ⟨hip, ht, hdisk, h₁⟩
  dsimp only at hip hdisk h₁ ⊢
  rw [← hdisk] at hip ht
  subst hip
  refine Ensures.bind (h₁.sound.readi_ensures dev hi ht off n) ?_
  rintro ⟨r, ip, d⟩ ⟨hip, hd⟩
  dsimp only at hip hd ⊢
  subst hip hd
  exact Ensures.pure ⟨hdisk, h₁.store h₁.sound hi rfl ht fun _ _ _ => rfl⟩

/-- Every operation keeps the disk sound and the copies coherent. -/
lemma Coherent.step (h : Coherent sb s) {a : Act} (hstep : s.Step sb dev a s') : Coherent sb s' := by
  obtain ⟨hvalid, hexec⟩ := hstep
  suffices Ensures (s.exec sb dev a) (Coherent sb) from this s' hexec
  cases a with
  | readi i off n => exact (h.exec_readi hvalid off n).mono fun _ hs => hs.2
  | writei i off src =>
    refine Ensures.bind (h.ilock_ensures hvalid.1) ?_
    rintro ⟨ip, s₁⟩ ⟨hip, ht, hdisk, h₁⟩
    dsimp only at hip hdisk h₁ ⊢
    rw [← hdisk] at hip ht
    subst hip
    refine Ensures.bind (h₁.sound.writei_ensures dev hvalid.1 ht off src hvalid.2) ?_
    rintro ⟨r, ip, d⟩ ⟨hd, hip, htip, hothers⟩
    exact Ensures.pure (h₁.store hd hvalid.1 hip htip hothers)
  | ialloc type =>
    exact Ensures.bind (h.ialloc_ensures hvalid) fun _ hd => Ensures.pure hd
  | setFields i major minor nlink =>
    refine Ensures.bind (h.ilock_ensures hvalid) ?_
    rintro ⟨ip, s₁⟩ ⟨hip, ht, hdisk, h₁⟩
    dsimp only at hip hdisk h₁ ⊢
    rw [← hdisk] at hip ht
    subst hip
    exact Ensures.pure (h₁.setFields hvalid ht rfl rfl rfl)
  | iput i last =>
    obtain ⟨s₁, hs₁, h₁⟩ := h.iput_ok i last
    intro s₂ hs₂
    rw [State.exec, hs₁] at hs₂
    cases hs₂
    exact h₁
  | recycle i => exact Ensures.ok (h.discard h.sound fun _ _ _ => rfl)

/-! ### Panics -/

/-- The fault of `bfree`. -/
def FreesFree (e : Fault) : Prop := e = .panic "freeing free block"

lemma balloc_avoids (sb : Superblock) (d : Disk) : Avoids (balloc sb d) FreesFree := by
  unfold balloc
  split
  · exact Avoids.ok
  · exact Avoids.error (by simp [FreesFree])

lemma slot_avoids (sb : Superblock) (d : Disk) (ip : Dinode) (k : Fin (NDIRECT + 1)) :
    Avoids (slot sb d ip k) FreesFree := by
  unfold slot
  split_ifs
  · exact (balloc_avoids sb d).bind fun _ _ => Avoids.pure
  · exact Avoids.pure

lemma entry_avoids (sb : Superblock) (d : Disk) (x j : Nat) :
    Avoids (entry sb d x j) FreesFree := by
  unfold entry
  split_ifs
  · exact (balloc_avoids sb d).bind fun _ _ => Avoids.pure
  · exact Avoids.pure

lemma bmap_avoids (sb : Superblock) (d : Disk) (ip : Dinode) (bn : Nat) :
    Avoids (bmap sb d ip bn) FreesFree := by
  unfold bmap
  split_ifs
  · exact slot_avoids sb d ip _
  · exact (slot_avoids sb d ip _).bind fun _ _ => (entry_avoids sb _ _ _).bind fun _ _ => Avoids.pure
  · exact Avoids.error (by simp [FreesFree])

lemma readLoop_avoids (sb : Superblock) (fuel : Nat) (d : Disk) (ip : Dinode) (off rem : Nat) :
    Avoids (readLoop sb fuel d ip off rem) FreesFree := by
  induction fuel generalizing d ip off rem with
  | zero => exact Avoids.ok
  | succ fuel ih =>
    unfold readLoop
    split_ifs
    · exact Avoids.ok
    · exact (bmap_avoids sb d ip _).bind fun _ _ => (ih _ _ _ _).bind fun _ _ => Avoids.pure

lemma writeLoop_avoids (sb : Superblock) (fuel : Nat) (d : Disk) (ip : Dinode) (off : Nat)
    (src : List UInt8) : Avoids (writeLoop sb fuel d ip off src) FreesFree := by
  induction fuel generalizing d ip off src with
  | zero => exact Avoids.ok
  | succ fuel ih =>
    unfold writeLoop
    split_ifs
    · exact Avoids.ok
    · exact (bmap_avoids sb d ip _).bind fun _ _ => ih _ _ _ _

lemma ilock_avoids (sb : Superblock) (s : State) (i : Nat) : Avoids (s.ilock sb i) FreesFree := by
  unfold State.ilock
  split
  · exact Avoids.ok
  · dsimp only
    split_ifs
    · exact Avoids.error (by simp [FreesFree])
    · exact Avoids.ok

/-- No operation frees a free block. -/
lemma Coherent.avoids (h : Coherent sb s) (a : Act) : Avoids (s.exec sb dev a) FreesFree := by
  cases a with
  | readi i off n =>
    refine (ilock_avoids sb s i).bind fun x _ => Avoids.bind ?_ fun _ _ => Avoids.pure
    unfold readi
    split_ifs
    · exact Avoids.ok
    · exact Avoids.ok
    · exact (readLoop_avoids _ _ _ _ _ _).bind fun _ _ => Avoids.pure
    · exact (readLoop_avoids _ _ _ _ _ _).bind fun _ _ => Avoids.pure
  | writei i off src =>
    refine (ilock_avoids sb s i).bind fun x _ => Avoids.bind ?_ fun _ _ => Avoids.pure
    unfold writei
    dsimp only
    split_ifs
    · exact Avoids.ok
    · exact Avoids.ok
    · exact Avoids.ok
    · refine (writeLoop_avoids _ _ _ _ _ _).bind fun x _ => ?_
      split_ifs
      · exact Avoids.pure
      · exact Avoids.pure
  | ialloc type =>
    refine Avoids.bind ?_ fun _ _ => Avoids.pure
    unfold ialloc
    split
    · exact Avoids.ok
    · exact Avoids.error (by simp [FreesFree])
  | setFields i major minor nlink =>
    exact (ilock_avoids sb s i).bind fun _ _ => Avoids.pure
  | iput i last =>
    obtain ⟨s', hs', _⟩ := h.iput_ok i last
    rw [State.exec, hs']
    exact Avoids.ok
  | recycle i => exact Avoids.ok

/-! ### Runs -/

/-- Block accounting is exact: the bitmap marks the metadata blocks and the data blocks that are
referenced exactly once, no block is referenced twice, and no operation frees a free block or
changes the disk by reading. -/
structure Accounted (sb : Superblock) (dev : Devsw) (s : State) : Prop where
  marked_iff : ∀ b, sb.dataStart ≤ b → b < sb.size →
    (marked sb s.disk b = true ↔ allRefs sb s.disk (dinode sb s.disk) b = 1)
  once : ∀ b, b ≠ 0 → allRefs sb s.disk (dinode sb s.disk) b ≤ 1
  metadata : ∀ b, b < sb.dataStart → marked sb s.disk b = true
  free : ∀ a, a.Valid sb → s.exec sb dev a ≠ .error (.panic "freeing free block")
  read : ∀ i off n s', i < sb.ninodes → s.exec sb dev (.readi i off n) = .ok s' →
    s'.disk = s.disk

lemma Coherent.accounted (h : Coherent sb s) : Accounted sb dev s where
  marked_iff := h.sound.accounts.exact
  once := h.sound.accounts.once
  metadata := h.sound.accounts.metadata
  free a _ hfree := h.avoids a _ hfree rfl
  read _ off n s' hi hs' := (h.exec_readi hi off n s' hs').1

/-- Booting from a sound disk, block accounting is exact after every sequence of operations. -/
theorem accounting_run (h : Sound sb d) {tr : List (State × Act)} {t : State}
    (hr : Run (State.Step sb dev) (.boot d) tr t) : AllStates (Accounted sb dev) tr t :=
  (hr.invariant (fun _ _ _ hs hstep => hs.step hstep) (Coherent.boot h)).mono
    fun _ hs => hs.accounted

/-! ### A new file -/

instance (sb : Superblock) (a : Act) : Decidable (a.Valid sb) := by
  cases a <;> unfold Act.Valid <;> infer_instance

/-- The step that a valid operation takes. -/
def State.step? (sb : Superblock) (dev : Devsw) (s : State) (a : Act) : Option State :=
  if a.Valid sb then (s.exec sb dev a).toOption else none

lemma State.step_of_step? {a : Act} (h : s.step? sb dev a = some s') : s.Step sb dev a s' := by
  unfold State.step? at h
  split_ifs at h with hvalid
  refine ⟨hvalid, ?_⟩
  cases hexec : s.exec sb dev a with
  | error e =>
    rw [hexec] at h
    cases h
  | ok u =>
    rw [hexec] at h
    cases h
    rfl

/-- No inode is in use, and the bits of the metadata blocks are set. -/
def emptyDisk : Disk :=
  Function.update (fun _ => zeroBlock) 58 ((zeroBlock.set 0 (2 ^ 32 - 1)).set 1 (2 ^ 27 - 1))

lemma sound_emptyDisk : Sound mkfsSuperblock emptyDisk := by
  have hmarked : ∀ b, b < 1000 → marked mkfsSuperblock emptyDisk b = decide (b < 59) := by
    decide +kernel
  have htype : ∀ j, j < 200 → (dinode mkfsSuperblock emptyDisk j).type = 0 := by decide +kernel
  have hrefs : ∀ b, allRefs mkfsSuperblock emptyDisk (dinode mkfsSuperblock emptyDisk) b = 0 := by
    intro b
    refine Finset.sum_eq_zero fun j hj => ?_
    rw [refsOf, if_pos (htype j (Finset.mem_range.mp hj))]
  have hstart : mkfsSuperblock.dataStart = 59 := rfl
  refine ⟨⟨fun b hb hlt => ?_, fun b _ => ?_, fun b _ hne => absurd (hrefs b) hne, fun b hb => ?_⟩,
    fun j hj ht => absurd (htype j hj) ht⟩
  · rw [hstart] at hb
    rw [hrefs, hmarked b hlt, decide_eq_true_eq]
    omega
  · rw [hrefs]
    exact Nat.zero_le 1
  · rw [hstart] at hb
    rw [hmarked b (by omega), decide_eq_true_eq]
    exact hb

/-- A file is created and written to, read, and removed. -/
theorem accounting_new_file : ∃ tr t,
    Run (State.Step mkfsSuperblock ⟨fun _ _ => none, fun _ _ => none⟩) (.boot emptyDisk) tr t ∧
    tr.map Prod.snd = [.ialloc T_FILE, .setFields 1 0 0 1, .writei 1 0 [104, 105], .readi 1 0 2,
      .setFields 1 0 0 0, .iput 1 true] ∧
    AllStates (Accounted mkfsSuperblock ⟨fun _ _ => none, fun _ _ => none⟩) tr t := by
  obtain ⟨t, ht⟩ := Option.isSome_iff_exists.mp (show
    (follow (State.step? mkfsSuperblock ⟨fun _ _ => none, fun _ _ => none⟩) (.boot emptyDisk)
      [.ialloc T_FILE, .setFields 1 0 0 1, .writei 1 0 [104, 105], .readi 1 0 2,
        .setFields 1 0 0 0, .iput 1 true]).isSome from by decide +kernel)
  obtain ⟨tr, hr, hacts⟩ := Run.of_follow ht
  have hr' := hr.mono fun _ _ _ => State.step_of_step?
  exact ⟨tr, t, hr', hacts, accounting_run sound_emptyDisk hr'⟩

end Xv6.Fs
