import Xv6.Fs.SharedFile
import Xv6.Lib.Recorded

/-!
# The blocks that a write logs

The functions below `writei` again, with a record of the blocks that they pass to `log_write`. A
write of one chunk of `filewrite` meets at most four blocks of the file; for each of them it logs
the block and an indirect block, and the bitmap and the inode once. So a chunk fits into a
transaction, whatever the disk and the inode look like.
-/

namespace Xv6.Fs.Logged

open Recorded

/-- A computation with a record of the blocks that were logged. -/
abbrev M := Recorded Fault Nat

def log_write (b : Nat) : M Unit := Recorded.tell b

def bzero (d : Disk) (b : Nat) : M Disk := do
  log_write b
  return Fs.bzero d b

def balloc (sb : Superblock) (d : Disk) : M (Nat × Disk) :=
  match (List.range sb.size).find? (fun b => !Disk.marked sb d b) with
  | some b => do
    log_write (sb.bblock b)
    let d ← bzero (Disk.mark sb d b) b
    return (b, d)
  | none => .fail (.panic "balloc: out of blocks")

def slot (sb : Superblock) (d : Disk) (ip : Dinode) (k : Fin (NDIRECT + 1)) :
    M (Nat × Dinode × Disk) :=
  if ip.addrs k = 0 then do
    let (b, d) ← balloc sb d
    return (b, ip.setAddr k b, d)
  else return ((ip.addrs k).toNat, ip, d)

def entry (sb : Superblock) (d : Disk) (x j : Nat) : M (Nat × Disk) :=
  if (d x).get j = 0 then do
    let (b, d) ← balloc sb d
    log_write x
    return (b, Function.update d x ((d x).set j b))
  else return ((d x).get j, d)

def bmap (sb : Superblock) (d : Disk) (ip : Dinode) (bn : Nat) : M (Nat × Dinode × Disk) :=
  if h : bn < NDIRECT then
    slot sb d ip ⟨bn, Nat.lt_succ_of_lt h⟩
  else if bn - NDIRECT < NINDIRECT then do
    let (x, ip, d) ← slot sb d ip indirect
    let (b, d) ← entry sb d x (bn - NDIRECT)
    return (b, ip, d)
  else .fail (.panic "bmap: out of range")

def iupdate (sb : Superblock) (d : Disk) (i : Nat) (ip : Dinode) : M Disk := do
  log_write (sb.iblock i)
  return Fs.iupdate sb d i ip

def writeLoop (sb : Superblock) :
    Nat → Disk → Dinode → (off : Nat) → (src : List UInt8) → M (Dinode × Disk)
  | 0, d, ip, _, _ => return (ip, d)
  | fuel + 1, d, ip, off, src =>
    if src = [] then return (ip, d)
    else do
      let (b, ip, d) ← bmap sb d ip (off / BSIZE)
      let m := min src.length (BSIZE - off % BSIZE)
      log_write b
      let d := Function.update d b (putBytes (d b) (off % BSIZE) (src.take m))
      writeLoop sb fuel d ip (off + m) (src.drop m)

def writei (sb : Superblock) (dev : Devsw) (d : Disk) (i : Nat) (ip : Dinode) (off : UInt32)
    (src : List UInt8) : M (Option Nat × Dinode × Disk) :=
  let n := UInt32.ofNat src.length
  if ip.type = T_DEV then return (dev.write ip.major src, ip, d)
  else if ip.size < off ∨ off + n < off then return (none, ip, d)
  else if UInt32.ofNat (MAXFILE * BSIZE) < off + n then return (none, ip, d)
  else do
    let (ip, d) ← writeLoop sb src.length d ip off.toNat src
    if 0 < n ∧ ip.size < off + n then
      let ip : Dinode := { ip with size := off + n }
      let d ← iupdate sb d i ip
      return (some src.length, ip, d)
    else return (some src.length, ip, d)

variable {sb : Superblock} {d : Disk} {ip : Dinode}

/-! ### Without the record -/

lemma result_balloc (sb : Superblock) (d : Disk) : (balloc sb d).result = Fs.balloc sb d := by
  unfold balloc Fs.balloc
  cases (List.range sb.size).find? (fun b => !Disk.marked sb d b) <;> rfl

lemma result_slot (sb : Superblock) (d : Disk) (ip : Dinode) (k : Fin (NDIRECT + 1)) :
    (slot sb d ip k).result = Fs.slot sb d ip k := by
  unfold slot Fs.slot
  split_ifs
  · rw [result_bind, result_balloc]
    rfl
  · rfl

lemma result_entry (sb : Superblock) (d : Disk) (x j : Nat) :
    (entry sb d x j).result = Fs.entry sb d x j := by
  unfold entry Fs.entry
  split_ifs
  · rw [result_bind, result_balloc]
    rfl
  · rfl

lemma result_bmap (sb : Superblock) (d : Disk) (ip : Dinode) (bn : Nat) :
    (bmap sb d ip bn).result = Fs.bmap sb d ip bn := by
  unfold bmap Fs.bmap
  split_ifs
  · exact result_slot sb d ip _
  · rw [result_bind, result_slot]
    refine congrArg (fun k => Fs.slot sb d ip indirect >>= k) (funext fun x => ?_)
    rw [result_bind, result_entry]
    rfl
  · rfl

lemma result_writeLoop (sb : Superblock) (fuel : Nat) (d : Disk) (ip : Dinode) (off : Nat)
    (src : List UInt8) :
    (writeLoop sb fuel d ip off src).result = Fs.writeLoop sb fuel d ip off src := by
  induction fuel generalizing d ip off src with
  | zero => rfl
  | succ fuel ih =>
    unfold writeLoop Fs.writeLoop
    split_ifs
    · rfl
    · rw [result_bind, result_bmap]
      refine congrArg (fun k => Fs.bmap sb d ip (off / BSIZE) >>= k) (funext fun x => ?_)
      rw [result_bind]
      exact ih ..

lemma result_writei (sb : Superblock) (dev : Devsw) (d : Disk) (i : Nat) (ip : Dinode)
    (off : UInt32) (src : List UInt8) :
    (writei sb dev d i ip off src).result = Fs.writei sb dev d i ip off src := by
  unfold writei Fs.writei
  dsimp only
  split_ifs
  · rfl
  · rfl
  · rfl
  · rw [result_bind, result_writeLoop]
    refine congrArg (fun k => Fs.writeLoop sb src.length d ip off.toNat src >>= k)
      (funext fun x => ?_)
    split_ifs <;> rfl

/-! ### The blocks of the file -/

/-- How many blocks of the file `n` bytes from `off` on lie in. -/
def touched (off n : Nat) : Nat :=
  if n = 0 then 0 else (off % BSIZE + n + BSIZE - 1) / BSIZE

lemma touched_of_pos (off : Nat) {n : Nat} (hn : 0 < n) :
    touched off n = (off % BSIZE + n + BSIZE - 1) / BSIZE := if_neg hn.ne'

/-- Every round of the loop takes the bytes of one block. -/
lemma touched_round (off : Nat) {n : Nat} (hn : 0 < n) :
    touched (off + min n (BSIZE - off % BSIZE)) (n - min n (BSIZE - off % BSIZE)) + 1 ≤
      touched off n := by
  rcases Nat.le_total n (BSIZE - off % BSIZE) with hle | hle
  · rw [Nat.min_eq_left hle, Nat.sub_self, touched, if_pos rfl, touched_of_pos off hn]
    simp only [BSIZE]
    omega
  · rw [Nat.min_eq_right hle, touched_of_pos off hn]
    rcases Nat.eq_zero_or_pos (n - (BSIZE - off % BSIZE)) with hzero | hpos
    · rw [hzero, touched, if_pos rfl]
      simp only [BSIZE]
      omega
    · rw [touched_of_pos _ hpos]
      simp only [BSIZE] at hle hpos ⊢
      omega

/-! ### What is logged -/

section Single

variable (hsb : sb.size ≤ BPB)

include hsb

/-- A block is allocated with a bit of the only bitmap block. -/
lemma balloc_logs (d : Disk) :
    ∃ b, Logs (balloc sb d) (fun w => w = sb.bmapstart ∨ w = b) fun r => r.1 = b := by
  unfold balloc
  split
  · rename_i b hb
    have hlt := List.mem_range.mp (List.mem_of_find?_eq_some hb)
    have hblock : sb.bblock b = sb.bmapstart := by
      simp only [Superblock.bblock, BPB] at hsb ⊢
      omega
    refine ⟨b, Logs.bind (R := fun _ => True) (.tell (Or.inl hblock) trivial) fun _ _ => ?_⟩
    refine Logs.bind (R := fun _ => True) (Logs.bind (R := fun _ => True)
      (.tell (Or.inr rfl) trivial) fun _ _ => .pure trivial) fun _ _ => .pure rfl
  · exact ⟨0, .fail⟩

lemma slot_logs (d : Disk) (ip : Dinode) (k : Fin (NDIRECT + 1)) :
    ∃ b, Logs (slot sb d ip k) (fun w => w = sb.bmapstart ∨ w = b) fun r => r.1 = b := by
  unfold slot
  split_ifs
  · obtain ⟨b, hb⟩ := balloc_logs hsb d
    exact ⟨b, hb.bind fun r hr => .pure hr⟩
  · exact ⟨(ip.addrs k).toNat, .pure rfl⟩

lemma entry_logs (d : Disk) (x j : Nat) :
    ∃ b, Logs (entry sb d x j) (fun w => w = sb.bmapstart ∨ w = b ∨ w = x) fun r => r.1 = b := by
  unfold entry
  split_ifs
  · obtain ⟨b, hb⟩ := balloc_logs hsb d
    refine ⟨b, (hb.mono (fun w hw => hw.imp_right Or.inl) fun r hr => hr).bind fun r hr => ?_⟩
    exact Logs.bind (R := fun _ => True) (.tell (Or.inr (Or.inr rfl)) trivial) fun _ _ => .pure hr
  · exact ⟨(d x).get j, .pure rfl⟩

/-- Finding a block of the file logs the bitmap, the block and an indirect block at most. -/
lemma bmap_logs (d : Disk) (ip : Dinode) (bn : Nat) :
    ∃ b x, Logs (bmap sb d ip bn) (fun w => w = sb.bmapstart ∨ w = b ∨ w = x) fun r =>
      r.1 = b := by
  unfold bmap
  split_ifs with hdirect hindirect
  · obtain ⟨b, hb⟩ := slot_logs hsb d ip ⟨bn, Nat.lt_succ_of_lt hdirect⟩
    exact ⟨b, 0, hb.mono (fun w hw => hw.imp_right Or.inl) fun r hr => hr⟩
  · obtain ⟨x, hx⟩ := slot_logs hsb d ip indirect
    cases hslot : (slot sb d ip indirect).result with
    | error e =>
      refine ⟨0, x, Logs.bind (R := fun _ => False) ⟨fun w hw => ?_, ?_⟩ fun _ h => h.elim⟩
      · exact (hx.log w hw).imp_right Or.inr
      · rw [hslot]
        exact .error
    | ok r =>
      obtain ⟨x', ip', d'⟩ := r
      obtain rfl : x' = x := hx.result _ hslot
      obtain ⟨b, hb⟩ := entry_logs hsb d' x' (bn - NDIRECT)
      refine ⟨b, x', Logs.bind (R := fun r => r = (x', ip', d')) ⟨fun w hw => ?_, ?_⟩ ?_⟩
      · exact (hx.log w hw).imp_right Or.inr
      · rw [hslot]
        exact .ok rfl
      · rintro _ rfl
        exact hb.bind fun r hr => .pure hr
  · exact ⟨0, 0, .fail⟩

/-- Besides the bitmap, at most two blocks are logged for each block of the file. -/
lemma writeLoop_logs (fuel : Nat) (d : Disk) (ip : Dinode) (off : Nat) (src : List UInt8) :
    ∃ S : Finset Nat, S.card ≤ 2 * touched off src.length ∧
      Logs (writeLoop sb fuel d ip off src) (fun w => w = sb.bmapstart ∨ w ∈ S) fun _ => True := by
  induction fuel generalizing d ip off src with
  | zero => exact ⟨∅, Nat.zero_le _, .pure trivial⟩
  | succ fuel ih =>
    unfold writeLoop
    split_ifs with hsrc
    · exact ⟨∅, Nat.zero_le _, .pure trivial⟩
    · have hpos := List.length_pos_iff.mpr hsrc
      obtain ⟨b, x, hbmap⟩ := bmap_logs hsb d ip (off / BSIZE)
      cases hresult : (bmap sb d ip (off / BSIZE)).result with
      | error e =>
        refine ⟨{b, x}, ?_, Logs.bind (R := fun _ => False) ⟨fun w hw => ?_, ?_⟩
          fun _ h => h.elim⟩
        · have hround := touched_round off hpos
          exact Finset.card_le_two.trans (by omega)
        · simpa using hbmap.log w hw
        · rw [hresult]
          exact .error
      | ok r =>
        obtain ⟨b', ip', d'⟩ := r
        obtain rfl : b' = b := hbmap.result _ hresult
        set m := min src.length (BSIZE - off % BSIZE) with hm
        obtain ⟨S, hS, hrest⟩ := ih (Function.update d' b' (putBytes (d' b') (off % BSIZE)
          (src.take m))) ip' (off + m) (src.drop m)
        have hcard : ({b', x} ∪ S).card ≤ 2 * touched off src.length := by
          refine (Finset.card_union_le _ _).trans ?_
          have htwo := Finset.card_le_two (a := b') (b := x)
          have hround := touched_round off hpos
          rw [← hm] at hround
          rw [List.length_drop] at hS
          omega
        refine ⟨{b', x} ∪ S, hcard, Logs.bind (R := fun r => r = (b', ip', d'))
          ⟨fun w hw => ?_, ?_⟩ ?_⟩
        · rcases hbmap.log w hw with hw | hw | hw <;> simp [hw]
        · rw [hresult]
          exact .ok rfl
        · rintro _ rfl
          refine Logs.bind (R := fun _ => True) (.tell (by simp) trivial) fun _ _ => ?_
          refine hrest.mono (fun w hw => ?_) fun _ h => h
          exact hw.imp_right fun h => Finset.mem_union_right _ h

lemma writei_logs (dev : Devsw) (d : Disk) (i : Nat) (ip : Dinode) (off : UInt32)
    (src : List UInt8) :
    ∃ S : Finset Nat, S.card ≤ 2 * touched off.toNat src.length ∧
      Logs (writei sb dev d i ip off src)
        (fun w => w = sb.iblock i ∨ w = sb.bmapstart ∨ w ∈ S) fun _ => True := by
  obtain ⟨S, hS, hloop⟩ := writeLoop_logs hsb src.length d ip off.toNat src
  refine ⟨S, hS, ?_⟩
  unfold writei
  dsimp only
  split_ifs
  · exact .pure trivial
  · exact .pure trivial
  · exact .pure trivial
  · refine (hloop.mono (fun w hw => Or.inr hw) fun _ h => h).bind fun r _ => ?_
    obtain ⟨ip', d'⟩ := r
    dsimp only
    split_ifs
    · refine Logs.bind (R := fun _ => True) ?_ fun _ _ => .pure trivial
      exact Logs.bind (R := fun _ => True) (.tell (Or.inl rfl) trivial) fun _ _ => .pure trivial
    · exact .pure trivial

end Single

/-- A chunk of `filewrite` fits into a transaction: on a disk with one bitmap block, `writei` passes
at most `MAXOPBLOCKS` different blocks to `log_write`, whether it returns or not. -/
theorem write_chunk_fits (sb : Superblock) (hsb : sb.size ≤ BPB) (dev : Devsw) (d : Disk) (i : Nat)
    (ip : Dinode) (off : UInt32) (src : List UInt8) (hsrc : src.length ≤ maxChunk) :
    (writei sb dev d i ip off src).result = Fs.writei sb dev d i ip off src ∧
      (writei sb dev d i ip off src).log.toFinset.card ≤ MAXOPBLOCKS := by
  refine ⟨result_writei sb dev d i ip off src, ?_⟩
  obtain ⟨S, hS, hlogs⟩ := writei_logs hsb dev d i ip off src
  have hsub : (writei sb dev d i ip off src).log.toFinset ⊆
      insert (sb.iblock i) (insert sb.bmapstart S) := by
    intro w hw
    rcases hlogs.log w (List.mem_toFinset.mp hw) with hw | hw | hw <;> simp [hw]
  have hfour : touched off.toNat src.length ≤ 4 := by
    have hmax : maxChunk = 1536 := rfl
    rcases Nat.eq_zero_or_pos src.length with hzero | hpos
    · rw [hzero, touched, if_pos rfl]
      exact Nat.zero_le _
    · rw [touched_of_pos _ hpos]
      simp only [BSIZE]
      omega
  calc (writei sb dev d i ip off src).log.toFinset.card
      ≤ (insert (sb.iblock i) (insert sb.bmapstart S)).card := Finset.card_le_card hsub
    _ ≤ S.card + 1 + 1 := (Finset.card_insert_le _ _).trans
        (Nat.succ_le_succ (Finset.card_insert_le _ _))
    _ ≤ MAXOPBLOCKS := by
      simp only [MAXOPBLOCKS]
      omega

theorem write_chunk_fits_empty_file :
    (writei mkfsSuperblock ⟨fun _ _ => none, fun _ _ => none⟩ oneFile 1
      (Disk.dinode mkfsSuperblock oneFile 1) 0 [104, 105]).log.toFinset.card ≤ MAXOPBLOCKS := by
  have hsb : mkfsSuperblock.size ≤ BPB := by simp only [mkfsSuperblock, BPB]; omega
  have hsrc : 2 ≤ maxChunk := Nat.le_of_ble_eq_true rfl
  exact (write_chunk_fits mkfsSuperblock hsb _ _ _ _ _ [104, 105] hsrc).2

end Xv6.Fs.Logged
