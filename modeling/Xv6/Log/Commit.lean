import Xv6.Lib.BlockWrites
import Xv6.Log.Header

/-!
# Commit and recovery

`commit` and `recover_from_log` as the sequences of block writes they issue, and what a crash
between any two of these writes leaves on the disk.

`bread` and `bwrite` are taken at the contract of the buffer cache: `bread` returns the cached
contents of a block, which are those of the disk unless the block has been modified since, and
`bwrite` reaches the disk before it returns. A crash loses the cache.
-/

namespace Xv6

open BlockWrites

/-- `struct log`, without its lock: the log area is `start, ..., start + size - 1`. -/
structure Log where
  start : Nat
  size : Nat
  lh : LogHeader

/-- The disk, the contents of the buffer cache over it, and the block writes issued so far. -/
structure Dev where
  disk : Nat → Block
  cache : Nat → Block
  issued : List (Nat × Block)

namespace Dev

/-- After a boot the cache agrees with the disk. -/
def boot (disk : Nat → Block) : Dev := ⟨disk, disk, []⟩

def bread (d : Dev) (b : Nat) : Block := d.cache b

def bwrite (d : Dev) (b : Nat) (v : Block) : Dev :=
  ⟨Function.update d.disk b v, Function.update d.cache b v, d.issued ++ [(b, v)]⟩

/-- Several `bwrite`s in a row. -/
def writeAll (d : Dev) (ws : List (Nat × Block)) : Dev :=
  ⟨perform d.disk ws, perform d.cache ws, d.issued ++ ws⟩

@[simp] lemma writeAll_nil (d : Dev) : d.writeAll [] = d := by simp [writeAll]

lemma bwrite_eq_writeAll (d : Dev) (b : Nat) (v : Block) : d.bwrite b v = d.writeAll [(b, v)] :=
  rfl

lemma writeAll_writeAll (d : Dev) (ws vs : List (Nat × Block)) :
    (d.writeAll ws).writeAll vs = d.writeAll (ws ++ vs) := by
  simp [writeAll, perform_append]

/-- `n` times: read block `src tail`, copy it into the buffer of block `dst tail`, write that. -/
def copyBlocks (n : Nat) (dst src : Nat → Nat) (d : Dev) : Dev :=
  (List.range n).foldl (fun d tail => d.bwrite (dst tail) (d.bread (src tail))) d

/-- If no copied block is overwritten, the loop issues the contents found at its start. -/
lemma copyBlocks_eq (n : Nat) (dst src : Nat → Nat) (d : Dev)
    (hne : ∀ i < n, ∀ j < n, dst i ≠ src j) :
    copyBlocks n dst src d =
      d.writeAll ((List.range n).map fun t => (dst t, d.cache (src t))) := by
  induction n with
  | zero => simp [copyBlocks]
  | succ n ih =>
    have hread : (d.writeAll ((List.range n).map fun t => (dst t, d.cache (src t)))).bread
        (src n) = d.cache (src n) := by
      refine perform_of_forall_ne fun w hw => ?_
      obtain ⟨t, ht, rfl⟩ := List.mem_map.mp hw
      exact hne t (by have := List.mem_range.mp ht; omega) n (by omega)
    have ih := ih fun i hi j hj => hne i (by omega) j (by omega)
    simp only [copyBlocks, List.range_succ, List.foldl_append, List.foldl_cons, List.foldl_nil]
      at ih ⊢
    rw [ih, hread, bwrite_eq_writeAll, writeAll_writeAll, List.map_append]
    rfl

end Dev

namespace Log

/-- `write_log`: copy modified blocks from the cache to the log. -/
def writeLog (L : Log) (d : Dev) : Dev :=
  d.copyBlocks L.lh.n (fun tail => L.start + tail + 1) L.lh.block

/-- `install_trans`: copy committed blocks from the log to their home location. -/
def installTrans (L : Log) (d : Dev) : Dev :=
  d.copyBlocks L.lh.n L.lh.block (fun tail => L.start + tail + 1)

/-- `read_head`: entries of the in-memory header beyond `n` keep their old values. -/
def readHead (L : Log) (d : Dev) : Log :=
  let hb := LogHeader.decode (d.bread L.start)
  { L with lh := ⟨hb.n, fun i => if i < hb.n then hb.block i else L.lh.block i⟩ }

/-- `write_head`: the true point at which a transaction commits. -/
def writeHead (L : Log) (d : Dev) : Dev :=
  d.bwrite L.start (L.lh.encode (d.bread L.start))

/-- `log.lh.n = 0`. -/
def clear (L : Log) : Log := { L with lh := { L.lh with n := 0 } }

def recoverFromLog (L : Log) (d : Dev) : Log × Dev :=
  let L := L.readHead d
  let d := L.installTrans d
  let L := L.clear
  (L, L.writeHead d)

def commit (L : Log) (d : Dev) : Log × Dev :=
  if 0 < L.lh.n then
    let d := L.writeLog d
    let d := L.writeHead d
    let d := L.installTrans d
    let L := L.clear
    (L, L.writeHead d)
  else
    (L, d)

/-- Blocks outside the log area. -/
def Home (L : Log) (b : Nat) : Prop := b < L.start ∨ L.start + L.size ≤ b

/-- What `commit` needs of the header: distinct home blocks, and room for them. `log_write` does not
guarantee the room: it tests for it before it takes the lock. -/
structure Sound (L : Log) : Prop where
  room : L.lh.n < L.size
  fits : L.lh.n ≤ LOGSIZE
  nodup : L.lh.blocks.Nodup
  home : ∀ b ∈ L.lh.blocks, L.Home b

/-- The log as `initlog` sets it up before recovery. -/
def fresh (L : Log) : Log := ⟨L.start, L.size, ⟨0, fun _ => 0⟩⟩

/-- The block writes of one recovery from the disk `D`. -/
def recoveryWrites (L : Log) (D : Nat → Block) : List (Nat × Block) :=
  (L.fresh.recoverFromLog (Dev.boot D)).2.issued

/-- The disk after a recovery from `D` that runs to its end. -/
def recovered (L : Log) (D : Nat → Block) : Nat → Block :=
  (L.fresh.recoverFromLog (Dev.boot D)).2.disk

/-- Any number of recovery attempts, each cut short after some of its writes. -/
inductive Attempts (L : Log) : (Nat → Block) → (Nat → Block) → Prop
  | none (D : Nat → Block) : Attempts L D D
  | crash {D D' : Nat → Block} (j : Nat) :
      Attempts L (perform D ((L.recoveryWrites D).take j)) D' → Attempts L D D'

/-! ### The writes of `commit` and of recovery -/

/-- Copies of the logged blocks into the log area. -/
def logWrites (L : Log) (c : Nat → Block) : List (Nat × Block) :=
  (List.range L.lh.n).map fun t => (L.start + t + 1, c (L.lh.block t))

/-- The logged blocks written home, with the contents `v t` for entry `t`. -/
def homeWrites (lh : LogHeader) (v : Nat → Block) : List (Nat × Block) :=
  (List.range lh.n).map fun t => (lh.block t, v t)

variable {L : Log}

lemma logWrites_ne_home {c : Nat → Block} (hL : L.Sound) {b : Nat} (hb : L.Home b) :
    ∀ w ∈ L.logWrites c, w.1 ≠ b := by
  intro w hw
  obtain ⟨t, ht, rfl⟩ := List.mem_map.mp hw
  have hlt := List.mem_range.mp ht
  have hroom := hL.room
  dsimp only [Home] at hb ⊢
  omega

lemma logWrites_ne_start {c : Nat → Block} : ∀ w ∈ L.logWrites c, w.1 ≠ L.start := by
  intro w hw
  obtain ⟨t, -, rfl⟩ := List.mem_map.mp hw
  dsimp only
  omega

lemma logWrites_at {c D : Nat → Block} {t : Nat} (ht : t < L.lh.n) :
    perform D (L.logWrites c) (L.start + t + 1) = c (L.lh.block t) := by
  apply perform_of_mem
  · simp only [logWrites, List.map_map]
    exact List.Nodup.map (fun a b h => by simpa using h) List.nodup_range
  · exact List.mem_map.mpr ⟨t, List.mem_range.mpr ht, rfl⟩

lemma homeWrites_fst (lh : LogHeader) (v : Nat → Block) :
    (homeWrites lh v).map Prod.fst = lh.blocks := by
  simp [homeWrites, LogHeader.blocks]

/-- Writing logged blocks home touches logged blocks only. -/
lemma homeWrites_ne {lh : LogHeader} {v : Nat → Block} {b : Nat} (hb : b ∉ lh.blocks) :
    ∀ w ∈ homeWrites lh v, w.1 ≠ b := by
  intro w hw hwb
  exact hb (by rw [← homeWrites_fst lh v]; exact List.mem_map.mpr ⟨w, hw, hwb⟩)

lemma homeWrites_at {lh : LogHeader} {v D : Nat → Block} (hlh : lh.blocks.Nodup) {t : Nat}
    (ht : t < lh.n) : perform D (homeWrites lh v) (lh.block t) = v t := by
  apply perform_of_mem
  · rwa [homeWrites_fst]
  · exact List.mem_map.mpr ⟨t, List.mem_range.mpr ht, rfl⟩

lemma Sound.start_notMem (hL : L.Sound) : L.start ∉ L.lh.blocks := by
  intro h
  have hroom := hL.room
  rcases hL.home _ h with h | h
  · omega
  · omega

lemma Sound.log_notMem (hL : L.Sound) {t : Nat} (ht : t < L.lh.n) :
    L.start + t + 1 ∉ L.lh.blocks := by
  intro h
  have hroom := hL.room
  rcases hL.home _ h with h | h
  · omega
  · omega

/-- All writes issued by `commit`, in order. -/
lemma commit_issued (hL : L.Sound) (hn : 0 < L.lh.n) (disk c : Nat → Block) :
    ∃ H H0 : Block, H = L.lh.encode (c L.start) ∧ H0 = L.clear.lh.encode H ∧
      (L.commit ⟨disk, c, []⟩).2 = Dev.writeAll ⟨disk, c, []⟩
        (L.logWrites c ++ (L.start, H) ::
          (homeWrites L.lh (fun t => c (L.lh.block t)) ++ [(L.start, H0)])) := by
  have hlog : L.writeLog ⟨disk, c, []⟩ = Dev.writeAll ⟨disk, c, []⟩ (L.logWrites c) := by
    apply Dev.copyBlocks_eq
    intro i hi j hj h
    exact hL.log_notMem hi (h ▸ LogHeader.block_mem_blocks hj)
  -- the header buffer is not among the log blocks just written
  have hhead : perform c (L.logWrites c) L.start = c L.start :=
    perform_of_forall_ne logWrites_ne_start
  generalize hd1 : Dev.writeAll ⟨disk, c, []⟩ (L.logWrites c ++ [(L.start,
    L.lh.encode (c L.start))]) = d1
  have hc1 : d1.cache = Function.update (perform c (L.logWrites c)) L.start
      (L.lh.encode (c L.start)) := by
    rw [← hd1]
    simp [Dev.writeAll, perform_append]
  have hwh : L.writeHead (L.writeLog ⟨disk, c, []⟩) = d1 := by
    rw [hlog, writeHead, Dev.bwrite_eq_writeAll, Dev.writeAll_writeAll, ← hd1]
    simp only [Dev.bread, Dev.writeAll, hhead]
  have hinst : L.installTrans d1 =
      d1.writeAll (homeWrites L.lh fun t => c (L.lh.block t)) := by
    unfold installTrans
    rw [Dev.copyBlocks_eq]
    · congr 1
      refine List.map_congr_left fun t ht => ?_
      have hlt := List.mem_range.mp ht
      rw [hc1, Function.update_of_ne (by omega), logWrites_at hlt]
    · intro i hi j hj h
      exact hL.log_notMem hj (h ▸ LogHeader.block_mem_blocks hi)
  refine ⟨_, _, rfl, rfl, ?_⟩
  have hstart : perform d1.cache (homeWrites L.lh fun t => c (L.lh.block t)) L.start =
      L.lh.encode (c L.start) := by
    rw [perform_of_forall_ne (homeWrites_ne hL.start_notMem), hc1, Function.update_self]
  simp only [commit, if_pos hn, hwh, hinst]
  rw [writeHead, Dev.bwrite_eq_writeAll, Dev.writeAll_writeAll, ← hd1, Dev.writeAll_writeAll]
  congr 1
  have hbread : ((Dev.writeAll ⟨disk, c, []⟩ (L.logWrites c ++ [(L.start,
      L.lh.encode (c L.start))])).writeAll (homeWrites L.lh fun t => c (L.lh.block t))).bread
        L.start = L.lh.encode (c L.start) := by
    rw [hd1]
    exact hstart
  simp only [clear, List.append_assoc, List.cons_append, List.nil_append, hbread]

/-- All writes of a recovery, when the header on disk lists home blocks outside the log. -/
lemma recoveryWrites_eq {D : Nat → Block} {lh : LogHeader}
    (hlh : lh = (L.fresh.readHead (Dev.boot D)).lh)
    (hne : ∀ i < lh.n, ∀ j < lh.n, lh.block i ≠ L.start + j + 1) :
    ∃ H0 : Block, (LogHeader.decode H0).n = 0 ∧
      L.recoveryWrites D = homeWrites lh (fun t => D (L.start + t + 1)) ++ [(L.start, H0)] ∧
      L.recovered D = perform D (L.recoveryWrites D) := by
  have hinst : (L.fresh.readHead (Dev.boot D)).installTrans (Dev.boot D) =
      (Dev.boot D).writeAll (homeWrites lh fun t => D (L.start + t + 1)) := by
    unfold installTrans
    rw [← hlh]
    exact Dev.copyBlocks_eq _ _ _ _ hne
  refine ⟨_, LogHeader.decode_encode_n (L.fresh.readHead (Dev.boot D)).clear.lh
    (Nat.zero_le _) (((Dev.boot D).writeAll
      (homeWrites lh fun t => D (L.start + t + 1))).bread L.start), ?_⟩
  simp only [recoveryWrites, recovered, recoverFromLog, hinst, writeHead,
    Dev.bwrite_eq_writeAll, Dev.writeAll_writeAll]
  exact ⟨rfl, rfl⟩

/-! ### The disk between two writes -/

/-- No transaction is pending and the home blocks are those of `c`. -/
structure Settled (L : Log) (c D : Nat → Block) : Prop where
  header : (LogHeader.decode (D L.start)).n = 0
  home : ∀ b, L.Home b → D b = c b

/-- The transaction of `L` is committed: header and log blocks are on disk, the home blocks it does
not touch are those of `c`. The others may or may not have been installed. -/
structure Committed (L : Log) (c D : Nat → Block) : Prop where
  count : (LogHeader.decode (D L.start)).n = L.lh.n
  entries : ∀ i < L.lh.n, (LogHeader.decode (D L.start)).block i = L.lh.block i
  log : ∀ i < L.lh.n, D (L.start + i + 1) = c (L.lh.block i)
  home : ∀ b, L.Home b → b ∉ L.lh.blocks → D b = c b

lemma Sound.start_not_home (hL : L.Sound) : ¬ L.Home L.start := by
  have hroom := hL.room
  rintro (h | h)
  · omega
  · omega

/-- A recovery with nothing to install writes the header only. -/
lemma Settled.recovery {c D : Nat → Block} (hL : L.Sound) (h : L.Settled c D) (j : Nat) :
    L.Settled c (perform D ((L.recoveryWrites D).take j)) ∧ L.Settled c (L.recovered D) := by
  have hn : (L.fresh.readHead (Dev.boot D)).lh.n = 0 := h.header
  obtain ⟨H0, hH0, hw, hrec⟩ := recoveryWrites_eq (L := L) (D := D) rfl
    (fun i hi => by rw [hn] at hi; omega)
  have hnil : homeWrites (L.fresh.readHead (Dev.boot D)).lh (fun t => D (L.start + t + 1)) = [] :=
    by simp [homeWrites, hn]
  rw [hnil, List.nil_append] at hw
  have hdone : L.Settled c (Function.update D L.start H0) := by
    refine ⟨by simpa using hH0, fun b hb => ?_⟩
    have hbs : b ≠ L.start := fun hbs => hL.start_not_home (hbs ▸ hb)
    rw [Function.update_of_ne hbs, h.home b hb]
  rw [hrec, hw]
  refine ⟨?_, hdone⟩
  cases j with
  | zero => exact h
  | succ j => simpa using hdone

/-- The header a recovery reads from a committed disk. -/
lemma Committed.readHead {c D : Nat → Block} (h : L.Committed c D) :
    (L.fresh.readHead (Dev.boot D)).lh.n = L.lh.n ∧
      ∀ i < L.lh.n, (L.fresh.readHead (Dev.boot D)).lh.block i = L.lh.block i := by
  refine ⟨h.count, fun i hi => ?_⟩
  have hi' : i < (LogHeader.decode ((Dev.boot D).bread L.fresh.start)).n := by
    rw [show (LogHeader.decode ((Dev.boot D).bread L.fresh.start)).n = L.lh.n from h.count]
    exact hi
  simp only [Log.readHead, if_pos hi']
  exact h.entries i hi

/-- Writing committed blocks home again changes nothing that a recovery relies on. -/
lemma Committed.perform_home {c D : Nat → Block} (hL : L.Sound) (h : L.Committed c D) (j : Nat) :
    L.Committed c (perform D ((homeWrites L.lh fun t => c (L.lh.block t)).take j)) := by
  have keep : ∀ b, b ∉ L.lh.blocks →
      perform D ((homeWrites L.lh fun t => c (L.lh.block t)).take j) b = D b := fun b hb =>
    perform_of_forall_ne fun w hw => homeWrites_ne hb w (List.mem_of_mem_take hw)
  refine ⟨?_, fun i hi => ?_, fun i hi => ?_, fun b hb hbn => ?_⟩
  · rw [keep _ hL.start_notMem, h.count]
  · rw [keep _ hL.start_notMem, h.entries i hi]
  · rw [keep _ (hL.log_notMem hi), h.log i hi]
  · rw [keep b hbn, h.home b hb hbn]

/-- Once all committed blocks are home and the header is cleared, the disk has the new contents. -/
lemma Committed.settled {c D : Nat → Block} (hL : L.Sound) (h : L.Committed c D) {H0 : Block}
    (hH0 : (LogHeader.decode H0).n = 0) :
    L.Settled c (Function.update (perform D (homeWrites L.lh fun t => c (L.lh.block t)))
      L.start H0) := by
  refine ⟨by simpa using hH0, fun b hb => ?_⟩
  have hbs : b ≠ L.start := fun hbs => hL.start_not_home (hbs ▸ hb)
  rw [Function.update_of_ne hbs]
  by_cases hbn : b ∈ L.lh.blocks
  · obtain ⟨t, ht, rfl⟩ := LogHeader.mem_blocks.mp hbn
    exact homeWrites_at hL.nodup ht
  · rw [perform_of_forall_ne (homeWrites_ne hbn), h.home b hb hbn]

/-- A recovery from a committed disk leaves it committed until its last write settles it. -/
lemma Committed.recovery {c D : Nat → Block} (hL : L.Sound) (h : L.Committed c D) (j : Nat) :
    (L.Committed c (perform D ((L.recoveryWrites D).take j)) ∨
      L.Settled c (perform D ((L.recoveryWrites D).take j))) ∧ L.Settled c (L.recovered D) := by
  obtain ⟨hcount, hentries⟩ := h.readHead
  obtain ⟨H0, hH0, hw, hrec⟩ := recoveryWrites_eq (L := L) (D := D) rfl (fun i hi k hk hik => by
    rw [hcount] at hi hk
    rw [hentries i hi] at hik
    exact hL.log_notMem hk (hik ▸ LogHeader.block_mem_blocks hi))
  -- what the recovery writes home is what the commit would have written
  have hsame : homeWrites (L.fresh.readHead (Dev.boot D)).lh (fun t => D (L.start + t + 1)) =
      homeWrites L.lh (fun t => c (L.lh.block t)) := by
    unfold homeWrites
    rw [hcount]
    refine List.map_congr_left fun t ht => ?_
    have hlt := List.mem_range.mp ht
    simp only [hentries t hlt, h.log t hlt]
  rw [hsame] at hw
  have hdone := h.settled hL hH0
  rw [hrec, hw]
  constructor
  · rcases perform_take_append_cons D (homeWrites L.lh fun t => c (L.lh.block t)) []
        (L.start, H0) j with ⟨_, hj⟩ | ⟨_, hj⟩
    · exact Or.inl (hj ▸ h.perform_home hL j)
    · rw [List.take_nil, perform_nil] at hj
      exact Or.inr (hj ▸ hdone)
  · rwa [perform_append]

/-- Crashed recovery attempts keep a settled disk settled. -/
lemma Settled.attempts {c D D' : Nat → Block} (hL : L.Sound) (h : L.Settled c D)
    (ha : L.Attempts D D') : L.Settled c D' := by
  induction ha with
  | none D => exact h
  | crash j _ ih => exact ih (h.recovery hL j).1

/-- Crashed recovery attempts keep a committed disk committed, or settle it. -/
lemma Committed.attempts {c D D' : Nat → Block} (hL : L.Sound) (h : L.Committed c D)
    (ha : L.Attempts D D') : L.Committed c D' ∨ L.Settled c D' := by
  induction ha with
  | none D => exact Or.inl h
  | crash j ha ih =>
    rcases (h.recovery hL j).1 with hc | hs
    · exact ih hc
    · exact Or.inr (hs.attempts hL ha)

/-- The disk after a prefix of the writes of `commit`: nothing has happened, or the transaction is
committed, or it is installed and the header is cleared. -/
lemma commit_prefix (hL : L.Sound) (hn : 0 < L.lh.n) {disk c : Nat → Block}
    (hclean : (LogHeader.decode (disk L.start)).n = 0)
    (hcache : ∀ b, b ∉ L.lh.blocks → c b = disk b) (k : Nat) :
    let D := perform disk ((L.commit ⟨disk, c, []⟩).2.issued.take k)
    (k ≤ L.lh.n ∧ L.Settled disk D) ∨
      (L.lh.n < k ∧ (L.Committed c D ∨ L.Settled c D)) := by
  obtain ⟨H, H0, hH, hH0, heq⟩ := commit_issued hL hn disk c
  have hdecode0 : (LogHeader.decode H0).n = 0 := by
    rw [hH0]
    exact LogHeader.decode_encode_n L.clear.lh (Nat.zero_le _) H
  have hlen : (L.logWrites c).length = L.lh.n := by simp [logWrites]
  simp only [heq, Dev.writeAll, List.nil_append]
  rcases perform_take_append_cons disk (L.logWrites c)
      (homeWrites L.lh (fun t => c (L.lh.block t)) ++ [(L.start, H0)]) (L.start, H) k with
    ⟨hk, hD⟩ | ⟨hk, hD⟩
  · -- only log blocks have been written
    left
    rw [hD]
    refine ⟨by omega, ?_, fun b hb => ?_⟩
    · rw [perform_of_forall_ne fun w hw => logWrites_ne_start w (List.mem_of_mem_take hw)]
      exact hclean
    · exact perform_of_forall_ne fun w hw => logWrites_ne_home hL hb w (List.mem_of_mem_take hw)
  · right
    refine ⟨by omega, ?_⟩
    rw [hD]
    -- the header write commits the transaction
    have hcommitted : L.Committed c
        (Function.update (perform disk (L.logWrites c)) L.start H) := by
      refine ⟨?_, fun i hi => ?_, fun i hi => ?_, fun b hb hbn => ?_⟩
      · rw [Function.update_self, hH]
        exact LogHeader.decode_encode_n L.lh hL.fits _
      · rw [Function.update_self, hH]
        exact LogHeader.decode_encode_block hL.fits _ hi
      · rw [Function.update_of_ne (by omega), logWrites_at hi]
      · have hbs : b ≠ L.start := fun hbs => hL.start_not_home (hbs ▸ hb)
        rw [Function.update_of_ne hbs, perform_of_forall_ne (logWrites_ne_home hL hb),
          hcache b hbn]
    rcases perform_take_append_cons (Function.update (perform disk (L.logWrites c)) L.start H)
        (homeWrites L.lh fun t => c (L.lh.block t)) [] (L.start, H0)
        (k - (L.logWrites c).length - 1) with ⟨_, hj⟩ | ⟨_, hj⟩
    · left
      exact hj ▸ hcommitted.perform_home hL _
    · right
      rw [List.take_nil, perform_nil] at hj
      exact hj ▸ hcommitted.settled hL hdecode0

/-- The log of an `mkfs` image with block 100 logged. -/
def oneBlock : Log := ⟨2, 30, ⟨1, fun _ => 100⟩⟩

/-- A block with the same value in all words. -/
def fill (v : Nat) : Block := fun _ => v

lemma oneBlock_sound : oneBlock.Sound where
  room := by decide
  fits := by decide
  nodup := by simp [LogHeader.blocks, oneBlock]
  home := by simp [LogHeader.blocks, oneBlock, Home]

/-- A log area of 30 blocks with 30 blocks logged, one more than there are behind the header. -/
def fullLog : Log := ⟨2, 30, ⟨30, fun i => 100 + i⟩⟩

def fullCache : Nat → Block := fun b => if b ∈ fullLog.lh.blocks then fill 9 else fill 0

end Log

end Xv6
