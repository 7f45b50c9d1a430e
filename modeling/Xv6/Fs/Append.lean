import Xv6.Fs.ReadWrite

/-!
# Appending to a file

A file that is only ever appended to has no block behind its end, and zeros from its end to the end
of its last block, because `balloc` zeroes the blocks that it hands out.
-/

namespace Xv6.Fs

open Disk Fallible Splice

variable {sb : Superblock} {d d' : Disk} {ip ip' : Dinode} {i b bn off : Nat} {src : List UInt8}

/-- The blocks that are new from `d`, `ip` to `d'`, `ip'` satisfy `P` and are zero. -/
def Fresh (P : Nat → Prop) (d : Disk) (ip : Dinode) (d' : Disk) (ip' : Dinode) : Prop :=
  ∀ c, Mapped d' ip' c → Mapped d ip c ∨ P c ∧ d' (blockOf d' ip' c) = zeroBlock

lemma Allocated.zero (ha : Allocated sb d b d') : d' b = zeroBlock := by
  rw [ha.eq]
  exact Function.update_self _ _ _

/-- A direct slot that is filled adds one block, the indirect slot none. -/
lemma Working.slot_fresh (h : Working sb d i ip) (k : Fin (NDIRECT + 1)) :
    Ensures (slot sb d ip k) fun x =>
      Fresh (fun c => c < NDIRECT ∧ c = k.val) d ip x.2.2 x.2.1 := by
  unfold slot
  split_ifs with hk
  · refine Ensures.bind (fun _ hx => h.accounts.balloc hx) fun x ha => Ensures.pure fun c hc => ?_
    dsimp only at hc ⊢
    by_cases hlt : c < NDIRECT
    · rw [mapped_direct hlt] at hc ⊢
      by_cases hck : (⟨c, Nat.lt_succ_of_lt hlt⟩ : Fin (NDIRECT + 1)) = k
      · refine Or.inr ⟨⟨hlt, congrArg Fin.val hck⟩, ?_⟩
        rw [blockOf_direct hlt, hck, setAddr_self, ha.toNat_ofNat, ha.zero]
      · rw [setAddr_of_ne ip _ hck] at hc
        exact Or.inl hc
    · rw [mapped_indirect hlt] at hc ⊢
      by_cases hik : indirect = k
      · subst hik
        rw [setAddr_self, ha.toNat_ofNat, ha.get_self] at hc
        exact absurd rfl hc.2.2
      · rw [setAddr_of_ne ip _ hik] at hc
        rw [h.alloc_self ha hc.2.1] at hc
        exact Or.inl hc
  · exact Ensures.pure fun c hc => Or.inl hc

lemma Working.entry_fresh (h : Working sb d i ip) (hind : ip.addrs indirect ≠ 0) {j : Nat}
    (hj : j < NINDIRECT) :
    Ensures (entry sb d (ip.addrs indirect).toNat j) fun x =>
      Fresh (· = NDIRECT + j) d ip x.2 ip := by
  unfold entry
  split_ifs with hj0
  · refine Ensures.bind (fun _ hx => h.accounts.balloc hx) fun x ha => Ensures.pure fun c hc => ?_
    dsimp only at hc ⊢
    by_cases hlt : c < NDIRECT
    · rw [mapped_direct hlt] at hc ⊢
      exact Or.inl hc
    · rw [mapped_indirect hlt, Function.update_self] at hc
      by_cases hcj : c - NDIRECT = j
      · refine Or.inr ⟨by omega, ?_⟩
        have hne : x.1 ≠ (ip.addrs indirect).toNat := by
          intro heq
          have hnone := ha.unreferenced h.accounts
          have hle := refs_le_allRefs d (tableWith sb d i ip) h.lt
            (by rw [tableWith_self]; exact h.type) (ip.addrs indirect).toNat
          have hone := one_le_refs d ip indirect
          rw [tableWith_self] at hle
          rw [heq] at hnone
          omega
        rw [blockOf_indirect hlt, Function.update_self, hcj, Block.get_set_self _ _ hj,
          Function.update_of_ne hne, ha.zero]
      · rw [Block.get_set_ne _ _ hcj, h.alloc_self ha hind] at hc
        exact Or.inl ((mapped_indirect hlt).mpr hc)
  · exact Ensures.pure fun c hc => Or.inl hc

/-- `bmap` adds at most the block that it is asked for. -/
lemma Working.bmap_fresh (h : Working sb d i ip) (bn : Nat) :
    Ensures (bmap sb d ip bn) fun x => Fresh (· = bn) d ip x.2.2 x.2.1 := by
  unfold bmap
  split_ifs with hlt hj
  · refine (h.slot_fresh _).mono fun x hx c hc => ?_
    exact (hx c hc).imp_right fun hnew => ⟨hnew.1.2, hnew.2⟩
  · refine Ensures.bind ((h.slot_ensures indirect).and (h.slot_fresh indirect)) ?_
    rintro ⟨x, ip₁, d₁⟩ ⟨⟨hwork₁, -, hne, heq, hsame⟩, hfresh₁⟩
    dsimp only at hwork₁ hne heq hsame hfresh₁ ⊢
    rw [heq]
    refine Ensures.bind (hwork₁.entry_fresh hne hj) ?_
    rintro ⟨b, d₂⟩ hfresh₂
    refine Ensures.pure fun c hc => ?_
    rcases hfresh₂ c hc with hold | ⟨hc', hzero⟩
    · rcases hfresh₁ c hold with hold | ⟨hc', hzero⟩
      · exact Or.inl hold
      · exact absurd hc'.2 hc'.1.ne
    · exact Or.inr ⟨by omega, hzero⟩
  · exact Ensures.error

/-- No direct block of the file starts behind the first `n` bytes, and what follows them is zero. -/
def Trimmed (d : Disk) (ip : Dinode) (n : Nat) : Prop :=
  ∀ k, n ≤ k → k / BSIZE < NDIRECT → Mapped d ip (k / BSIZE) →
    k / BSIZE * BSIZE < n ∧ byteOf d ip k = 0

lemma byteAt_zeroBlock (k : Nat) : byteAt zeroBlock k = 0 := by
  have hzero : zeroBlock.get (k / 4) = 0 := by simp [Block.get, zeroBlock]
  rw [byteAt, hzero, Nat.zero_div]
  rfl

/-- The files of others keep their blocks, and which direct blocks there are is in the inode. -/
lemma Trimmed.kept {n : Nat} (h : Trimmed d ip n) (hk : Kept d ip d' ip) : Trimmed d' ip n := by
  intro k hle hdirect hmapped
  have hold : Mapped d ip (k / BSIZE) := by
    rwa [mapped_direct hdirect] at hmapped ⊢
  rw [hk.byteOf hold]
  exact h k hle hdirect hold

/-- The same file with another size. -/
lemma Trimmed.fields {n : Nat} (h : Trimmed d ip n) (haddrs : ip'.addrs = ip.addrs) :
    Trimmed d ip' n := by
  intro k hle hdirect hmapped
  rw [byteOf_fields haddrs]
  exact h k hle hdirect ((mapped_fields haddrs).mp hmapped)

/-- Writing at the end. -/
lemma writeLoop_trimmed (fuel : Nat) (h : Working sb d i ip) (ht : Trimmed d ip off)
    (hfuel : src.length ≤ fuel) :
    Ensures (writeLoop sb fuel d ip off src) fun x => Trimmed x.2 x.1 (off + src.length) := by
  induction fuel generalizing d ip off src with
  | zero =>
    rw [List.length_eq_zero_iff.mp (Nat.le_zero.mp hfuel)]
    exact Ensures.ok ht
  | succ fuel ih =>
    unfold writeLoop
    split_ifs with hnil
    · rw [hnil]
      exact Ensures.ok ht
    · have hpos : 0 < src.length := List.length_pos_iff.mpr hnil
      refine Ensures.bind (((h.bmap_ensures (off / BSIZE)).and
        (h.bmap_kept (Nat.lt_succ_self _))).and (h.bmap_fresh (off / BSIZE))) ?_
      rintro ⟨b, ip₁, d₁⟩ ⟨⟨⟨hwork, -, hfile, hmapped, -⟩, hkept, -, -, hb⟩, hfresh⟩
      dsimp only at hwork hfile hmapped hkept hb hfresh ⊢
      subst hb
      generalize hmin : min src.length (BSIZE - off % BSIZE) = m
      have hm : 1 ≤ m ∧ m ≤ src.length ∧ m ≤ BSIZE - off % BSIZE := by
        simp only [BSIZE] at hmin ⊢
        omega
      have htake : (src.take m).length = m := List.length_take_of_le hm.2.1
      have hdrop : off + src.length = off + m + (src.drop m).length := by
        rw [List.length_drop]
        omega
      have hself : ∀ c, Mapped (Function.update d₁ (blockOf d₁ ip₁ (off / BSIZE))
          (putBytes (d₁ (blockOf d₁ ip₁ (off / BSIZE))) (off % BSIZE) (src.take m))) ip₁ c ↔
          Mapped d₁ ip₁ c :=
        mapped_congr fun _ => Function.update_of_ne (hwork.blockOf_ne_indirect hmapped) _ _
      rw [hdrop]
      refine ih (hwork.write hfile _).1 (fun k hk hdirect hmk => ?_) (by omega)
      rw [hself] at hmk
      have hpiece := (hwork.written_piece (K := 0) hmapped htake hm.2.2).old k (by omega) hmk
      rw [hpiece]
      rcases hfresh _ hmk with hold | ⟨heq, hzero⟩
      · obtain ⟨hlt, hbyte⟩ := ht k (by omega) hdirect hold
        rw [hkept.byteOf hold]
        exact ⟨by omega, hbyte⟩
      · refine ⟨?_, ?_⟩
        · have := Nat.div_mul_le_self off BSIZE
          rw [heq]
          omega
        · rw [byteOf, hzero, byteAt_zeroBlock]

end Xv6.Fs
