import Xv6.Fs.Growth

/-!
# Exact block accounting

Between two operations the bitmap agrees with the inodes on disk: a data block is marked exactly
when it is referenced, and it is referenced once. `writei` keeps this although it writes the inode
back only when the file grows, because in a file without holes a block is allocated only when the
file grows. For the same reason `readi` allocates nothing.
-/

namespace Xv6.Fs

open Disk Fallible TransitionSystem

variable {sb : Superblock} {d d' : Disk} {ip : Dinode} {i : Nat}

/-- The bitmap accounts for the inodes on disk, and these have no holes. -/
structure Sound (sb : Superblock) (d : Disk) : Prop where
  accounts : Accounts sb d (allRefs sb d (dinode sb d))
  noHoles : ∀ j, j < sb.ninodes → (dinode sb d j).type ≠ 0 → NoHoles d (dinode sb d j)

lemma tableWith_dinode (sb : Superblock) (d : Disk) (i : Nat) :
    tableWith sb d i (dinode sb d i) = dinode sb d := Function.update_eq_self _ _

lemma Sound.working (h : Sound sb d) (hi : i < sb.ninodes) (ht : (dinode sb d i).type ≠ 0) :
    Working sb d i (dinode sb d i) :=
  ⟨hi, ht, by rw [tableWith_dinode]; exact h.accounts, fun j hj _ => h.noHoles j hj⟩

/-- Once the copy is written to disk, the inodes on disk are those accounted for. -/
lemma sound_iupdate (hi : i < sb.ninodes)
    (ha : Accounts sb d (allRefs sb d (tableWith sb d i ip)))
    (hothers : ∀ j, j < sb.ninodes → j ≠ i → (dinode sb d j).type ≠ 0 → NoHoles d (dinode sb d j))
    (hself : ip.type ≠ 0 → NoHoles d ip) : Sound sb (iupdate sb d i ip) := by
  have htable : dinode sb (iupdate sb d i ip) = tableWith sb d i ip := by
    funext j
    rw [iupdate, dinode_putDinode, tableWith]
    by_cases hj : j = i
    · rw [if_pos hj, hj, Function.update_self]
    · rw [if_neg hj, Function.update_of_ne hj]
  have hdata : ∀ j, j < sb.ninodes → (tableWith sb d i ip j).type ≠ 0 →
      (tableWith sb d i ip j).addrs indirect ≠ 0 →
      iupdate sb d i ip ((tableWith sb d i ip j).addrs indirect).toNat =
        d ((tableWith sb d i ip j).addrs indirect).toNat :=
    fun j hj ht hind => data_putDinode sb d ip hi (ha.indirect_data hj ht hind)
  refine ⟨?_, fun j hj ht => ?_⟩
  · rw [htable]
    refine (ha.of_marked fun b _ => marked_putDinode sb d ip hi).congr fun b _ => ?_
    refine Finset.sum_congr rfl fun j hj => ?_
    rw [Finset.mem_range] at hj
    unfold refsOf
    split_ifs with ht
    · rfl
    · exact refs_congr (hdata j hj ht) b
  · rw [htable] at ht ⊢
    refine NoHoles.congr ?_ (hdata j hj ht)
    by_cases hji : j = i
    · rw [hji, tableWith_self] at ht ⊢
      exact hself ht
    · rw [tableWith_of_ne _ _ _ hji] at ht ⊢
      exact hothers j hj hji ht

lemma Working.iupdate (h : Working sb d i ip) (hself : NoHoles d ip) :
    Sound sb (Fs.iupdate sb d i ip) :=
  sound_iupdate h.lt h.accounts h.others fun _ => hself

/-- An inode is replaced by one that refers to the same blocks. -/
lemma Sound.replace (h : Sound sb d) (hi : i < sb.ninodes)
    (hrefs : ∀ c, c ≠ 0 → refsOf d ip c = refsOf d (dinode sb d i) c)
    (hself : ip.type ≠ 0 → NoHoles d ip) : Sound sb (Fs.iupdate sb d i ip) := by
  refine sound_iupdate hi (h.accounts.congr fun c hc => ?_) (fun j hj _ => h.noHoles j hj) hself
  have hup := allRefs_update d d (dinode sb d) ip hi (fun _ _ _ _ _ => rfl) c
  rw [hrefs c hc] at hup
  exact Nat.add_right_cancel hup

/-! ### Writing and reading -/

lemma mapped_fields {ip' : Dinode} {bn : Nat} (haddrs : ip'.addrs = ip.addrs) :
    Mapped d ip' bn ↔ Mapped d ip bn := by
  unfold Mapped
  rw [haddrs]

lemma refs_fields {ip' : Dinode} (haddrs : ip'.addrs = ip.addrs) (c : Nat) :
    refs d ip' c = refs d ip c := by
  unfold refs
  rw [haddrs]

/-- The accounts do not depend on the other fields of an inode in use. -/
lemma Working.fields {ip' : Dinode} (h : Working sb d i ip) (ht : ip'.type ≠ 0)
    (haddrs : ip'.addrs = ip.addrs) : Working sb d i ip' :=
  h.change (e := fun _ => 0) (fun _ _ => rfl) ht (fun _ _ _ _ _ => rfl)
    (fun c _ => (refs_fields haddrs c).trans (Nat.add_zero _).symm) h.accounts

/-- After `writei` the disk is sound and the copy of the inode is the one on disk. -/
lemma Sound.writei_ensures (h : Sound sb d) (dev : Devsw) (hi : i < sb.ninodes)
    (ht : (dinode sb d i).type ≠ 0) (off : UInt32) (src : List UInt8)
    (hsrc : src.length < 2 ^ 32) :
    Ensures (writei sb dev d i (dinode sb d i) off src) fun x =>
      Sound sb x.2.2 ∧ x.2.1 = dinode sb x.2.2 i ∧ x.2.1.type ≠ 0 ∧
      ∀ j, j < sb.ninodes → j ≠ i → dinode sb x.2.2 j = dinode sb d j := by
  unfold writei
  dsimp only
  split_ifs with hdev hoff hmax
  · exact Ensures.ok ⟨h, rfl, ht, fun _ _ _ => rfl⟩
  · exact Ensures.ok ⟨h, rfl, ht, fun _ _ _ => rfl⟩
  · exact Ensures.ok ⟨h, rfl, ht, fun _ _ _ => rfl⟩
  · have hn : (UInt32.ofNat src.length).toNat = src.length := by
      rw [UInt32.toNat_ofNat']
      exact Nat.mod_eq_of_lt hsrc
    have hend : (off + UInt32.ofNat src.length).toNat = off.toNat + src.length := by
      simp only [not_or, UInt32.lt_iff_toNat_lt, UInt32.toNat_add, hn] at hoff ⊢
      omega
    have hoffle : off.toNat ≤ (dinode sb d i).size.toNat := by
      simp only [not_or, UInt32.lt_iff_toNat_lt] at hoff
      omega
    refine Ensures.bind (writeLoop_ensures src.length (h.working hi ht) off.toNat src le_rfl) ?_
    rintro ⟨ip', d'⟩ ⟨hwork, hgrown, hmapped, hsame⟩
    dsimp only at hwork hgrown hmapped hsame ⊢
    have hsize : ip'.size = (dinode sb d i).size := by rw [hgrown.fields]
    split_ifs with hgrow
    · set ip₂ : Dinode := { ip' with size := off + UInt32.ofNat src.length } with hip₂
      have hwork₂ : Working sb d' i ip₂ := hwork.fields hwork.type rfl
      refine Ensures.pure ⟨hwork₂.iupdate fun bn hbn => ?_, ?_, hwork.type, fun j hj hji => ?_⟩
      · have hbn' : bn * BSIZE < off.toNat + src.length := by rwa [hip₂, hend] at hbn
        refine (mapped_fields rfl).mpr ?_
        by_cases hold : bn * BSIZE < (dinode sb d i).size.toNat
        · exact hgrown.mapped bn (h.noHoles i hi ht bn hold)
        · refine hmapped bn ⟨?_, hbn', ?_⟩
          · omega
          · simp only [BSIZE] at *
            omega
      · dsimp only
        rw [Fs.iupdate, dinode_putDinode, if_pos rfl]
      · dsimp only
        rw [Fs.iupdate, dinode_putDinode, if_neg hji, hgrown.inodes j hj]
    · -- the file did not grow, so all blocks written to were allocated
      have hold : ip' = dinode sb d i := by
        refine hsame fun bn ht' => h.noHoles i hi ht bn ?_
        simp only [not_and, UInt32.lt_iff_toNat_lt, hend, hsize] at hgrow
        have hpos : (0 : UInt32).toNat < (UInt32.ofNat src.length).toNat := by
          rw [hn]
          exact ht'.1
        have := hgrow hpos
        have := ht'.2.1
        omega
      have hself : dinode sb d' i = ip' := by rw [hgrown.inodes i hi, hold]
      refine Ensures.pure ⟨?_, hself.symm, hwork.type, fun j hj _ => hgrown.inodes j hj⟩
      refine ⟨?_, fun j hj htj => ?_⟩
      · have := hwork.accounts
        rwa [← hself, tableWith_dinode] at this
      · by_cases hji : j = i
        · subst hji
          rw [hself]
          intro bn hbn
          refine hgrown.mapped bn (h.noHoles j hj ht bn ?_)
          rwa [← hsize]
        · exact hwork.others j hj hji htj

/-- `readi` changes neither the disk nor the inode. -/
lemma Sound.readi_ensures (h : Sound sb d) (dev : Devsw) (hi : i < sb.ninodes)
    (ht : (dinode sb d i).type ≠ 0) (off n : UInt32) :
    Ensures (readi sb dev d (dinode sb d i) off n) fun x =>
      x.2.1 = dinode sb d i ∧ x.2.2 = d := by
  unfold readi
  split_ifs with hdev hoff hlong
  · exact Ensures.ok ⟨rfl, rfl⟩
  · exact Ensures.ok ⟨rfl, rfl⟩
  · refine Ensures.bind (readLoop_ensures (h.working hi ht) _ _ _ fun bn hbn => ?_)
      fun x hx => Ensures.pure hx
    refine h.noHoles i hi ht bn (hbn.trans_le ?_)
    simp only [not_or, UInt32.lt_iff_toNat_lt] at hoff
    rw [UInt32.toNat_sub_of_le _ _ (UInt32.le_iff_toNat_le.mpr (by omega))]
    omega
  · refine Ensures.bind (readLoop_ensures (h.working hi ht) _ _ _ fun bn hbn => ?_)
      fun x hx => Ensures.pure hx
    refine h.noHoles i hi ht bn (hbn.trans_le ?_)
    simp only [not_or, UInt32.lt_iff_toNat_lt, UInt32.toNat_add] at hoff hlong
    have := off.toNat_lt
    have := n.toNat_lt
    omega

/-! ### Freeing -/

lemma count_eq_sum (l : List Nat) (c : Nat) : l.count c = (l.map fun x => Count.one x c).sum := by
  induction l with
  | nil => rfl
  | cons x l ih =>
    rw [List.count_cons, List.map_cons, List.sum_cons, ih, Nat.add_comm]
    simp [Count.one]

/-- What the inode refers to is what `itrunc` frees. -/
lemma refs_eq_count (d : Disk) (ip : Dinode) {c : Nat} (hc : c ≠ 0) :
    refs d ip c = ip.direct.count c +
      if ip.addrs indirect = 0 then 0
      else (entries d (ip.addrs indirect).toNat).count c + Count.one (ip.addrs indirect).toNat c := by
  have hdirect : ip.direct.count c = ∑ k : Fin NDIRECT, Count.one (ip.addrs k.castSucc).toNat c := by
    rw [count_eq_sum, Dinode.direct, List.map_map, Fin.sum_univ_def]
    rfl
  have hentries : ∀ x, (entries d x).count c =
      ∑ j ∈ Finset.range NINDIRECT, Count.one ((d x).get j) c := by
    intro x
    rw [count_eq_sum, entries, List.map_map, Count.sum_map_range]
    rfl
  unfold refs
  rw [Fin.sum_univ_castSucc, hdirect]
  have hlast : ip.addrs (Fin.last NDIRECT) = ip.addrs indirect := rfl
  rw [hlast]
  split_ifs with hind
  · rw [hind, UInt32.toNat_zero, one_zero hc]
  · rw [hentries]
    omega

/-- Freeing listed blocks that are accounted for succeeds and takes them off the accounts. Only
the bitmap changes. -/
lemma freeAll_ok {r : Nat → Nat} (l : List Nat)
    (h : Accounts sb d fun c => r c + l.count c) :
    ∃ d', freeAll sb d l = .ok d' ∧ Accounts sb d' r ∧
      (∀ i, i < sb.ninodes → dinode sb d' i = dinode sb d i) ∧
      ∀ x, sb.dataStart ≤ x → d' x = d x := by
  induction l generalizing d with
  | nil => exact ⟨d, rfl, h.congr fun c _ => by simp, fun _ _ => rfl, fun _ _ => rfl⟩
  | cons b l ih =>
    by_cases hb : b = 0
    · have h' : Accounts sb d fun c => r c + l.count c := by
        refine h.congr fun c hc => ?_
        rw [List.count_cons_of_ne (by rw [hb]; exact hc.symm)]
      obtain ⟨d', hd', hrest⟩ := ih h'
      exact ⟨d', by rw [freeAll, if_pos hb, hd'], hrest⟩
    · have h' : Accounts sb d fun c => (r c + l.count c) + Count.one b c := by
        refine h.congr fun c _ => ?_
        rw [List.count_cons]
        simp [Count.one, Nat.add_assoc]
      have hone : (r b + l.count b) + Count.one b b ≠ 0 := by simp [Count.one]
      have hmarked := h'.marked_of_ref hb hone
      have hlt := (h'.data b hb hone).2
      obtain ⟨d', hd', haccounts, hinodes, hdata⟩ := ih (h'.unmark hb)
      refine ⟨d', ?_, haccounts, fun j hj => ?_, fun x hx => ?_⟩
      · rw [freeAll, if_neg hb, bfree, if_pos hmarked]
        exact hd'
      · rw [hinodes j hj, dinode_unmark sb d hj]
      · rw [hdata x hx, data_unmark sb d hlt hx]

/-- The inode without its contents. -/
def Dinode.emptied (ip : Dinode) : Dinode := { ip with size := 0, addrs := fun _ => 0 }

lemma refs_emptied (d : Disk) (ip : Dinode) {c : Nat} (hc : c ≠ 0) : refs d ip.emptied c = 0 := by
  have hind : ip.emptied.addrs indirect = 0 := rfl
  unfold refs
  rw [if_pos hind, Nat.add_zero]
  exact Finset.sum_eq_zero fun _ _ => one_zero hc

/-- What is left of the accounts once the inode refers to nothing. -/
lemma allRefs_emptied (hi : i < sb.ninodes) (ht : (dinode sb d i).type ≠ 0) {c : Nat} (hc : c ≠ 0) :
    allRefs sb d (dinode sb d) c =
      allRefs sb d (tableWith sb d i (dinode sb d i).emptied) c + refs d (dinode sb d i) c := by
  have hup := allRefs_update d d (dinode sb d) (dinode sb d i).emptied hi
    (fun _ _ _ _ _ => rfl) c
  rw [refsOf_of_type _ ht, refsOf_of_type (dinode sb d i).emptied ht, refs_emptied d _ hc]
    at hup
  exact hup.symm

/-- The inode is emptied on disk, after its blocks were freed in the bitmap. -/
lemma Sound.truncate (h : Sound sb d) (hi : i < sb.ninodes)
    (ha : Accounts sb d' (allRefs sb d (tableWith sb d i ip.emptied)))
    (hinodes : ∀ j, j < sb.ninodes → dinode sb d' j = dinode sb d j)
    (hdata : ∀ x, sb.dataStart ≤ x → d' x = d x) : Sound sb (Fs.iupdate sb d' i ip.emptied) := by
  have hindirect : ∀ j, j < sb.ninodes → (dinode sb d j).type ≠ 0 →
      (dinode sb d j).addrs indirect ≠ 0 →
      d' ((dinode sb d j).addrs indirect).toNat = d ((dinode sb d j).addrs indirect).toNat :=
    fun j hj htj hind => hdata _ (h.accounts.indirect_data hj htj hind)
  refine sound_iupdate hi (ha.congr fun c _ => ?_) (fun j hj _ htj => ?_)
    fun _ => noHoles_of_size_zero rfl
  · refine Finset.sum_congr rfl fun j hj => ?_
    rw [Finset.mem_range] at hj
    by_cases hji : j = i
    · rw [hji, tableWith_self, tableWith_self]
      unfold refsOf
      split_ifs
      · rfl
      · exact refs_congr (fun hne => absurd rfl hne) c
    · rw [tableWith_of_ne _ _ _ hji, tableWith_of_ne _ _ _ hji, hinodes j hj]
      unfold refsOf
      split_ifs with htj
      · rfl
      · exact refs_congr (hindirect j hj htj) c
  · rw [hinodes j hj] at htj ⊢
    exact (h.noHoles j hj htj).congr (hindirect j hj htj)

/-- `itrunc` succeeds: the blocks of the file are all marked, so `bfree` never finds one free. -/
lemma Sound.itrunc_ok (h : Sound sb d) (hi : i < sb.ninodes) (ht : (dinode sb d i).type ≠ 0) :
    ∃ d', itrunc sb d i (dinode sb d i) = .ok ((dinode sb d i).emptied, d') ∧ Sound sb d' ∧
      ∀ j, j < sb.ninodes →
        dinode sb d' j = if j = i then (dinode sb d i).emptied else dinode sb d j := by
  have ha : Accounts sb d fun c =>
      (allRefs sb d (tableWith sb d i (dinode sb d i).emptied) c +
        if (dinode sb d i).addrs indirect = 0 then 0
        else (entries d ((dinode sb d i).addrs indirect).toNat).count c +
          Count.one ((dinode sb d i).addrs indirect).toNat c) + (dinode sb d i).direct.count c := by
    refine h.accounts.congr fun c hc => ?_
    rw [allRefs_emptied hi ht hc, refs_eq_count d _ hc]
    omega
  obtain ⟨d₁, hd₁, ha₁, hinodes₁, hdata₁⟩ := freeAll_ok _ ha
  by_cases hind : (dinode sb d i).addrs indirect = 0
  · simp only [hind, if_true, Nat.add_zero] at ha₁
    refine ⟨Fs.iupdate sb d₁ i (dinode sb d i).emptied, ?_, h.truncate hi ha₁ hinodes₁ hdata₁,
      fun j hj => ?_⟩
    · simp only [itrunc, hd₁, hind, if_true]
      rfl
    · rw [Fs.iupdate, dinode_putDinode, hinodes₁ j hj]
  · simp only [if_neg hind] at ha₁
    have hx := h.accounts.indirect_data hi ht hind
    have hx0 := (addrs_ne_zero_iff indirect).mp hind
    have ha₁' : Accounts sb d₁ fun c =>
        (allRefs sb d (tableWith sb d i (dinode sb d i).emptied) c +
          Count.one ((dinode sb d i).addrs indirect).toNat c) +
        (entries d₁ ((dinode sb d i).addrs indirect).toNat).count c := by
      refine ha₁.congr fun c _ => ?_
      have hsame : entries d₁ ((dinode sb d i).addrs indirect).toNat =
          entries d ((dinode sb d i).addrs indirect).toNat := by
        simp only [entries, hdata₁ _ hx]
      rw [hsame]
      omega
    obtain ⟨d₂, hd₂, ha₂, hinodes₂, hdata₂⟩ := freeAll_ok _ ha₁'
    have hone : allRefs sb d (tableWith sb d i (dinode sb d i).emptied)
        ((dinode sb d i).addrs indirect).toNat +
        Count.one ((dinode sb d i).addrs indirect).toNat
          ((dinode sb d i).addrs indirect).toNat ≠ 0 := by simp [Count.one]
    have hmarked := ha₂.marked_of_ref hx0 hone
    have hlt := (ha₂.data _ hx0 hone).2
    have hinodes : ∀ j, j < sb.ninodes →
        dinode sb (unmark sb d₂ ((dinode sb d i).addrs indirect).toNat) j = dinode sb d j :=
      fun j hj => by rw [dinode_unmark sb d₂ hj, hinodes₂ j hj, hinodes₁ j hj]
    refine ⟨Fs.iupdate sb (unmark sb d₂ ((dinode sb d i).addrs indirect).toNat) i
      (dinode sb d i).emptied, ?_, h.truncate hi (ha₂.unmark hx0) hinodes fun x hx' => ?_,
      fun j hj => ?_⟩
    · have hbfree : bfree sb d₂ ((dinode sb d i).addrs indirect).toNat =
          .ok (unmark sb d₂ ((dinode sb d i).addrs indirect).toNat) := by
        rw [bfree, if_pos hmarked]
      simp only [itrunc, hd₁, if_neg hind, bind, Except.bind, hd₂, hbfree]
      rfl
    · rw [data_unmark sb d₂ hlt hx', hdata₂ x hx', hdata₁ x hx']
    · rw [Fs.iupdate, dinode_putDinode, hinodes j hj]

end Xv6.Fs
