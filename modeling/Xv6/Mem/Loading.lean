import Xv6.Mem.ArgStack
import Xv6.Mem.Enough

/-!
# Building the image of a program

What the functions that `exec` builds an image with do to the directory, whether they succeed or
not: the user may not access the pages of the kernel, no page is mapped above the size of physical
memory, and there are page tables for the pages that are mapped and no others.
-/

namespace Xv6

open Fallible Count

variable {c : ShmField} {d d' d'' : PageDir} {m m' m'' : Mem} {v w n x y : Nat}

/-! ### The pages of the kernel -/

lemma kmap_user (l : Layout) : ∀ k ∈ kmap l, k.perm.user = false := by
  intro k hk
  simp only [kmap, List.mem_cons, List.not_mem_nil, or_false] at hk
  rcases hk with rfl | rfl | rfl | rfl <;> rfl

/-- The user may access no page of a fresh directory. -/
lemma setupkvm_user : Ensures (setupkvm c m) fun r =>
    ∀ d, r.1 = some d → ∀ w, (d.entry w).user = false := by
  rintro ⟨_, m'⟩ h d rfl w
  obtain ⟨hmaps, hout⟩ := setupkvm_entries _ h d rfl
  by_cases hw : ∃ k ∈ kmap m.layout, k.virt ≤ w ∧ w < k.virt + k.pages
  · obtain ⟨k, hk, hlo, hhi⟩ := hw
    have hentry := hmaps k hk (w - k.virt) (by omega)
    rw [Nat.add_sub_cancel' hlo] at hentry
    rw [hentry]
    exact kmap_user _ k hk
  · rw [hout w fun k hk => by
      by_contra hin
      exact hw ⟨k, hk, by omega⟩]
    rfl

/-! ### No page is mapped above physical memory -/

/-- A directory that maps no page twice has no more pages than there are. -/
lemma card_present_le (S : Finset Nat) (hS : ∀ v ∈ S, v < KERNBASE ∧ (d.entry v).present = true)
    (hone : ∀ x, d.userRefs x ≤ 1) (hin : ∀ x, d.userRefs x ≠ 0 → x < PHYSTOP) :
    S.card ≤ PHYSTOP := by
  have hcard := Finset.card_le_card_of_injOn (s := S) (t := Finset.range PHYSTOP)
    (fun v => (d.entry v).ppn) ?_ ?_
  · simpa only [Finset.card_range] using hcard
  · intro v hv
    obtain ⟨hlt, hp⟩ := hS v hv
    exact Finset.mem_coe.mpr (Finset.mem_range.mpr (hin _ (Nat.ne_of_gt (PageDir.userRefs_pos hlt hp))))
  · intro v hv w hw heq
    obtain ⟨hv, hvp⟩ := hS v hv
    obtain ⟨hw, hwp⟩ := hS w hw
    by_contra hne
    have h1 := PageDir.userRefs_two_le hv hw (Ne.symm hne) hvp hwp heq.symm
    have h2 := hone (d.entry v).ppn
    omega

lemma pages_le_PHYSTOP {m₀ : Mem} (hmapped : ∀ v < n, (d.entry v).present = true)
    (hn : n ≤ KERNBASE) (hrefs : ∀ x, d.refs x ≤ m₀.free x) (hone : ∀ x, m₀.free x ≤ 1)
    (hin : ∀ x, m₀.free x ≠ 0 → m₀.InRange x) : n ≤ PHYSTOP := by
  have huser : ∀ x, d.userRefs x ≤ m₀.free x := fun x => (Nat.le_add_left _ _).trans (hrefs x)
  have hcard := card_present_le (Finset.range n) (d := d)
    (fun v hv => ⟨(Finset.mem_range.mp hv).trans_le hn, hmapped v (Finset.mem_range.mp hv)⟩)
    (fun x => (huser x).trans (hone x)) fun x hx => ?_
  · rwa [Finset.card_range] at hcard
  · have := huser x
    exact (hin x (by omega)).2

/-- Nothing is mapped between physical memory and the kernel. -/
def MapsBelow (d : PageDir) : Prop := ∀ w, PHYSTOP ≤ w → w < KERNBASE → (d.entry w).present = false

lemma MapsBelow.emptied {stop : Nat} (h : MapsBelow d) (he : Emptied c v stop d d') :
    MapsBelow d' := by
  intro w h1 h2
  rw [he w]
  split_ifs
  · rfl
  · exact h w h1 h2

lemma deallocuvm_below {oldsz newsz : Nat} (h : MapsBelow d) :
    Ensures (deallocuvm c d oldsz newsz m) fun r => MapsBelow r.2.1 :=
  deallocuvm_emptied.mono fun _ hr => h.emptied hr.2

section Below

variable {m₀ : Mem} (hone : ∀ x, m₀.free x ≤ 1) (hin : ∀ x, m₀.free x ≠ 0 → m₀.InRange x)

include hone hin

/-- Pages are mapped one after the other, so there are too few of them to get beyond physical
memory. -/
lemma allocPages_below {oldsz newsz : Nat} (hnew : pgUp newsz ≤ KERNBASE) (hn : v + n = pgUp newsz)
    (hmapped : ∀ w < v, (d.entry w).present = true)
    (hrefs : ∀ x, d.refs x + m.free x ≤ m₀.free x) (h : MapsBelow d) :
    Ensures (allocPages c oldsz newsz n v d m) fun r => MapsBelow r.2.1 := by
  induction n generalizing v d m with
  | zero => exact .ok h
  | succ n ih =>
    unfold allocPages
    split
    · exact (deallocuvm_below h).bind fun r hr => .pure hr
    · next y m₁ hk =>
      intro r hr
      obtain ⟨⟨ok, d₁, m₂⟩, hmap, hr⟩ := bind_eq_ok.mp hr
      cases ok with
      | true =>
        obtain ⟨-, hentry, -⟩ := (mappages_one (by omega) _ hmap).2.2.1 rfl
        dsimp only at hentry
        have hmapped₁ : ∀ w < v + 1, (d₁.entry w).present = true := by
          intro w hw
          rw [hentry w]
          split_ifs with hwv
          · rfl
          · exact hmapped w (by omega)
        have hrefs₁ : ∀ x, d₁.refs x + m₂.free x ≤ m₀.free x := by
          intro x
          rw [(Conserved.mapped (by omega) hk hmap).refs x]
          exact hrefs x
        have hle : v + 1 ≤ PHYSTOP := pages_le_PHYSTOP hmapped₁ (by omega)
          (fun x => (Nat.le_add_right _ _).trans (hrefs₁ x)) hone hin
        refine ih (by omega) hmapped₁ hrefs₁ (fun w h1 h2 => ?_) r hr
        rw [hentry w, if_neg (by omega)]
        exact h w h1 h2
      | false =>
        have hext := (mappages_one (by omega) _ hmap).2.2.2.1 rfl
        have h₁ : MapsBelow d₁ := fun w h1 h2 => by
          rw [hext.entry w]
          exact h w h1 h2
        obtain ⟨⟨_, d₂, m₃⟩, hdealloc, hr⟩ := bind_eq_ok.mp hr
        obtain ⟨m₄, -, hr⟩ := bind_eq_ok.mp hr
        cases hr
        exact (deallocuvm_below h₁ _ hdealloc : MapsBelow d₂)

lemma allocuvm_below {oldsz newsz : Nat} (hmapped : ∀ w < pgUp oldsz, (d.entry w).present = true)
    (hrefs : ∀ x, d.refs x + m.free x ≤ m₀.free x) (h : MapsBelow d) :
    Ensures (allocuvm c d oldsz newsz m) fun r => MapsBelow r.2.1 := by
  unfold allocuvm
  split
  · exact .ok h
  · next hnew =>
    split
    · exact .ok h
    · next hlt =>
      have hle := pgUp_mono (Nat.le_of_not_lt hlt)
      exact allocPages_below hone hin (pgUp_le_KERNBASE (by omega)) (by omega) hmapped hrefs h

end Below

/-! ### Pages in use keep their contents -/

lemma mappages_one_takes {perm : Perm} {pa : Nat} (hv : v < NVPAGES) :
    Ensures (mappages perm 1 d v pa m) fun r => m.Takes r.2.2 := by
  unfold mappages
  split
  · next d₁ m₁ hwalk => exact .ok (walkpgdir_extends hv hwalk).1.takes
  · next d₁ m₁ hwalk =>
    split
    · exact .error
    · exact .ok (walkpgdir_extends hv hwalk).1.takes

/-- Growing that succeeds only takes pages from the free list. -/
lemma allocPages_takes {oldsz newsz : Nat} (hv : v + n ≤ KERNBASE) :
    Ensures (allocPages c oldsz newsz n v d m) fun r => r.1 ≠ 0 → m.Takes r.2.2 := by
  induction n generalizing v d m with
  | zero => exact .ok fun _ => .refl m
  | succ n ih =>
    intro r hr hne
    obtain ⟨y, m₁, d₁, m₂, hk, hmap, hr⟩ := allocPages_succ_eq_ok hr hne
    have htakes := mappages_one_takes (lt_NVPAGES (by omega)) _ hmap
    exact ((Mem.Takes.kalloc hk _).trans htakes).trans (ih (by omega) r hr hne)

lemma allocuvm_takes {oldsz newsz : Nat} :
    Ensures (allocuvm c d oldsz newsz m) fun r => r.1 ≠ 0 → m.Takes r.2.2 := by
  unfold allocuvm
  split
  · exact .ok fun _ => .refl m
  · next hnew =>
    split
    · exact .ok fun _ => .refl m
    · next hlt =>
      have hle := pgUp_mono (Nat.le_of_not_lt hlt)
      have hK := pgUp_le_KERNBASE (Nat.lt_of_not_le hnew)
      exact allocPages_takes (by omega)

/-! ### The page tables -/

lemma sharesTable_append {lo mid hi : Nat} (h1 : lo ≤ mid) (h2 : mid ≤ hi) :
    SharesTable w lo hi ↔ SharesTable w lo mid ∨ SharesTable w mid hi := by
  constructor
  · rintro ⟨x, hlo, hhi, hx⟩
    by_cases hmid : x < mid
    · exact Or.inl ⟨x, hlo, hmid, hx⟩
    · exact Or.inr ⟨x, by omega, hhi, hx⟩
  · rintro (⟨x, hlo, hhi, hx⟩ | ⟨x, hlo, hhi, hx⟩)
    · exact ⟨x, hlo, by omega, hx⟩
    · exact ⟨x, by omega, hhi, hx⟩

/-- Growing that succeeds makes page tables for the new pages. -/
lemma allocPages_hasTable {oldsz newsz : Nat} :
    Ensures (allocPages c oldsz newsz n v d m) fun r =>
      r.1 ≠ 0 → ∀ w, r.2.1.HasTable w ↔ d.HasTable w ∨ SharesTable w v (v + n) := by
  induction n generalizing v d m with
  | zero =>
    refine .ok fun _ w => ?_
    simp only [Nat.add_zero, not_sharesTable_self, or_false]
  | succ n ih =>
    intro r hr hne w
    obtain ⟨y, m₁, d₁, m₂, -, hmap, hr⟩ := allocPages_succ_eq_ok hr hne
    have hone : SharesTable w v (v + 1) ↔ w / NPTENTRIES = v / NPTENTRIES := by
      rw [sharesTable_first (Nat.lt_succ_self v)]
      simp only [not_sharesTable_self, or_false]
    rw [ih r hr hne w, mappages_hasTable _ hmap rfl w, hone, or_assoc,
      sharesTable_first (by omega : v < v + (n + 1)), Nat.add_right_comm v 1 n]
    rfl

/-- The directory has the page tables of the kernel and those of the first `n` pages. -/
def TablesUpTo (n : Nat) (d : PageDir) : Prop :=
  ∀ w, d.HasTable w ↔ w / NPTENTRIES ∈ kernelTables ∨ SharesTable w 0 n

lemma allocuvm_tablesUpTo {oldsz newsz : Nat} (h : TablesUpTo (pgUp oldsz) d) :
    Ensures (allocuvm c d oldsz newsz m) fun r =>
      r.1 ≠ 0 → TablesUpTo (pgUp (max oldsz newsz)) r.2.1 := by
  unfold allocuvm
  split
  · exact .ok fun h0 => absurd rfl h0
  · split
    · next hlt =>
      rw [Nat.max_eq_left hlt.le]
      exact .ok fun _ => h
    · next hlt =>
      have hle := pgUp_mono (Nat.le_of_not_lt hlt)
      rw [Nat.max_eq_right (Nat.le_of_not_lt hlt)]
      refine allocPages_hasTable.mono fun r hr hne w => ?_
      rw [hr hne w, h w, or_assoc, Nat.add_sub_cancel' hle,
        ← sharesTable_append (Nat.zero_le _) hle]

/-! ### The loop over the program headers -/

/-- A rule for the loop: `I` holds at the start of each iteration, `B` wherever the loop may jump to
`bad`. -/
lemma loadSegments_rule {reads : Reads} {I : Nat → Nat → Nat → PageDir → Mem → Prop}
    {B : PageDir → Mem → Prop} (hbad : ∀ {i off sz d m}, I i off sz d m → B d m)
    (hskip : ∀ {i off sz d m bs}, I i off sz d m → reads (i + 1) 0 off ProgHdr.size = some bs →
      (ProgHdr.parse bs).type ≠ ELF_PROG_LOAD → I (i + 1) ((off + ProgHdr.size) % 2 ^ 32) sz d m)
    (hload : ∀ {i off sz d m bs}, I i off sz d m → reads (i + 1) 0 off ProgHdr.size = some bs →
      bs.length = ProgHdr.size → (ProgHdr.parse bs).type = ELF_PROG_LOAD →
      (ProgHdr.parse bs).filesz ≤ (ProgHdr.parse bs).memsz →
      Ensures (allocuvm c d sz ((ProgHdr.parse bs).vaddr + (ProgHdr.parse bs).memsz) m) fun r =>
        B r.2.1 r.2.2 ∧ (r.1 ≠ 0 → (ProgHdr.parse bs).vaddr % PGSIZE = 0 →
          Ensures (loaduvm (fun j => reads (i + 1) (j + 1)) r.2.1 (ProgHdr.parse bs).vaddr
            (ProgHdr.parse bs).off (ProgHdr.parse bs).filesz r.2.2) fun q =>
            B r.2.1 q.2 ∧ (q.1 = true →
              I (i + 1) ((off + ProgHdr.size) % 2 ^ 32) r.1 r.2.1 q.2)))
    {n i off sz : Nat} (h : I i off sz d m) :
    Ensures (loadSegments c reads n i off sz d m) fun r =>
      (r.1 = none → B r.2.1 r.2.2) ∧
        ∀ sz', r.1 = some sz' → ∃ off', I (i + n) off' sz' r.2.1 r.2.2 := by
  induction n generalizing i off sz d m with
  | zero =>
    refine .ok ⟨by simp, fun sz' hsz => ⟨off, ?_⟩⟩
    cases hsz
    exact h
  | succ n ih =>
    have hshift : i + (n + 1) = i + 1 + n := by omega
    unfold loadSegments
    split
    · exact .ok ⟨fun _ => hbad h, by simp⟩
    · next bs hbs =>
      dsimp only
      split
      · exact .ok ⟨fun _ => hbad h, by simp⟩
      · next hlen =>
        split
        · next htype =>
          rw [hshift]
          exact ih (hskip h hbs htype)
        · next htype =>
          split
          · exact .ok ⟨fun _ => hbad h, by simp⟩
          · next hfile =>
            split
            · exact .ok ⟨fun _ => hbad h, by simp⟩
            · refine (hload h hbs (not_not.mp hlen) (not_not.mp htype) (Nat.le_of_not_lt hfile)).bind ?_
              rintro ⟨sz₁, d₁, m₁⟩ ⟨hbad₁, hnext⟩
              dsimp only at hbad₁ hnext ⊢
              split
              · exact .ok ⟨fun _ => hbad₁, by simp⟩
              · next hne =>
                split
                · exact .ok ⟨fun _ => hbad₁, by simp⟩
                · next halign =>
                  refine (hnext hne (not_not.mp halign)).bind ?_
                  rintro ⟨ok, m₂⟩ ⟨hbad₂, hI⟩
                  cases ok with
                  | true =>
                    rw [hshift]
                    exact ih (hI rfl)
                  | false => exact .ok ⟨fun _ => hbad₂, by simp⟩

end Xv6
