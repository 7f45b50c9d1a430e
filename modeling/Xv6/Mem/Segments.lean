import Xv6.Mem.ExecStack

/-!
# Loading the segments of a program

Whatever the headers say, `exec` never reaches a panic of `mappages`, `loaduvm` or `clearpteu`: the
pages below `sz` are mapped and no others, and `sz` is at least the end of the segment when
`loaduvm` is called. A segment that has been read is in the image until a later segment that overlaps
it is read.
-/

namespace Xv6

open Fallible

variable {c : ShmField} {d d' : PageDir} {m m' m₀ : Mem} {v w n sz : Nat}

/-! ### The panics of loading -/

/-- A panic of `mappages`, `clearpteu` or `loaduvm`. -/
def LoadPanic (e : Fault) : Prop :=
  e = .panic "remap" ∨ e = .panic "clearpteu" ∨ e = .panic "loaduvm: address should exist" ∨
    e = .panic "loaduvm: addr must be page aligned"

instance : DecidablePred LoadPanic := fun _ => inferInstanceAs (Decidable (_ ∨ _))

section Avoids

variable {E : Fault → Prop}

/-- `mappages` stops only at a page that is already mapped. -/
lemma mappages_avoids {perm : Perm} {pa : Nat} (hn : v + n ≤ NVPAGES)
    (hnew : ∀ w, v ≤ w → w < v + n → (d.entry w).present = false) :
    Avoids (mappages perm n d v pa m) E := by
  induction n generalizing d v pa m with
  | zero => exact .ok
  | succ n ih =>
    unfold mappages
    split
    · exact .ok
    · next d₁ m₁ hwalk =>
      obtain ⟨hext, -, -⟩ := walkpgdir_extends (by omega) hwalk
      rw [hext.entry v, hnew v le_rfl (by omega), if_neg Bool.false_ne_true]
      refine ih (by omega) fun w h1 h2 => ?_
      rw [PageDir.entry_set_ne (by omega), hext.entry w]
      exact hnew w (by omega) (by omega)

/-- The parts of the kernel's address space do not overlap. -/
lemma mapKernel_avoids (l : List KMap) (hl : ∀ k ∈ l, k.virt + k.pages ≤ NVPAGES)
    (hnew : ∀ k ∈ l, ∀ w, k.virt ≤ w → w < k.virt + k.pages → (d.entry w).present = false)
    (hdisj : l.Pairwise fun k k' => k.virt + k.pages ≤ k'.virt) : Avoids (mapKernel l d m) E := by
  induction l generalizing d m with
  | nil => exact .ok
  | cons k l ih =>
    obtain ⟨hk, hdisj⟩ := List.pairwise_cons.mp hdisj
    unfold mapKernel
    split
    · next e he =>
      exact absurd rfl (mappages_avoids (E := fun e' => e' = e) (hl k List.mem_cons_self)
        (hnew k List.mem_cons_self) e he)
    · exact .ok
    · next d₁ m₁ hmap =>
      refine ih (fun k' hk' => hl k' (List.mem_cons_of_mem k hk')) (fun k' hk' w h1 h2 => ?_) hdisj
      have hle := hk k' hk'
      rw [mappages_outside (hl k List.mem_cons_self) _ hmap w (Or.inr (by omega))]
      exact hnew k' (List.mem_cons_of_mem k hk') w h1 h2

/-- Nothing can go wrong in the loop of `loaduvm` when there are page tables. -/
lemma loadPages_avoids {read : Nat → Nat → Nat → Option (List UInt8)} {off j : Nat}
    (ht : ∀ w, v + j ≤ w → w < v + j + n → d.HasTable w) :
    Avoids (loadPages read d v off sz n j m) E := by
  induction n generalizing j m with
  | zero => exact .ok
  | succ n ih =>
    unfold loadPages
    split
    · next hnone =>
      have := PageDir.walk_eq_some_iff.mpr ⟨ht (v + j) le_rfl (by omega), rfl⟩
      rw [hnone] at this
      cases this
    · split
      · exact .ok
      · split
        · exact ih fun w h1 h2 => ht w (by omega) (by omega)
        · exact .ok

lemma copyout_avoids (hnull : ¬ E .nullDeref) {va : Nat} {bs : List UInt8} :
    Avoids (copyout d n va bs m) E := by
  induction n generalizing va bs m with
  | zero => exact .ok
  | succ n ih =>
    unfold copyout
    split
    · exact .ok
    · refine Avoids.bind ?_ fun r _ => ?_
      · unfold uva2ka
        split
        · exact .error hnull
        · exact .ok
      · cases r with
        | none => exact .ok
        | some y => exact ih

lemma pushArgs_avoids (hnull : ¬ E .nullDeref) {argv : List (List UInt8)} {sp : Nat}
    {args : List Nat} : Avoids (pushArgs d argv sp args m) E := by
  induction argv generalizing sp args m with
  | nil => exact .ok
  | cons s l ih =>
    unfold pushArgs
    split
    · exact .ok
    · refine (copyout_avoids hnull).bind fun r _ => ?_
      obtain ⟨_ | _, m₁⟩ := r
      · exact .ok
      · exact ih

variable (hkfree : ¬ E (.panic "kfree")) (hnull : ¬ E .nullDeref)

include hkfree hnull

lemma setupkvm_avoids : Avoids (setupkvm c m) E := by
  have htop : ¬ DEVSPACE < KERNBASE + PHYSTOP := by
    rw [KERNBASE_eq]
    decide
  unfold setupkvm
  split
  · exact .ok
  · rw [if_neg htop]
    refine Avoids.bind ?_ fun r _ => ?_
    · exact mapKernel_avoids _ (fun k hk => (kmap_bounds _ k hk).2) (fun _ _ _ _ _ => rfl)
        (kmap_disjoint _)
    · dsimp only
      split
      · exact .pure
      · exact (freevm_avoids hkfree hnull).bind fun _ _ => .pure

/-- Growing into pages that are not mapped. -/
lemma allocPages_avoids {oldsz newsz : Nat} (hv : v + n ≤ KERNBASE)
    (hnew : ∀ w, v ≤ w → w < v + n → (d.entry w).present = false) :
    Avoids (allocPages c oldsz newsz n v d m) E := by
  induction n generalizing v d m with
  | zero => exact .ok
  | succ n ih =>
    have hvN : v + 1 ≤ NVPAGES := lt_NVPAGES (by omega)
    unfold allocPages
    split
    · exact (deallocuvm_avoids hkfree hnull).bind fun _ _ => .pure
    · refine Avoids.bind ?_ fun r hr => ?_
      · exact mappages_avoids hvN fun w h1 h2 => hnew w h1 (by omega)
      · obtain ⟨_ | _, d₁, m₁⟩ := r
        · exact (deallocuvm_avoids hkfree hnull).bind fun _ _ =>
            (kfree_avoids hkfree _ _).bind fun _ _ => .pure
        · refine ih (by omega) fun w h1 h2 => ?_
          rw [mappages_outside hvN _ hr w (Or.inr h1)]
          exact hnew w (by omega) (by omega)

lemma allocuvm_avoids {oldsz newsz : Nat}
    (hnew : ∀ w, pgUp oldsz ≤ w → w < KERNBASE → (d.entry w).present = false) :
    Avoids (allocuvm c d oldsz newsz m) E := by
  unfold allocuvm
  split
  · exact .ok
  · next hbig =>
    split
    · exact .ok
    · next hlt =>
      have hle := pgUp_mono (Nat.le_of_not_lt hlt)
      have hK := pgUp_le_KERNBASE (Nat.lt_of_not_le hbig)
      exact allocPages_avoids hkfree hnull (by omega) fun w h1 h2 => hnew w h1 (by omega)

end Avoids

lemma div_add_pgUp {a : Nat} (h : a % PGSIZE = 0) (n : Nat) :
    a / PGSIZE + pgUp n = pgUp (a + n) := by
  unfold pgUp
  simp only [PGSIZE] at h ⊢
  omega

namespace Program

section Avoids

variable {E : Fault → Prop} (hkfree : ¬ E (.panic "kfree")) (hnull : ¬ E .nullDeref)

include hkfree hnull

lemma Loading.avoids {newsz : Nat} (h : Loading m₀ sz d m) :
    Avoids (Xv6.allocuvm c d sz newsz m) E :=
  allocuvm_avoids hkfree hnull fun w h1 h2 => by
    rw [h.image.rest w h2 h1]
    rfl

/-- Whatever the program headers are, all pages that `loaduvm` reads into are there. -/
lemma loadSegments_avoids {reads : Reads} {off : Nat} (hfree : m₀.FreeOk) (h : Loading m₀ sz d m)
    (i : Nat) : Avoids (loadSegments c reads n i off sz d m) E := by
  induction n generalizing i off sz d m with
  | zero => exact .ok
  | succ n ih =>
    unfold loadSegments
    split
    · exact .ok
    · next bs hbs =>
      dsimp only
      split
      · exact .ok
      · split
        · exact ih h _
        · split
          · exact .ok
          · next hfile =>
            split
            · exact .ok
            · refine (h.avoids hkfree hnull).bind ?_
              rintro ⟨sz₁, d₁, m₁⟩ halloc
              dsimp only
              split
              · exact .ok
              · next hne =>
                split
                · exact .ok
                · next halign =>
                  obtain ⟨hun, hnext⟩ := h.allocuvm hfree _ halloc
                  obtain ⟨hsz, hload⟩ := hnext hne
                  dsimp only at hsz hload hun
                  have hend : (ProgHdr.parse bs).vaddr + (ProgHdr.parse bs).filesz ≤ sz₁ := by omega
                  refine Avoids.bind ?_ ?_
                  · unfold loaduvm
                    rw [if_neg halign]
                    refine loadPages_avoids fun w _ hw => PageDir.hasTable_of_present ?_
                    apply hload.image.mapped
                    rw [Nat.add_zero, div_add_pgUp (not_not.mp halign)] at hw
                    exact hw.trans_le (pgUp_mono hend)
                  · rintro ⟨ok, m₂⟩ hread
                    have hw := loaduvm_ensures _ hread
                    dsimp only
                    split
                    · exact ih ⟨hun.written hw, hload.image, hload.tables, hload.user,
                        hload.kernel⟩ _
                    · exact .ok

lemma allocStack_avoids (h : Loading m₀ sz d m) : Avoids (allocStack c sz d m) E := by
  refine Avoids.bind ?_ ?_
  · refine allocuvm_avoids hkfree hnull fun w h1 h2 => ?_
    rw [pgUp_mul] at h1
    rw [h.image.rest w h2 h1]
    rfl
  · rintro ⟨sz₁, d₁, m₁⟩ halloc
    dsimp only
    split
    · exact .ok
    · next hne =>
      obtain ⟨-, -, -, hclear⟩ := allocuvm_stack halloc hne
      rw [hclear]
      exact .ok

omit hkfree in
lemma pushStack_avoids {argv : List (List UInt8)} : Avoids (pushStack d argv sz m) E := by
  refine (pushArgs_avoids hnull).bind fun r _ => ?_
  obtain ⟨_ | ⟨sp, args⟩, m₁⟩ := r
  · exact .ok
  · exact (copyout_avoids hnull).bind fun _ _ => .ok

end Avoids

end Program

/-! ### Reading a segment -/

/-- The byte at an address of the image. -/
def imageByte (d : PageDir) (m : Mem) (a : Nat) : UInt8 :=
  m.bytes (d.entry (a / PGSIZE)).ppn (a % PGSIZE)

/-- The first `n` pages of the directory are different ones. -/
def PagesApart (n : Nat) (d : PageDir) : Prop :=
  ∀ v < n, ∀ w < n, (d.entry v).ppn = (d.entry w).ppn → v = w

lemma imageByte_write {a : Nat} (bs : List UInt8) (h : PagesApart n d) (hv : v < n)
    (ha : a / PGSIZE < n) :
    imageByte d (m.write (d.entry v).ppn 0 bs) a =
      if a / PGSIZE = v ∧ a % PGSIZE < bs.length then bs.getD (a % PGSIZE) 0
      else imageByte d m a := by
  unfold imageByte
  rw [Mem.bytes_write, Nat.sub_zero, Nat.zero_add]
  by_cases hpage : a / PGSIZE = v
  · rw [hpage]
    simp only [true_and, Nat.zero_le]
  · rw [if_neg fun h' => hpage (h _ ha _ hv h'.1), if_neg fun h' => hpage h'.1]

/-- The bytes that `readi` returns are those of the file. -/
lemma getD_readi {data bs : List UInt8} {off k i : Nat} (h : readi data off k = some bs)
    (hlen : bs.length = k) (hi : i < k) :
    data[(off + i) % 2 ^ 32]? = some (bs.getD i 0) := by
  unfold readi at h
  split at h
  · cases h
  · next hok =>
    cases h
    have hlt : off + i < 2 ^ 32 := by omega
    have hget : ((data.drop off).take k)[i]? = data[off + i]? := by
      rw [List.getElem?_take_of_lt hi, List.getElem?_drop]
    rw [Nat.mod_eq_of_lt hlt, List.getD_eq_getElem?_getD, ← hget, List.getElem?_eq_getElem (by omega)]
    rfl

section Read

variable {data : List UInt8} {off : Nat}

/-- The loop of `loaduvm` reads the bytes of its pages and leaves the others alone. -/
lemma loadPages_bytes {N j : Nat} (hap : PagesApart N d) (hN : v + j + n ≤ N) :
    Ensures (loadPages (fun _ => readi data) d v off sz n j m) fun r => r.1 = true →
      ∀ a, a / PGSIZE < N →
        (¬ (v + j ≤ a / PGSIZE ∧ a / PGSIZE < v + j + n ∧ a < v * PGSIZE + sz) →
          imageByte d r.2 a = imageByte d m a) ∧
        (v + j ≤ a / PGSIZE → a / PGSIZE < v + j + n → a < v * PGSIZE + sz →
          data[(off + (a - v * PGSIZE)) % 2 ^ 32]? = some (imageByte d r.2 a)) := by
  induction n generalizing j m with
  | zero =>
    refine .ok fun _ a _ => ⟨fun _ => rfl, fun h1 h2 => ?_⟩
    omega
  | succ n ih =>
    unfold loadPages
    split
    · exact .error
    · next e hwalk =>
      obtain ⟨-, rfl⟩ := PageDir.walk_eq_some_iff.mp hwalk
      split
      · exact .ok (by simp)
      · next bs hread =>
        split
        · next hlen =>
          refine (ih (by omega)).mono fun r hr hok a ha => ?_
          obtain ⟨hsame, hnew⟩ := hr hok a ha
          have hwrite := imageByte_write (m := m) bs hap (show v + j < N by omega) ha
          have hdiv := Nat.div_add_mod a PGSIZE
          rw [hlen] at hwrite
          by_cases hpage : a / PGSIZE = v + j
          · -- the page of this iteration
            have ha' : a = v * PGSIZE + j * PGSIZE + a % PGSIZE := by
              rw [← Nat.add_mul, ← hpage, Nat.mul_comm]
              exact hdiv.symm
            have hkeep : imageByte d r.2 a = imageByte d (m.write (d.entry (v + j)).ppn 0 bs) a :=
              hsame (by omega)
            have hlt : a % PGSIZE < PGSIZE := Nat.mod_lt _ (by decide)
            rw [hkeep, hwrite]
            constructor
            · intro hno
              rw [if_neg (by omega)]
            · intro _ _ hin
              have hi : a % PGSIZE < min PGSIZE (sz - j * PGSIZE) := by omega
              have hoff : a - v * PGSIZE = j * PGSIZE + a % PGSIZE := by omega
              rw [if_pos ⟨hpage, hi⟩, hoff, ← getD_readi hread hlen hi, ← Nat.add_assoc,
                Nat.mod_add_mod]
          · rw [hwrite, if_neg fun h => hpage h.1] at hsame
            refine ⟨fun hno => hsame fun h => hno (by omega), fun h1 h2 h3 => ?_⟩
            exact hnew (by omega) (by omega) h3
        · exact .ok (by simp)

/-- `loaduvm` reads the bytes from `addr` on and leaves the others alone. -/
lemma loaduvm_bytes {N addr : Nat} (hap : PagesApart N d) (hN : pgUp (addr + sz) ≤ N) :
    Ensures (loaduvm (fun _ => readi data) d addr off sz m) fun r => r.1 = true →
      ∀ a, a / PGSIZE < N →
        (¬ (addr ≤ a ∧ a < addr + sz) → imageByte d r.2 a = imageByte d m a) ∧
        (addr ≤ a → a < addr + sz →
          data[(off + (a - addr)) % 2 ^ 32]? = some (imageByte d r.2 a)) := by
  unfold loaduvm
  split
  · exact .error
  · next halign =>
    have halign := not_not.mp halign
    rw [← div_add_pgUp halign] at hN
    have haddr : addr / PGSIZE * PGSIZE = addr := Nat.div_mul_cancel (Nat.dvd_of_mod_eq_zero halign)
    have hrange : ∀ a, addr / PGSIZE + 0 ≤ a / PGSIZE ∧ a / PGSIZE < addr / PGSIZE + 0 + pgUp sz ∧
        a < addr / PGSIZE * PGSIZE + sz ↔ addr ≤ a ∧ a < addr + sz := by
      intro a
      rw [haddr]
      unfold pgUp
      simp only [PGSIZE] at halign ⊢
      omega
    refine (loadPages_bytes hap hN).mono fun r hr hok a ha => ?_
    obtain ⟨hsame, hnew⟩ := hr hok a ha
    rw [hrange a] at hsame
    refine ⟨hsame, fun h1 h2 => ?_⟩
    obtain ⟨h3, h4, h5⟩ := (hrange a).mpr ⟨h1, h2⟩
    rw [← hnew h3 h4 h5, haddr]

end Read

/-! ### The segments of a file -/

/-- The segment has file contents at the address. -/
def ProgHdr.Covers (ph : ProgHdr) (a : Nat) : Prop :=
  ph.type = ELF_PROG_LOAD ∧ ph.vaddr ≤ a ∧ a < ph.vaddr + ph.filesz

instance (ph : ProgHdr) (a : Nat) : Decidable (ph.Covers a) := inferInstanceAs (Decidable (_ ∧ _))

namespace Program

variable {data : List UInt8} {phoff : Nat}

/-- Program header `i` of a file. -/
def progHdr (data : List UInt8) (phoff i : Nat) : ProgHdr :=
  .parse ((data.drop ((phoff + i * ProgHdr.size) % 2 ^ 32)).take ProgHdr.size)

/-- The first `n` segments are in the image, where no later one of them has taken their place. -/
structure Segments (data : List UInt8) (phoff n sz : Nat) (d : PageDir) (m : Mem) : Prop where
  size : ∀ i < n, (progHdr data phoff i).type = ELF_PROG_LOAD →
    (progHdr data phoff i).filesz ≤ (progHdr data phoff i).memsz ∧
      (progHdr data phoff i).vaddr + (progHdr data phoff i).memsz ≤ sz
  bytes : ∀ i < n, ∀ a, (progHdr data phoff i).Covers a →
    (∀ j, i < j → j < n → ¬ (progHdr data phoff j).Covers a) →
    data[((progHdr data phoff i).off + (a - (progHdr data phoff i).vaddr)) % 2 ^ 32]? =
      some (imageByte d m a)

namespace Segments

lemma lt_size (h : Segments data phoff n sz d m) {i a : Nat} (hi : i < n)
    (ha : (progHdr data phoff i).Covers a) : a < sz := by
  have := h.size i hi ha.1
  have := ha.2.2
  omega

/-- The image may grow. -/
lemma congr {sz' : Nat} (h : Segments data phoff n sz d m) (hsz : sz ≤ sz')
    (hbytes : ∀ a < sz, imageByte d' m' a = imageByte d m a) :
    Segments data phoff n sz' d' m' := by
  refine ⟨fun i hi ht => ?_, fun i hi a ha hlast => ?_⟩
  · obtain ⟨h1, h2⟩ := h.size i hi ht
    exact ⟨h1, h2.trans hsz⟩
  · rw [hbytes a (h.lt_size hi ha)]
    exact h.bytes i hi a ha hlast

lemma skip (h : Segments data phoff n sz d m)
    (ht : (progHdr data phoff n).type ≠ ELF_PROG_LOAD) : Segments data phoff (n + 1) sz d m := by
  refine ⟨fun i hi hload => ?_, fun i hi a ha hlast => ?_⟩
  · rcases Nat.lt_succ_iff_lt_or_eq.mp hi with hi | rfl
    · exact h.size i hi hload
    · exact absurd hload ht
  · rcases Nat.lt_succ_iff_lt_or_eq.mp hi with hi | rfl
    · exact h.bytes i hi a ha fun j h1 h2 => hlast j h1 (by omega)
    · exact absurd ha.1 ht

/-- One more segment is read. -/
lemma load (h : Segments data phoff n sz d m)
    (hfile : (progHdr data phoff n).filesz ≤ (progHdr data phoff n).memsz)
    (hmem : (progHdr data phoff n).vaddr + (progHdr data phoff n).memsz ≤ sz)
    (hsame : ∀ a < sz, ¬ (progHdr data phoff n).Covers a → imageByte d m' a = imageByte d m a)
    (hnew : ∀ a, (progHdr data phoff n).Covers a →
      data[((progHdr data phoff n).off + (a - (progHdr data phoff n).vaddr)) % 2 ^ 32]? =
        some (imageByte d m' a)) :
    Segments data phoff (n + 1) sz d m' := by
  refine ⟨fun i hi hload => ?_, fun i hi a ha hlast => ?_⟩
  · rcases Nat.lt_succ_iff_lt_or_eq.mp hi with hi | rfl
    · exact h.size i hi hload
    · exact ⟨hfile, hmem⟩
  · rcases Nat.lt_succ_iff_lt_or_eq.mp hi with hi | rfl
    · rw [hsame a (h.lt_size hi ha) (hlast n hi (Nat.lt_succ_self n))]
      exact h.bytes i hi a ha fun j h1 h2 => hlast j h1 (by omega)
    · exact hnew a ha

end Segments

/-- The pages of an image are different ones. -/
lemma Loading.pagesApart (h : Loading m₀ sz d m) (hfree : m₀.FreeOk) : PagesApart (pgUp sz) d := by
  intro v hv w hw heq
  have hK := pgUp_le_KERNBASE h.image.lt
  by_contra hne
  have h1 := PageDir.userRefs_two_le (by omega) (by omega) (Ne.symm hne) (h.image.mapped v hv)
    (h.image.mapped w hw) heq.symm
  have h2 := h.refs (d.entry v).ppn
  have h3 := hfree.once (d.entry v).ppn
  unfold PageDir.refs at h2
  omega

/-- Growing an image leaves its contents alone. -/
lemma Unfinished.imageByte_allocuvm {oldsz newsz sz₁ : Nat} (h : Unfinished m₀ d m)
    (hfree : m₀.FreeOk) (hmapped : ∀ w < pgUp oldsz, (d.entry w).present = true)
    (hK : pgUp oldsz ≤ KERNBASE) (halloc : Xv6.allocuvm c d oldsz newsz m = .ok (sz₁, d', m'))
    (hne : sz₁ ≠ 0) {a : Nat} (ha : a / PGSIZE < pgUp oldsz) :
    imageByte d' m' a = imageByte d m a := by
  obtain ⟨-, -, hall⟩ := (allocuvm_allocated _ halloc).resolve_right fun h0 => hne h0.1
  have hentry : d'.entry (a / PGSIZE) = d.entry (a / PGSIZE) := hall.outside _ (Or.inl ha)
  have hused : m.free (d.entry (a / PGSIZE)).ppn = 0 := by
    have h1 := PageDir.userRefs_pos (by omega) (hmapped _ ha)
    have h2 := h.refs (d.entry (a / PGSIZE)).ppn
    have h3 := hfree.once (d.entry (a / PGSIZE)).ppn
    unfold PageDir.refs at h2
    omega
  have hbytes : m'.bytes (d.entry (a / PGSIZE)).ppn = m.bytes (d.entry (a / PGSIZE)).ppn :=
    (allocuvm_takes _ halloc hne _ hused).2
  rw [imageByte, imageByte, hentry, hbytes]

lemma div_lt_pgUp {a : Nat} (h : a < sz) : a / PGSIZE < pgUp sz := by
  unfold pgUp
  simp only [PGSIZE]
  omega

/-- The loop over the program headers of a file reads all segments. -/
lemma loadSegments_segments (hfree : m₀.FreeOk) (h : Loading m₀ 0 d m) (n : Nat)
    (hoff : phoff < 2 ^ 32) :
    Ensures (loadSegments c (ofFile data) n 0 phoff 0 d m) fun r =>
      ∀ sz, r.1 = some sz → Loading m₀ sz r.2.1 r.2.2 ∧ Segments data phoff n sz r.2.1 r.2.2 := by
  have hhdr : ∀ {i off bs}, off = (phoff + i * ProgHdr.size) % 2 ^ 32 →
      readi data off ProgHdr.size = some bs → ProgHdr.parse bs = progHdr data phoff i := by
    rintro i _ bs rfl hread
    unfold readi at hread
    split at hread
    · cases hread
    · cases hread
      rfl
  have hnext : ∀ i, ((phoff + i * ProgHdr.size) % 2 ^ 32 + ProgHdr.size) % 2 ^ 32 =
      (phoff + (i + 1) * ProgHdr.size) % 2 ^ 32 := by
    intro i
    rw [Nat.mod_add_mod, Nat.add_assoc, Nat.succ_mul]
  refine (loadSegments_rule (I := fun i off sz d m => off = (phoff + i * ProgHdr.size) % 2 ^ 32 ∧
    Loading m₀ sz d m ∧ Segments data phoff i sz d m) (B := fun _ _ => True) (fun _ => trivial)
    ?_ ?_ ⟨?_, h, ⟨fun i hi => absurd hi (Nat.not_lt_zero i), fun i hi => absurd hi
      (Nat.not_lt_zero i)⟩⟩).mono fun r hr sz hsz => ?_
  · rintro i off sz d m bs ⟨rfl, hload, hseg⟩ hread htype
    rw [hhdr rfl hread] at htype
    exact ⟨hnext i, hload, hseg.skip htype⟩
  · rintro i off sz d m bs ⟨rfl, hload, hseg⟩ hread - htype hfile
    rw [hhdr rfl hread] at htype hfile ⊢
    rintro ⟨sz₁, d₁, m₁⟩ halloc
    refine ⟨trivial, fun hne halign => ?_⟩
    obtain ⟨hun, hgrown⟩ := hload.allocuvm hfree _ halloc
    obtain ⟨hsz₁, hload₁⟩ := hgrown hne
    dsimp only at hne halign hun hsz₁ hload₁ ⊢
    have hend : (progHdr data phoff i).vaddr + (progHdr data phoff i).filesz ≤ sz₁ := by omega
    have hseg₁ : Segments data phoff i sz₁ d₁ m₁ := hseg.congr (by omega) fun a ha =>
      hload.imageByte_allocuvm hfree hload.image.mapped (pgUp_le_KERNBASE hload.image.lt) halloc hne
        (div_lt_pgUp ha)
    refine ((loaduvm_ensures.and
      (loaduvm_bytes (hload₁.pagesApart hfree) (pgUp_mono hend)))).mono ?_
    rintro ⟨ok, m₂⟩ ⟨hw, hbytes⟩
    refine ⟨trivial, fun hok => ⟨hnext i, ⟨hun.written hw, hload₁.image, hload₁.tables, hload₁.user,
      hload₁.kernel⟩, hseg₁.load hfile (by omega) (fun a ha hno => ?_) fun a ha => ?_⟩⟩
    · exact (hbytes hok a (div_lt_pgUp ha)).1 fun hin => hno ⟨htype, hin⟩
    · exact (hbytes hok a (div_lt_pgUp (ha.2.2.trans_le hend))).2 ha.2.1 ha.2.2
  · rw [Nat.zero_mul, Nat.add_zero, Nat.mod_eq_of_lt hoff]
  · obtain ⟨off, -, hload, hseg⟩ := hr.2 sz hsz
    rw [Nat.zero_add] at hseg
    exact ⟨hload, hseg⟩

end Program

end Xv6
