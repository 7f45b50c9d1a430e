import Xv6.Mem.Segments
import Xv6.Mem.Sweep

/-!
# The kernel's mappings

What `setupkvm` maps. The loop of `mappages` runs on 32-bit addresses until it has mapped the page
of the last one; the size of the last line of `kmap` and the end of its range wrap around.
-/

namespace Xv6

open Fallible

/-- `PGROUNDDOWN(a)` -/
def PGROUNDDOWN (a : Nat) : Nat := a / PGSIZE * PGSIZE

/-- The loop of `mappages` from address `a` up to `last`, if it ends within `n` iterations. -/
def mapLoop (perm : Perm) (last : Nat) :
    Nat → Nat → Nat → PageDir → Mem → Except Fault (Option (Bool × PageDir × Mem))
  | 0, _, _, _, _ => .ok none
  | n + 1, a, pa, d, m =>
    match walkpgdir d (a / PGSIZE) m with
    | (false, d, m) => .ok (some (false, d, m))
    | (true, d, m) =>
      if (d.entry (a / PGSIZE)).present then
        .error (.panic "remap")
      else if a = last then
        .ok (some (true, d.set (a / PGSIZE) (perm.pte (pa / PGSIZE)), m))
      else
        mapLoop perm last n ((a + PGSIZE) % 2 ^ 32) ((pa + PGSIZE) % 2 ^ 32)
          (d.set (a / PGSIZE) (perm.pte (pa / PGSIZE))) m

/-- A line of `kmap` in addresses. -/
structure KAddr where
  virt : Nat
  physStart : Nat
  physEnd : Nat
  perm : Perm

/-- The call of `mappages` for a line of `kmap`. -/
def KAddr.map (k : KAddr) (n : Nat) (d : PageDir) (m : Mem) :
    Except Fault (Option (Bool × PageDir × Mem)) :=
  let size := (k.physEnd + (2 ^ 32 - k.physStart)) % 2 ^ 32
  mapLoop k.perm (PGROUNDDOWN ((k.virt + size + (2 ^ 32 - 1)) % 2 ^ 32)) n (PGROUNDDOWN k.virt)
    k.physStart d m

def kmapAddrs (l : Layout) : List KAddr :=
  [⟨KERNBASE * PGSIZE, 0, EXTMEM * PGSIZE, ⟨true, false⟩⟩,
   ⟨(KERNBASE + EXTMEM) * PGSIZE, EXTMEM * PGSIZE, l.data * PGSIZE, ⟨false, false⟩⟩,
   ⟨(KERNBASE + l.data) * PGSIZE, l.data * PGSIZE, PHYSTOP * PGSIZE, ⟨true, false⟩⟩,
   ⟨DEVSPACE * PGSIZE, DEVSPACE * PGSIZE, 0, ⟨true, false⟩⟩]

variable {c : ShmField} {d d' : PageDir} {m m' : Mem} {perm : Perm} {v pa n k : Nat}

/-! ### Addresses -/

lemma mapLoop_eq (hn : k < n) (hv : v + k < NVPAGES) (hpa : pa + k < NVPAGES) :
    mapLoop perm ((v + k) * PGSIZE) n (v * PGSIZE) (pa * PGSIZE) d m =
      (mappages perm (k + 1) d v pa m).map some := by
  have hdiv : ∀ w, w * PGSIZE / PGSIZE = w := fun w => Nat.mul_div_cancel w (by decide)
  have hsize : NVPAGES = 1048576 := rfl
  induction n generalizing k v pa d m with
  | zero => exact absurd hn (Nat.not_lt_zero k)
  | succ n ih =>
    rw [mapLoop, mappages, hdiv, hdiv]
    rcases hwalk : walkpgdir d v m with ⟨_ | _, d₁, m₁⟩
    · rfl
    · dsimp only
      split_ifs with hp hlast
      · rfl
      · obtain rfl : k = 0 := by
          simp only [PGSIZE] at hlast
          omega
        rfl
      · cases k with
        | zero => exact absurd rfl hlast
        | succ k =>
          have hnext : ∀ w < NVPAGES - 1, (w * PGSIZE + PGSIZE) % 2 ^ 32 = (w + 1) * PGSIZE := by
            intro w hw
            simp only [PGSIZE]
            omega
          rw [hnext v (by omega), hnext pa (by omega), show v + (k + 1) = v + 1 + k by omega]
          exact ih (by omega) (by omega) (by omega)

/-- A line of `kmap` maps the pages that its page numbers say, also if its range ends at 2^32. -/
lemma KAddr.map_eq (virt phys stop pages : Nat) (hpages : 0 < pages) (hv : virt + pages ≤ NVPAGES)
    (hpa : phys + pages ≤ NVPAGES)
    (hstop : stop = phys + pages ∨ stop = 0 ∧ phys + pages = NVPAGES) :
    (⟨virt * PGSIZE, phys * PGSIZE, stop * PGSIZE, perm⟩ : KAddr).map NVPAGES d m =
      (mappages perm pages d virt phys m).map some := by
  obtain ⟨k, rfl⟩ := Nat.exists_eq_succ_of_ne_zero hpages.ne'
  have hnum : NVPAGES = 1048576 := rfl
  have hround : PGROUNDDOWN (virt * PGSIZE) = virt * PGSIZE := by
    simp only [PGROUNDDOWN, PGSIZE]
    omega
  have hlast : PGROUNDDOWN ((virt * PGSIZE + (stop * PGSIZE + (2 ^ 32 - phys * PGSIZE)) % 2 ^ 32 +
      (2 ^ 32 - 1)) % 2 ^ 32) = (virt + k) * PGSIZE := by
    simp only [PGROUNDDOWN, PGSIZE]
    omega
  rw [KAddr.map]
  dsimp only
  rw [hround, hlast]
  exact mapLoop_eq (by omega) (by omega) (by omega)

lemma kmapAddrs_eq (l : Layout) (d : PageDir) (m : Mem) : List.Forall₂
    (fun a k => a.map NVPAGES d m = (mappages k.perm k.pages d k.virt k.phys m).map some)
      (kmapAddrs l) (kmap l) := by
  obtain ⟨h1, h2, h3, h4, h5, h6, h7⟩ := l.bounds
  refine .cons ?_ (.cons ?_ (.cons ?_ (.cons ?_ .nil)))
  · exact KAddr.map_eq KERNBASE 0 EXTMEM EXTMEM (by omega) (by omega) (by omega) (.inl (by omega))
  · exact KAddr.map_eq (KERNBASE + EXTMEM) EXTMEM l.data (l.data - EXTMEM) (by omega) (by omega)
      (by omega) (.inl (by omega))
  · exact KAddr.map_eq (KERNBASE + l.data) l.data PHYSTOP (PHYSTOP - l.data) (by omega) (by omega)
      (by omega) (.inl (by omega))
  · exact KAddr.map_eq DEVSPACE DEVSPACE 0 (NVPAGES - DEVSPACE) (by omega) (by omega) (by omega)
      (.inr ⟨rfl, by omega⟩)

/-! ### What is mapped -/

/-- `setupkvm` does not stop the kernel, if the free pages are ones that `kfree` accepts. -/
lemma setupkvm_returns (hc : ∀ v, ¬c.Hits v) (hfree : m.FreeOk) : ∃ r, setupkvm c m = .ok r := by
  unfold setupkvm
  split
  · exact ⟨_, rfl⟩
  · next y m₁ hk =>
    rw [if_neg (by rw [KERNBASE_eq]; decide)]
    cases hmap : mapKernel (kmap m₁.layout) ⟨y, fun _ => none⟩ (m₁.memset y 0) with
    | error e =>
      refine absurd trivial (mapKernel_avoids (E := fun _ => True) _
        (fun k hk => (kmap_bounds _ k hk).2) (fun _ _ _ _ _ => rfl) (kmap_disjoint _) e hmap)
    | ok r =>
      obtain ⟨ok, d₁, m₂⟩ := r
      cases ok with
      | true => exact ⟨_, rfl⟩
      | false =>
        obtain ⟨htables, hpde, -, hshared, hlayout⟩ := mapKernel_ensures _ (kmap_bounds _) _ hmap
        have hbare : d₁.Bare := hpde
        rw [Mem.shared_memset, Mem.shared_kalloc hk] at hshared
        rw [Mem.layout_memset, Mem.layout_kalloc hk] at hlayout
        have hin : ∀ x, d₁.refs x ≠ 0 → m₂.InRange x := by
          intro x hx
          have h1 := htables x
          have h2 := Mem.free_kalloc hk x
          simp only [PageDir.tableRefs, Option.elim_none, Finset.sum_const_zero, Nat.add_zero,
            Mem.free_memset] at h1
          rw [PageDir.refs, hbare.userRefs, Nat.add_zero, PageDir.tableRefs] at hx
          exact (hfree.inRange x (by omega)).congr hlayout
        obtain ⟨m₃, hm₃⟩ := freevm_succeeds (c := c) (hshared ▸ hfree.sharedOk) hin
          fun v _ h => absurd h (hc v)
        exact ⟨(none, m₃), by rw [ok_bind]; exact bind_eq_ok.mpr ⟨m₃, hm₃, rfl⟩⟩

/-- The loops of `mappages` on addresses end with what the page numbers say, and `setupkvm` returns:
a directory in which the pages of `kmap` are mapped and no others, or nothing, with the free pages
as before. -/
theorem setupkvm_maps_kernel (c : ShmField) (m : Mem) (hc : c.idx = none) (hfree : m.FreeOk) :
    (∀ d m', List.Forall₂ (fun a k => a.map NVPAGES d m' =
        (mappages k.perm k.pages d k.virt k.phys m').map some) (kmapAddrs m.layout)
          (kmap m.layout)) ∧
      ∃ r m', setupkvm c m = .ok (r, m') ∧
        (∀ d, r = some d →
          (∀ k ∈ kmap m.layout, k.perm.user = false ∧
            ∀ j < k.pages, d.entry (k.virt + j) = k.perm.pte (k.phys + j)) ∧
          ∀ v, (∀ k ∈ kmap m.layout, v < k.virt ∨ k.virt + k.pages ≤ v) →
            (d.entry v).present = false) ∧
        (r = none → ∀ x, m'.free x = m.free x) := by
  obtain ⟨⟨r, m'⟩, hr⟩ := setupkvm_returns (fun v h => h.1 hc) hfree
  refine ⟨kmapAddrs_eq m.layout, r, m', hr, fun d hd => ?_,
    (setupkvm_ensures hfree.sharedOk _ hr).2.2.1⟩
  obtain ⟨hmaps, hout⟩ := setupkvm_entries _ hr d hd
  refine ⟨fun k hk => ⟨?_, hmaps k hk⟩, fun v hv => by rw [hout v hv]; rfl⟩
  simp only [kmap, List.mem_cons, List.not_mem_nil, or_false] at hk
  rcases hk with rfl | rfl | rfl | rfl <;> rfl

/-- With 65 free pages the first page of the kernel is mapped to page 0. -/
theorem setupkvm_maps_first : ∃ d m',
    setupkvm ⟨none, 0⟩ { zeroMem with freelist := List.range' 300 65 } = .ok (some d, m') ∧
      d.entry KERNBASE = (⟨true, false⟩ : Perm).pte 0 := by
  have hfree : Mem.FreeOk { zeroMem with freelist := List.range' 300 65 } := by
    refine ⟨zeroMem_sharedOk, List.nodup_iff_count_le_one.mp List.nodup_range', fun x hx => ?_,
      fun x _ => Finset.sum_eq_zero fun i _ => ite_self _⟩
    obtain ⟨i, hi, rfl⟩ := List.mem_range'.mp (Mem.free_ne_zero.mp hx)
    have hstop : PHYSTOP = 57344 := rfl
    exact ⟨by change 280 ≤ _; omega, by omega⟩
  obtain ⟨-, r, m', hr, hsome, -⟩ := setupkvm_maps_kernel ⟨none, 0⟩ _ rfl hfree
  obtain ⟨d, m₂, hd, -⟩ := setupkvm_succeeds (c := ⟨none, 0⟩)
    (m := { zeroMem with freelist := List.range' 300 65 }) (by simp [Mem.pages])
  obtain ⟨rfl, rfl⟩ := Prod.mk.inj (Except.ok.inj (hr.symm.trans hd))
  refine ⟨d, m', hr, ?_⟩
  exact ((hsome d rfl).1 ⟨KERNBASE, 0, EXTMEM, ⟨true, false⟩⟩ List.mem_cons_self).2 0 (by decide)

end Xv6
