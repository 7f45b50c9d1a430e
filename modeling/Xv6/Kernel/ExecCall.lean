import Xv6.Kernel.Shared
import Xv6.Mem.ExecAtomic

/-!
# exec as a system call

The kernel's `exec` and the program `Program.exec` are the same function, seen from the kernel and
from the process. Shared pages are above physical memory in every state that system calls reach, so what
holds of the program holds of the call.
-/

namespace Xv6.Kernel

open Fallible Recorded TransitionSystem

variable {k k' : Kernel} {p : Slot} {d : PageDir}

/-- The kernel after a call of `exec` by process `p` has returned. -/
def execed (k : Kernel) (p : Slot) (r : Int × Program.Caller × Mem) : Int × Kernel :=
  (r.1, { k.setMm p { k.mm p with pgdir := some r.2.1.pgdir, sz := r.2.1.sz } with mem := r.2.2 })

lemma execed_same {u : Program.Caller} (hd : (k.mm p).pgdir = some u.pgdir)
    (hsz : (k.mm p).sz = u.sz) (r : Int) (m : Mem) :
    k.execed p (r, u, m) = (r, { k with mem := m }) := by
  simp only [execed, ← hd, ← hsz, setMm, Function.update_eq_self]

/-- Giving up an image that was begun is the jump to `bad`. -/
lemma execed_bad {u : Program.Caller} (hd : (k.mm p).pgdir = some u.pgdir)
    (hsz : (k.mm p).sz = u.sz) {f : Option (PageDir × Nat) × Mem → Except Fault (Int × Kernel)}
    (hf : ∀ m, f (none, m) = .ok (-1, { k with mem := m })) (d : PageDir) (m : Mem) (ip : Bool) :
    ((freevm (k.mm p).shm d m >>= fun m => .ok (none, m)) >>= f) =
      (Program.bad (k.mm p).shm (some d) ip u m).result.map (k.execed p) := by
  rw [Program.result_bad]
  generalize freevm (k.mm p).shm d m = x
  cases x with
  | error e => rfl
  | ok m' => exact (hf m').trans (congrArg Except.ok (execed_same hd hsz (-1) m').symm)

/-- The system call is the program, up to the registers and the name. -/
theorem exec_eq_program {u : Program.Caller} (hd : (k.mm p).pgdir = some u.pgdir)
    (hsz : (k.mm p).sz = u.sz) (path : List UInt8) (file : Option Reads)
    (argv : List (List UInt8)) :
    exec p file argv k =
      (Program.exec (k.mm p).shm path file argv u k.mem).result.map (k.execed p) := by
  have hnone : ∀ m, Except.ok (-1, { k with mem := m }) =
      (Program.bad (k.mm p).shm none true u m).result.map (k.execed p) :=
    fun m => congrArg Except.ok (execed_same hd hsz (-1) m).symm
  cases file with
  | none => exact congrArg Except.ok (execed_same hd hsz (-1) k.mem).symm
  | some reads =>
    unfold exec execImage Program.exec
    simp only [result_bind, result_tell, ok_bind]
    cases reads 0 0 0 ElfHdr.size with
    | none => exact hnone k.mem
    | some bs =>
      dsimp only
      by_cases hgood : bs.length ≠ ElfHdr.size ∨ (ElfHdr.parse bs).magic ≠ ELF_MAGIC
      · rw [if_pos hgood, if_pos hgood]
        exact hnone k.mem
      · rw [if_neg hgood, if_neg hgood]
        simp only [result_bind, result_lift]
        -- phase by phase: a fault, a jump to `bad`, or the next phase
        generalize setupkvm (k.mm p).shm k.mem = x
        rcases x with e | ⟨_ | d₀, m₀⟩
        · rfl
        · exact hnone m₀
        · simp only [ok_bind]
          generalize loadSegments (k.mm p).shm reads (ElfHdr.parse bs).phnum 0
            (ElfHdr.parse bs).phoff 0 d₀ m₀ = x
          rcases x with e | ⟨_ | sz₁, d₁, m₁⟩
          · rfl
          · simp only [ok_bind, result_bind, result_lift]
            exact execed_bad hd hsz (fun _ => rfl) ..
          · simp only [ok_bind, result_bind, result_tell, result_lift]
            generalize allocStack (k.mm p).shm sz₁ d₁ m₁ = x
            rcases x with e | ⟨_ | sz₂, d₂, m₂⟩
            · rfl
            · simp only [ok_bind]
              exact execed_bad hd hsz (fun _ => rfl) ..
            · simp only [ok_bind, result_bind, result_lift]
              generalize pushStack d₂ argv sz₂ m₂ = x
              rcases x with e | ⟨_ | esp, m₃⟩
              · rfl
              · simp only [ok_bind]
                exact execed_bad hd hsz (fun _ => rfl) ..
              · simp only [ok_bind, result_bind, result_lift, dir, hd]
                generalize freevm (k.mm p).shm u.pgdir m₃ = x
                cases x <;> rfl

/-- No call of `exec` panics while it loads the program, and one that returns -1 changes nothing but
the contents of free pages and their order. -/
def ExecAtomic (k : Kernel) : Prop :=
  ∀ p d, k.Live p → (k.mm p).pgdir = some d → ∀ file argv,
    Avoids (exec p file argv k) LoadPanic ∧
      ∀ k', exec p file argv k = .ok (-1, k') →
        ∃ m, k' = { k with mem := m } ∧ ∀ x, m.free x = k.mem.free x

lemma Topped.execAtomic (h : k.Topped) : k.ExecAtomic := by
  intro p d hp hd file argv
  have hfree := h.sound.owned.freeOk
  have hshm : Program.SharedAbove (k.mm p).shm := h.exec_safe hp
  let u : Program.Caller := ⟨d, (k.mm p).sz, 0, 0, []⟩
  rw [exec_eq_program (u := u) hd rfl [] file argv]
  have hfails : Returns (Program.exec (k.mm p).shm [] file argv u k.mem) _ :=
    Program.exec_fails hfree hshm
  have havoids : Avoids (Program.exec (k.mm p).shm [] file argv u k.mem).result LoadPanic :=
    Program.exec_avoids (by decide) (by decide) hfree
  unfold Returns at hfails
  generalize (Program.exec _ _ _ _ _ _).result = x at hfails havoids
  rcases x with e | ⟨r, u, m⟩
  · exact ⟨.error (havoids e rfl), fun k' hk' => by cases hk'⟩
  · refine ⟨.ok, fun k' hk' => ?_⟩
    obtain ⟨hr, hk⟩ := Prod.mk.inj (Except.ok.inj hk')
    obtain ⟨rfl, -, hx⟩ := hfails _ rfl hr
    exact ⟨m, hk.symm.trans (congrArg Prod.snd (execed_same hd rfl r m)), hx⟩

/-- In a run from boot that keeps the reference counts, `exec` is atomic in every state. -/
theorem execAtomic_of_keepsCounts {l : Layout} {ncpu : Nat} {initcode : List UInt8}
    {bytes : Nat → Nat → UInt8} {k₀ : Kernel} {tr : List (Kernel × Action)}
    (hboot : boot l ncpu initcode bytes = .ok k₀) (hr : Run (Step Action.Sharing) k₀ tr k)
    (hkeeps : AllSteps KeepsCounts tr) : AllStates ExecAtomic tr k :=
  (hr.allStates (fun _ _ _ h hc hs => h.step hs hs.1.not_resizes hc) (boot_ensures k₀ hboot).topped
    hkeeps).mono fun _ h => h.execAtomic

end Xv6.Kernel
