import Xv6.Lib.Run

/-!
# Threads

Programs made of atomic operations on a state that is shared with other threads. A program is a
tree: it returns, or it calls an operation and goes on with the answer. `Always` follows a program
that is run without interference.
-/

namespace Threads

/-- A program calling operations `e : ε`, which answer with an `R e`, and returning an `α`. -/
inductive Prog (ε : Type) (R : ε → Type) (α : Type)
  | pure (a : α)
  | op (e : ε) (k : R e → Prog ε R α)

variable {ε : Type} {R : ε → Type} {α β : Type}

namespace Prog

/-- The program that calls one operation and returns its answer. -/
def call (e : ε) : Prog ε R (R e) := .op e .pure

def bind : Prog ε R α → (α → Prog ε R β) → Prog ε R β
  | .pure a, f => f a
  | .op e k, f => .op e fun r => (k r).bind f

instance : Monad (Prog ε R) where
  pure := Prog.pure
  bind := Prog.bind

end Prog

/-! ### A thread alone -/

section Alone

variable {σ χ : Type} {exec : (e : ε) → χ → σ → Option (R e × σ)}

/-- Run without interference, the program never gets stuck, and whatever choices the operations
make, it returns with `Q`. -/
def Always (exec : (e : ε) → χ → σ → Option (R e × σ)) : Prog ε R α → (α → σ → Prop) → σ → Prop
  | .pure a, Q, s => Q a s
  | .op e k, Q, s =>
    (∃ x y, exec e x s = some y) ∧ ∀ x r s', exec e x s = some (r, s') → Always exec (k r) Q s'

lemma always_pure {a : α} {Q : α → σ → Prop} {s : σ} (h : Q a s) :
    Always exec (pure a : Prog ε R α) Q s := h

lemma always_call {e : ε} {Q : R e → σ → Prop} {s : σ} (hex : ∃ x y, exec e x s = some y)
    (hQ : ∀ x r s', exec e x s = some (r, s') → Q r s') : Always exec (Prog.call e) Q s :=
  ⟨hex, hQ⟩

lemma always_bind {x : Prog ε R α} {f : α → Prog ε R β} {Q : β → σ → Prop} {s : σ}
    (h : Always exec x (fun a => Always exec (f a) Q) s) : Always exec (x >>= f) Q s := by
  induction x generalizing s with
  | pure a => exact h
  | op e k ih => exact ⟨h.1, fun y r s' hy => ih r (h.2 y r s' hy)⟩

lemma Always.mono {x : Prog ε R α} {Q Q' : α → σ → Prop} {s : σ} (h : Always exec x Q s)
    (hQ : ∀ a s, Q a s → Q' a s) : Always exec x Q' s := by
  induction x generalizing s with
  | pure a => exact hQ a s h
  | op e k ih => exact ⟨h.1, fun y r s' hy => ih r (h.2 y r s' hy)⟩

/-- An operation with only one outcome. -/
lemma always_det {e : ε} {Q : R e → σ → Prop} {s s' : σ} {r : R e} [Inhabited χ]
    (h : ∀ x, exec e x s = some (r, s')) (hQ : Q r s') : Always exec (Prog.call e) Q s := by
  refine always_call ⟨default, _, h default⟩ fun x r' t hx => ?_
  rw [h x] at hx
  cases hx
  exact hQ

end Alone

end Threads
