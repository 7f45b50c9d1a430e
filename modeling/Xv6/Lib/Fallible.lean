import Mathlib.Init

/-!
# Computations that can fail

A computation of type `Except ε α` stops with a fault or returns a value. `Ensures x Q` says that
whatever `x` returns satisfies `Q`: nothing is claimed about a computation that stops. The rules
below follow the structure of a program, so that a function is specified once and its callers use
the specification.
-/

namespace Fallible

universe u v

variable {ε : Type v} {α β : Type u} {x : Except ε α} {Q R : α → Prop}

/-- What `x` returns, if it returns, satisfies `Q`. -/
def Ensures (x : Except ε α) (Q : α → Prop) : Prop := ∀ a, x = .ok a → Q a

lemma Ensures.ok {a : α} (h : Q a) : Ensures (.ok a : Except ε α) Q := by
  intro b hb
  cases hb
  exact h

lemma Ensures.pure {a : α} (h : Q a) : Ensures (Pure.pure a : Except ε α) Q := Ensures.ok h

lemma Ensures.error {e : ε} : Ensures (.error e : Except ε α) Q := by
  intro b hb
  cases hb

lemma Ensures.mono (h : Ensures x R) (hRQ : ∀ a, R a → Q a) : Ensures x Q :=
  fun a ha => hRQ a (h a ha)

lemma Ensures.and (h : Ensures x Q) (h' : Ensures x R) : Ensures x fun a => Q a ∧ R a :=
  fun a ha => ⟨h a ha, h' a ha⟩

/-- Sequential composition. -/
lemma Ensures.bind {f : α → Except ε β} {S : β → Prop} (h : Ensures x R)
    (hf : ∀ a, R a → Ensures (f a) S) : Ensures (x >>= f) S := by
  intro b hb
  cases x with
  | error e => cases hb
  | ok a => exact hf a (h a rfl) b hb

/-- `x` does not stop with one of the faults `E`. -/
def Avoids (x : Except ε α) (E : ε → Prop) : Prop := ∀ e, x = .error e → ¬ E e

section Avoids

variable {E : ε → Prop}

lemma Avoids.ok {a : α} : Avoids (.ok a : Except ε α) E := by
  intro e he
  cases he

lemma Avoids.pure {a : α} : Avoids (Pure.pure a : Except ε α) E := Avoids.ok

lemma Avoids.error {e : ε} (h : ¬ E e) : Avoids (.error e : Except ε α) E := by
  intro e' he
  cases he
  exact h

lemma Avoids.bind {f : α → Except ε β} (h : Avoids x E) (hf : ∀ a, x = .ok a → Avoids (f a) E) :
    Avoids (x >>= f) E := by
  intro e he
  cases x with
  | error e' =>
    cases he
    exact h e rfl
  | ok a => exact hf a rfl e he

end Avoids

@[simp]
lemma ok_bind {f : α → Except ε β} {a : α} : ((.ok a : Except ε α) >>= f) = f a := rfl

lemma bind_eq_ok {f : α → Except ε β} {b : β} :
    (x >>= f) = .ok b ↔ ∃ a, x = .ok a ∧ f a = .ok b := by
  constructor
  · intro h
    cases x with
    | error e => cases h
    | ok a => exact ⟨a, rfl, h⟩
  · rintro ⟨a, rfl, h⟩
    exact h

end Fallible
