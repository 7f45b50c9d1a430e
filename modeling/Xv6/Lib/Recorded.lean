import Xv6.Lib.Fallible

/-!
# Computations that keep a record

A computation that can fail, with a record of what it did before it returned or failed. Without the
record it is a computation in `Except`.
-/

/-- The record, and the result. -/
structure Recorded (ε ω α : Type) where
  log : List ω
  result : Except ε α

namespace Recorded

variable {ε ω α β : Type}

/-- Add an element to the record. -/
def tell (w : ω) : Recorded ε ω Unit := ⟨[w], .ok ()⟩

def fail (e : ε) : Recorded ε ω α := ⟨[], .error e⟩

/-- A computation that adds nothing to the record. -/
def lift (x : Except ε α) : Recorded ε ω α := ⟨[], x⟩

instance : Monad (Recorded ε ω) where
  pure a := ⟨[], .ok a⟩
  bind x f :=
    match x.result with
    | .ok a => ⟨x.log ++ (f a).log, (f a).result⟩
    | .error e => ⟨x.log, .error e⟩

@[simp]
lemma result_tell (w : ω) : (tell w : Recorded ε ω Unit).result = .ok () := rfl

@[simp]
lemma result_lift (x : Except ε α) : (lift x : Recorded ε ω α).result = x := rfl

@[simp]
lemma result_bind (x : Recorded ε ω α) (f : α → Recorded ε ω β) :
    (x >>= f).result = x.result >>= fun a => (f a).result := by
  change (match x.result with
    | .ok a => (⟨x.log ++ (f a).log, (f a).result⟩ : Recorded ε ω β)
    | .error e => ⟨x.log, .error e⟩).result = _
  cases x.result <;> rfl

/-- What is in the record was put there by the first part, or by the second after it. -/
lemma mem_log_bind {x : Recorded ε ω α} {f : α → Recorded ε ω β} {w : ω} :
    w ∈ (x >>= f).log ↔ w ∈ x.log ∨ ∃ a, x.result = .ok a ∧ w ∈ (f a).log := by
  change w ∈ (match x.result with
    | .ok a => (⟨x.log ++ (f a).log, (f a).result⟩ : Recorded ε ω β)
    | .error e => ⟨x.log, .error e⟩).log ↔ _
  cases x.result with
  | ok a => simp
  | error e => simp

/-- What is returned satisfies `Q` together with the record. -/
def Returns (x : Recorded ε ω α) (Q : List ω → α → Prop) : Prop := ∀ a, x.result = .ok a → Q x.log a

namespace Returns

variable {Q : List ω → α → Prop} {S : List ω → β → Prop}

lemma pure {a : α} (h : Q [] a) : Returns (Pure.pure a : Recorded ε ω α) Q := by
  intro b hb
  cases hb
  exact h

/-- The rest of the record after a call that is recorded. -/
lemma tell {w : ω} {f : Unit → Recorded ε ω β} (h : Returns (f ()) fun l => S (w :: l)) :
    Returns (Recorded.tell w >>= f) S := h

/-- What follows a computation that adds nothing to the record. -/
lemma lift {x : Except ε α} {f : α → Recorded ε ω β} (h : ∀ a, x = .ok a → Returns (f a) S) :
    Returns (Recorded.lift x >>= f) S := by
  intro b hb
  rw [result_bind, result_lift] at hb
  obtain ⟨a, rfl, hb⟩ := Fallible.bind_eq_ok.mp hb
  exact h a rfl b hb

end Returns

section Avoids

variable {E : ε → Prop}

lemma avoids_tell {w : ω} {f : Unit → Recorded ε ω β} (h : Fallible.Avoids (f ()).result E) :
    Fallible.Avoids (tell w >>= f).result E := h

lemma avoids_lift {x : Except ε α} {f : α → Recorded ε ω β} (h : Fallible.Avoids x E)
    (hf : ∀ a, x = .ok a → Fallible.Avoids (f a).result E) :
    Fallible.Avoids (lift x >>= f).result E := by
  rw [result_bind, result_lift]
  exact h.bind hf

end Avoids

/-- Whatever is in the record satisfies `P`, and whatever is returned satisfies `Q`. -/
structure Logs (x : Recorded ε ω α) (P : ω → Prop) (Q : α → Prop) : Prop where
  log : ∀ w ∈ x.log, P w
  result : Fallible.Ensures x.result Q

namespace Logs

variable {P P' : ω → Prop} {Q R : α → Prop} {S : β → Prop}

lemma pure {a : α} (h : Q a) : Logs (Pure.pure a : Recorded ε ω α) P Q where
  log w hw := by cases hw
  result := .ok h

lemma tell {w : ω} {T : Unit → Prop} (h : P w) (hT : T ()) :
    Logs (Recorded.tell w : Recorded ε ω Unit) P T where
  log v hv := by
    rw [List.mem_singleton.mp hv]
    exact h
  result := .ok hT

lemma fail {e : ε} : Logs (Recorded.fail e : Recorded ε ω α) P Q where
  log w hw := by cases hw
  result := .error

lemma mono {x : Recorded ε ω α} (h : Logs x P R) (hP : ∀ w, P w → P' w) (hQ : ∀ a, R a → Q a) :
    Logs x P' Q where
  log w hw := hP w (h.log w hw)
  result := h.result.mono hQ

/-- One after the other. -/
lemma bind {x : Recorded ε ω α} {f : α → Recorded ε ω β} (h : Logs x P R)
    (hf : ∀ a, R a → Logs (f a) P S) : Logs (x >>= f) P S where
  log w hw := by
    rcases mem_log_bind.mp hw with hx | ⟨a, ha, hfa⟩
    · exact h.log w hx
    · exact (hf a (h.result a ha)).log w hfa
  result := by
    rw [result_bind]
    exact h.result.bind fun a ha => (hf a ha).result

end Logs

end Recorded
