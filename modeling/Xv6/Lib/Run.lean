import Mathlib.Data.List.Basic

/-!
# Runs of a transition system

A transition system is a relation `step s a t` between states, labelled by the action that was
taken. A run records, oldest first, the state and the action of each of its steps, so that a
statement about "every state of the run" or "every step of the run" is a statement about one list.

The two rules below are the ones used throughout: an invariant that every admissible step keeps
holds at the end of every admissible run, and a property that breaks exactly at the inadmissible
steps holds in all states of a run exactly when the run is admissible.
-/

namespace TransitionSystem

variable {σ α : Type*}

/-- `Run step s tr t`: the steps listed in `tr` lead from `s` to `t`. -/
inductive Run (step : σ → α → σ → Prop) (s : σ) : List (σ × α) → σ → Prop
  | refl : Run step s [] s
  | tail {tr : List (σ × α)} {t u : σ} {a : α} :
      Run step s tr t → step t a u → Run step s (tr ++ [(t, a)]) u

/-- Every step of the trace meets the condition `C` on its source state and its action. -/
def AllSteps (C : σ → α → Prop) (tr : List (σ × α)) : Prop :=
  ∀ x ∈ tr, C x.1 x.2

/-- Every state of a run with trace `tr` and last state `t` satisfies `P`. -/
def AllStates (P : σ → Prop) (tr : List (σ × α)) (t : σ) : Prop :=
  (∀ x ∈ tr, P x.1) ∧ P t

@[simp] lemma allSteps_nil (C : σ → α → Prop) : AllSteps C [] := by simp [AllSteps]

@[simp] lemma allSteps_snoc (C : σ → α → Prop) (tr : List (σ × α)) (t : σ) (a : α) :
    AllSteps C (tr ++ [(t, a)]) ↔ AllSteps C tr ∧ C t a := by
  simp only [AllSteps, List.mem_append, List.mem_singleton]
  constructor
  · exact fun h => ⟨fun x hx => h x (Or.inl hx), h (t, a) (Or.inr rfl)⟩
  · rintro ⟨h, hta⟩ x (hx | rfl)
    · exact h x hx
    · exact hta

@[simp] lemma allStates_nil (P : σ → Prop) (t : σ) :
    AllStates (α := α) P [] t ↔ P t := by simp [AllStates]

@[simp] lemma allStates_snoc (P : σ → Prop) (tr : List (σ × α)) (t u : σ) (a : α) :
    AllStates P (tr ++ [(t, a)]) u ↔ AllStates P tr t ∧ P u := by
  simp only [AllStates, List.mem_append, List.mem_singleton]
  constructor
  · rintro ⟨h, hu⟩
    exact ⟨⟨fun x hx => h x (Or.inl hx), h (t, a) (Or.inr rfl)⟩, hu⟩
  · rintro ⟨⟨h, ht⟩, hu⟩
    refine ⟨?_, hu⟩
    rintro x (hx | rfl)
    · exact h x hx
    · exact ht

lemma AllStates.mono {P Q : σ → Prop} {tr : List (σ × α)} {t : σ} (h : AllStates P tr t)
    (hPQ : ∀ s, P s → Q s) : AllStates Q tr t :=
  ⟨fun x hx => hPQ _ (h.1 x hx), hPQ _ h.2⟩

variable {step : σ → α → σ → Prop} {s t : σ} {tr : List (σ × α)}

/-- An invariant kept by every step that meets `C` holds in every state of a run whose steps all
meet `C`. -/
theorem Run.allStates {C : σ → α → Prop} {I : σ → Prop} (hr : Run step s tr t)
    (hstep : ∀ s a t, I s → C s a → step s a t → I t) (h0 : I s) (hC : AllSteps C tr) :
    AllStates I tr t := by
  induction hr with
  | refl => simpa using h0
  | @tail tr t u a _ ha ih =>
    rw [allSteps_snoc] at hC
    have hI := ih hC.1
    exact (allStates_snoc I tr t u a).mpr ⟨hI, hstep t a u hI.2 hC.2 ha⟩

/-- An invariant kept by every step holds in every state of every run. -/
theorem Run.invariant {I : σ → Prop} (hr : Run step s tr t)
    (hstep : ∀ s a t, I s → step s a t → I t) (h0 : I s) : AllStates I tr t :=
  hr.allStates (C := fun _ _ => True) (fun s a t hI _ => hstep s a t hI) h0 fun _ _ => trivial

/-- If admissible steps keep the invariant `I`, and from a state of `I` only admissible steps lead
to a state of `P`, then `P` holds in all states of a run exactly when all its steps are
admissible. -/
theorem Run.allStates_iff {C : σ → α → Prop} {I P : σ → Prop} (hr : Run step s tr t)
    (hIP : ∀ s, I s → P s) (hgood : ∀ s a t, I s → C s a → step s a t → I t)
    (hbad : ∀ s a t, I s → step s a t → P t → C s a) (h0 : I s) :
    AllStates P tr t ↔ AllSteps C tr := by
  constructor
  · intro hP
    induction hr with
    | refl => simp
    | @tail tr t u a hr ha ih =>
      rw [allStates_snoc] at hP
      have hC := ih hP.1
      have hI := (hr.allStates hgood h0 hC).2
      exact (allSteps_snoc C tr t a).mpr ⟨hC, hbad t a u hI ha hP.2⟩
  · intro hC
    exact (hr.allStates hgood h0 hC).mono hIP

/-- If admissible steps keep the invariant `I`, and from a state of `I` the steps with the property
`P` are the admissible ones, then `P` holds of all steps of a run exactly when all are
admissible. -/
theorem Run.allSteps_iff {C P : σ → α → Prop} {I : σ → Prop} (hr : Run step s tr t)
    (hiff : ∀ s a t, I s → step s a t → (P s a ↔ C s a))
    (hgood : ∀ s a t, I s → C s a → step s a t → I t) (h0 : I s) :
    AllSteps P tr ↔ AllSteps C tr := by
  induction hr with
  | refl => simp
  | @tail tr t u a hr ha ih =>
    rw [allSteps_snoc, allSteps_snoc, ih]
    refine and_congr_right fun hC => hiff t a u (hr.allStates hgood h0 hC).2 ha

lemma Run.mono {step' : σ → α → σ → Prop} (hr : Run step s tr t)
    (h : ∀ s a t, step s a t → step' s a t) : Run step' s tr t := by
  induction hr with
  | refl => exact Run.refl
  | tail _ ha ih => exact Run.tail ih (h _ _ _ ha)

/-- A run whose steps all meet `C` is a run of the system that allows only these steps. -/
lemma Run.restrict {C : σ → α → Prop} (hr : Run step s tr t) (hC : AllSteps C tr) :
    Run (fun s a t => C s a ∧ step s a t) s tr t := by
  induction hr with
  | refl => exact Run.refl
  | @tail tr t u a _ ha ih =>
    rw [allSteps_snoc] at hC
    exact Run.tail (ih hC.1) ⟨hC.2, ha⟩

lemma Run.allSteps {C : σ → α → Prop} (hr : Run step s tr t) (h : ∀ s a t, step s a t → C s a) :
    AllSteps C tr := by
  induction hr with
  | refl => exact allSteps_nil C
  | tail _ ha ih => exact (allSteps_snoc ..).mpr ⟨ih, h _ _ _ ha⟩

/-! ### Systems given by a step function -/

lemma Run.head {a : α} {u : σ} (ha : step s a t) (hr : Run step t tr u) :
    Run step s ((s, a) :: tr) u := by
  induction hr with
  | refl => exact Run.tail Run.refl ha
  | tail _ hb ih => exact Run.tail ih hb

/-- Take the listed actions in turn, as long as the step function allows them. -/
def follow (f : σ → α → Option σ) (s : σ) : List α → Option σ
  | [] => some s
  | a :: l => (f s a).bind fun t => follow f t l

/-- Following a list of actions is a run with these actions. -/
theorem Run.of_follow {f : σ → α → Option σ} {l : List α} (h : follow f s l = some t) :
    ∃ tr, Run (fun s a t => f s a = some t) s tr t ∧ tr.map Prod.snd = l := by
  induction l generalizing s with
  | nil =>
    obtain rfl : s = t := by simpa [follow] using h
    exact ⟨[], Run.refl, rfl⟩
  | cons a l ih =>
    obtain ⟨u, hu, hrest⟩ := Option.bind_eq_some_iff.mp h
    obtain ⟨tr, hr, hl⟩ := ih hrest
    exact ⟨(s, a) :: tr, Run.head hu hr, by simp [hl]⟩

/-- The same, with a condition that is tested before every action and a value of the last state. -/
theorem Run.of_follow_if {β : Type*} {f : σ → α → Option σ} {C : σ → α → Prop}
    [∀ s a, Decidable (C s a)] {g : σ → β} {l : List α} {b : β}
    (h : (follow (fun s a => if C s a then f s a else none) s l).map g = some b) :
    ∃ tr t, Run (fun s a t => f s a = some t) s tr t ∧ tr.map Prod.snd = l ∧ g t = b ∧
      AllSteps C tr := by
  obtain ⟨t, ht, hb⟩ := Option.map_eq_some_iff.mp h
  obtain ⟨tr, hr, hl⟩ := Run.of_follow ht
  exact ⟨tr, t, hr.mono fun _ _ _ ha => (Option.ite_none_right_eq_some.mp ha).2, hl, hb,
    hr.allSteps fun _ _ _ ha => (Option.ite_none_right_eq_some.mp ha).1⟩

end TransitionSystem
