import Mathlib.Data.List.Basic

/-!
# The matcher of grep

`match`, `matchhere` and `matchstar` of `grep.c`. A string is the list of the bytes before its NUL.
`matchhere` calls itself only on later parts of the pattern, so `matchstar` is given the function
that matches the rest, and both are total.
-/

namespace Xv6.Grep

def CARET : UInt8 := 0x5E
def STAR : UInt8 := 0x2A
def DOT : UInt8 := 0x2E
def DOLLAR : UInt8 := 0x24

/-- `matchstar(c, re, text)`, with `here` for the calls of `matchhere(re, ..)`. -/
def matchstar (c : UInt8) (here : List UInt8 → Bool) : List UInt8 → Bool
  | [] => here []
  | b :: text => here (b :: text) || (b = c || c = DOT) && matchstar c here text

/-- The last two lines of `matchhere`. -/
def matchone (c : UInt8) (here : List UInt8 → Bool) : List UInt8 → Bool
  | [] => false
  | b :: text => (c = DOT || c = b) && here text

def matchhere : List UInt8 → List UInt8 → Bool
  | [], _ => true
  | [c], text => if c = DOLLAR then text.isEmpty else matchone c (matchhere []) text
  | c :: d :: re, text =>
    if d = STAR then matchstar c (matchhere re) text else matchone c (matchhere (d :: re)) text

/-- The loop of `match`, which also looks at the empty string. -/
def search (here : List UInt8 → Bool) : List UInt8 → Bool
  | [] => here []
  | b :: text => here (b :: text) || search here text

/-- `match(re, text)` -/
def regexMatch (re text : List UInt8) : Bool :=
  match re with
  | [] => search (matchhere []) text
  | c :: re => if c = CARET then matchhere re text else search (matchhere (c :: re)) text

/-- `c` stands for `b`. -/
def Stands (c b : UInt8) : Prop := c = DOT ∨ c = b

/-- A pattern without its anchor matches `w`, behind which the text goes on with `rest`. -/
inductive Matches (rest : List UInt8) : List UInt8 → List UInt8 → Prop
  | nil : Matches rest [] []
  | star {c re w v} : (∀ b ∈ w, Stands c b) → Matches rest re v →
      Matches rest (c :: STAR :: re) (w ++ v)
  | last : rest = [] → Matches rest [DOLLAR] []
  | char {c re b v} : Stands c b → re.head? ≠ some STAR → (c = DOLLAR → re ≠ []) →
      Matches rest re v → Matches rest (c :: re) (b :: v)

/-- Some substring of the text, at its start if the pattern is anchored, is matched. -/
def Found (re text : List UInt8) : Prop :=
  if re.head? = some CARET then ∃ w rest, text = w ++ rest ∧ Matches rest re.tail w
  else ∃ before w rest, text = before ++ w ++ rest ∧ Matches rest re w

variable {c d : UInt8} {re text : List UInt8} {here : List UInt8 → Bool}

/-- `c*` passes any number of bytes that `c` stands for. -/
lemma matchstar_iff : matchstar c here text = true ↔
    ∃ w text', text = w ++ text' ∧ (∀ b ∈ w, Stands c b) ∧ here text' = true := by
  induction text with
  | nil => simp [matchstar]
  | cons b text ih =>
    simp only [matchstar, Bool.or_eq_true, Bool.and_eq_true, decide_eq_true_eq, ih]
    constructor
    · rintro (h | ⟨hb, w, text', rfl, hw, h⟩)
      · exact ⟨[], _, rfl, nofun, h⟩
      · refine ⟨b :: w, text', rfl, ?_, h⟩
        rintro b' (_ | ⟨_, hb'⟩)
        · exact hb.symm.imp_right Eq.symm
        · exact hw b' hb'
    · rintro ⟨_ | ⟨b', w⟩, text', htext, hw, h⟩
      · exact .inl (htext ▸ h)
      · cases htext
        refine .inr ⟨(hw b List.mem_cons_self).symm.imp_left Eq.symm, w, text', rfl, ?_, h⟩
        exact fun b' hb' => hw b' (.tail _ hb')

lemma matchone_iff : matchone c here text = true ↔
    ∃ b text', text = b :: text' ∧ Stands c b ∧ here text' = true := by
  cases text <;> simp [matchone, Stands]

lemma search_iff : search here text = true ↔
    ∃ before text', text = before ++ text' ∧ here text' = true := by
  induction text with
  | nil => simp [search]
  | cons b text ih =>
    rw [search, Bool.or_eq_true, ih]
    constructor
    · rintro (h | ⟨before, text', rfl, h⟩)
      · exact ⟨[], _, rfl, h⟩
      · exact ⟨b :: before, text', rfl, h⟩
    · rintro ⟨_ | ⟨b', before⟩, text', htext, h⟩
      · exact .inl (htext ▸ h)
      · cases htext
        exact .inr ⟨before, text', rfl, h⟩

/-! ### Patterns -/

lemma matches_star_iff {rest u : List UInt8} : Matches rest (c :: STAR :: re) u ↔
    ∃ w v, u = w ++ v ∧ (∀ b ∈ w, Stands c b) ∧ Matches rest re v := by
  constructor
  · intro h
    cases h with
    | star hw hv => exact ⟨_, _, rfl, hw, hv⟩
    | char _ hre => exact absurd rfl hre
  · rintro ⟨w, v, rfl, hw, hv⟩
    exact .star hw hv

lemma matches_char_iff {rest u : List UInt8} (hre : re.head? ≠ some STAR)
    (hc : c = DOLLAR → re ≠ []) : Matches rest (c :: re) u ↔
      ∃ b v, u = b :: v ∧ Stands c b ∧ Matches rest re v := by
  constructor
  · intro h
    cases h with
    | star => exact absurd rfl hre
    | last => exact absurd rfl (hc rfl)
    | char hb _ _ hv => exact ⟨_, _, rfl, hb, hv⟩
  · rintro ⟨b, v, rfl, hb, hv⟩
    exact .char hb hre hc hv

/-- One byte of the text is passed and the rest of the pattern goes on behind it. -/
lemma matchone_matches (hre : re.head? ≠ some STAR) (hc : c = DOLLAR → re ≠ [])
    (ih : ∀ text, matchhere re text = true ↔ ∃ w rest, text = w ++ rest ∧ Matches rest re w) :
    matchone c (matchhere re) text = true ↔
      ∃ w rest, text = w ++ rest ∧ Matches rest (c :: re) w := by
  simp only [matchone_iff, matches_char_iff hre hc, ih]
  constructor
  · rintro ⟨b, _, rfl, hb, w, rest, rfl, hw⟩
    exact ⟨b :: w, rest, rfl, b, w, rfl, hb, hw⟩
  · rintro ⟨_, rest, rfl, b, w, rfl, hb, hw⟩
    exact ⟨b, w ++ rest, rfl, hb, w, rest, rfl, hw⟩

lemma matchhere_iff : ∀ re text : List UInt8, matchhere re text = true ↔
    ∃ w rest, text = w ++ rest ∧ Matches rest re w
  | [], text => iff_of_true rfl ⟨[], text, rfl, .nil⟩
  | [c], text => by
    rw [matchhere]
    split_ifs with hc
    · subst hc
      rw [List.isEmpty_iff]
      constructor
      · rintro rfl
        exact ⟨[], [], rfl, .last rfl⟩
      · rintro ⟨w, rest, rfl, h⟩
        cases h with
        | last hrest => exact hrest
        | char _ _ hre => exact absurd rfl (hre rfl)
    · exact matchone_matches nofun (fun e => absurd e hc) (matchhere_iff [])
  | c :: d :: re, text => by
    rw [matchhere]
    split_ifs with hd
    · subst hd
      simp only [matchstar_iff, matches_star_iff, matchhere_iff re]
      constructor
      · rintro ⟨w, _, rfl, hw, v, rest, rfl, hv⟩
        exact ⟨w ++ v, rest, (List.append_assoc ..).symm, w, v, rfl, hw, hv⟩
      · rintro ⟨_, rest, rfl, w, v, rfl, hw, hv⟩
        exact ⟨w, v ++ rest, List.append_assoc .., hw, v, rest, rfl, hv⟩
    · exact matchone_matches (fun e => hd (Option.some.inj e)) (fun _ => List.cons_ne_nil _ _)
        (matchhere_iff (d :: re))

lemma search_matches (re text : List UInt8) : search (matchhere re) text = true ↔
    ∃ before w rest, text = before ++ w ++ rest ∧ Matches rest re w := by
  simp only [search_iff, matchhere_iff]
  constructor
  · rintro ⟨before, _, rfl, w, rest, rfl, h⟩
    exact ⟨before, w, rest, (List.append_assoc ..).symm, h⟩
  · rintro ⟨before, w, rest, rfl, h⟩
    exact ⟨before, w ++ rest, List.append_assoc .., w, rest, rfl, h⟩

/-- The matcher finds a pattern exactly where the meaning of its characters says. -/
theorem regexMatch_iff_found (re text : List UInt8) :
    regexMatch re text = true ↔ Found re text := by
  cases re with
  | nil => exact search_matches [] text
  | cons c re =>
    rw [regexMatch, Found, List.head?_cons]
    by_cases hc : c = CARET
    · rw [if_pos hc, if_pos (congrArg some hc)]
      exact matchhere_iff re text
    · rw [if_neg hc, if_neg fun e => hc (Option.some.inj e)]
      exact search_matches (c :: re) text

/-- The pattern `^a*$` and a text of letters `a`, and with another letter. -/
example : regexMatch [0x5E, 0x61, 0x2A, 0x24] [0x61, 0x61] = true ∧
    regexMatch [0x5E, 0x61, 0x2A, 0x24] [0x61, 0x62] = false := by decide

end Xv6.Grep
