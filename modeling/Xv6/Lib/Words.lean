import Mathlib.Algebra.GroupWithZero.Nat
import Mathlib.Data.Nat.Init

/-!
# Byte memory with 32-bit words

A memory is a map from addresses to bytes, and a word is four bytes, the least significant one
first. A store changes the four bytes at its address; every word that lies elsewhere keeps its
value, also one at an address that is no multiple of four.
-/

namespace Words

abbrev Memory := Nat → UInt8

/-- The word at the address `a`. -/
def load (m : Memory) (a : Nat) : Nat :=
  (m a).toNat + 256 * (m (a + 1)).toNat + 65536 * (m (a + 2)).toNat +
    16777216 * (m (a + 3)).toNat

/-- Write the word `v` at the address `a`. -/
def store (m : Memory) (a v : Nat) : Memory := fun x =>
  if a ≤ x ∧ x < a + 4 then UInt8.ofNat (v / 256 ^ (x - a)) else m x

variable {m m' : Memory} {a b v : Nat}

lemma load_lt (m : Memory) (a : Nat) : load m a < 2 ^ 32 := by
  have h0 := (m a).toNat_lt
  have h1 := (m (a + 1)).toNat_lt
  have h2 := (m (a + 2)).toNat_lt
  have h3 := (m (a + 3)).toNat_lt
  unfold load
  omega

/-- The word depends on its four bytes only. -/
lemma load_congr (h : ∀ x, a ≤ x → x < a + 4 → m' x = m x) : load m' a = load m a := by
  simp only [load, h a (by omega) (by omega), h (a + 1) (by omega) (by omega),
    h (a + 2) (by omega) (by omega), h (a + 3) (by omega) (by omega)]

lemma load_store_self (h : v < 2 ^ 32) : load (store m a v) a = v := by
  have e1 : a + 1 - a = 1 := by omega
  have e2 : a + 2 - a = 2 := by omega
  have e3 : a + 3 - a = 3 := by omega
  simp [load, store, e1, e2, e3]
  omega

lemma store_of_outside {x : Nat} (h : x < a ∨ a + 4 ≤ x) : store m a v x = m x :=
  if_neg (by omega)

lemma load_store_of_apart (h : a + 4 ≤ b ∨ b + 4 ≤ a) : load (store m a v) b = load m b :=
  load_congr fun x hx hx' => store_of_outside (by omega)

end Words
