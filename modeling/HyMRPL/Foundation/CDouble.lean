import Mathlib.Algebra.Order.Ring.Rat

/-!
# Doubles

The values of a C `double`, up to rounding: the finite ones are the rationals, and
beside them there are the two infinities and NaN. A comparison with NaN is false, so
`¬ x < y` says less than `y ≤ x`.
-/

/-- A `double`. -/
inductive CDouble
  | nan
  | inf (negative : Bool)
  | num (q : ℚ)
  deriving DecidableEq

namespace CDouble

instance : Coe ℚ CDouble := ⟨num⟩

instance (n : ℕ) : OfNat CDouble n := ⟨num n⟩

/-- `x < y` -/
def lt : CDouble → CDouble → Prop
  | num p, num q => p < q
  | num _, inf negative => negative = false
  | inf negative, num _ => negative = true
  | inf a, inf b => a = true ∧ b = false
  | nan, _ => False
  | _, nan => False

/-- `x <= y` -/
def le (x y : CDouble) : Prop := lt x y ∨ x = y ∧ x ≠ nan

/-- `x * y` -/
def mul : CDouble → CDouble → CDouble
  | num p, num q => num (p * q)
  | num p, inf negative => if p = 0 then nan else inf (decide (p < 0) != negative)
  | inf negative, num p => if p = 0 then nan else inf (decide (p < 0) != negative)
  | inf a, inf b => inf (a != b)
  | nan, _ => nan
  | _, nan => nan

instance : LT CDouble := ⟨lt⟩

instance : LE CDouble := ⟨le⟩

instance : Mul CDouble := ⟨mul⟩

instance decidableLT : ∀ x y : CDouble, Decidable (x < y)
  | num p, num q => inferInstanceAs (Decidable (p < q))
  | num _, inf negative => inferInstanceAs (Decidable (negative = false))
  | inf negative, num _ => inferInstanceAs (Decidable (negative = true))
  | inf a, inf b => inferInstanceAs (Decidable (a = true ∧ b = false))
  | nan, nan => .isFalse id
  | nan, inf _ => .isFalse id
  | nan, num _ => .isFalse id
  | inf _, nan => .isFalse id
  | num _, nan => .isFalse id

instance decidableLE (x y : CDouble) : Decidable (x ≤ y) :=
  inferInstanceAs (Decidable (x < y ∨ x = y ∧ x ≠ nan))

variable {p q : ℚ} {x : CDouble}

@[simp] theorem num_lt_num : (num p < num q) ↔ p < q := Iff.rfl

@[simp] theorem num_le_num : (num p ≤ num q) ↔ p ≤ q := by
  change (p < q ∨ num p = num q ∧ num p ≠ nan) ↔ p ≤ q
  simp [le_iff_lt_or_eq]

@[simp] theorem num_mul_num : num p * num q = num (p * q) := rfl

theorem not_lt_nan : ¬ x < nan := by cases x <;> exact id

theorem not_nan_le : ¬ nan ≤ x := by
  rintro (h | ⟨-, h⟩)
  · exact h
  · exact h rfl

/-- What is not below a number is NaN or reaches up to it. -/
theorem not_num_lt_iff : ¬ num p < x ↔ x = nan ∨ x ≤ num p := by
  cases x with
  | nan => exact iff_of_true not_lt_nan (Or.inl rfl)
  | inf negative =>
      change ¬ negative = false ↔ _ ∨ negative = true ∨ _
      simp
  | num q => simp

theorem num_mul_eq_nan_iff (hp : p ≠ 0) : num p * x = nan ↔ x = nan := by
  cases x with
  | nan => exact iff_of_true rfl rfl
  | inf negative =>
      change (if p = 0 then nan else inf _) = nan ↔ _
      simp [hp]
  | num q => simp

end CDouble
