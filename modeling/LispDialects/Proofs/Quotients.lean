import LispDialects.Eval.Builtin
import LispDialects.Dialect.Catalogue
import Mathlib.Algebra.Order.Group.Unbundled.Int
import Mathlib.Data.Int.Lemmas
import Mathlib.Tactic.Ring

/-!
# Quotients

The quotient of two integers is rounded toward zero. What this means is said by the remainder: it
is smaller than the divisor, and it lies on the same side of zero as the dividend
(`RoundsTowardZero`). One integer at most can be so (`RoundsTowardZero.unique`), so this is all that
can be said of the quotient, and the rest follows: how it changes with the signs of the two
numbers, what it is for multiples of the divisor, and how large it can get.

Rounding down differs from it where the signs of the two numbers differ, unless the divisor goes
into the dividend. With the signs left aside there is no such difference, so the quotient is that of
the magnitudes with a sign put to it (`tdiv_eq_of_magnitudes`).
-/

namespace LispDialects

/-! ## Rounding toward zero -/

/-- The integer is the quotient of the two others rounded toward zero: what it leaves of the
dividend is smaller than the divisor, signs aside, and it is nothing or has the sign of the
dividend. -/
structure RoundsTowardZero (a b q : Int) : Prop where
  small : |a - q * b| < |b|
  sign : a - q * b = 0 ∨ (a - q * b).sign = a.sign

namespace RoundsTowardZero

variable {a b q other : Int}

theorem divisor_ne_zero (h : RoundsTowardZero a b q) : b ≠ 0 := by
  rintro rfl
  have hsmall : |a - q * 0| < |(0 : Int)| := h.small
  have hnonneg : 0 ≤ |a - q * 0| := abs_nonneg _
  rw [abs_zero] at hsmall
  omega

/-! ### The side of the remainder -/

/-- What is left of a dividend that is not negative is not negative. -/
theorem nonneg (h : RoundsTowardZero a b q) (ha : 0 ≤ a) : 0 ≤ a - q * b := by
  rcases h.sign with hzero | hsign
  · exact hzero.ge
  · rw [← Int.sign_nonneg_iff, hsign]
    exact Int.sign_nonneg_iff.2 ha

theorem nonpos (h : RoundsTowardZero a b q) (ha : a ≤ 0) : a - q * b ≤ 0 := by
  rcases h.sign with hzero | hsign
  · exact hzero.le
  · rw [← Int.sign_nonpos_iff, hsign]
    exact Int.sign_nonpos_iff.2 ha

/-! ### Uniqueness -/

/-- Two remainders on one side of zero are less than the divisor apart, and they differ by a
multiple of it. So there is one quotient only. -/
theorem unique (h : RoundsTowardZero a b q) (h' : RoundsTowardZero a b other) : other = q := by
  have hsmall : |(a - q * b) - (a - other * b)| < |b| := by
    rcases le_total 0 a with ha | ha
    · have hlt : a - q * b < |b| := lt_of_abs_lt h.small
      have hlt' : a - other * b < |b| := lt_of_abs_lt h'.small
      exact abs_sub_lt_of_nonneg_of_lt (h.nonneg ha) hlt (h'.nonneg ha) hlt'
    · have hlt : -|b| < a - q * b := neg_lt_of_abs_lt h.small
      have hlt' : -|b| < a - other * b := neg_lt_of_abs_lt h'.small
      have hside : a - q * b ≤ 0 := h.nonpos ha
      have hside' : a - other * b ≤ 0 := h'.nonpos ha
      rw [abs_lt]
      constructor <;> omega
  have hmultiple : (a - q * b) - (a - other * b) = (other - q) * b := by ring
  have hdvd : |b| ∣ (a - q * b) - (a - other * b) := by
    rw [abs_dvd, hmultiple]
    exact Int.dvd_mul_left (other - q) b
  have hzero : (other - q) * b = 0 := by
    rw [← hmultiple]
    exact Int.eq_zero_of_abs_lt_dvd hdvd hsmall
  rcases Int.mul_eq_zero.1 hzero with hq | hb
  · omega
  · exact absurd hb h.divisor_ne_zero

/-! ### Signs and multiples -/

/-- The quotient changes its sign with the dividend. -/
theorem neg_dividend (h : RoundsTowardZero a b q) : RoundsTowardZero (-a) b (-q) := by
  have hrest : -a - -q * b = -(a - q * b) := by ring
  constructor
  · rw [hrest, abs_neg]
    exact h.small
  · rw [hrest, Int.sign_neg, Int.sign_neg]
    rcases h.sign with hzero | hsign
    · exact .inl (by omega)
    · exact .inr (by rw [hsign])

/-- It changes its sign with the divisor, and leaves the same. -/
theorem neg_divisor (h : RoundsTowardZero a b q) : RoundsTowardZero a (-b) (-q) := by
  have hrest : a - -q * -b = a - q * b := by ring
  constructor
  · rw [hrest, abs_neg]
    exact h.small
  · rw [hrest]
    exact h.sign

/-- Of a multiple nothing is left. -/
theorem mul (a : Int) (hb : b ≠ 0) : RoundsTowardZero (a * b) b a := by
  have hrest : a * b - a * b = 0 := Int.sub_self (a * b)
  constructor
  · rw [hrest, abs_zero]
    exact abs_pos.2 hb
  · exact .inl hrest

end RoundsTowardZero

/-! ## The quotient of the language -/

/-- The division that is there for integers rounds toward zero. -/
theorem roundsTowardZero_tdiv (a : Int) {b : Int} (hb : b ≠ 0) :
    RoundsTowardZero a b (a.tdiv b) := by
  have hrest : a - a.tdiv b * b = a.tmod b := by
    rw [Int.tdiv_mul_self]
    omega
  constructor
  · have hlt : a.natAbs % b.natAbs < b.natAbs := Nat.mod_lt _ (Int.natAbs_pos.2 hb)
    rw [hrest, Int.abs_eq_natAbs, Int.abs_eq_natAbs, Int.natAbs_tmod]
    exact Int.ofNat_lt.2 hlt
  · rw [hrest]
    by_cases hdvd : b ∣ a
    · exact .inl (Int.tmod_eq_zero_of_dvd hdvd)
    · right
      rw [Int.sign_tmod, if_neg hdvd]

/-- It divides the magnitudes, and puts a minus to the quotient if one of the numbers is negative
and the other one is not. -/
theorem tdiv_eq_of_magnitudes (a b : Int) :
    a.tdiv b = if a < 0 ↔ b < 0 then |a| / |b| else -(|a| / |b|) := by
  have hmagnitudes : |a| / |b| = |a|.tdiv |b| := (Int.tdiv_eq_ediv_of_nonneg (abs_nonneg a)).symm
  rw [hmagnitudes]
  -- four cases of signs; truncating division lets a sign out of either number
  rcases lt_or_ge a 0 with ha | ha
  · rcases lt_or_ge b 0 with hb | hb
    · rw [if_pos (by omega), abs_of_neg ha, abs_of_neg hb, Int.neg_tdiv, Int.tdiv_neg, Int.neg_neg]
    · rw [if_neg (by omega), abs_of_neg ha, abs_of_nonneg hb, Int.neg_tdiv, Int.neg_neg]
  · rcases lt_or_ge b 0 with hb | hb
    · rw [if_neg (by omega), abs_of_nonneg ha, abs_of_neg hb, Int.tdiv_neg, Int.neg_neg]
    · rw [if_pos (by omega), abs_of_nonneg ha, abs_of_nonneg hb]

namespace BuiltinOp

variable {a b q : Int}

/-- Division fails for zero as the divisor, and in no other case. -/
theorem truncatedQuotient_eq_error_iff {error : Error} :
    truncatedQuotient a b = .error error ↔ b = 0 ∧ error = .divisionByZero "/" := by
  unfold truncatedQuotient
  by_cases hb : b = 0
  · simp [hb, eq_comm]
  · simp [hb]

/-- Otherwise it gives the quotient rounded toward zero. -/
theorem truncatedQuotient_eq_ok_iff :
    truncatedQuotient a b = .ok q ↔ RoundsTowardZero a b q := by
  unfold truncatedQuotient
  by_cases hb : b = 0
  · rw [if_pos hb]
    constructor
    · rintro ⟨⟩
    · intro h
      exact absurd hb h.divisor_ne_zero
  · rw [if_neg hb, Except.ok.injEq]
    constructor
    · rintro rfl
      exact roundsTowardZero_tdiv a hb
    · intro h
      exact h.unique (roundsTowardZero_tdiv a hb)

/-- The quotient is not larger than the dividend, signs aside. -/
theorem abs_le_of_truncatedQuotient (h : truncatedQuotient a b = .ok q) : |q| ≤ |a| := by
  have hrounds : RoundsTowardZero a b q := truncatedQuotient_eq_ok_iff.1 h
  have hq : a.tdiv b = q := hrounds.unique (roundsTowardZero_tdiv a hrounds.divisor_ne_zero)
  rw [← hq, Int.abs_eq_natAbs, Int.abs_eq_natAbs]
  exact Int.ofNat_le.2 (Int.natAbs_tdiv_le_natAbs a b)

/-- A function of two numbers, called with two numbers, gives a number or fails as its operation
does. -/
theorem callArithmetic_numbers (function : String) (operation : Int → Int → Except Error Int)
    (a b : Int) :
    callArithmetic function operation [.number a, .number b] = (operation a b).map .number := by
  show (operation a b >>= fun c => pure (Expr.number c)) = (operation a b).map .number
  cases operation a b <;> rfl

/-- Division of integers truncates toward zero. It fails just for zero as the divisor, with an error
for a mismatch of arguments. For every other divisor there is a quotient, it is the only integer
that rounds toward zero, and

* it changes its sign with the dividend, and with the divisor;
* a multiple of the divisor is divided without a rest;
* it is not larger than the dividend, signs aside;
* it is the quotient of the magnitudes, with a minus if only one of the numbers is negative.

The builtin that divides gives this quotient. -/
theorem truncatedQuotient_rounds (host : Host) (a b : Int) :
    ((∃ error, truncatedQuotient a b = .error error) ↔ b = 0) ∧
      (∀ error, truncatedQuotient a b = .error error → error.kind = .argumentMismatch) ∧
      (b ≠ 0 → ∃ q, truncatedQuotient a b = .ok q ∧
        (∀ other, RoundsTowardZero a b other ↔ other = q) ∧
        truncatedQuotient (-a) b = .ok (-q) ∧ truncatedQuotient a (-b) = .ok (-q) ∧
        truncatedQuotient (a * b) b = .ok a ∧ |q| ≤ |a| ∧
        q = if a < 0 ↔ b < 0 then |a| / |b| else -(|a| / |b|)) ∧
      BuiltinOp.div.call host [.number a, .number b] = (truncatedQuotient a b).map .number := by
  refine ⟨?_, ?_, ?_, callArithmetic_numbers "/" truncatedQuotient a b⟩
  · simp [truncatedQuotient_eq_error_iff]
  · intro error herror
    rcases truncatedQuotient_eq_error_iff.1 herror with ⟨_, rfl⟩
    rfl
  · intro hb
    have hrounds : RoundsTowardZero a b (a.tdiv b) := roundsTowardZero_tdiv a hb
    have hquotient : truncatedQuotient a b = .ok (a.tdiv b) :=
      truncatedQuotient_eq_ok_iff.2 hrounds
    have hunique : ∀ other, RoundsTowardZero a b other ↔ other = a.tdiv b := by
      intro other
      constructor
      · exact hrounds.unique
      · rintro rfl
        exact hrounds
    have hdividend : truncatedQuotient (-a) b = .ok (-a.tdiv b) :=
      truncatedQuotient_eq_ok_iff.2 hrounds.neg_dividend
    have hdivisor : truncatedQuotient a (-b) = .ok (-a.tdiv b) :=
      truncatedQuotient_eq_ok_iff.2 hrounds.neg_divisor
    have hmultiple : truncatedQuotient (a * b) b = .ok a :=
      truncatedQuotient_eq_ok_iff.2 (.mul a hb)
    exact ⟨a.tdiv b, hquotient, hunique, hdividend, hdivisor, hmultiple,
      abs_le_of_truncatedQuotient hquotient, tdiv_eq_of_magnitudes a b⟩

/-- Seven by two, with a minus to either number: the quotient is three with a minus, where rounding
down would give four with a minus. -/
theorem truncatedQuotient_rounds_seven :
    (∀ other, RoundsTowardZero (-7) 2 other ↔ other = -3) ∧
      truncatedQuotient (-7) 2 = .ok (-3) ∧ truncatedQuotient (- -7) 2 = .ok 3 ∧
      truncatedQuotient (-7) (-2) = .ok 3 ∧ truncatedQuotient (-7 * 2) 2 = .ok (-7) ∧
      BuiltinOp.div.call Host.sample [.number (-7), .number 2] = .ok (.number (-3)) := by
  obtain ⟨_, _, hquotient, hcall⟩ := truncatedQuotient_rounds Host.sample (-7) 2
  obtain ⟨q, hq, hunique, hdividend, hdivisor, hmultiple, _⟩ := hquotient (by decide)
  have hvalue : q = -3 := (Except.ok.inj hq).symm
  subst hvalue
  exact ⟨hunique, hq, hdividend, hdivisor, hmultiple, hcall⟩

end BuiltinOp

end LispDialects
