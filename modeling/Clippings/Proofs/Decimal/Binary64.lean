import Mathlib.Algebra.Group.Nat.Defs
import Clippings.Decimal.Shortest

/-!
# Rounding to binary numbers

Rounding looks at a ratio only, not at how it is given, and leaves numbers in lowest form as they
are.  Both rest on the exponent of the unit being the only one with 53 bits in front of the point.
-/

namespace Clippings
namespace Binary64

/-- In lowest form, as rounding gives it. -/
def IsLowest : Binary64 -> Prop
  | nan => True
  | infinite _ => True
  | finite _ m e =>
    m < 2 ^ precision ∧ leastExponent ≤ e ∧ e ≤ greatestExponent ∧
      (e = leastExponent ∨ 2 ^ (precision - 1) ≤ m)

/-!
## Units
-/

theorem inUnits_eq (num den : Nat) (e : Int) :
    inUnits num den e = (num * 2 ^ (-e).toNat, den * 2 ^ e.toNat) := by
  unfold inUnits
  split
  · rename_i he
    rw [show e.toNat = 0 by omega, Nat.pow_zero, Nat.mul_one]
    rfl
  · rename_i he
    rw [show (-e).toNat = 0 by omega, Nat.pow_zero, Nat.mul_one]
    rfl

def units (num den : Nat) (e : Int) : Nat :=
  num * 2 ^ (-e).toNat / (den * 2 ^ e.toNat)

theorem units_succ (num den : Nat) (e : Int) :
    units num den (e + 1) = units num den e / 2 := by
  unfold units
  by_cases he : 0 ≤ e
  · rw [show (-(e + 1)).toNat = (-e).toNat by omega, show (e + 1).toNat = e.toNat + 1 by omega,
      Nat.pow_succ, ← Nat.mul_assoc, Nat.div_div_eq_div_mul]
  · rw [show (-e).toNat = (-(e + 1)).toNat + 1 by omega, show (e + 1).toNat = e.toNat by omega,
      Nat.pow_succ, ← Nat.mul_assoc, Nat.div_div_eq_div_mul, Nat.mul_div_mul_right _ _ (by decide)]

theorem units_add (num den : Nat) (e : Int) (k : Nat) :
    units num den (e + k) = units num den e / 2 ^ k := by
  induction k with
  | zero => simp
  | succ k ih =>
      rw [Int.natCast_succ, ← Int.add_assoc, units_succ, ih, Nat.div_div_eq_div_mul, Nat.pow_succ]

/-- A unit in which the ratio has 53 bits in front of the point, or the least unit. -/
structure IsUnit (num den : Nat) (e : Int) : Prop where
  fits : units num den e < 2 ^ precision
  least : leastExponent ≤ e
  filled : e = leastExponent ∨ 2 ^ (precision - 1) ≤ units num den e

theorem not_isUnit_of_lt {num den : Nat} {e e' : Int} (h : IsUnit num den e) (hlt : e < e') :
    ¬ IsUnit num den e' := by
  intro h'
  obtain ⟨k, rfl⟩ : exists k : Nat, e' = e + 1 + k := ⟨(e' - (e + 1)).toNat, by omega⟩
  have hle : units num den (e + 1 + k) ≤ units num den e / 2 := by
    rw [units_add, units_succ]
    exact Nat.div_le_self _ _
  have hfits := h.fits
  have hleast := h.least
  rcases h'.filled with hfilled | hfilled
  · omega
  · simp only [precision] at *
    omega

theorem IsUnit.unique {num den : Nat} {e e' : Int} (h : IsUnit num den e)
    (h' : IsUnit num den e') :
    e = e' := by
  rcases Int.lt_trichotomy e e' with hlt | heq | hlt
  · exact absurd h' (not_isUnit_of_lt h hlt)
  · exact heq
  · exact absurd h (not_isUnit_of_lt h' hlt)

/-- Counting bits finds the unit, or the one below it. -/
theorem units_of_log2 {num den : Nat} (hnum : num ≠ 0) (hden : den ≠ 0) :
    2 ^ (precision - 1) ≤ units num den ((num.log2 : Int) - den.log2 - precision) ∧
      units num den ((num.log2 : Int) - den.log2 - precision) < 2 ^ (precision + 1) := by
  generalize he : (num.log2 : Int) - den.log2 - precision = e
  have hnum₁ := Nat.log2_self_le hnum
  have hnum₂ := Nat.lt_log2_self (n := num)
  have hden₁ := Nat.log2_self_le hden
  have hden₂ := Nat.lt_log2_self (n := den)
  have hexponents : num.log2 + (-e).toNat = den.log2 + e.toNat + precision := by omega
  have hpos : 0 < den * 2 ^ e.toNat :=
    Nat.mul_pos (Nat.pos_of_ne_zero hden) (Nat.two_pow_pos _)
  unfold units
  constructor
  · rw [Nat.le_div_iff_mul_le hpos]
    calc 2 ^ (precision - 1) * (den * 2 ^ e.toNat)
        ≤ 2 ^ (precision - 1) * (2 ^ (den.log2 + 1) * 2 ^ e.toNat) :=
          Nat.mul_le_mul_left _ (Nat.mul_le_mul_right _ (Nat.le_of_lt hden₂))
      _ = 2 ^ (num.log2 + (-e).toNat) := by
          rw [← Nat.pow_add, ← Nat.pow_add, hexponents]
          congr 1
          simp only [precision]
          omega
      _ ≤ num * 2 ^ (-e).toNat := by
          rw [Nat.pow_add]
          exact Nat.mul_le_mul_right _ hnum₁
  · rw [Nat.div_lt_iff_lt_mul hpos]
    calc num * 2 ^ (-e).toNat
        < 2 ^ (num.log2 + 1) * 2 ^ (-e).toNat :=
          Nat.mul_lt_mul_of_pos_right hnum₂ (Nat.two_pow_pos _)
      _ = 2 ^ (precision + 1) * (2 ^ den.log2 * 2 ^ e.toNat) := by
          rw [← Nat.pow_add, ← Nat.pow_add, ← Nat.pow_add]
          congr 1
          omega
      _ ≤ 2 ^ (precision + 1) * (den * 2 ^ e.toNat) :=
          Nat.mul_le_mul_left _ (Nat.mul_le_mul_right _ hden₁)

theorem isUnit_unitExponent {num den : Nat} (hnum : num ≠ 0) (hden : den ≠ 0) :
    IsUnit num den (unitExponent num den) := by
  have hbits := units_of_log2 hnum hden
  unfold unitExponent
  generalize hguess : (num.log2 : Int) - (den.log2 : Int) - precision = e at hbits
  obtain ⟨k, hk⟩ : exists k : Nat, max e leastExponent = e + k :=
    ⟨(max e leastExponent - e).toNat, by omega⟩
  have hunits : units num den (max e leastExponent) < 2 ^ (precision + 1) := by
    rw [hk, units_add]
    exact Nat.lt_of_le_of_lt (Nat.div_le_self _ _) hbits.2
  have hleast : leastExponent ≤ max e leastExponent := Int.le_max_right _ _
  have hfilled : max e leastExponent = leastExponent ∨
      2 ^ (precision - 1) ≤ units num den (max e leastExponent) := by
    rcases Int.le_total e leastExponent with hle | hle
    · exact Or.inl (Int.max_eq_right hle)
    · rw [Int.max_eq_left hle]
      exact Or.inr hbits.1
  simp only [inUnits_eq]
  change IsUnit num den (if units num den (max e leastExponent) < 2 ^ precision then _ else _)
  split
  · rename_i hfits
    exact ⟨hfits, hleast, hfilled⟩
  · rename_i hfits
    refine ⟨?_, by omega, Or.inr ?_⟩
    · rw [units_succ]
      simp only [precision] at *
      omega
    · rw [units_succ]
      simp only [precision] at *
      omega

/-!
## Rounding
-/

theorem roundHalfEven_bounds (num den : Nat) :
    num / den ≤ roundHalfEven num den ∧ roundHalfEven num den ≤ num / den + 1 := by
  unfold roundHalfEven
  simp only
  split
  · omega
  · split
    · omega
    · split <;> omega

theorem roundHalfEven_mul {k : Nat} (hk : 0 < k) (num den : Nat) :
    roundHalfEven (num * k) (den * k) = roundHalfEven num den := by
  have hlt : forall a b : Nat, (a * k < b * k) = (a < b) := by
    intro a b
    rw [Nat.mul_lt_mul_right hk]
  unfold roundHalfEven
  simp only [Nat.mul_div_mul_right _ _ hk, Nat.mul_mod_mul_right, ← Nat.mul_assoc, hlt]

def roundTo (negative : Bool) (num den : Nat) (e : Int) : Binary64 :=
  let m := roundHalfEven (num * 2 ^ (-e).toNat) (den * 2 ^ e.toNat)
  let (m, e) := if m == Nat.pow 2 precision then (Nat.pow 2 (precision - 1), e + 1) else (m, e)
  if greatestExponent < e then infinite negative else finite negative m e

theorem ofRatio_eq {num den : Nat} (hnum : num ≠ 0) (hden : den ≠ 0) (negative : Bool) {e : Int}
    (he : IsUnit num den e) :
    ofRatio negative num den = roundTo negative num den e := by
  unfold ofRatio
  simp only [inUnits_eq, (isUnit_unitExponent hnum hden).unique he]
  rfl

theorem isLowest_roundTo {num den : Nat} {e : Int} (h : IsUnit num den e) (negative : Bool) :
    (roundTo negative num den e).IsLowest := by
  have hbounds := roundHalfEven_bounds (num * 2 ^ (-e).toNat) (den * 2 ^ e.toNat)
  have hfits := h.fits
  have hfilled := h.filled
  have hleast := h.least
  unfold roundTo
  unfold units at hfits hfilled
  generalize roundHalfEven (num * 2 ^ (-e).toNat) (den * 2 ^ e.toNat) = m at *
  generalize num * 2 ^ (-e).toNat / (den * 2 ^ e.toNat) = q at *
  simp only
  cases hm : m == Nat.pow 2 precision with
  | true =>
      simp only [if_true]
      split
      · trivial
      · exact ⟨by decide, by omega, by omega, Or.inr (by decide)⟩
  | false =>
      simp only [Bool.false_eq_true, if_false]
      split
      · trivial
      · have hne : m ≠ 2 ^ precision := by simpa using hm
        exact ⟨by omega, hleast, by omega, hfilled.imp_right (Nat.le_trans · hbounds.1)⟩

theorem isLowest_ofRatio {num den : Nat} (hnum : num ≠ 0) (hden : den ≠ 0) (negative : Bool) :
    (ofRatio negative num den).IsLowest := by
  have hunit := isUnit_unitExponent hnum hden
  rw [ofRatio_eq hnum hden negative hunit]
  exact isLowest_roundTo hunit negative

theorem ofRatio_mul {num den k : Nat} (hnum : num ≠ 0) (hden : den ≠ 0) (hk : k ≠ 0)
    (negative : Bool) :
    ofRatio negative (num * k) (den * k) = ofRatio negative num den := by
  have hpos := Nat.pos_of_ne_zero hk
  have hunit := isUnit_unitExponent hnum hden
  generalize unitExponent num den = e at hunit
  have hswap : forall a b : Nat, a * k * b = a * b * k := fun a b => Nat.mul_right_comm a k b
  have hunits : units (num * k) (den * k) e = units num den e := by
    unfold units
    rw [hswap, hswap, Nat.mul_div_mul_right _ _ hpos]
  have hunit' : IsUnit (num * k) (den * k) e :=
    ⟨by rw [hunits]; exact hunit.fits, hunit.least, by rw [hunits]; exact hunit.filled⟩
  rw [ofRatio_eq (Nat.mul_ne_zero hnum hk) (Nat.mul_ne_zero hden hk) negative hunit',
    ofRatio_eq hnum hden negative hunit]
  unfold roundTo
  rw [hswap, hswap, roundHalfEven_mul hpos]

theorem ofRatio_congr {num den num' den' : Nat} (hnum : num ≠ 0) (hden : den ≠ 0)
    (hnum' : num' ≠ 0) (hden' : den' ≠ 0) (h : num * den' = num' * den) (negative : Bool) :
    ofRatio negative num den = ofRatio negative num' den' := by
  rw [← ofRatio_mul hnum hden hden' negative, ← ofRatio_mul hnum' hden' hden negative, h,
    Nat.mul_comm den den']

theorem ofRatio_ratio {m : Nat} {e : Int} {negative : Bool} (hm : m ≠ 0)
    (h : (finite negative m e).IsLowest) :
    ofRatio negative (m * 2 ^ e.toNat) (2 ^ (-e).toNat) = finite negative m e := by
  rcases h with ⟨hfits, hleast, hgreatest, hfilled⟩
  have hnum : m * 2 ^ e.toNat ≠ 0 := Nat.mul_ne_zero hm (Nat.ne_of_gt (Nat.two_pow_pos _))
  have hden : 2 ^ (-e).toNat ≠ 0 := Nat.ne_of_gt (Nat.two_pow_pos _)
  have hpos : 0 < 2 ^ (-e).toNat * 2 ^ e.toNat :=
    Nat.mul_pos (Nat.two_pow_pos _) (Nat.two_pow_pos _)
  have hwhole : m * 2 ^ e.toNat * 2 ^ (-e).toNat = m * (2 ^ (-e).toNat * 2 ^ e.toNat) := by
    rw [Nat.mul_assoc, Nat.mul_comm (2 ^ e.toNat)]
  have hunits : units (m * 2 ^ e.toNat) (2 ^ (-e).toNat) e = m := by
    unfold units
    rw [hwhole, Nat.mul_div_cancel _ hpos]
  have hround : roundHalfEven (m * 2 ^ e.toNat * 2 ^ (-e).toNat)
      (2 ^ (-e).toNat * 2 ^ e.toNat) = m := by
    unfold roundHalfEven
    simp only [hwhole, Nat.mul_mod_left, Nat.mul_div_cancel _ hpos, Nat.mul_zero, hpos, if_true]
  have hne : (m == Nat.pow 2 precision) = false := by
    rw [beq_eq_false_iff_ne]
    exact Nat.ne_of_lt hfits
  rw [ofRatio_eq hnum hden negative ⟨by rw [hunits]; exact hfits, hleast, by
    rw [hunits]; exact hfilled⟩]
  unfold roundTo
  simp only [hround, hne, Bool.false_eq_true, if_false, Int.not_lt.mpr hgreatest]

/-!
## Decimals
-/

theorem isLowest_zero (negative : Bool) :
    (zero negative).IsLowest := by
  refine ⟨by decide, by decide, by decide, Or.inl rfl⟩

theorem ofScientific_eq {digits : Nat} (hdigits : digits ≠ 0) (negative : Bool) (exponent : Int)
    (hsmall : -400 ≤ ((Nat.toDigits 10 digits).length : Int) + exponent)
    (hlarge : ((Nat.toDigits 10 digits).length : Int) + exponent ≤ 400) :
    ofScientific negative digits exponent =
      ofRatio negative (digits * 10 ^ exponent.toNat) (10 ^ (-exponent).toNat) := by
  unfold ofScientific
  simp only [beq_eq_false_iff_ne.mpr hdigits, Bool.false_eq_true, if_false,
    Int.not_lt.mpr hsmall, Int.not_lt.mpr hlarge]
  split
  · rename_i he
    rw [show exponent.toNat = 0 by omega, Nat.pow_zero, Nat.mul_one]
    rfl
  · rename_i he
    rw [show (-exponent).toNat = 0 by omega, Nat.pow_zero]
    rfl

theorem isLowest_ofScientific (negative : Bool) (digits : Nat) (exponent : Int) :
    (ofScientific negative digits exponent).IsLowest := by
  by_cases hdigits : digits = 0
  · subst hdigits
    exact isLowest_zero negative
  · by_cases hlarge : 400 < ((Nat.toDigits 10 digits).length : Int) + exponent
    · unfold ofScientific
      simp only [beq_eq_false_iff_ne.mpr hdigits, Bool.false_eq_true, if_false, hlarge, if_true]
      trivial
    · by_cases hsmall : ((Nat.toDigits 10 digits).length : Int) + exponent < -400
      · unfold ofScientific
        simp only [beq_eq_false_iff_ne.mpr hdigits, Bool.false_eq_true, if_false, hlarge, hsmall,
          if_true]
        exact isLowest_zero negative
      · rw [ofScientific_eq hdigits negative exponent (Int.not_lt.mp hsmall)
          (Int.not_lt.mp hlarge)]
        have hpow : forall k : Nat, 10 ^ k ≠ 0 := fun k => Nat.ne_of_gt (Nat.pow_pos (by decide))
        exact isLowest_ofRatio (Nat.mul_ne_zero hdigits (hpow _)) (hpow _) negative

end Binary64
end Clippings
