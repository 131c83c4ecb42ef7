import Clippings.Proofs.Decimal.Binary64

/-!
# Shortest decimals read back

The search for a short decimal tries each candidate, so what it finds is right; where it finds none,
all digits are given, and these are exact.
-/

namespace Clippings
namespace Binary64

/-!
## Zeros at the end
-/

theorem length_toDigits_mul {n : Nat} (hn : n ≠ 0) :
    (Nat.toDigits 10 (n * 10)).length = (Nat.toDigits 10 n).length + 1 := by
  rw [Nat.toDigits_eq_if (by decide), if_neg (by omega), Nat.mul_div_cancel _ (by decide)]
  simp

theorem ofScientific_mul (negative : Bool) (digits : Nat) (exponent : Int) :
    ofScientific negative (digits * 10) exponent = ofScientific negative digits (exponent + 1) := by
  by_cases hdigits : digits = 0
  · subst hdigits
    rfl
  · have hdigits' : digits * 10 ≠ 0 := Nat.mul_ne_zero hdigits (by decide)
    have hlength := length_toDigits_mul hdigits
    have hmagnitude : ((Nat.toDigits 10 (digits * 10)).length : Int) + exponent =
        ((Nat.toDigits 10 digits).length : Int) + (exponent + 1) := by
      rw [hlength]
      omega
    by_cases hrange : -400 ≤ ((Nat.toDigits 10 digits).length : Int) + (exponent + 1) ∧
        ((Nat.toDigits 10 digits).length : Int) + (exponent + 1) ≤ 400
    · rw [ofScientific_eq hdigits negative _ hrange.1 hrange.2,
        ofScientific_eq hdigits' negative _ (by rw [hmagnitude]; exact hrange.1)
          (by rw [hmagnitude]; exact hrange.2)]
      have hpow : forall k : Nat, 10 ^ k ≠ 0 := fun k => Nat.ne_of_gt (Nat.pow_pos (by decide))
      refine ofRatio_congr (Nat.mul_ne_zero hdigits' (hpow _)) (hpow _)
        (Nat.mul_ne_zero hdigits (hpow _)) (hpow _) ?_ negative
      rw [Nat.mul_assoc, Nat.mul_assoc, Nat.mul_assoc, ← Nat.pow_add, ← Nat.pow_add,
        ← Nat.pow_succ']
      congr 2
      omega
    · unfold ofScientific
      simp only [hmagnitude, beq_eq_false_iff_ne.mpr hdigits, beq_eq_false_iff_ne.mpr hdigits',
        Bool.false_eq_true, if_false]
      split
      · rfl
      · split
        · rfl
        · omega

theorem ofScientific_mul_pow (negative : Bool) (digits k : Nat) (exponent : Int) :
    ofScientific negative (digits * 10 ^ k) exponent =
      ofScientific negative digits (exponent + k) := by
  induction k generalizing exponent with
  | zero => simp
  | succ k ih =>
      rw [Nat.pow_succ, ← Nat.mul_assoc, ofScientific_mul, ih]
      congr 1
      omega

/-!
## Signs
-/

def withSign (negative : Bool) : Binary64 -> Binary64
  | nan => nan
  | infinite _ => infinite negative
  | finite _ m e => finite negative m e

theorem withSign_ofRatio (negative : Bool) (num den : Nat) :
    withSign negative (ofRatio false num den) = ofRatio negative num den := by
  unfold ofRatio
  simp only
  split <;> split <;> rfl

theorem withSign_ofScientific (negative : Bool) (digits : Nat) (exponent : Int) :
    withSign negative (ofScientific false digits exponent) =
      ofScientific negative digits exponent := by
  unfold ofScientific
  simp only
  split
  · rfl
  · split
    · rfl
    · split
      · rfl
      · split
        · exact withSign_ofRatio negative _ _
        · exact withSign_ofRatio negative _ _

end Binary64

namespace Decimal

/-- The decimal is read as the positive number. -/
def Reads (d : Decimal) (significand : Nat) (exponent : Int) : Prop :=
  d.toBinary64 false = .finite false significand exponent

theorem Reads.toBinary64 {d : Decimal} {m : Nat} {e : Int} (h : d.Reads m e) (negative : Bool) :
    d.toBinary64 negative = .finite negative m e := by
  rw [Decimal.toBinary64, ← Binary64.withSign_ofScientific]
  exact congrArg (Binary64.withSign negative) h

theorem Reads.digits {d : Decimal} {m : Nat} {e : Int} (h : d.Reads m e) (hm : m ≠ 0) :
    d.digits ≠ 0 := by
  intro hdigits
  rw [Reads, Decimal.toBinary64, hdigits] at h
  cases h
  exact hm rfl

theorem Reads.trim {d : Decimal} {m : Nat} {e : Int} (h : d.Reads m e) (fuel : Nat) :
    (d.trim fuel).Reads m e := by
  induction fuel generalizing d with
  | zero => exact h
  | succ fuel ih =>
      rw [Decimal.trim]
      split
      · rename_i hzero
        rw [Bool.and_eq_true, beq_iff_eq] at hzero
        apply ih
        rw [Reads, Decimal.toBinary64, ← Binary64.ofScientific_mul]
        rw [Nat.div_mul_cancel (Nat.dvd_of_mod_eq_zero hzero.1)]
        exact h
      · exact h

/-!
## All digits
-/

theorem toDigits_bounds {n : Nat} (hn : n ≠ 0) :
    10 ^ ((Nat.toDigits 10 n).length - 1) ≤ n ∧ n < 10 ^ (Nat.toDigits 10 n).length := by
  induction n using Nat.strongRecOn with
  | ind n ih =>
      rw [Nat.toDigits_eq_if (by decide)]
      split
      · simpa using ⟨Nat.pos_of_ne_zero hn, by assumption⟩
      · have hq : n / 10 ≠ 0 := by omega
        rcases ih (n / 10) (by omega) hq with ⟨hlow, hhigh⟩
        have hlength : (Nat.toDigits 10 (n / 10)).length ≠ 0 := by
          simp
        rw [List.length_append, List.length_singleton, Nat.add_sub_cancel]
        generalize (Nat.toDigits 10 (n / 10)).length = k at *
        obtain ⟨j, rfl⟩ : exists j, k = j + 1 := ⟨k - 1, by omega⟩
        have hmore : 10 ^ (j + 1 + 1) = 10 ^ (j + 1) * 10 := Nat.pow_succ 10 (j + 1)
        rw [Nat.add_sub_cancel] at hlow
        rw [Nat.pow_succ] at hhigh ⊢
        omega

theorem length_toDigits_le {n k : Nat} (hn : n ≠ 0) (h : n < 10 ^ k) :
    (Nat.toDigits 10 n).length ≤ k := by
  have hlow := (toDigits_bounds hn).1
  have hlt := (Nat.pow_lt_pow_iff_right (by decide : 1 < 10)).mp (Nat.lt_of_le_of_lt hlow h)
  omega

theorem lt_length_toDigits {n k : Nat} (hn : n ≠ 0) (h : 10 ^ k ≤ n) :
    k < (Nat.toDigits 10 n).length :=
  (Nat.pow_lt_pow_iff_right (by decide : 1 < 10)).mp
    (Nat.lt_of_le_of_lt h (toDigits_bounds hn).2)

theorem ten_pow (k : Nat) :
    10 ^ k = 5 ^ k * 2 ^ k := by
  rw [← Nat.mul_pow]

theorem pow_mul_le {j b : Nat} (h : 2 ^ j ≤ b) (k : Nat) :
    2 ^ (j * k) ≤ b ^ k := by
  rw [Nat.pow_mul]
  exact Nat.pow_le_pow_left h k

theorem ten_pow_le {j n : Nat} (h : j ≤ 2 * n) :
    10 ^ j ≤ 5 ^ (j + n) := by
  have hbits : 2 ^ j ≤ 5 ^ n := calc
    2 ^ j ≤ 2 ^ (2 * n) := Nat.pow_le_pow_right (by decide) h
    _ ≤ 5 ^ n := pow_mul_le (by decide) n
  rw [ten_pow, Nat.pow_add]
  exact Nat.mul_le_mul_left _ hbits

theorem reads_exact_fraction {m k : Nat} (hm : m ≠ 0)
    (h : (Binary64.finite false m (-k)).IsLowest) :
    (Decimal.mk (m * 5 ^ k) (-k)).Reads m (-k) := by
  have hratio := Binary64.ofRatio_ratio hm h
  rcases h with ⟨hfits, hleast, -, -⟩
  have hfive : 0 < 5 ^ k := Nat.pow_pos (by decide)
  have hdigits : m * 5 ^ k ≠ 0 := Nat.mul_ne_zero hm (Nat.ne_of_gt hfive)
  have hk : k ≤ 1074 := by
    simp only [Binary64.leastExponent] at hleast
    omega
  have hsmall : k ≤ (Nat.toDigits 10 (m * 5 ^ k)).length + 400 := by
    by_cases hk' : k ≤ 400
    · omega
    · obtain ⟨j, rfl⟩ : exists j, k = j + 401 := ⟨k - 401, by omega⟩
      have hpow : 10 ^ j ≤ 5 ^ (j + 401) := ten_pow_le (by omega)
      have hlt := lt_length_toDigits hdigits
        (Nat.le_trans hpow (Nat.le_mul_of_pos_left _ (Nat.pos_of_ne_zero hm)))
      omega
  have hlarge : (Nat.toDigits 10 (m * 5 ^ k)).length ≤ k + 400 := by
    apply length_toDigits_le hdigits
    calc m * 5 ^ k
        < 2 ^ 53 * 5 ^ k := Nat.mul_lt_mul_of_pos_right hfits hfive
      _ ≤ 10 ^ 100 * 10 ^ k := Nat.mul_le_mul (by decide) (Nat.pow_le_pow_left (by decide) k)
      _ = 10 ^ (100 + k) := (Nat.pow_add 10 100 k).symm
      _ ≤ 10 ^ (k + 400) := Nat.pow_le_pow_right (by decide) (by omega)
  rw [Reads, Decimal.toBinary64,
    Binary64.ofScientific_eq hdigits false (-(k : Int)) (by omega) (by omega), ← hratio]
  have hone : (-(k : Int)).toNat = 0 := by omega
  have hpow : forall b : Nat, 0 < b -> b ^ (- -(k : Int)).toNat ≠ 0 :=
    fun b hb => Nat.ne_of_gt (Nat.pow_pos hb)
  simp only [hone, Nat.pow_zero, Nat.mul_one]
  refine Binary64.ofRatio_congr hdigits (hpow 10 (by decide)) hm (hpow 2 (by decide)) ?_ false
  rw [show (- -(k : Int)).toNat = k by omega, ten_pow, Nat.mul_assoc]

theorem reads_exact_whole {m k : Nat} (hm : m ≠ 0)
    (h : (Binary64.finite false m k).IsLowest) :
    (Decimal.mk (m * 2 ^ k) 0).Reads m k := by
  have hratio := Binary64.ofRatio_ratio hm h
  rcases h with ⟨hfits, -, hgreatest, -⟩
  have htwo : 0 < 2 ^ k := Nat.two_pow_pos k
  have hdigits : m * 2 ^ k ≠ 0 := Nat.mul_ne_zero hm (Nat.ne_of_gt htwo)
  have hlarge : (Nat.toDigits 10 (m * 2 ^ k)).length ≤ 400 := by
    apply length_toDigits_le hdigits
    calc m * 2 ^ k
        < 2 ^ 53 * 2 ^ k := Nat.mul_lt_mul_of_pos_right hfits htwo
      _ = 2 ^ (53 + k) := (Nat.pow_add 2 53 k).symm
      _ ≤ 2 ^ (3 * 400) := by
          apply Nat.pow_le_pow_right (by decide)
          simp only [Binary64.greatestExponent] at hgreatest
          omega
      _ ≤ 10 ^ 400 := pow_mul_le (j := 3) (by decide) 400
  rw [Reads, Decimal.toBinary64,
    Binary64.ofScientific_eq hdigits false 0 (by omega) (by omega), ← hratio]
  simp

theorem reads_exact {m : Nat} {e : Int} (hm : m ≠ 0)
    (h : (Binary64.finite false m e).IsLowest) :
    (exact m e).Reads m e := by
  unfold exact
  split
  · rename_i he
    obtain ⟨k, rfl⟩ : exists k : Nat, e = -k := ⟨(-e).toNat, by omega⟩
    have hread := reads_exact_fraction hm h
    rw [show (- -(k : Int)).toNat = k by omega]
    exact hread
  · rename_i he
    obtain ⟨k, rfl⟩ : exists k : Nat, e = k := ⟨e.toNat, by omega⟩
    exact reads_exact_whole hm h

theorem reads_shortest {m : Nat} {e : Int} (hm : m ≠ 0)
    (h : (Binary64.finite false m e).IsLowest) :
    (shortest m e).Reads m e := by
  unfold shortest
  split
  · rename_i d hd
    rcases List.exists_of_findSome?_eq_some hd with ⟨n, -, hn⟩
    have hread := List.find?_some hn
    rw [beq_iff_eq] at hread
    exact Reads.trim hread 17
  · exact reads_exact hm h

end Decimal
end Clippings
