import Clippings.Proofs.Decimal.Shortest
import Clippings.Proofs.Yaml.Scalar.Meaning

/-!
# What written floating point numbers mean

A decimal is written with a point, or with an exponent, or with both.  Such a text is no integer,
and the decimal that is read from it is the one that was written up to zeros at the end.
-/

namespace Clippings
namespace Yaml
namespace Meaning

/-!
## Reading decimals
-/

def pointed (fraction : List Char) : List Char :=
  if fraction.isEmpty then [] else '.' :: fraction

theorem natural?_of_digits {s : List Char} (hne : s ≠ [])
    (h : forall c, c ∈ s -> c.isDigit = true) :
    natural? 10 s = some (Nat.ofDigitChars 10 s 0) := by
  rw [natural?, if_neg (by simpa using hne), foldl_digits h]

theorem takeWhile_digits {s : List Char} (h : forall c, c ∈ s -> c.isDigit = true)
    {rest : List Char}
    (hrest : rest.head?.any Char.isDigit = false) :
    (s ++ rest).takeWhile Char.isDigit = s ∧ (s ++ rest).dropWhile Char.isDigit = rest := by
  rw [List.takeWhile_append_of_pos h, List.dropWhile_append_of_pos h]
  cases rest with
  | nil => exact ⟨List.append_nil s, rfl⟩
  | cons c rest =>
      have hc : c.isDigit = false := by simpa using hrest
      simp [hc]

section Decimals

variable {whole fraction : List Char}
variable (hwhole : forall c, c ∈ whole -> c.isDigit = true)
variable (hfraction : forall c, c ∈ fraction -> c.isDigit = true) (hne : whole ≠ [])
include hwhole hfraction hne

theorem natural?_parts :
    natural? 10 (whole ++ fraction) = some (Nat.ofDigitChars 10 (whole ++ fraction) 0) := by
  apply natural?_of_digits (by simp [hne])
  intro c hc
  rcases List.mem_append.mp hc with hc | hc
  · exact hwhole c hc
  · exact hfraction c hc

theorem decimal?_positional :
    decimal? (whole ++ '.' :: fraction) =
      some ⟨Nat.ofDigitChars 10 (whole ++ fraction) 0, -fraction.length⟩ := by
  have hdigits := natural?_parts hwhole hfraction hne
  rcases takeWhile_digits hwhole (show ('.' :: fraction).head?.any Char.isDigit = false from rfl)
    with ⟨htake, hdrop⟩
  rcases takeWhile_digits hfraction (show ([] : List Char).head?.any Char.isDigit = false from rfl)
    with ⟨htake', hdrop'⟩
  rw [List.append_nil] at htake' hdrop'
  unfold decimal?
  simp only [htake, hdrop, htake', hdrop', hdigits]

theorem decimal?_exponent (rest : List Char) :
    decimal? (whole ++ (pointed fraction ++ 'e' :: rest)) =
      (natural? 10 (unsigned rest)).map fun n : Nat =>
        ⟨Nat.ofDigitChars 10 (whole ++ fraction) 0,
          (if rest.head? == some '-' then -1 else 1 : Int) * n - fraction.length⟩ := by
  have hdigits := natural?_parts hwhole hfraction hne
  have hrest : ('e' :: rest).head?.any Char.isDigit = false := rfl
  unfold decimal?
  cases fraction with
  | nil =>
      rcases takeWhile_digits hwhole hrest with ⟨htake, hdrop⟩
      rw [List.append_nil] at hdigits
      cases hn : natural? 10 (unsigned rest) <;> simp [pointed, htake, hdrop, hdigits, hn]
  | cons d fraction =>
      rcases takeWhile_digits hwhole
        (show ('.' :: (d :: fraction ++ 'e' :: rest)).head?.any Char.isDigit = false from rfl)
        with ⟨htake, hdrop⟩
      rcases takeWhile_digits hfraction hrest with ⟨htake', hdrop'⟩
      simp only [pointed, List.isEmpty_cons, Bool.false_eq_true, if_false, List.cons_append]
        at htake hdrop htake' hdrop' ⊢
      cases hn : natural? 10 (unsigned rest) <;> simp [htake, hdrop, htake', hdrop', hdigits, hn]

theorem decimal?_scientific (i : Int) :
    decimal? (whole ++ (pointed fraction ++ 'e' :: (toString i).toList)) =
      some ⟨Nat.ofDigitChars 10 (whole ++ fraction) 0, i - fraction.length⟩ := by
  rw [decimal?_exponent hwhole hfraction hne]
  rcases integer_text i with ⟨htext, hi⟩ | ⟨htext, hi⟩
  · have hdigits := fun c => isDigit_of_mem_digits (n := i.toNat) (c := c)
    have hminus : ((Nat.toDigits 10 i.toNat).head? == some '-') = false := by
      rw [beq_eq_false_iff_ne]
      intro hhead
      cases hdigits '-' (List.mem_of_mem_head? hhead)
    have hvalue : (1 : Int) * i.toNat = i := by omega
    rw [htext]
    simp only [unsigned_of_isDigit hdigits, natural?_digits, hminus, Bool.false_eq_true, if_false]
    exact congrArg (fun i : Int => some (Decimal.mk _ (i - _))) hvalue
  · have hvalue : (-1 : Int) * (-i).toNat = i := by omega
    rw [htext]
    simp only [unsigned, natural?_digits, List.head?_cons, beq_self_eq_true, if_true]
    exact congrArg (fun i : Int => some (Decimal.mk _ (i - _))) hvalue

end Decimals

/-!
## Writing decimals
-/

/-- The text of a decimal.  Zeros may have been added in front of the point. -/
inductive Written (d : Decimal) : List Char -> Prop where
  | positional {whole fraction : List Char} (zeros : Nat) :
      (forall c, c ∈ whole -> c.isDigit = true) -> (forall c, c ∈ fraction -> c.isDigit = true) ->
      whole ≠ [] -> Nat.ofDigitChars 10 (whole ++ fraction) 0 = d.digits * 10 ^ zeros ->
      d.exponent = zeros - fraction.length ->
      Written d (whole ++ '.' :: fraction)
  | scientific {whole fraction : List Char} (i : Int) :
      (forall c, c ∈ whole -> c.isDigit = true) -> (forall c, c ∈ fraction -> c.isDigit = true) ->
      whole ≠ [] -> Nat.ofDigitChars 10 (whole ++ fraction) 0 = d.digits ->
      d.exponent = i - fraction.length ->
      Written d (whole ++ (pointed fraction ++ 'e' :: (toString i).toList))

theorem isDigit_replicate (n : Nat) :
    forall c, c ∈ List.replicate n '0' -> c.isDigit = true := by
  intro c hc
  rw [(List.mem_replicate.mp hc).2]
  rfl

theorem toList_toString (n : Nat) :
    (toString n).toList = Nat.toDigits 10 n := by
  rw [Nat.toString_eq_repr, Nat.toList_repr]

theorem length_toString (n : Nat) :
    (toString n).length = (Nat.toDigits 10 n).length := by
  rw [← String.length_toList, toList_toString]

theorem written_positional (d : Decimal) :
    Written d (Decimal.positional (toString d.digits)
      (((toString d.digits).length : Int) + d.exponent)).toList := by
  have hdigits := fun c => isDigit_of_mem_digits (n := d.digits) (c := c)
  have hvalue := Nat.ofDigitChars_ten_toDigits (n := d.digits)
  have hne : Nat.toDigits 10 d.digits ≠ [] := Nat.toDigits_ne_nil
  unfold Decimal.positional
  simp only [length_toString, Decimal.zeros]
  split
  · rename_i hplaces
    obtain ⟨k, hk⟩ : exists k : Nat, d.exponent = k := ⟨d.exponent.toNat, by omega⟩
    have hzeros : (((Nat.toDigits 10 d.digits).length : Int) + d.exponent).toNat -
        (Nat.toDigits 10 d.digits).length = k := by omega
    have hwritten : Written d
        ((Nat.toDigits 10 d.digits ++ List.replicate k '0') ++ '.' :: ['0']) := by
      refine .positional (k + 1) ?_ (isDigit_replicate 1) (by simp [hne]) ?_ ?_
      · intro c hc
        rcases List.mem_append.mp hc with hc | hc
        · exact hdigits c hc
        · exact isDigit_replicate k c hc
      · rw [List.append_assoc, Nat.ofDigitChars_append, hvalue, ← List.replicate_succ',
          Nat.ofDigitChars_replicate_zero, Nat.mul_comm]
      · simp only [List.length_singleton]
        omega
    simpa [hzeros, toList_toString] using hwritten
  · split
    · rename_i hlong hplaces
      generalize hp : (((Nat.toDigits 10 d.digits).length : Int) + d.exponent).toNat = p
      have hwritten : Written d ((Nat.toDigits 10 d.digits).take p ++
          '.' :: (Nat.toDigits 10 d.digits).drop p) := by
        refine .positional 0 (fun c hc => hdigits c (List.mem_of_mem_take hc))
          (fun c hc => hdigits c (List.mem_of_mem_drop hc)) ?_ ?_ ?_
        · rw [ne_eq, List.take_eq_nil_iff, not_or]
          exact ⟨by omega, hne⟩
        · rw [List.take_append_drop, hvalue, Nat.pow_zero, Nat.mul_one]
        · rw [List.length_drop]
          omega
      simpa [hp, toList_toString] using hwritten
    · rename_i hlong hplaces
      generalize hp : (-(((Nat.toDigits 10 d.digits).length : Int) + d.exponent)).toNat = p
      have hwritten : Written d (['0'] ++ '.' ::
          (List.replicate p '0' ++ Nat.toDigits 10 d.digits)) := by
        refine .positional 0 (isDigit_replicate 1) ?_ (by simp) ?_ ?_
        · intro c hc
          rcases List.mem_append.mp hc with hc | hc
          · exact isDigit_replicate p c hc
          · exact hdigits c hc
        · rw [← List.append_assoc, Nat.ofDigitChars_append, Nat.ofDigitChars_append]
          simp [Nat.ofDigitChars_replicate_zero, hvalue, Nat.ofDigitChars_cons]
        · rw [List.length_append, List.length_replicate]
          omega
      simpa [hp, toList_toString] using hwritten

theorem written_scientific (d : Decimal) :
    Written d (Decimal.scientific (toString d.digits)
      (((toString d.digits).length : Int) + d.exponent)).toList := by
  have hdigits := fun c => isDigit_of_mem_digits (n := d.digits) (c := c)
  have hvalue := Nat.ofDigitChars_ten_toDigits (n := d.digits)
  cases hds : Nat.toDigits 10 d.digits with
  | nil => exact absurd hds Nat.toDigits_ne_nil
  | cons c cs =>
      rw [hds] at hdigits hvalue
      have hwritten : Written d ([c] ++ (pointed cs ++
          'e' :: (toString (((toString d.digits).length : Int) + d.exponent - 1)).toList)) := by
        refine .scientific _ ?_ (fun e he => hdigits e (List.mem_cons_of_mem c he)) (by simp)
          hvalue ?_
        · intro e he
          rw [List.mem_singleton.mp he]
          exact hdigits c List.mem_cons_self
        · rw [length_toString, hds, List.length_cons]
          omega
      unfold Decimal.scientific
      simp only [toList_toString, hds]
      cases cs with
      | nil => simpa [pointed] using hwritten
      | cons e cs => simpa [pointed] using hwritten

theorem written_text (d : Decimal) :
    Written d d.text.toList := by
  unfold Decimal.text
  simp only
  split
  · exact written_positional d
  · exact written_scientific d

theorem Written.decimal? {d : Decimal} {s : List Char} (h : Written d s) :
    exists d', Meaning.decimal? s = some d' ∧
      forall negative, d'.toBinary64 negative = d.toBinary64 negative := by
  cases h with
  | positional zeros hwhole hfraction hne hvalue hexponent =>
      refine ⟨_, decimal?_positional hwhole hfraction hne, ?_⟩
      intro negative
      rw [Decimal.toBinary64, hvalue, Binary64.ofScientific_mul_pow, Decimal.toBinary64, hexponent]
      exact congrArg _ (Int.add_comm _ _)
  | scientific i hwhole hfraction hne hvalue hexponent =>
      refine ⟨_, decimal?_scientific hwhole hfraction hne i, ?_⟩
      intro negative
      rw [Decimal.toBinary64, hvalue, Decimal.toBinary64, hexponent]

/-!
## All together
-/

structure IsDecimal (s : List Char) : Prop where
  chars : forall c, c ∈ s -> isDecimalChar c = true
  first : s.head?.any Char.isDigit = true
  mark : exists c, c ∈ s ∧ c.isDigit = false ∧ digit? 10 c = none

theorem first_append {s rest : List Char} (hne : s ≠ [])
    (h : forall c, c ∈ s -> c.isDigit = true) :
    (s ++ rest).head?.any Char.isDigit = true := by
  cases s with
  | nil => exact absurd rfl hne
  | cons c s => simpa using h c List.mem_cons_self

theorem Written.isDecimal {d : Decimal} {s : List Char} (h : Written d s) :
    IsDecimal s := by
  cases h with
  | positional zeros hwhole hfraction hne hvalue hexponent =>
      refine ⟨?_, first_append hne hwhole, '.', by simp, rfl, rfl⟩
      intro c hc
      rcases List.mem_append.mp hc with hc | hc
      · exact isDecimalChar_of_isDigit (hwhole c hc)
      · rcases List.mem_cons.mp hc with rfl | hc
        · rfl
        · exact isDecimalChar_of_isDigit (hfraction c hc)
  | scientific i hwhole hfraction hne hvalue hexponent =>
      rename_i whole fraction
      refine ⟨?_, first_append hne hwhole, 'e', by simp, rfl, rfl⟩
      have hpointed : forall c, c ∈ pointed fraction -> isDecimalChar c = true := by
        intro c hc
        unfold pointed at hc
        split at hc
        · cases hc
        · rcases List.mem_cons.mp hc with rfl | hc
          · rfl
          · exact isDecimalChar_of_isDigit (hfraction c hc)
      intro c hc
      rcases List.mem_append.mp hc with hc | hc
      · exact isDecimalChar_of_isDigit (hwhole c hc)
      · rcases List.mem_append.mp hc with hc | hc
        · exact hpointed c hc
        · rcases List.mem_cons.mp hc with rfl | hc
          · rfl
          · exact isDecimalChar_of_mem (isNumeral_text i) hc

theorem natural?_of_none {s : List Char} {c : Char} (hc : c ∈ s) (h : digit? 10 c = none) :
    natural? 10 s = none := by
  have hnone : forall cs : List Char,
      cs.foldl (fun n? c => n?.bind fun n => (digit? 10 c).map (n * 10 + ·)) none = none := by
    intro cs
    induction cs with
    | nil => rfl
    | cons d cs ih => exact ih
  have hfold : forall (cs : List Char) (n? : Option Nat), c ∈ cs ->
      cs.foldl (fun n? c => n?.bind fun n => (digit? 10 c).map (n * 10 + ·)) n? = none := by
    intro cs
    induction cs with
    | nil => intro n? hc; cases hc
    | cons d cs ih =>
        intro n? hc
        rw [List.foldl_cons]
        rcases List.mem_cons.mp hc with rfl | hc
        · rw [h]
          cases n? <;> exact hnone cs
        · exact ih _ hc
  unfold natural?
  split
  · rfl
  · exact hfold s _ hc

section IsDecimal

variable {s : List Char} (h : IsDecimal s)
include h

theorem IsDecimal.cons :
    exists c rest, s = c :: rest ∧ c.isDigit = true := by
  have hfirst := h.first
  cases s with
  | nil => cases hfirst
  | cons c rest => exact ⟨c, rest, rfl, by simpa using hfirst⟩

theorem IsDecimal.unsigned_eq :
    unsigned s = s := by
  rcases h.cons with ⟨c, rest, rfl, hc⟩
  unfold unsigned
  split
  · rename_i heq
    cases heq
    cases hc
  · rename_i heq
    cases heq
    cases hc
  · rfl

theorem IsDecimal.isZeroPadded :
    isZeroPadded s = false := by
  rcases h.mark with ⟨c, hc, hdigit, -⟩
  unfold Meaning.isZeroPadded
  rw [h.unsigned_eq]
  split
  · rename_i d rest
    rw [Bool.eq_false_iff]
    intro hall
    rcases List.mem_cons.mp hc with rfl | hc
    · cases hdigit
    · rw [List.all_eq_true.mp hall c hc] at hdigit
      cases hdigit
  · rfl

theorem IsDecimal.magnitude? :
    magnitude? s = none := by
  rcases h.mark with ⟨c, hc, -, hnone⟩
  have hchars := h.chars
  unfold Meaning.magnitude?
  split
  · cases hchars 'x' (by simp)
  · cases hchars 'o' (by simp)
  · cases hchars 'b' (by simp)
  · rw [h.isZeroPadded, if_neg Bool.false_ne_true, natural?_of_none hc hnone]

end IsDecimal

def signed (negative : Bool) (s : List Char) : List Char :=
  if negative then '-' :: s else s

theorem toList_signed (negative : Bool) (s : String) :
    (Binary64.signed negative s).toList = signed negative s.toList := by
  cases negative with
  | false => rfl
  | true =>
      rw [Binary64.signed, if_pos rfl, String.toList_append]
      rfl

section Signed

variable {s : List Char} (h : IsDecimal s) (negative : Bool)
include h

theorem unsigned_signed :
    unsigned (signed negative s) = s := by
  cases negative with
  | false => exact h.unsigned_eq
  | true => rfl

theorem head?_signed :
    ((signed negative s).head? == some '-') = negative := by
  cases negative with
  | true => rfl
  | false =>
      rcases h.cons with ⟨c, rest, rfl, hc⟩
      rw [signed, if_neg Bool.false_ne_true, List.head?_cons, beq_eq_false_iff_ne]
      rintro heq
      cases heq
      cases hc

theorem int?_signed :
    int? (signed negative s) = none := by
  have hinteger : integer? (signed negative s) = none := by
    cases negative with
    | true =>
        rw [signed, if_pos rfl, integer?, h.magnitude?]
        rfl
    | false =>
        rw [signed, if_neg Bool.false_ne_true]
        unfold integer?
        rcases h.cons with ⟨c, rest, rfl, hc⟩
        split
        · rename_i heq
          cases heq
          cases hc
        · rename_i heq
          cases heq
          cases hc
        · rw [h.magnitude?]
          rfl
  rw [int?, hinteger]

theorem isDecimalChar_signed {c : Char} (hc : c ∈ signed negative s) :
    isDecimalChar c = true := by
  cases negative with
  | false => exact h.chars c hc
  | true =>
      rcases List.mem_cons.mp hc with rfl | hc
      · rfl
      · exact h.chars c hc

theorem ofPlain_signed :
    ofPlain (signed negative s) =
      match finite? negative s with
      | some x => .float x
      | none => .str := by
  have hempty : (signed negative s).isEmpty = false := by
    rcases h.cons with ⟨c, rest, rfl, hc⟩
    cases negative <;> rfl
  have hchars : forall c, c ∈ signed negative s -> isDecimalChar c = true :=
    fun c => isDecimalChar_signed h negative
  have hpadded : isZeroPadded (signed negative s) = false := by
    rw [isZeroPadded, unsigned_signed h]
    have hself := h.isZeroPadded
    rw [isZeroPadded, h.unsigned_eq] at hself
    exact hself
  have hfloat : float? (signed negative s) = finite? negative s := by
    rw [float?, isNanWord_of_decimal hchars]
    simp only [unsigned_signed h, isInfinityWord_of_decimal h.chars, head?_signed h,
      Bool.false_eq_true, if_false]
  rw [ofPlain, hempty, isNullWord_of_decimal hchars, bool?_of_decimal hchars, int?_signed h,
    hpadded, hfloat]
  rfl

end Signed

/-- A number in lowest form is what its text means. -/
theorem ofPlain_float {x : Binary64} (h : x.IsLowest) :
    ofPlain x.text.toList = .float x := by
  cases x with
  | nan => rfl
  | infinite negative => cases negative <;> rfl
  | finite negative m e =>
      by_cases hm : m = 0
      · subst hm
        rcases h with ⟨-, -, -, hleast⟩
        obtain rfl : e = Binary64.leastExponent := by
          rcases hleast with hleast | hleast
          · exact hleast
          · cases hleast
        cases negative <;> rfl
      · have hwritten := written_text (Decimal.shortest m e)
        have hreads := Decimal.reads_shortest hm (e := e) h
        rcases hwritten.decimal? with ⟨d, hd, hvalue⟩
        rw [Binary64.text, toList_signed, beq_eq_false_iff_ne.mpr hm, if_neg Bool.false_ne_true,
          ofPlain_signed hwritten.isDecimal, finite?, hd]
        simp only [hvalue, hreads.toBinary64]

end Meaning

theorem Style.plainAllowed_float (x : Binary64) :
    plainAllowed x.text.toList = true ∧ x.text.toList ≠ [] ∧ '\n' ∉ x.text.toList := by
  have hwords : forall s, s ∈ [".nan".toList, ".inf".toList, "-.inf".toList, "0.0".toList,
      "-0.0".toList] -> plainAllowed s = true ∧ s ≠ [] ∧ '\n' ∉ s := by
    decide
  cases x with
  | nan => exact hwords _ (by decide)
  | infinite negative => cases negative <;> exact hwords _ (by decide)
  | finite negative m e =>
      by_cases hm : m = 0
      · subst hm
        cases negative with
        | false => exact hwords "0.0".toList (by decide)
        | true => exact hwords "-0.0".toList (by decide)
      · have hdecimal := (Meaning.written_text (Decimal.shortest m e)).isDecimal
        rw [Binary64.text, Meaning.toList_signed, beq_eq_false_iff_ne.mpr hm,
          if_neg Bool.false_ne_true]
        generalize (Decimal.shortest m e).text.toList = s at *
        have hchars : forall d, d ∈ Meaning.signed negative s -> Meaning.isDecimalChar d = true :=
          fun d => Meaning.isDecimalChar_signed hdecimal negative
        rcases hdecimal.cons with ⟨c, rest, rfl, hc⟩
        have hfirst : Meaning.startsNumber (Meaning.signed negative (c :: rest)) = true := by
          cases negative <;> simp [Meaning.signed, Meaning.startsNumber, hc]
        refine ⟨plainAllowed_number hchars hfirst, ?_, ?_⟩
        · cases negative <;> simp [Meaning.signed]
        · intro hmem
          cases hchars _ hmem

end Yaml
end Clippings
