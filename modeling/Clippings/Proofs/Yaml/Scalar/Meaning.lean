import Clippings.Proofs.Yaml.Scalar.Style
import Clippings.Yaml.Resolution

/-!
# What written numbers and words mean

The digits of an integer are plain text that means the integer.
-/

namespace Clippings
namespace Yaml

/-!
## Digits
-/

namespace Meaning

theorem isDigit_of_mem_digits {n : Nat} {c : Char} (h : c ∈ Nat.toDigits 10 n) :
    c.isDigit = true :=
  Nat.isDigit_of_mem_toDigits (by decide) (by decide) h

theorem digits_zero {n : Nat} {rest : List Char} (h : Nat.toDigits 10 n = '0' :: rest) :
    rest = [] := by
  induction n using Nat.strongRecOn generalizing rest with
  | ind n ih =>
      rw [Nat.toDigits_eq_if (by decide)] at h
      split at h
      · injection h with _ hrest
        exact hrest.symm
      · rename_i hn
        cases hfront : Nat.toDigits 10 (n / 10) with
        | nil => exact absurd hfront Nat.toDigits_ne_nil
        | cons c front =>
            rw [hfront] at h
            injection h with hc _
            subst hc
            have hnil := ih (n / 10) (by omega) hfront
            have hvalue := Nat.ofDigitChars_ten_toDigits (n := n / 10)
            rw [hfront, hnil] at hvalue
            have hzero : n / 10 = 0 := hvalue.symm
            omega

theorem digit?_of_isDigit {c : Char} (h : c.isDigit = true) :
    digit? 10 c = some (c.toNat - '0'.toNat) := by
  have hrange : c.toNat ≤ 57 := by
    simp only [Char.isDigit, Bool.and_eq_true, decide_eq_true_eq] at h
    exact UInt32.le_iff_toNat_le.mp h.2
  have hlt : c.toNat - 48 < 10 := by omega
  rw [digit?, Character.hexValue?, if_pos h]
  simp [Option.filter, hlt]

theorem foldl_digits {cs : List Char} (h : forall c, c ∈ cs -> c.isDigit = true) (acc : Nat) :
    cs.foldl (fun n? c => n?.bind fun n => (digit? 10 c).map (n * 10 + ·)) (some acc) =
      some (Nat.ofDigitChars 10 cs acc) := by
  induction cs generalizing acc with
  | nil => simp
  | cons c cs ih =>
      rw [List.foldl_cons, Option.bind_some, digit?_of_isDigit (h c List.mem_cons_self),
        Option.map_some, ih (fun d hd => h d (List.mem_cons_of_mem c hd)), Nat.ofDigitChars_cons,
        Nat.mul_comm]

theorem natural?_digits (n : Nat) :
    natural? 10 (Nat.toDigits 10 n) = some n := by
  have hne : (Nat.toDigits 10 n).isEmpty = false := by
    simp [List.isEmpty_eq_false_iff]
  rw [natural?, hne, foldl_digits (fun c => isDigit_of_mem_digits), Nat.ofDigitChars_ten_toDigits]
  rfl

theorem unsigned_of_isDigit {cs : List Char} (h : forall c, c ∈ cs -> c.isDigit = true) :
    unsigned cs = cs := by
  unfold unsigned
  split
  · cases h '+' List.mem_cons_self
  · cases h '-' List.mem_cons_self
  · rfl

theorem isZeroPadded_digits (n : Nat) :
    isZeroPadded (Nat.toDigits 10 n) = false := by
  rw [isZeroPadded, unsigned_of_isDigit (fun c => isDigit_of_mem_digits)]
  split
  · rename_i heq
    cases digits_zero heq
  · rfl

theorem magnitude?_digits (n : Nat) :
    magnitude? (Nat.toDigits 10 n) = some n := by
  have hsign : forall (c d : Char) (rest : List Char), d.isDigit = false ->
      Nat.toDigits 10 n ≠ c :: d :: rest := by
    intro c d rest hd heq
    have := isDigit_of_mem_digits (n := n) (c := d) (by simp [heq])
    rw [hd] at this
    cases this
  unfold magnitude?
  split
  · rename_i heq
    exact absurd heq (hsign _ _ _ (by decide))
  · rename_i heq
    exact absurd heq (hsign _ _ _ (by decide))
  · rename_i heq
    exact absurd heq (hsign _ _ _ (by decide))
  · rw [isZeroPadded_digits, if_neg Bool.false_ne_true, natural?_digits]

theorem integer_text (i : Int) :
    (toString i).toList = Nat.toDigits 10 i.toNat ∧ 0 ≤ i ∨
      (toString i).toList = '-' :: Nat.toDigits 10 (-i).toNat ∧ i < 0 := by
  rw [Int.toString_eq_repr, Int.repr_eq_if]
  split
  · exact Or.inl ⟨Nat.toList_repr, by assumption⟩
  · refine Or.inr ⟨?_, by omega⟩
    rw [String.toList_append, Nat.toList_repr]
    rfl

theorem integer?_text (i : Int) :
    integer? (toString i).toList = some i := by
  rcases integer_text i with ⟨htext, hi⟩ | ⟨htext, hi⟩
  · rw [htext]
    have hdigit := fun c => isDigit_of_mem_digits (n := i.toNat) (c := c)
    unfold integer?
    split
    · rename_i heq
      cases hdigit '-' (by simp [heq])
    · rename_i heq
      cases hdigit '+' (by simp [heq])
    · rw [magnitude?_digits, Option.map_some]
      exact congrArg some (Int.toNat_of_nonneg hi)
  · rw [htext, integer?, magnitude?_digits]
    change some (-((-i).toNat : Int)) = some i
    congr 1
    omega

def isDecimalChar (c : Char) : Bool :=
  c.isDigit || c ∈ ['.', 'e', '-']

theorem isDecimalChar_of_isDigit {c : Char} (h : c.isDigit = true) :
    isDecimalChar c = true := by
  rw [isDecimalChar, h]
  rfl

def startsNumber : List Char -> Bool
  | [] => false
  | c :: rest => c.isDigit || (c == '-' && rest.head?.any Char.isDigit)

def IsNumeral : List Char -> Prop
  | [] => False
  | c :: rest =>
    (c.isDigit = true ∨ c = '-' ∧ rest ≠ []) ∧ forall d, d ∈ rest -> d.isDigit = true

theorem isNumeral_text (i : Int) :
    IsNumeral (toString i).toList := by
  have hdigits : forall n c, c ∈ Nat.toDigits 10 n -> c.isDigit = true :=
    fun n c => isDigit_of_mem_digits
  rcases integer_text i with ⟨htext, -⟩ | ⟨htext, -⟩
  · rw [htext]
    cases hcs : Nat.toDigits 10 i.toNat with
    | nil => exact absurd hcs Nat.toDigits_ne_nil
    | cons c cs =>
        have hmem := hdigits i.toNat
        rw [hcs] at hmem
        exact ⟨Or.inl (hmem c List.mem_cons_self), fun d hd => hmem d (List.mem_cons_of_mem c hd)⟩
  · rw [htext]
    exact ⟨Or.inr ⟨rfl, Nat.toDigits_ne_nil⟩, hdigits _⟩

theorem ne_nil_of_isNumeral {s : List Char} (h : IsNumeral s) :
    s ≠ [] := by
  intro hs
  rw [hs] at h
  exact h

theorem not_mem_of_isNumeral {s : List Char} (h : IsNumeral s) {c : Char} (hc : c.isDigit = false)
    (hminus : c ≠ '-') :
    c ∉ s := by
  intro hmem
  cases s with
  | nil => cases hmem
  | cons d rest =>
      rcases List.mem_cons.mp hmem with rfl | hmem
      · rcases h.1 with hd | ⟨hd, -⟩
        · rw [hc] at hd
          cases hd
        · exact hminus hd
      · have hd := h.2 c hmem
        rw [hc] at hd
        cases hd

theorem isDecimalChar_of_mem {s : List Char} (h : IsNumeral s) {c : Char} (hc : c ∈ s) :
    isDecimalChar c = true := by
  by_cases hdigit : c.isDigit = true
  · exact isDecimalChar_of_isDigit hdigit
  · by_cases hminus : c = '-'
    · rw [hminus]
      rfl
    · exact absurd hc (not_mem_of_isNumeral h (by simpa using hdigit) hminus)

section Words

variable {s : List Char} (h : forall c, c ∈ s -> isDecimalChar c = true)
include h

theorem not_mem_words {words : List (List Char)}
    (hwords : words.all (fun word => word.any fun c => !isDecimalChar c) = true) :
    s ∉ words := by
  intro hs
  have hword := List.all_eq_true.mp hwords s hs
  rcases List.any_eq_true.mp hword with ⟨c, hc, hchar⟩
  rw [h c hc] at hchar
  cases hchar

theorem isNullWord_of_decimal :
    isNullWord s = false :=
  decide_eq_false (not_mem_words h rfl)

theorem bool?_of_decimal :
    bool? s = none := by
  rw [bool?, if_neg (not_mem_words h rfl), if_neg (not_mem_words h rfl)]

theorem isNanWord_of_decimal :
    isNanWord s = false :=
  decide_eq_false (not_mem_words h rfl)

theorem isInfinityWord_of_decimal :
    isInfinityWord s = false :=
  decide_eq_false (not_mem_words h rfl)

end Words

/-- An integer that is not too wide is what its text means. -/
theorem ofPlain_integer {i : Int} (h : -Int.pow 2 63 ≤ i) (h' : i < Int.pow 2 64) :
    ofPlain (toString i).toList = .int i := by
  have hint : int? (toString i).toList = some (.int i) := by
    rw [int?, integer?_text]
    simp only
    rw [decide_eq_true h, decide_eq_true h']
    rfl
  have hnumeral := isNumeral_text i
  have hempty : (toString i).toList.isEmpty = false :=
    List.isEmpty_eq_false_iff.mpr (ne_nil_of_isNumeral hnumeral)
  have hchars : forall c, c ∈ (toString i).toList -> isDecimalChar c = true :=
    fun c => isDecimalChar_of_mem hnumeral
  rw [ofPlain, hempty, isNullWord_of_decimal hchars, bool?_of_decimal hchars, hint]
  rfl

end Meaning

/-!
## Plain text
-/

namespace Style

theorem hasIndicator_of_not_mem {s : List Char} (hcolon : ':' ∉ s) (hhash : '#' ∉ s) :
    hasIndicator s = false := by
  induction s with
  | nil => rfl
  | cons a s ih =>
      rw [List.mem_cons, not_or] at hcolon hhash
      cases s with
      | nil => rfl
      | cons b s =>
          have hb : (b == ':') = false := by
            rw [beq_eq_false_iff_ne]
            intro heq
            subst heq
            exact hcolon.2 List.mem_cons_self
          have hb' : (b == '#') = false := by
            rw [beq_eq_false_iff_ne]
            intro heq
            subst heq
            exact hhash.2 List.mem_cons_self
          rw [hasIndicator, hb, hb', ih hcolon.2 hhash.2]
          rfl

theorem printable_of_isDecimalChar {c : Char} (h : Meaning.isDecimalChar c = true) :
    Character.isPrintable c = true ∧ Character.isGap c = false ∧ isLoose c = false := by
  rw [Meaning.isDecimalChar, Bool.or_eq_true, decide_eq_true_eq] at h
  rcases h with h | h
  · have hne : forall d : Char, d.isDigit = false -> c ≠ d := by
      rintro d hd rfl
      rw [h] at hd
      cases hd
    have hrange : 48 ≤ c.toNat ∧ c.toNat ≤ 57 := by
      simp only [Char.isDigit, Bool.and_eq_true, decide_eq_true_eq] at h
      exact ⟨UInt32.le_iff_toNat_le.mp h.1, UInt32.le_iff_toNat_le.mp h.2⟩
    have hprint : (0x20 ≤ c.toNat && c.toNat ≤ 0x7e) = true := by
      simp only [Bool.and_eq_true, decide_eq_true_eq]
      omega
    have hbreak : Character.isBreak c = false := by
      simp only [Character.isBreak, Bool.or_eq_false_iff, beq_eq_false_iff_ne]
      exact ⟨⟨⟨⟨hne _ rfl, hne _ rfl⟩, hne _ rfl⟩, hne _ (by decide)⟩, hne _ (by decide)⟩
    have hspace : c ≠ ' ' ∧ c ≠ '\t' := ⟨hne _ rfl, hne _ rfl⟩
    constructor
    · simp [Character.isPrintable, hprint]
    constructor
    · simp [Character.isGap, Character.isBlank, hbreak, hspace.1, hspace.2]
    · simp [isLoose, hbreak, hspace.1]
  · simp only [List.mem_cons, List.not_mem_nil, or_false] at h
    rcases h with rfl | rfl | rfl <;> decide

section Number

variable {s : List Char} (hchars : forall c, c ∈ s -> Meaning.isDecimalChar c = true)
variable (hfirst : Meaning.startsNumber s = true)
include hchars hfirst

theorem startsDocument_number :
    startsDocument s = false := by
  rw [startsDocument, Bool.or_eq_false_iff, beq_eq_false_iff_ne, beq_eq_false_iff_ne]
  match s with
  | [] => cases hfirst
  | [_] => exact ⟨by simp, by simp⟩
  | c :: d :: rest =>
      rw [Meaning.startsNumber, Bool.or_eq_true, Bool.and_eq_true, beq_iff_eq] at hfirst
      constructor
      · intro heq
        injection heq with hc heq
        injection heq with hd _
        subst hc hd
        rcases hfirst with h | ⟨-, h⟩ <;> cases h
      · intro heq
        injection heq with hc _
        subst hc
        rcases hfirst with h | ⟨h, -⟩ <;> cases h

theorem startsOther_number {c : Char} {rest : List Char} (hs : s = c :: rest) :
    startsOther c rest = false := by
  subst hs
  have hc := hchars c List.mem_cons_self
  rw [startsOther, Bool.or_eq_false_iff]
  constructor
  · rw [decide_eq_false_iff_not]
    intro hmem
    have hall : ['#', ',', '[', ']', '{', '}', '&', '*', '!', '|', '>', '\'', '"', '%', '@',
        '\x60'].all (fun d => !Meaning.isDecimalChar d) = true := rfl
    have hnot := List.all_eq_true.mp hall c hmem
    rw [hc] at hnot
    cases hnot
  · rw [Bool.and_eq_false_iff]
    rw [Meaning.startsNumber, Bool.or_eq_true, Bool.and_eq_true] at hfirst
    rcases hfirst with hdigit | ⟨-, hrest⟩
    · refine Or.inl (decide_eq_false ?_)
      intro hmem
      have hall : ['?', ':', '-'].all (fun d => !d.isDigit) = true := rfl
      have hnot := List.all_eq_true.mp hall c hmem
      rw [hdigit] at hnot
      cases hnot
    · -- The digit after the sign is no gap.
      cases rest with
      | nil => cases hrest
      | cons d rest =>
          exact Or.inr (printable_of_isDecimalChar (hchars d (by simp))).2.1

theorem plainAllowed_number :
    plainAllowed s = true := by
  have hnot : forall c, Meaning.isDecimalChar c = false -> c ∉ s := by
    intro c hc hmem
    rw [hchars c hmem] at hc
    cases hc
  have hindicator : hasIndicator s = false := hasIndicator_of_not_mem (hnot _ rfl) (hnot _ rfl)
  have hspecial : hasSpecial s = false := by
    rw [hasSpecial, List.any_eq_false]
    intro d hd
    simp [(printable_of_isDecimalChar (hchars d hd)).1]
  have hline : isMultiline s = false := by
    rw [isMultiline, List.any_eq_false]
    intro d hd hbreak
    have hgap := (printable_of_isDecimalChar (hchars d hd)).2.1
    rw [Character.isGap, hbreak, Bool.or_true] at hgap
    cases hgap
  have hlast : s.getLast?.any isLoose = false := by
    cases hl : s.getLast? with
    | none => rfl
    | some d => exact (printable_of_isDecimalChar (hchars d (List.mem_of_getLast? hl))).2.2
  have hdocument := startsDocument_number hchars hfirst
  cases s with
  | nil => cases hfirst
  | cons c rest =>
      have hother := startsOther_number hchars hfirst rfl
      have hloose := (printable_of_isDecimalChar (hchars c List.mem_cons_self)).2.2
      simp [plainAllowed, hdocument, hother, hindicator, hspecial, hline, hlast, hloose]

end Number

theorem plainAllowed_numeral {s : List Char} (h : Meaning.IsNumeral s) :
    plainAllowed s = true := by
  apply plainAllowed_number
  · intro c hc
    exact Meaning.isDecimalChar_of_mem h hc
  · cases s with
    | nil => cases h
    | cons c rest =>
        rw [Meaning.startsNumber, Bool.or_eq_true, Bool.and_eq_true, beq_iff_eq]
        refine h.1.imp_right (fun hminus => ⟨hminus.1, ?_⟩)
        cases rest with
        | nil => exact absurd rfl hminus.2
        | cons d rest => exact h.2 d List.mem_cons_self

end Style
end Yaml
end Clippings
