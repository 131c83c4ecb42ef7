import Clippings.Text.Utf8

/-!
# Decoding what was encoded

Octets are a text if and only if they are the encoding of its characters: what is encoded is read
back, and no other octets pass for text.
-/

namespace Clippings
namespace Text
namespace Utf8

theorem toNat_octet {n : Nat} (h : n < 256) :
    (UInt8.ofNat n).toNat = n :=
  UInt8.toNat_ofNat_of_lt' h

theorem octet_eq {n : Nat} (b : UInt8) (h : n = b.toNat) :
    UInt8.ofNat n = b := by
  rw [h, UInt8.ofNat_toNat]

theorem char_eq {n : Nat} (c : Char) (h : n = c.toNat) :
    Char.ofNat n = c := by
  rw [h, Char.ofNat_toNat]

theorem toNat_char {n : Nat} (h : n < 0xd800 ∨ 0xdfff < n ∧ n < 0x110000) :
    (Char.ofNat n).toNat = n := by
  have hvalid : n.isValidChar := h
  exact congrArg Char.toNat (dif_pos hvalid)

theorem isTrailing_iff {n : Nat} :
    isTrailing n = true <-> 0x80 ≤ n ∧ n < 0xc0 := by
  simp [isTrailing]

/-- What the bounds of the second octet keep out: longer spellings than needed, surrogates, and
numbers that no character has. -/
theorem secondBounds_iff (first second : Nat) :
    (second < (secondBounds first).1 || (secondBounds first).2 < second) = false <->
      (0x80 ≤ second ∧ second < 0xc0) ∧ (first = 0xe0 -> 0xa0 ≤ second) ∧
        (first = 0xed -> second < 0xa0) ∧ (first = 0xf0 -> 0x90 ≤ second) ∧
        (first = 0xf4 -> second < 0x90) := by
  simp only [Bool.or_eq_false_iff, decide_eq_false_iff_not, Nat.not_lt]
  unfold secondBounds
  simp only [beq_iff_eq]
  split
  · omega
  · split
    · omega
    · split
      · omega
      · split <;> omega

/-!
## One character
-/

theorem head_encodeChar (c : Char) (more : List UInt8) :
    exists first rest, String.utf8EncodeChar c = first :: rest ∧
      head first (rest ++ more) = .char c (rest.length + 1) := by
  have hvalid : c.toNat < 0xd800 ∨ 0xdfff < c.toNat ∧ c.toNat < 0x110000 := c.valid
  have hc : c.val.toNat = c.toNat := rfl
  unfold String.utf8EncodeChar
  simp only [hc]
  split
  · refine ⟨_, _, rfl, ?_⟩
    unfold head
    simp only [toNat_octet (show c.toNat < 256 by omega)]
    rw [if_pos (by omega), char_eq c rfl]
    rfl
  · split
    · refine ⟨_, _, rfl, ?_⟩
      unfold head
      simp only [toNat_octet (show c.toNat / 64 % 32 + 192 < 256 by omega)]
      rw [if_neg (by omega), if_pos (by simp; omega), List.cons_append, twoOctets]
      simp only [toNat_octet (show c.toNat % 64 + 128 < 256 by omega)]
      rw [if_pos (isTrailing_iff.mpr (by omega)), char_eq c (by simp only [low6]; omega)]
      rfl
    · split
      · have hbounds := (secondBounds_iff (c.toNat / 4096 % 16 + 224) (c.toNat / 64 % 64 + 128)).mpr
          (by omega)
        refine ⟨_, _, rfl, ?_⟩
        unfold head
        simp only [toNat_octet (show c.toNat / 4096 % 16 + 224 < 256 by omega)]
        rw [if_neg (by omega), if_neg (by simp), if_pos (by simp; omega), List.cons_append,
          List.cons_append, threeOctets]
        simp only [toNat_octet (show c.toNat % 64 + 128 < 256 by omega),
          toNat_octet (show c.toNat / 64 % 64 + 128 < 256 by omega), hbounds]
        rw [if_neg Bool.false_ne_true, if_pos (isTrailing_iff.mpr (by omega)),
          char_eq c (by simp only [low6]; omega)]
        rfl
      · have hbounds :=
          (secondBounds_iff (c.toNat / 262144 % 8 + 240) (c.toNat / 4096 % 64 + 128)).mpr
            (by omega)
        have hthird : isTrailing (c.toNat / 64 % 64 + 128) = true := isTrailing_iff.mpr (by omega)
        refine ⟨_, _, rfl, ?_⟩
        unfold head
        simp only [toNat_octet (show c.toNat / 262144 % 8 + 240 < 256 by omega)]
        rw [if_neg (by omega), if_neg (by simp), if_neg (by simp), if_pos (by simp; omega),
          List.cons_append, List.cons_append, List.cons_append, fourOctets]
        simp only [toNat_octet (show c.toNat % 64 + 128 < 256 by omega),
          toNat_octet (show c.toNat / 64 % 64 + 128 < 256 by omega),
          toNat_octet (show c.toNat / 4096 % 64 + 128 < 256 by omega), hbounds, hthird]
        rw [if_neg Bool.false_ne_true, if_neg (by simp), if_pos (isTrailing_iff.mpr (by omega)),
          char_eq c (by simp only [low6]; omega)]
        rfl

theorem twoOctets_eq_char {a : Nat} {rest : List UInt8} {c : Char} {width : Nat}
    (h : twoOctets a rest = .char c width) :
    exists second more, rest = second :: more ∧ width = 2 ∧
      c = Char.ofNat (a % 32 * 64 + second.toNat % 64) ∧
      0x80 ≤ second.toNat ∧ second.toNat < 0xc0 := by
  unfold twoOctets at h
  split at h
  · cases h
  · rename_i second more
    split at h
    · rename_i hsecond
      cases h
      exact ⟨second, more, rfl, rfl, rfl, isTrailing_iff.mp hsecond⟩
    · cases h

theorem threeOctets_eq_char {a : Nat} {rest : List UInt8} {c : Char} {width : Nat}
    (h : threeOctets a rest = .char c width) :
    exists second third more, rest = second :: third :: more ∧ width = 3 ∧
      c = Char.ofNat (a % 16 * 4096 + second.toNat % 64 * 64 + third.toNat % 64) ∧
      (second.toNat < (secondBounds a).1 || (secondBounds a).2 < second.toNat) = false ∧
      0x80 ≤ third.toNat ∧ third.toNat < 0xc0 := by
  unfold threeOctets at h
  split at h
  · cases h
  · rename_i second rest
    simp only at h
    split at h
    · cases h
    · rename_i hsecond
      split at h
      · cases h
      · rename_i third more
        split at h
        · rename_i hthird
          cases h
          rw [Bool.not_eq_true] at hsecond
          exact ⟨second, third, more, rfl, rfl, rfl, hsecond, isTrailing_iff.mp hthird⟩
        · cases h

theorem fourOctets_eq_char {a : Nat} {rest : List UInt8} {c : Char} {width : Nat}
    (h : fourOctets a rest = .char c width) :
    exists second third fourth more, rest = second :: third :: fourth :: more ∧ width = 4 ∧
      c = Char.ofNat (a % 8 * 262144 + second.toNat % 64 * 4096 + third.toNat % 64 * 64 +
        fourth.toNat % 64) ∧
      (second.toNat < (secondBounds a).1 || (secondBounds a).2 < second.toNat) = false ∧
      (0x80 ≤ third.toNat ∧ third.toNat < 0xc0) ∧ 0x80 ≤ fourth.toNat ∧ fourth.toNat < 0xc0 := by
  unfold fourOctets at h
  split at h
  · cases h
  · rename_i second rest
    simp only at h
    split at h
    · cases h
    · rename_i hsecond
      split at h
      · cases h
      · rename_i third rest
        split at h
        · cases h
        · rename_i hthird
          split at h
          · cases h
          · rename_i fourth more
            split at h
            · rename_i hfourth
              cases h
              rw [Bool.not_eq_true] at hsecond
              have hthird' := isTrailing_iff.mp (by simpa using hthird)
              have hfourth' := isTrailing_iff.mp hfourth
              exact ⟨second, third, fourth, more, rfl, rfl, rfl, hsecond, hthird', hfourth'⟩
            · cases h

/-- A character that is found in front is spelt by the octets that are taken for it. -/
theorem encodeChar_of_head {first : UInt8} {rest : List UInt8} {c : Char} {width : Nat}
    (h : head first rest = .char c width) :
    String.utf8EncodeChar c = first :: rest.take (width - 1) := by
  have hfirst := first.toNat_lt
  have hc : c.val.toNat = c.toNat := rfl
  unfold head at h
  simp only at h
  unfold String.utf8EncodeChar
  simp only [hc]
  split at h
  · rename_i ha
    cases h
    rw [toNat_char (by omega), if_pos (by omega), octet_eq first rfl]
    rfl
  · split at h
    · rename_i hlow ha
      rcases twoOctets_eq_char h with ⟨second, more, rfl, rfl, rfl, hsecond⟩
      simp only [Bool.and_eq_true, decide_eq_true_eq] at ha
      rw [toNat_char (by omega), if_neg (by omega), if_pos (by omega), octet_eq first (by omega),
        octet_eq second (by omega)]
      rfl
    · split at h
      · rename_i hlow ha₁ ha
        rcases threeOctets_eq_char h with ⟨second, third, more, rfl, rfl, rfl, hsecond, hthird⟩
        rw [secondBounds_iff] at hsecond
        simp only [Bool.and_eq_true, decide_eq_true_eq] at ha
        rw [toNat_char (by omega), if_neg (by omega), if_neg (by omega), if_pos (by omega),
          octet_eq first (by omega), octet_eq second (by omega), octet_eq third (by omega)]
        rfl
      · split at h
        · rename_i hlow ha₁ ha₂ ha
          rcases fourOctets_eq_char h with
            ⟨second, third, fourth, more, rfl, rfl, rfl, hsecond, hthird, hfourth⟩
          rw [secondBounds_iff] at hsecond
          simp only [Bool.and_eq_true, decide_eq_true_eq] at ha
          rw [toNat_char (by omega), if_neg (by omega), if_neg (by omega), if_neg (by omega),
            octet_eq first (by omega), octet_eq second (by omega), octet_eq third (by omega),
            octet_eq fourth (by omega)]
          rfl
        · cases h

/-!
## Texts
-/

theorem encode_cons (c : Char) (cs : List Char) :
    encode (c :: cs) = String.utf8EncodeChar c ++ encode cs := rfl

theorem decodeFrom_encode (offset : Nat) (done cs : List Char) :
    decodeFrom offset done (encode cs) = .ok (done.reverse ++ cs) := by
  induction cs generalizing offset done with
  | nil => simp [encode, decodeFrom]
  | cons c cs ih =>
      rcases head_encodeChar c (encode cs) with ⟨first, rest, hencode, hhead⟩
      rw [encode_cons, hencode, List.cons_append, decodeFrom, hhead]
      simp only [Nat.add_sub_cancel, List.drop_left, ih]
      simp

theorem encode_of_decodeFrom {offset : Nat} {done cs : List Char} {octets : List UInt8}
    (h : decodeFrom offset done octets = .ok cs) :
    exists more, cs = done.reverse ++ more ∧ octets = encode more := by
  fun_induction decodeFrom offset done octets with
  | case1 =>
      cases h
      exact ⟨[], by simp, rfl⟩
  | case2 offset done first rest c width hhead ih =>
      rcases ih h with ⟨more, rfl, hmore⟩
      refine ⟨c :: more, by simp, ?_⟩
      rw [encode_cons, encodeChar_of_head hhead, ← hmore, List.cons_append, List.take_append_drop]
  | case3 => cases h
  | case4 => cases h

theorem decode_eq_ok_iff {octets : List UInt8} {cs : List Char} :
    decode octets = .ok cs <-> octets = encode cs := by
  constructor
  · intro h
    rcases encode_of_decodeFrom h with ⟨more, rfl, hmore⟩
    exact hmore
  · rintro rfl
    exact decodeFrom_encode 0 [] cs

end Utf8
end Text
end Clippings
