import Clippings.Path

/-!
# Joining paths

Joining is associative, octet for octet.  A path joined with a name has the parts of the path and
the name, whichever way the path is spelt.
-/

namespace Clippings
namespace Path

/-!
## Parts
-/

theorem parts_ne_nil (octets : List UInt8) :
    parts octets ≠ [] := by
  cases octets with
  | nil => simp [parts]
  | cons b rest =>
      rw [parts]
      split
      · simp
      · split <;> simp

theorem parts_cons_of_ne {b : UInt8} {rest part : List UInt8} {more : List (List UInt8)}
    (hb : b ≠ slash) (h : parts rest = part :: more) :
    parts (b :: rest) = (b :: part) :: more := by
  rw [parts, if_neg (by simpa using hb), h]

theorem parts_append_slash (xs ys : List UInt8) :
    parts (xs ++ slash :: ys) = parts xs ++ parts ys := by
  induction xs with
  | nil => rfl
  | cons b rest ih =>
      by_cases hb : b = slash
      · subst hb
        simp only [List.cons_append, parts, BEq.rfl, if_true, ih]
      · cases h : parts rest with
        | nil => exact absurd h (parts_ne_nil rest)
        | cons part more =>
            rw [h, List.cons_append] at ih
            rw [List.cons_append, parts_cons_of_ne hb ih, parts_cons_of_ne hb h, List.cons_append]

theorem parts_of_no_slash {name : List UInt8} (h : slash ∉ name) :
    parts name = [name] := by
  induction name with
  | nil => rfl
  | cons b rest ih =>
      have hb : b ≠ slash := by
        intro heq
        subst heq
        exact h List.mem_cons_self
      exact parts_cons_of_ne hb (ih fun hrest => h (List.mem_cons_of_mem b hrest))

theorem parts_replicate_slash (n : Nat) :
    parts (List.replicate n slash) = List.replicate (n + 1) [] := by
  induction n with
  | zero => rfl
  | succ n ih =>
      rw [List.replicate_succ, parts, ih]
      rfl

theorem mem_parts {octets part : List UInt8} {b : UInt8} (hpart : part ∈ parts octets)
    (hb : b ∈ part) :
    b ∈ octets ∧ b ≠ slash := by
  induction octets generalizing part with
  | nil =>
      simp only [parts, List.mem_singleton] at hpart
      subst hpart
      cases hb
  | cons c rest ih =>
      rw [parts] at hpart
      split at hpart
      · rcases List.mem_cons.mp hpart with rfl | hpart
        · cases hb
        · exact ⟨List.mem_cons_of_mem c (ih hpart hb).1, (ih hpart hb).2⟩
      · rename_i hc
        have hc : c ≠ slash := by simpa using hc
        split at hpart
        · simp only [List.mem_singleton] at hpart
          subst hpart
          rw [List.mem_singleton] at hb
          subst hb
          exact ⟨List.mem_cons_self, hc⟩
        · rename_i first more hparts
          rcases List.mem_cons.mp hpart with rfl | hpart
          · rcases List.mem_cons.mp hb with rfl | hb
            · exact ⟨List.mem_cons_self, hc⟩
            · have := ih (hparts ▸ List.mem_cons_self) hb
              exact ⟨List.mem_cons_of_mem c this.1, this.2⟩
          · have := ih (hparts ▸ List.mem_cons_of_mem first hpart) hb
            exact ⟨List.mem_cons_of_mem c this.1, this.2⟩

/-!
## Joined paths
-/

theorem withSlash_append (xs : List UInt8) {ys : List UInt8} (h : ys ≠ []) :
    withSlash (xs ++ ys) = xs ++ withSlash ys := by
  have hlast : (xs ++ ys).getLast? = ys.getLast? := by
    rw [List.getLast?_append, List.getLast?_eq_some_getLast h, Option.some_or]
  have hempty : (xs ++ ys).isEmpty = ys.isEmpty := by
    rw [List.isEmpty_eq_false_iff.mpr h,
      List.isEmpty_eq_false_iff.mpr (List.append_ne_nil_of_right_ne_nil xs h)]
  unfold withSlash
  rw [hlast, hempty]
  split
  · rfl
  · exact List.append_assoc xs ys [slash]

theorem withSlash_withSlash (xs : List UInt8) :
    withSlash (withSlash xs) = withSlash xs := by
  by_cases h : (xs.isEmpty || xs.getLast? == some slash) = true
  · have hsame : withSlash xs = xs := if_pos h
    rw [hsame, hsame]
  · rw [show withSlash xs = xs ++ [slash] from if_neg h,
      withSlash_append xs (List.cons_ne_nil slash [])]
    rfl

theorem join_of_isAbsolute {p q : Path} (h : q.isAbsolute = true) :
    p.join q = q :=
  if_pos h

theorem join_of_relative {p q : Path} (h : q.isAbsolute = false) :
    p.join q = ⟨withSlash p.octets ++ q.octets⟩ := by
  rw [join, h]
  rfl

theorem isAbsolute_join_eq (p q : Path) :
    (p.join q).isAbsolute = (q.isAbsolute || p.isAbsolute) := by
  cases hq : q.isAbsolute with
  | true => rw [join_of_isAbsolute hq, hq, Bool.true_or]
  | false =>
      rw [join_of_relative hq, Bool.false_or]
      rcases p with ⟨_ | ⟨b, rest⟩⟩
      · exact hq
      · have hhead : (withSlash (b :: rest) ++ q.octets).head? = some b := by
          unfold withSlash
          split <;> rfl
        rw [isAbsolute, hhead]
        rfl

/-- Paths are joined in one order, whichever pair is joined first. -/
theorem join_join (p q r : Path) :
    p.join (q.join r) = (p.join q).join r := by
  cases hr : r.isAbsolute with
  | true => rw [join_of_isAbsolute hr, join_of_isAbsolute hr, join_of_isAbsolute hr]
  | false =>
      have hqr : (q.join r).isAbsolute = q.isAbsolute := by
        rw [isAbsolute_join_eq, hr, Bool.false_or]
      cases hq : q.isAbsolute with
      | true => rw [join_of_isAbsolute (hqr.trans hq), join_of_isAbsolute hq]
      | false =>
          have hslash : withSlash (withSlash p.octets ++ q.octets) =
              withSlash p.octets ++ withSlash q.octets := by
            by_cases hempty : q.octets = []
            · rw [hempty, List.append_nil, withSlash_withSlash]
              exact (List.append_nil _).symm
            · exact withSlash_append _ hempty
          rw [join_of_relative (hqr.trans hq), join_of_relative hr, join_of_relative hr,
            join_of_relative hq, hslash, List.append_assoc]

theorem empty_join (p : Path) :
    join ⟨[]⟩ p = p := by
  unfold join
  split <;> rfl

theorem isAbsolute_of_no_slash {name : List UInt8} (h : slash ∉ name) :
    isAbsolute ⟨name⟩ = false := by
  cases name with
  | nil => rfl
  | cons b rest =>
      have hb : b ≠ slash := by
        intro heq
        subst heq
        exact h List.mem_cons_self
      simpa [isAbsolute] using hb

theorem octets_join {p : Path} {name : List UInt8} (h : slash ∉ name) :
    (p.join ⟨name⟩).octets = withSlash p.octets ++ name := by
  rw [join_of_relative (isAbsolute_of_no_slash h)]

/-- A path joined with a name has the parts of the path without those that its last slash adds, and
then the name, whatever the name is. -/
theorem exists_parts_join (p : Path) :
    exists front back, parts p.octets = front ++ back ∧ (back = [] ∨ back = [[]]) ∧
      forall {name : List UInt8}, slash ∉ name ->
        parts (p.join ⟨name⟩).octets = front ++ [name] := by
  by_cases hempty : p.octets = []
  · refine ⟨[], [[]], ?_, Or.inr rfl, ?_⟩
    · rw [hempty]
      rfl
    · intro name h
      rw [octets_join h, hempty]
      exact parts_of_no_slash h
  · by_cases hlast : p.octets.getLast? = some slash
    · rcases List.getLast?_eq_some_iff.mp hlast with ⟨front, hfront⟩
      refine ⟨parts front, [[]], ?_, Or.inr rfl, ?_⟩
      · rw [hfront]
        exact parts_append_slash front []
      · intro name h
        rw [octets_join h, withSlash, if_pos (by simp [hlast]), hfront, List.append_assoc]
        exact (parts_append_slash front name).trans (by rw [parts_of_no_slash h])
    · refine ⟨parts p.octets, [], (List.append_nil _).symm, Or.inl rfl, ?_⟩
      intro name h
      rw [octets_join h, withSlash, if_neg (by simp [hempty, hlast]), List.append_assoc]
      exact (parts_append_slash p.octets name).trans (by rw [parts_of_no_slash h])

theorem parts_join (p : Path) {name : List UInt8} (h : slash ∉ name) :
    exists front back, parts p.octets = front ++ back ∧ (back = [] ∨ back = [[]]) ∧
      parts (p.join ⟨name⟩).octets = front ++ [name] := by
  rcases exists_parts_join p with ⟨front, back, hparts, hback, hjoined⟩
  exact ⟨front, back, hparts, hback, hjoined h⟩

theorem isAbsolute_join (p : Path) {name : List UInt8} (h : slash ∉ name) :
    (p.join ⟨name⟩).isAbsolute = p.isAbsolute := by
  rw [isAbsolute_join_eq, isAbsolute_of_no_slash h, Bool.false_or]

theorem mem_octets_join {p : Path} {name : List UInt8} (h : slash ∉ name) {b : UInt8}
    (hb : b ∈ (p.join ⟨name⟩).octets) :
    b ∈ p.octets ∨ b = slash ∨ b ∈ name := by
  rw [octets_join h, List.mem_append] at hb
  rcases hb with hb | hb
  · unfold withSlash at hb
    split at hb
    · exact Or.inl hb
    · rcases List.mem_append.mp hb with hb | hb
      · exact Or.inl hb
      · exact Or.inr (Or.inl (List.mem_singleton.mp hb))
  · exact Or.inr (Or.inr hb)

/-!
## File names
-/

theorem inner_append (xs ys : List (List UInt8)) :
    inner (xs ++ ys) = inner xs ++ inner ys := by
  simp [inner]

def leading (absolute : Bool) (front : List (List UInt8)) : List Component :=
  if absolute then .root :: inner front
  else
    match front with
    | [] => []
    | first :: rest => (if first == dot then [.here] else inner [first]) ++ inner rest

theorem components_eq_leading (p : Path) :
    p.components = leading p.isAbsolute (parts p.octets) := by
  unfold components leading
  cases parts p.octets <;> rfl

theorem leading_append (absolute : Bool) {front back : List (List UInt8)}
    (h : front ≠ [] ∨ back.head? ≠ some dot) :
    leading absolute (front ++ back) = leading absolute front ++ inner back := by
  unfold leading
  cases absolute with
  | true => rw [if_pos rfl, if_pos rfl, inner_append, List.cons_append]
  | false =>
      rw [if_neg Bool.false_ne_true, if_neg Bool.false_ne_true]
      cases front with
      | cons first rest => simp only [List.cons_append, inner_append, List.append_assoc]
      | nil =>
          cases back with
          | nil => rfl
          | cons first rest =>
              have hdot : (first == dot) = false := by simpa using h
              simp only [List.nil_append, hdot, Bool.false_eq_true, if_false]
              rw [← inner_append, List.singleton_append]

def IsIdle (part : List UInt8) : Prop :=
  part = [] ∨ part = dot

theorem inner_of_idle {parts : List (List UInt8)}
    (h : forall part, part ∈ parts -> IsIdle part) :
    inner parts = [] := by
  have hnone : (parts.filter fun part => !part.isEmpty && part != dot) = [] := by
    rw [List.filter_eq_nil_iff]
    intro part hpart
    rcases h part hpart with rfl | rfl <;> decide
  rw [inner, hnone]
  rfl

theorem inner_last {last : List UInt8} {trailing : List (List UInt8)} (hlast : ¬ IsIdle last)
    (htrailing : forall part, part ∈ trailing -> IsIdle part) :
    inner (last :: trailing) = [componentOf last] := by
  have hkept : inner [last] = [componentOf last] := by
    rw [IsIdle, not_or] at hlast
    simp [inner, hlast.1, hlast.2]
  rw [← List.singleton_append, inner_append, hkept, inner_of_idle htrailing, List.append_nil]

theorem components_of_last {p : Path} {front trailing : List (List UInt8)} {last : List UInt8}
    (hparts : parts p.octets = front ++ last :: trailing) (hlast : ¬ IsIdle last)
    (htrailing : forall part, part ∈ trailing -> IsIdle part) :
    p.components = leading p.isAbsolute front ++ [componentOf last] := by
  have hdot : (last :: trailing).head? ≠ some dot := by
    simpa using fun h => hlast (Or.inr h)
  rw [components_eq_leading, hparts, leading_append _ (Or.inr hdot), inner_last hlast htrailing]

theorem componentOf_name {name : List UInt8} (h : name ≠ dotDot) :
    componentOf name = .name name := by
  rw [componentOf, if_neg (by simpa using h)]

theorem components_of_parts {p : Path} {front : List (List UInt8)} {name : List UInt8}
    (hparts : parts p.octets = front ++ [name]) (h₁ : name ≠ []) (h₂ : name ≠ dot)
    (h₃ : name ≠ dotDot) :
    p.components = leading p.isAbsolute front ++ [.name name] := by
  rw [components_of_last hparts (by simp [IsIdle, h₁, h₂]) (by simp), componentOf_name h₃]

theorem fileName?_join (p : Path) {name : List UInt8} (h : slash ∉ name) (h₁ : name ≠ [])
    (h₂ : name ≠ dot) (h₃ : name ≠ dotDot) :
    (p.join ⟨name⟩).fileName? = some name := by
  rcases parts_join p h with ⟨front, back, -, -, hparts⟩
  rw [fileName?, components_of_parts hparts h₁ h₂ h₃, List.getLast?_concat]

theorem mem_of_name_mem_inner {parts : List (List UInt8)} {name : List UInt8}
    (h : .name name ∈ inner parts) :
    name ∈ parts ∧ name ≠ [] ∧ name ≠ dot ∧ name ≠ dotDot := by
  rcases List.mem_map.mp h with ⟨part, hpart, heq⟩
  rcases List.mem_filter.mp hpart with ⟨hmem, htests⟩
  have hordinary : part ≠ [] ∧ part ≠ dot := by simpa using htests
  unfold componentOf at heq
  split at heq
  · cases heq
  · rename_i hup
    cases heq
    exact ⟨hmem, hordinary.1, hordinary.2, by simpa using hup⟩

theorem mem_parts_of_fileName? {p : Path} {name : List UInt8} (h : p.fileName? = some name) :
    name ∈ parts p.octets ∧ name ≠ [] ∧ name ≠ dot ∧ name ≠ dotDot := by
  have hmem : .name name ∈ p.components := by
    unfold fileName? at h
    split at h
    · rename_i hlast
      cases h
      exact List.mem_of_getLast? hlast
    · cases h
  unfold components at hmem
  split at hmem
  · rcases List.mem_cons.mp hmem with hroot | hmem
    · cases hroot
    · exact mem_of_name_mem_inner hmem
  · cases hparts : parts p.octets with
    | nil => exact absurd hparts (parts_ne_nil p.octets)
    | cons first rest =>
        rw [hparts] at hmem
        rcases List.mem_append.mp hmem with hfirst | hrest
        · split at hfirst
          · cases List.mem_singleton.mp hfirst
          · rcases mem_of_name_mem_inner hfirst with ⟨hname, hordinary⟩
            rw [List.mem_singleton.mp hname] at hordinary ⊢
            exact ⟨List.mem_cons_self, hordinary⟩
        · rcases mem_of_name_mem_inner hrest with ⟨hname, hordinary⟩
          exact ⟨List.mem_cons_of_mem first hname, hordinary⟩

end Path
end Clippings
