import Mathlib.Data.List.Forall2
import Mathlib.Data.List.Infix
import Clippings.Proofs.Path.Join
import Clippings.Proofs.Text.Utf8
import Clippings.Pattern

/-!
# The names that a pattern stands for

A pattern stands for every name that can be cut into pieces, one for each of its characters.  The
verdicts on the rests of a name are those of this language, and so is the answer of a search that
goes from left to right and remembers the last star only.
-/

namespace Clippings

theorem Path.text?_eq_some_iff {p : Path} {s : String} :
    p.text? = some s <-> p.octets = Text.Utf8.encode s.toList := by
  unfold text?
  rw [← Text.Utf8.decode_eq_ok_iff]
  cases Text.Utf8.decode p.octets with
  | error f => simp
  | ok cs =>
      simp only [Option.some.injEq, Except.ok.injEq]
      constructor
      · rintro rfl
        exact String.toList_ofList.symm
      · rintro rfl
        exact String.ofList_toList

namespace Pattern

/-!
## The language of a pattern
-/

inductive StandsFor : Char -> List Char -> Prop where
  | any (piece : List Char) : StandsFor '*' piece
  | one (c : Char) : StandsFor '?' [c]
  | itself {c : Char} : c ≠ '*' -> c ≠ '?' -> StandsFor c [c]

/-- The name can be cut along the pattern, and nothing is left over. -/
def Covers (pattern name : List Char) : Prop :=
  exists pieces, List.Forall₂ StandsFor pattern pieces ∧ pieces.flatten = name

theorem covers_nil {name : List Char} :
    Covers [] name <-> name = [] := by
  simp [Covers, eq_comm]

theorem covers_cons {p : Char} {pattern name : List Char} :
    Covers (p :: pattern) name <->
      exists piece rest, StandsFor p piece ∧ Covers pattern rest ∧ piece ++ rest = name := by
  constructor
  · rintro ⟨pieces, hpieces, rfl⟩
    cases hpieces with
    | cons hpiece hrest =>
        rename_i piece rest
        exists piece
        exists rest.flatten
        exact ⟨hpiece, ⟨rest, hrest, rfl⟩, rfl⟩
  · rintro ⟨piece, rest, hpiece, ⟨pieces, hpieces, rfl⟩, rfl⟩
    exact ⟨piece :: pieces, .cons hpiece hpieces, rfl⟩

theorem covers_star {pattern name : List Char} :
    Covers ('*' :: pattern) name <-> exists rest, rest <:+ name ∧ Covers pattern rest := by
  rw [covers_cons]
  constructor
  · rintro ⟨piece, rest, -, hrest, hname⟩
    exact ⟨rest, ⟨piece, hname⟩, hrest⟩
  · rintro ⟨rest, ⟨piece, hname⟩, hrest⟩
    exact ⟨piece, rest, .any piece, hrest, hname⟩

def Passes (p c : Char) : Prop :=
  p = '?' ∨ p = c

theorem standsFor_iff {p : Char} (hp : p ≠ '*') {piece : List Char} :
    StandsFor p piece <-> exists c, Passes p c ∧ piece = [c] := by
  constructor
  · intro h
    cases h with
    | any => exact absurd rfl hp
    | one c => exact ⟨c, Or.inl rfl, rfl⟩
    | itself => exact ⟨p, Or.inr rfl, rfl⟩
  · rintro ⟨c, rfl | rfl, rfl⟩
    · exact .one c
    · by_cases hone : p = '?'
      · rw [hone]
        exact .one '?'
      · exact .itself hp hone

theorem not_covers_nil {p : Char} (hp : p ≠ '*') (pattern : List Char) :
    ¬ Covers (p :: pattern) [] := by
  rw [covers_cons]
  rintro ⟨piece, rest, hpiece, -, hname⟩
  rcases (standsFor_iff hp).mp hpiece with ⟨c, -, rfl⟩
  cases hname

theorem covers_single {p : Char} (hp : p ≠ '*') {c : Char} {pattern name : List Char} :
    Covers (p :: pattern) (c :: name) <-> Passes p c ∧ Covers pattern name := by
  simp only [covers_cons, standsFor_iff hp]
  constructor
  · rintro ⟨piece, rest, ⟨d, hd, rfl⟩, hrest, hname⟩
    cases hname
    exact ⟨hd, hrest⟩
  · rintro ⟨hc, hname⟩
    exact ⟨[c], name, ⟨c, hc, rfl⟩, hname, rfl⟩

/-!
## Verdicts
-/

def Tells (pattern name : List Char) (verdicts : List Bool) : Prop :=
  List.Forall₂ (fun verdict rest => verdict = true <-> Covers pattern rest) verdicts name.tails

theorem tells_atEnd (name : List Char) :
    Tells [] name (atEnd name) := by
  induction name with
  | nil => exact .cons (by simp [covers_nil]) .nil
  | cons c name ih => exact .cons (by simp [covers_nil]) ih

theorem any_of_tells {pattern name : List Char} {row : List Bool} (h : Tells pattern name row) :
    row.any id = true <-> exists rest, rest <:+ name ∧ Covers pattern rest := by
  unfold Tells at h
  simp only [← List.mem_tails]
  generalize name.tails = rests at h
  induction h with
  | nil => simp
  | cons hverdict _ ih => simp [hverdict, ih]

theorem tells_orLater {pattern name : List Char} {row : List Bool} (h : Tells pattern name row) :
    Tells ('*' :: pattern) name (orLater row) := by
  induction name generalizing row with
  | nil =>
      have hany := any_of_tells h
      cases h with
      | cons hverdict hrest =>
          cases hrest
          refine .cons ?_ .nil
          rw [covers_star, ← hany]
          simp
  | cons c name ih =>
      have hany := any_of_tells h
      cases h with
      | cons hverdict hrest =>
          refine .cons ?_ (ih hrest)
          rw [covers_star, ← hany]
          simp

theorem tells_afterOne {p : Char} (hp : p ≠ '*') {passes : Char -> Bool}
    (hpasses : forall c, passes c = true <-> Passes p c) {pattern name : List Char}
    {row : List Bool} (h : Tells pattern name row) :
    Tells (p :: pattern) name (afterOne passes name row) := by
  induction name generalizing row with
  | nil => exact .cons (by simp [not_covers_nil hp]) .nil
  | cons c name ih =>
      cases h with
      | cons _ hrest =>
          have hlater := ih hrest
          cases name with
          | nil =>
              cases hrest with
              | cons hverdict _ =>
                  exact .cons (by simp [covers_single hp, hpasses, hverdict]) hlater
          | cons d name =>
              cases hrest with
              | cons hverdict _ =>
                  exact .cons (by simp [covers_single hp, hpasses, hverdict]) hlater

theorem tells_verdicts (name pattern : List Char) :
    Tells pattern name (verdicts name pattern) := by
  fun_induction verdicts name pattern with
  | case1 => exact tells_atEnd name
  | case2 pattern ih => exact tells_orLater ih
  | case3 pattern ih => exact tells_afterOne (by decide) (by simp [Passes]) ih
  | case4 c pattern hstar hone ih =>
      have hstar : c ≠ '*' := by
        rintro rfl
        exact hstar rfl
      have hone : c ≠ '?' := by
        rintro rfl
        exact hone rfl
      refine tells_afterOne hstar ?_ ih
      intro d
      rw [beq_iff_eq, Passes]
      constructor
      · exact fun h => Or.inr h.symm
      · rintro (h | h)
        · exact absurd h hone
        · exact h.symm

theorem head?_verdicts {name pattern : List Char} :
    (verdicts name pattern).head? = some true <-> Covers pattern name := by
  have htells := tells_verdicts name pattern
  unfold Tells at htells
  generalize verdicts name pattern = row at htells
  cases name with
  | nil =>
      cases htells with
      | cons hverdict _ => simpa using hverdict
  | cons c name =>
      cases htells with
      | cons hverdict _ => simpa using hverdict

/-!
## One star at a time

A search that lets every star stand for as few characters as possible, and for more only when it
gets stuck.  It goes back to the last star and to none before it.
-/

def takes : List Char -> Char -> Bool
  | p :: _, c => p == '?' || p == c
  | [], _ => false

/-- Goes on along a pattern and a name.  `star` is what follows the last star that was passed, and
the rest of the name from which on that is being tried. -/
def search (star : Option (List Char × List Char)) (pattern name : List Char) : Bool :=
  match pattern, name with
  | pattern, [] => pattern.all (· == '*')
  | '*' :: pattern, name => search (some (pattern, name)) pattern name
  | pattern, c :: rest =>
    if takes pattern c then search star pattern.tail rest
    else
      match star with
      | some (pattern, _ :: rest) => search (some (pattern, rest)) pattern rest
      | _ => false
termination_by (max name.length (star.elim 0 (·.2.length)), pattern.length + name.length)
decreasing_by
  all_goals simp_wf
  all_goals rw [Prod.lex_def]
  all_goals omega

/-- From the last star on, the pattern and the name have gone the same way, past no other star. -/
def Aligned (star : Option (List Char × List Char)) (pattern name : List Char) : Prop :=
  forall behind start, star = some (behind, start) ->
    exists passed seen, behind = passed ++ pattern ∧ start = seen ++ name ∧
      passed.length = seen.length ∧ '*' ∉ passed

def CoversLater (star : Option (List Char × List Char)) : Prop :=
  exists behind start rest, star = some (behind, start) ∧ rest <:+ start ∧
    rest.length < start.length ∧ Covers behind rest

theorem aligned_star (pattern name : List Char) :
    Aligned (some (pattern, name)) pattern name := by
  intro behind start h
  cases h
  exact ⟨[], [], rfl, rfl, rfl, List.not_mem_nil⟩

theorem covers_passed {passed pattern name : List Char} (hpassed : '*' ∉ passed)
    (h : Covers (passed ++ pattern) name) :
    exists seen rest, name = seen ++ rest ∧ seen.length = passed.length ∧ Covers pattern rest := by
  induction passed generalizing name with
  | nil => exact ⟨[], name, rfl, rfl, h⟩
  | cons p passed ih =>
      rw [List.mem_cons, not_or] at hpassed
      rcases covers_cons.mp h with ⟨piece, rest, hpiece, hrest, rfl⟩
      rcases (standsFor_iff (Ne.symm hpassed.1)).mp hpiece with ⟨c, -, rfl⟩
      rcases ih hpassed.2 hrest with ⟨seen, rest, rfl, hlength, hrest⟩
      exact ⟨c :: seen, rest, rfl, by simp [hlength], hrest⟩

theorem Aligned.exists_rest {star : Option (List Char × List Char)} {pattern name : List Char}
    (h : Aligned star pattern name) (hlater : CoversLater star) :
    exists rest, rest <:+ name ∧ rest.length < name.length ∧ Covers pattern rest := by
  rcases hlater with ⟨behind, start, rest, hstar, hsuffix, hlt, hcovers⟩
  rcases h behind start hstar with ⟨passed, seen, rfl, rfl, hlength, hpassed⟩
  rcases covers_passed hpassed hcovers with ⟨seen', rest', rfl, hlength', hrest'⟩
  have hshort : rest'.length < name.length := by
    simp only [List.length_append] at hlt
    omega
  refine ⟨rest', ?_, hshort, hrest'⟩
  exact List.suffix_of_suffix_length_le ((List.suffix_append seen' rest').trans hsuffix)
    (List.suffix_append seen name) (Nat.le_of_lt hshort)

/-- A star takes nothing, or leaves a shorter rest. -/
theorem covers_or_coversLater {pattern name : List Char} :
    Covers pattern name ∨ CoversLater (some (pattern, name)) <-> Covers ('*' :: pattern) name := by
  rw [covers_star]
  constructor
  · rintro (h | ⟨behind, start, rest, hstar, hsuffix, -, hrest⟩)
    · exact ⟨name, List.suffix_rfl, h⟩
    · cases hstar
      exact ⟨rest, hsuffix, hrest⟩
  · rintro ⟨rest, hsuffix, hrest⟩
    by_cases heq : rest = name
    · exact Or.inl (heq ▸ hrest)
    · exact Or.inr ⟨pattern, name, rest, rfl, hsuffix,
        Nat.lt_of_le_of_ne hsuffix.length_le fun hlen => heq (hsuffix.eq_of_length hlen), hrest⟩

theorem coversLater_cons {behind start : List Char} {c : Char} :
    CoversLater (some (behind, c :: start)) <->
      Covers behind start ∨ CoversLater (some (behind, start)) := by
  rw [covers_or_coversLater, covers_star]
  constructor
  · rintro ⟨behind', start', rest, hstar, hsuffix, hlt, hrest⟩
    cases hstar
    rcases List.suffix_cons_iff.mp hsuffix with rfl | hsuffix
    · exact absurd hlt (Nat.lt_irrefl _)
    · exact ⟨rest, hsuffix, hrest⟩
  · rintro ⟨rest, hsuffix, hrest⟩
    have hsuffix' := hsuffix.trans (List.suffix_cons c start)
    have hlt := Nat.lt_succ_of_le hsuffix.length_le
    exact ⟨behind, c :: start, rest, rfl, hsuffix', hlt, hrest⟩

theorem covers_empty {pattern : List Char} :
    Covers pattern [] <-> pattern.all (· == '*') = true := by
  induction pattern with
  | nil => simp [covers_nil]
  | cons p pattern ih =>
      by_cases hp : p = '*'
      · simp [hp, covers_star, ih]
      · simp [hp, not_covers_nil hp]

theorem covers_of_takes {pattern name : List Char} {c : Char}
    (hstar : forall rest, pattern ≠ '*' :: rest) :
    Covers pattern (c :: name) <-> takes pattern c = true ∧ Covers pattern.tail name := by
  cases pattern with
  | nil => simp [covers_nil, takes]
  | cons p pattern =>
      have hp : p ≠ '*' := by
        rintro rfl
        exact hstar pattern rfl
      simp [covers_single hp, Passes, takes]

theorem Aligned.next {star : Option (List Char × List Char)} {c : Char} {pattern name : List Char}
    (h : Aligned star pattern (c :: name)) (hstar : forall rest, pattern ≠ '*' :: rest)
    (htakes : takes pattern c = true) :
    Aligned star pattern.tail name := by
  cases pattern with
  | nil => cases htakes
  | cons p pattern =>
      have hp : '*' ≠ p := by
        rintro rfl
        exact hstar pattern rfl
      intro behind start heq
      rcases h behind start heq with ⟨passed, seen, rfl, rfl, hlength, hpassed⟩
      refine ⟨passed ++ [p], seen ++ [c], by simp, by simp, by simp [hlength], ?_⟩
      simp [hpassed, hp]

/-- To go back to the last star is enough: whatever an earlier star could still take, the last one
can take as well. -/
theorem search_eq_true_iff {star : Option (List Char × List Char)} {pattern name : List Char}
    (h : Aligned star pattern name) :
    search star pattern name = true <-> Covers pattern name ∨ CoversLater star := by
  fun_induction search star pattern name with
  | case1 star pattern =>
      have hlater : ¬ CoversLater star := by
        intro hlater
        rcases h.exists_rest hlater with ⟨rest, -, hlt, -⟩
        exact absurd hlt (Nat.not_lt_zero _)
      rw [← covers_empty, or_iff_left hlater]
  | case2 star pattern name hname ih =>
      rw [ih (aligned_star pattern name), covers_or_coversLater]
      constructor
      · exact Or.inl
      · rintro (hcovers | hlater)
        · exact hcovers
        · -- What an earlier star could still take, this one can take as well.
          rcases h.exists_rest hlater with ⟨rest, hsuffix, -, hrest⟩
          rcases covers_star.mp hrest with ⟨last, hlast, hcovers⟩
          exact covers_star.mpr ⟨last, hlast.trans hsuffix, hcovers⟩
  | case3 star pattern c rest hstar htakes ih =>
      rw [ih (h.next hstar htakes), covers_of_takes hstar, htakes]
      simp
  | case4 pattern c rest hstar htakes behind d start ih =>
      rw [ih (aligned_star behind start), coversLater_cons, covers_of_takes hstar]
      simp [htakes]
  | case5 star pattern c rest hstar htakes hstart =>
      have hlater : ¬ CoversLater star := by
        rintro ⟨behind, start, suffix, heq, -, hlt, -⟩
        cases start with
        | nil => exact absurd hlt (Nat.not_lt_zero _)
        | cons d start => exact hstart behind d start heq
      rw [covers_of_takes hstar]
      simp [htakes, hlater]

theorem search_none {pattern name : List Char} :
    search none pattern name = true <-> Covers pattern name := by
  rw [search_eq_true_iff (fun _ _ h => by cases h), or_iff_left]
  rintro ⟨_, _, _, h, -⟩
  cases h

/-!
## Names and paths
-/

theorem matchesPath_iff {p : Pattern} {path : Path} :
    p.matchesPath path = true <->
      exists name : String, path.fileName? = some (Text.Utf8.encode name.toList) ∧
        p.matchesName name = true := by
  have htext : forall octets (name : String), (Path.mk octets).text? = some name <->
      octets = Text.Utf8.encode name.toList := fun _ _ => Path.text?_eq_some_iff
  unfold matchesPath
  cases path.fileName? with
  | none => simp
  | some octets =>
      simp only [Option.some.injEq, ← htext]
      cases (Path.mk octets).text? <;> simp

/-- A pattern matches the names that can be cut along it, and no others; the search that goes back
to the last star finds the same.  A path matches if its last component is text that matches, and
the directories in front of it do not count. -/
theorem matchesName_iff_covers (p : Pattern) :
    (forall name : String, p.matchesName name = true <-> Covers p.text.toList name.toList) ∧
      (forall name : String, search none p.text.toList name.toList = p.matchesName name) ∧
      (forall path : Path, p.matchesPath path = true <->
        exists name : String, path.fileName? = some (Text.Utf8.encode name.toList) ∧
          Covers p.text.toList name.toList) ∧
      forall (directory : Path) (octets : List UInt8), Path.slash ∉ octets -> octets ≠ [] ->
        octets ≠ Path.dot -> octets ≠ Path.dotDot ->
          (p.matchesPath (directory.join ⟨octets⟩) = true <->
            exists name : String, octets = Text.Utf8.encode name.toList ∧
              Covers p.text.toList name.toList) := by
  have hname : forall name : String,
      p.matchesName name = true <-> Covers p.text.toList name.toList := by
    intro name
    rw [matchesName, beq_iff_eq, head?_verdicts]
  have hpath : forall path : Path, p.matchesPath path = true <->
      exists name : String, path.fileName? = some (Text.Utf8.encode name.toList) ∧
        Covers p.text.toList name.toList := by
    intro path
    simp only [matchesPath_iff, hname]
  refine ⟨hname, ?_, hpath, ?_⟩
  · intro name
    rw [Bool.eq_iff_iff, search_none, hname]
  · intro directory octets hslash hnil hdot hdotDot
    rw [hpath, Path.fileName?_join directory hslash hnil hdot hdotDot]
    simp only [Option.some.injEq]

end Pattern
end Clippings
