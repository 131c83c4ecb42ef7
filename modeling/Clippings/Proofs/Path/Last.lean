import Clippings.Proofs.Path.Order

/-!
# The last part of a path

Slashes at the end of a path do not count, and neither do parts `.` between them.  What then comes
last is the file name, unless it is `..`, and the path above is the path without it.
-/

namespace Clippings
namespace Path

/-!
## Parts put together
-/

theorem unparts_cons (part : List UInt8) (rest : List (List UInt8)) :
    unparts (part :: rest) = part ++ rest.flatMap (slash :: ·) := by
  induction rest generalizing part with
  | nil => simp [unparts]
  | cons next rest ih =>
      rw [unparts, List.intercalate_cons_cons, List.flatMap_cons, List.append_assoc]
      exact congrArg (part ++ slash :: ·) (ih next)

theorem unparts_parts (octets : List UInt8) :
    unparts (parts octets) = octets := by
  induction octets with
  | nil => rfl
  | cons b rest ih =>
      rcases List.exists_cons_of_ne_nil (parts_ne_nil rest) with ⟨part, more, hparts⟩
      rw [hparts, unparts_cons] at ih
      by_cases hb : b = slash
      · subst hb
        rw [parts, if_pos BEq.rfl, hparts, unparts_cons, List.flatMap_cons, List.nil_append,
          List.cons_append, ih]
      · rw [parts_cons_of_ne hb hparts, unparts_cons, List.cons_append, ih]

theorem parts_unparts {ps : List (List UInt8)} (hne : ps ≠ [])
    (h : forall part, part ∈ ps -> slash ∉ part) :
    parts (unparts ps) = ps := by
  induction ps with
  | nil => exact absurd rfl hne
  | cons part rest ih =>
      have hpart := parts_of_no_slash (h part List.mem_cons_self)
      cases rest with
      | nil => rw [unparts_cons, List.flatMap_nil, List.append_nil, hpart]
      | cons next rest =>
          have hrest := ih (List.cons_ne_nil next rest)
            fun part hmem => h part (List.mem_cons_of_mem _ hmem)
          rw [unparts_cons] at hrest
          rw [unparts_cons, List.flatMap_cons, List.cons_append, parts_append_slash, hpart, hrest]
          rfl

theorem isAbsolute_iff {p : Path} :
    p.isAbsolute = true <-> exists part rest, parts p.octets = [] :: part :: rest := by
  rw [isAbsolute]
  cases p.octets with
  | nil => simp [parts]
  | cons b rest =>
      rcases List.exists_cons_of_ne_nil (parts_ne_nil rest) with ⟨part, more, hparts⟩
      by_cases hb : b = slash
      · subst hb
        simp [parts, hparts]
      · simp [parts_cons_of_ne hb hparts, hb]

/-!
## What comes last
-/

inductive Idles : List UInt8 -> Prop where
  | nil : Idles []
  | slash {rest : List UInt8} : Idles rest -> Idles (slash :: rest)
  | dot {rest : List UInt8} : Idles rest -> Idles (slash :: (dot ++ rest))

/-- The part that comes last in a path, if slashes and parts `.` behind it do not count. -/
def HasLast (p : Path) (part : List UInt8) : Prop :=
  exists before after, p.octets = before ++ part ++ after ∧
    (before = [] ∨ before.getLast? = some slash) ∧ slash ∉ part ∧ ¬ IsIdle part ∧ Idles after

theorem slash_not_mem_dot :
    slash ∉ dot := by
  decide

theorem parts_append_idles {part after : List UInt8} (hpart : slash ∉ part) (h : Idles after) :
    exists trailing, parts (part ++ after) = part :: trailing ∧
      forall x, x ∈ trailing -> IsIdle x := by
  induction h generalizing part with
  | nil => exact ⟨[], by rw [List.append_nil, parts_of_no_slash hpart], by simp⟩
  | slash _ ih =>
      have hempty : slash ∉ ([] : List UInt8) := List.not_mem_nil
      rcases ih hempty with ⟨trailing, hparts, htrailing⟩
      exists [] :: trailing
      constructor
      · rw [parts_append_slash, parts_of_no_slash hpart]
        exact congrArg (part :: ·) hparts
      · rw [List.forall_mem_cons]
        exact ⟨Or.inl rfl, htrailing⟩
  | dot _ ih =>
      rcases ih slash_not_mem_dot with ⟨trailing, hparts, htrailing⟩
      exists dot :: trailing
      constructor
      · rw [parts_append_slash, parts_of_no_slash hpart, hparts]
        rfl
      · rw [List.forall_mem_cons]
        exact ⟨Or.inr rfl, htrailing⟩

theorem idles_flatMap {trailing : List (List UInt8)}
    (h : forall part, part ∈ trailing -> IsIdle part) :
    Idles (trailing.flatMap (slash :: ·)) := by
  induction trailing with
  | nil => exact .nil
  | cons part rest ih =>
      have hrest := ih fun part hmem => h part (List.mem_cons_of_mem _ hmem)
      rw [List.flatMap_cons]
      rcases h part List.mem_cons_self with rfl | rfl
      · exact .slash hrest
      · exact .dot hrest

theorem hasLast_iff {p : Path} {last : List UInt8} :
    HasLast p last <-> exists front trailing, parts p.octets = front ++ last :: trailing ∧
      ¬ IsIdle last ∧ forall part, part ∈ trailing -> IsIdle part := by
  constructor
  · rintro ⟨before, after, hoctets, hbefore, hslash, hlast, hafter⟩
    rcases parts_append_idles hslash hafter with ⟨trailing, hparts, htrailing⟩
    rw [hoctets, List.append_assoc]
    rcases hbefore with rfl | hbefore
    · exact ⟨[], trailing, hparts, hlast, htrailing⟩
    · rcases List.getLast?_eq_some_iff.mp hbefore with ⟨front, rfl⟩
      refine ⟨parts front, trailing, ?_, hlast, htrailing⟩
      rw [List.append_assoc, ← hparts]
      exact parts_append_slash front (last ++ after)
  · rintro ⟨front, trailing, hparts, hlast, htrailing⟩
    have hslash : slash ∉ last := by
      intro h
      exact (mem_parts (hparts ▸ List.mem_append_right front List.mem_cons_self) h).2 rfl
    have hoctets := unparts_parts p.octets
    rw [hparts] at hoctets
    cases front with
    | nil =>
        rw [List.nil_append, unparts_cons] at hoctets
        have hidles := idles_flatMap htrailing
        exact ⟨[], _, hoctets.symm, Or.inl rfl, hslash, hlast, hidles⟩
    | cons first front =>
        rw [List.cons_append, unparts_cons, List.flatMap_append, List.flatMap_cons] at hoctets
        have hfront : (first ++ front.flatMap (slash :: ·) ++ [slash]).getLast? = some slash :=
          List.getLast?_concat
        have hidles := idles_flatMap htrailing
        refine ⟨_, _, ?_, Or.inr hfront, hslash, hlast, hidles⟩
        rw [← hoctets]
        simp [List.append_assoc]

/-- Either no part of a path leads anywhere, or one of those that do comes last. -/
theorem idle_or_exists_last (parts : List (List UInt8)) :
    (forall part, part ∈ parts -> IsIdle part) ∨
      exists front last trailing, parts = front ++ last :: trailing ∧ ¬ IsIdle last ∧
        forall part, part ∈ trailing -> IsIdle part := by
  induction parts with
  | nil => exact Or.inl (by simp)
  | cons first rest ih =>
      rcases ih with hidle | ⟨front, last, trailing, rfl, hlast⟩
      · by_cases hfirst : IsIdle first
        · exact Or.inl (List.forall_mem_cons.mpr ⟨hfirst, hidle⟩)
        · exact Or.inr ⟨[], first, rest, rfl, hfirst, hidle⟩
      · exact Or.inr ⟨first :: front, last, trailing, rfl, hlast⟩

theorem components_of_idle {p : Path} (h : forall part, part ∈ parts p.octets -> IsIdle part) :
    p.components = [] ∨ p.components = [.root] ∨ p.components = [.here] := by
  rw [components_eq_leading]
  unfold leading
  cases p.isAbsolute with
  | true => simp [inner_of_idle h]
  | false =>
      cases hparts : parts p.octets with
      | nil => exact Or.inl rfl
      | cons first rest =>
          rw [hparts] at h
          have hrest := inner_of_idle fun part hmem => h part (List.mem_cons_of_mem first hmem)
          rcases h first List.mem_cons_self with rfl | rfl
          · exact Or.inl (by simp only [hrest]; rfl)
          · exact Or.inr (Or.inr (by simp only [hrest]; rfl))

/-!
## File names
-/

theorem fileName?_of_hasLast {p : Path} {last : List UInt8} (h : HasLast p last) :
    p.fileName? = if last = dotDot then none else some last := by
  rcases hasLast_iff.mp h with ⟨front, trailing, hparts, hlast, htrailing⟩
  rw [fileName?, components_of_last hparts hlast htrailing, List.getLast?_concat]
  by_cases hup : last = dotDot
  · subst hup
    rfl
  · rw [componentOf_name hup, if_neg hup]

theorem fileName?_eq_some_iff {p : Path} {name : List UInt8} :
    p.fileName? = some name <-> HasLast p name ∧ name ≠ dotDot := by
  constructor
  · intro h
    rcases idle_or_exists_last (parts p.octets) with hidle | ⟨front, last, trailing, hsplit⟩
    · rcases components_of_idle hidle with hc | hc | hc <;> rw [fileName?, hc] at h <;> cases h
    · have hlast : HasLast p last := hasLast_iff.mpr ⟨front, trailing, hsplit⟩
      rw [fileName?_of_hasLast hlast] at h
      split at h
      · cases h
      · rename_i hup
        cases h
        exact ⟨hlast, hup⟩
  · rintro ⟨hlast, hup⟩
    rw [fileName?_of_hasLast hlast, if_neg hup]

/-- A path has no file name where its last part is missing or leads up. -/
theorem fileName?_eq_none_iff {p : Path} :
    p.fileName? = none <-> forall last, HasLast p last -> last = dotDot := by
  constructor
  · intro h last hlast
    by_contra hup
    rw [fileName?_eq_some_iff.mpr ⟨hlast, hup⟩] at h
    cases h
  · intro h
    cases hname : p.fileName? with
    | none => rfl
    | some name =>
        rcases fileName?_eq_some_iff.mp hname with ⟨hlast, hup⟩
        exact absurd (h name hlast) hup

theorem HasLast.isLast {p : Path} {name : List UInt8} (h : HasLast p name) (hup : name ≠ dotDot) :
    IsLast name := by
  rcases h with ⟨_, _, _, _, hslash, hidle, _⟩
  rw [IsIdle, not_or] at hidle
  exact ⟨hslash, hidle.1, hidle.2, hup⟩

/-!
## The path above
-/

theorem dropTrailing_of_idle {ps : List (List UInt8)}
    (h : forall part, part ∈ ps -> IsIdle part) (rest : List (List UInt8)) :
    dropTrailing (ps.reverse ++ rest) = dropTrailing rest := by
  refine List.dropWhile_append_of_pos fun part hpart => ?_
  rcases h part (List.mem_reverse.mp hpart) with rfl | rfl <;> rfl

theorem dropTrailing_last {last : List UInt8} (h : ¬ IsIdle last) (rest : List (List UInt8)) :
    dropTrailing (last :: rest) = last :: rest := by
  rw [IsIdle, not_or] at h
  simp [dropTrailing, h.1, h.2]

theorem componentOf_eq (part : List UInt8) :
    componentOf part = .above ∨ componentOf part = .name part := by
  unfold componentOf
  split
  · exact Or.inl rfl
  · exact Or.inr rfl

theorem components_start {p : Path} {front trailing : List (List UInt8)} {last : List UInt8}
    (hparts : parts p.octets = front ++ last :: trailing) (hlast : ¬ IsIdle last)
    (hfront : forall part, part ∈ front -> IsIdle part) :
    components ⟨if p.isAbsolute then [slash]
      else if (parts p.octets).length > 1 && (parts p.octets).head? == some dot then dot
      else []⟩ = leading p.isAbsolute front := by
  rw [hparts]
  unfold leading
  cases p.isAbsolute with
  | true =>
      rw [if_pos rfl, if_pos rfl, inner_of_idle hfront]
      rfl
  | false =>
      rw [if_neg Bool.false_ne_true, if_neg Bool.false_ne_true]
      cases front with
      | nil =>
          rw [IsIdle, not_or] at hlast
          rw [if_neg (by simp [hlast.2])]
          rfl
      | cons first rest =>
          have hrest := inner_of_idle fun part hmem => hfront part (List.mem_cons_of_mem first hmem)
          rcases hfront first List.mem_cons_self with rfl | rfl
          · rw [if_neg (by simp [dot])]
            simp only [hrest]
            rfl
          · have hlong : (dot :: rest ++ last :: trailing).length > 1 := by
              simp only [List.length_append, List.length_cons]
              omega
            rw [if_pos (by rw [Bool.and_eq_true, decide_eq_true_iff]; exact ⟨hlong, rfl⟩)]
            simp only [hrest]
            rfl

theorem components_unparts {p : Path} {front idle rest : List (List UInt8)} {last : List UInt8}
    (hparts : parts p.octets = front ++ last :: (idle ++ rest)) (hlast : ¬ IsIdle last)
    (hidle : forall part, part ∈ idle -> IsIdle part) :
    components ⟨unparts (front ++ [last])⟩ =
      leading p.isAbsolute (front ++ last :: idle) := by
  have hkept : parts (unparts (front ++ [last])) = front ++ [last] := by
    refine parts_unparts (by simp) fun part hpart hslash => ?_
    have hmem : part ∈ parts p.octets := by
      rw [hparts]
      rcases List.mem_append.mp hpart with h | h
      · exact List.mem_append_left _ h
      · exact List.mem_append_right _ (by simp [List.mem_singleton.mp h])
    exact (mem_parts hmem hslash).2 rfl
  have habsolute : isAbsolute ⟨unparts (front ++ [last])⟩ = p.isAbsolute := by
    rw [Bool.eq_iff_iff, isAbsolute_iff, isAbsolute_iff, hkept, hparts]
    cases front with
    | nil => simp [show last ≠ [] from fun h => hlast (Or.inl h)]
    | cons first front => cases front <;> simp
  have hdot : (last :: idle).head? ≠ some dot := by
    simpa using fun h => hlast (Or.inr h)
  have hcomponents := components_of_last (p := ⟨unparts (front ++ [last])⟩) hkept hlast (by simp)
  rw [hcomponents, habsolute, leading_append _ (Or.inr hdot), inner_last hlast hidle]

theorem exists_parent? {p : Path} {front trailing : List (List UInt8)} {last : List UInt8}
    (hparts : parts p.octets = front ++ last :: trailing) (hlast : ¬ IsIdle last)
    (htrailing : forall part, part ∈ trailing -> IsIdle part) :
    exists q, p.parent? = some q ∧ q.components = leading p.isAbsolute front := by
  have hkept : dropTrailing ((dropTrailing (parts p.octets).reverse).drop 1) =
      dropTrailing front.reverse := by
    rw [hparts, List.reverse_append, List.reverse_cons, List.append_assoc,
      dropTrailing_of_idle htrailing, List.singleton_append, dropTrailing_last hlast,
      List.drop_one, List.tail_cons]
  have hcomponents := components_of_last hparts hlast htrailing
  have hlone : forall c, p.components = [c] -> c = .above ∨ c = .name last := by
    intro c hc
    rw [hcomponents, List.append_eq_singleton_iff] at hc
    rcases hc with ⟨-, hc⟩ | ⟨-, hc⟩
    · cases hc
      exact componentOf_eq last
    · cases hc
  unfold parent?
  split
  · rename_i h
    simp [hcomponents] at h
  · rename_i h
    simpa using hlone _ h
  · rename_i h
    simpa using hlone _ h
  · simp only [hkept]
    rcases idle_or_exists_last front with hidle | ⟨front, kept, idle, rfl, hkept', hidle⟩
    · have hnone : dropTrailing front.reverse = [] := by
        have := dropTrailing_of_idle hidle []
        rwa [List.append_nil] at this
      rw [hnone]
      exact ⟨_, rfl, components_start hparts hlast hidle⟩
    · have hfront : (dropTrailing (front ++ kept :: idle).reverse).reverse = front ++ [kept] := by
        rw [List.reverse_append, List.reverse_cons, List.append_assoc,
          dropTrailing_of_idle hidle, List.singleton_append, dropTrailing_last hkept',
          List.reverse_cons, List.reverse_reverse]
      rw [hfront, if_neg (by simp)]
      exact ⟨_, rfl, components_unparts (by simpa using hparts) hkept' hidle⟩

/-!
## Joined paths
-/

theorem components_join (p : Path) {name : List UInt8} (h : IsLast name) :
    (p.join ⟨name⟩).components = p.components ++ [.name name] := by
  rcases parts_join p h.no_slash with ⟨front, back, hparts, hback, hjoined⟩
  have hfront : p.components = leading p.isAbsolute front := by
    rw [components_eq_leading, hparts]
    rcases hback with rfl | rfl
    · rw [List.append_nil]
    · rw [leading_append _ (Or.inr (by simp [dot])), inner_of_idle (by simp [IsIdle]),
        List.append_nil]
  rw [components_of_parts hjoined h.ne_nil h.ne_dot h.ne_dotDot, isAbsolute_join p h.no_slash,
    hfront]

theorem exists_parent?_join (p : Path) {name : List UInt8} (h : IsLast name) :
    exists q, (p.join ⟨name⟩).parent? = some q ∧ q.components = p.components := by
  rcases parts_join p h.no_slash with ⟨front, -, -, -, hjoined⟩
  have hlast : ¬ IsIdle name := by
    simp [IsIdle, h.ne_nil, h.ne_dot]
  rcases exists_parent? hjoined hlast (by simp) with ⟨q, hq, hcomponents⟩
  have hjoin := components_of_parts hjoined h.ne_nil h.ne_dot h.ne_dotDot
  rw [components_join p h, List.append_left_inj] at hjoin
  exact ⟨q, hq, hcomponents.trans hjoin.symm⟩

end Path
end Clippings
