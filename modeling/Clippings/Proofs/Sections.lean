import Clippings.Proofs.Preservation
import Clippings.Proofs.Yaml.Repeats
import Clippings.Proofs.Yaml.Sameness

/-!
# Picking a section

A document has no key twice, so the entry of a plain string key is the only one.  Looking it up and
taking it out give the same snippet, and both miss a key that is a number, null, a boolean or has a
tag.
-/

namespace Clippings
namespace Yaml

namespace Value

theorem isNull_iff {v : Value} :
    v.isNull = true <-> v.untag = .null := by
  unfold isNull
  cases v.untag <;> simp

end Value

namespace Entries

theorem fst_remove (entries : Entries) (key : String) :
    (entries.remove key).1 = entries.get? key := by
  fun_induction Entries.get? entries key with
  | case1 => rfl
  | case2 _ k v hk => simp [remove, hk]
  | case3 _ k v hk ih => simp [remove, hk, ih]
  | case4 e rest hne ih =>
      rcases e with ⟨k, v⟩
      cases k with
      | str k => exact absurd rfl (hne k v)
      | _ => exact ih

theorem get?_eq_none_iff {entries : Entries} {key : String} :
    entries.get? key = none <-> forall e, e ∈ entries -> e.1 ≠ .str key := by
  fun_induction Entries.get? entries key with
  | case1 => simp
  | case2 _ k v hk => simp_all
  | case3 _ k v hk ih => simp_all
  | case4 e rest hne ih =>
      have hother : e.1 ≠ .str key := by
        intro heq
        exact hne key e.2 (Prod.ext heq rfl)
      rw [ih, List.forall_mem_cons, and_iff_right hother]

theorem exists_append_of_get? {entries : Entries} {key : String} {v : Value}
    (h : entries.Pairwise fun e e' => e.1.same e'.1 = false) (hget : entries.get? key = some v) :
    exists before after, entries = before ++ (.str key, v) :: after ∧
      forall e, e ∈ before ++ after -> e.1 ≠ .str key := by
  rcases List.append_of_mem (mem_of_get? hget) with ⟨before, after, rfl⟩
  rw [List.pairwise_append, List.pairwise_cons] at h
  refine ⟨before, after, rfl, ?_⟩
  intro e he heq
  rcases List.mem_append.mp he with he | he
  · have hne := h.2.2 e he (.str key, v) List.mem_cons_self
    simp [heq, Value.same] at hne
  · have hne := h.2.1.1 e he
    simp [heq, Value.same] at hne

end Entries
end Yaml

namespace Document

theorem takeSnippet_eq (d : Document) (key : String) :
    d.takeSnippet key = d.snippet key := by
  rw [takeSnippet, Yaml.Entries.fst_remove]
  rfl

theorem isEmpty_snippet_iff (d : Document) (key : String) :
    (d.snippet key).isEmpty = true <-> ((d.get? key).getD .null).untag = .null :=
  Yaml.Value.isNull_iff

theorem parse_of_repeatsKey {text : String} (hcontent : hasContent text = true) {t : Yaml.Tree}
    (ht : Yaml.Tree.ofText text.toList = .ok t) (hrepeats : t.RepeatsKey) (path : Path) :
    exists f, Document.parse text path = .error (.unreadable path f) := by
  cases hvalue : Yaml.Value.ofText text with
  | error f => exact ⟨f, by simp [Document.parse, hcontent, hvalue]⟩
  | ok v =>
      have hread := hvalue
      rw [Yaml.Value.ofText, ht] at hread
      exact absurd hrepeats
        (Yaml.Tree.not_repeatsKey_of_value (Yaml.Value.fits_ofText hvalue).sayable hread)

/-!
## Texts that name a section
-/

theorem ofText_taggedNull :
    Yaml.Value.ofText "pipelines: !x ~" =
      .ok (.map [(.str "pipelines", .tagged ⟨"x"⟩ .null)]) := by
  apply Yaml.Value.ofText_of_ofTextWithin 20
  · cbv
  · rfl

theorem repeatsKey_alias :
    exists t, Yaml.Tree.ofText "\x7b&a x: 1, *a : 2\x7d".toList = .ok t ∧ t.RepeatsKey := by
  have hkey : forall t mark, Yaml.Tree.Denotes t (.scalar mark none .plain ['x']) (.str "x") :=
    fun _ _ => .scalar (v := .str "x") rfl
  refine ⟨?_, ?_, ?_⟩
  -- The tree itself is found by reading the text.
  rotate_left
  · apply Yaml.Tree.ofText_of_ofTextWithin 20
    cbv
    rfl
  · refine ⟨_, _, _, _, .root rfl, ?_⟩
    exists 0
    exists 1
    exact ⟨_, _, _, _, by decide, rfl, rfl, hkey _ _, .target rfl (hkey _ _), rfl⟩

/-- Of every document that is read, no mapping has two keys that are the same, and under every plain
string key stands one entry, which both ways of taking it give, or none. -/
theorem section_unique (text : String) (path : Path) :
    (forall d, Document.parse text path = .ok d ->
      (forall w entries, Yaml.Value.Occurs w (.map d.entries) -> w.untag = .map entries ->
        entries.Pairwise fun e e' => e.1.same e'.1 = false ∧ e'.1.same e.1 = false) ∧
      forall key,
        (exists v before after, d.entries = before ++ (.str key, v) :: after ∧
          (forall e, e ∈ before ++ after -> e.1 ≠ .str key) ∧
          d.get? key = some v ∧ d.snippet key = ⟨key, v⟩ ∧ d.takeSnippet key = ⟨key, v⟩ ∧
          ((d.snippet key).isEmpty = true <-> v.untag = .null)) ∨
        ((forall e, e ∈ d.entries -> e.1 ≠ .str key) ∧
          d.get? key = none ∧ d.snippet key = ⟨key, .null⟩ ∧ d.takeSnippet key = ⟨key, .null⟩ ∧
          (d.snippet key).isEmpty = true)) ∧
    (hasContent text = true -> forall t, Yaml.Tree.ofText text.toList = .ok t -> t.RepeatsKey ->
      exists f, Document.parse text path = .error (.unreadable path f)) := by
  constructor
  · intro d hparse
    have hsayable := (fits_of_parse hparse).sayable
    constructor
    · intro w entries hw hentries
      exact hsayable.distinct_of_occurs hw hentries
    · intro key
      rw [takeSnippet_eq, isEmpty_snippet_iff]
      cases hget : d.get? key with
      | none =>
          have hnone := Yaml.Entries.get?_eq_none_iff.mp hget
          have hsnippet : d.snippet key = ⟨key, .null⟩ := by rw [snippet, hget, Option.getD_none]
          exact Or.inr ⟨hnone, rfl, hsnippet, hsnippet, rfl⟩
      | some v =>
          have hsnippet : d.snippet key = ⟨key, v⟩ := by rw [snippet, hget, Option.getD_some]
          rcases Yaml.Entries.exists_append_of_get? (hsayable.distinct rfl) hget with
            ⟨before, after, hentries, hother⟩
          exact Or.inl ⟨v, before, after, hentries, hother, rfl, hsnippet, hsnippet, Iff.rfl⟩
  · intro hcontent t ht hrepeats
    exact parse_of_repeatsKey hcontent ht hrepeats path

theorem section_unique_alias :
    (exists f, Document.parse "\x7b&a x: 1, *a : 2\x7d" (Path.ofString "p.yaml") =
        .error (.unreadable (Path.ofString "p.yaml") f)) ∧
      exists d v, Document.parse "b: &a !t [x]\npipelines: *a" (Path.ofString "p.yaml") = .ok d ∧
        d.snippet "pipelines" = ⟨"pipelines", v⟩ ∧
          d.takeSnippet "pipelines" = ⟨"pipelines", v⟩ := by
  constructor
  · rcases repeatsKey_alias with ⟨t, ht, hrepeats⟩
    exact (section_unique _ _).2 (by cbv) t ht hrepeats
  · have hparse := parse_eq_of_ofText (by cbv) (Path.ofString "p.yaml") ofText_alias
    rcases ((section_unique _ _).1 _ hparse).2 "pipelines" with
      ⟨v, _, _, _, _, _, hsnippet, htake, _⟩ | ⟨_, _, hsnippet, htake, _⟩
    · exact ⟨_, v, hparse, hsnippet, htake⟩
    · exact ⟨_, .null, hparse, hsnippet, htake⟩

/-- A section that says null with a tag is empty as well. -/
theorem isEmpty_snippet_taggedNull :
    exists d, Document.parse "pipelines: !x ~" (Path.ofString "p.yaml") = .ok d ∧
      d.get? "pipelines" = some (.tagged ⟨"x"⟩ .null) ∧
      (d.snippet "pipelines").isEmpty = true :=
  ⟨_, parse_eq_of_ofText (by cbv) _ ofText_taggedNull, rfl, rfl⟩

end Document
end Clippings
