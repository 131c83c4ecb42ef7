import Mathlib
import Clippings.Proofs.RoundTrip
import Clippings.Proofs.Yaml.Saying
import Clippings.Proofs.Yaml.Steps

/-!
# A section by itself

The snippet of a document can be written unless a key in it takes the start of a mapping for its
own.  What was written says the section again, with its tags and in its order, unless a tag holds a
character that ends it.
-/

namespace Clippings
namespace Yaml

namespace Value

/-!
## Documents of one entry
-/

theorem Sayable.single {v : Value} (h : v.Sayable) (key : String) :
    (Value.map [(.str key, v)]).Sayable := by
  refine .map ?_ ?_ (List.pairwise_singleton _ _)
  · intro e he
    rw [List.mem_singleton.mp he]
    exact .str key
  · intro e he
    rw [List.mem_singleton.mp he]
    exact h

theorem TagsReadable.single {v : Value} (h : v.TagsReadable) (key : String) :
    (Value.map [(.str key, v)]).TagsReadable := by
  intro t ht
  apply h t
  simpa [tags, tagsOfEntries] using ht

theorem strayEnds_single (key : String) (v : Value) :
    (Value.map [(.str key, v)]).strayEnds false = v.strayEnds false := by
  simp [strayEnds, strayEndsOfEntries, keyTakesStart, isSingle, isTagged]

theorem height_lt_of_mem {entries : Entries} {e : Value × Value} (he : e ∈ entries) :
    e.2.height < (Value.map entries).height := by
  rw [height]
  apply Nat.lt_succ_of_le
  induction entries with
  | nil => cases he
  | cons e' entries ih =>
      rw [heightOfEntries]
      rcases List.mem_cons.mp he with rfl | he
      · omega
      · have := ih he
        omega

end Value

theorem Entries.mem_of_get? {entries : Entries} {key : String} {v : Value}
    (h : entries.get? key = some v) :
    (.str key, v) ∈ entries := by
  fun_induction Entries.get? entries key with
  | case1 => cases h
  | case2 rest k v' hkey =>
      cases h
      rw [beq_iff_eq.mp hkey]
      exact List.mem_cons_self
  | case3 rest k v' hkey ih => exact List.mem_cons_of_mem _ (ih h)
  | case4 e rest hkey ih => exact List.mem_cons_of_mem _ (ih h)

end Yaml

/-!
## Sections of a document
-/

namespace Document

theorem fits_of_parse {text : String} {path : Path} {d : Document}
    (h : Document.parse text path = .ok d) :
    (Yaml.Value.map d.entries).Fits Yaml.Tree.maxDepth := by
  have hempty : (Yaml.Value.map []).Fits Yaml.Tree.maxDepth :=
    ⟨.map (by simp) (by simp) .nil, by decide⟩
  unfold Document.parse at h
  split at h
  · cases h
    exact hempty
  · split at h
    · cases h
    · rename_i hvalue
      cases h
      exact Yaml.Value.fits_ofText hvalue
    · cases h
      exact hempty
    · cases h

theorem fits_snippet {text : String} {path : Path} {d : Document}
    (h : Document.parse text path = .ok d) (key : String) :
    (Yaml.Value.map (d.snippet key).entries).Fits Yaml.Tree.maxDepth := by
  have hfits := fits_of_parse h
  rw [snippet]
  cases hget : d.get? key with
  | none => exact ⟨Yaml.Value.Sayable.null.single key, Nat.le_of_ble_eq_true rfl⟩
  | some v =>
      have hmem : (Yaml.Value.str key, v) ∈ d.entries := Yaml.Entries.mem_of_get? hget
      have hv : v.Sayable := by
        cases hfits.sayable with
        | map _ hvalues _ => exact hvalues _ hmem
      constructor
      · exact hv.single key
      · rw [Option.getD_some, Snippet.height_entries]
        exact Nat.le_trans (Yaml.Value.height_lt_of_mem hmem) hfits.height

/-!
## Texts by example
-/

theorem ofText_alias :
    Yaml.Value.ofText "b: &a !t [x]\npipelines: *a" =
      .ok (.map [(.str "b", .tagged ⟨"t"⟩ (.seq [.str "x"])),
        (.str "pipelines", .tagged ⟨"t"⟩ (.seq [.str "x"]))]) := by
  apply Yaml.Value.ofText_of_ofTextWithin 20
  · cbv
  · rfl

theorem ofText_comma :
    Yaml.Value.ofText "pipelines: !<!a,b> x" =
      .ok (.map [(.str "pipelines", .tagged ⟨"a,b"⟩ (.str "x"))]) := by
  apply Yaml.Value.ofText_of_ofTextWithin 20
  · cbv
  · rfl

theorem ofText_commaEnds :
    exists f, Yaml.Value.ofText "pipelines: !a,b x\n" = .error f := by
  refine ⟨?_, ?_⟩
  rotate_left
  · apply Yaml.Value.ofText_of_ofTextWithin 20
    · cbv
    · rfl

theorem ofText_bangs :
    Yaml.Value.ofText "pipelines: !<!!!a> x" =
      .ok (.map [(.str "pipelines", .tagged ⟨"!a"⟩ (.str "x"))]) := by
  apply Yaml.Value.ofText_of_ofTextWithin 20
  · cbv
  · rfl

theorem ofText_bang :
    Yaml.Value.ofText "pipelines: !a x\n" =
      .ok (.map [(.str "pipelines", .tagged ⟨"a"⟩ (.str "x"))]) := by
  apply Yaml.Value.ofText_of_ofTextWithin 20
  · cbv
  · rfl

theorem ofText_taggedKey :
    Yaml.Value.ofText "pipelines: \x7b!a b: c\x7d" =
      .ok (.map [(.str "pipelines", .map [(.tagged ⟨"a"⟩ (.str "b"), .str "c")])]) := by
  apply Yaml.Value.ofText_of_ofTextWithin 20
  · cbv
  · rfl

/-!
## Read again
-/

theorem parse_eq_of_ofText {text : String} (hcontent : hasContent text = true) (path : Path)
    {entries : Yaml.Entries} (h : Yaml.Value.ofText text = .ok (.map entries)) :
    Document.parse text path = .ok ⟨path, entries⟩ := by
  rw [Document.parse, h, hcontent]
  rfl

/-- A section can be written where no end in it lacks a start, and what was written says the section
and nothing else if the tags in it are read back.  A key that looks like a comment may hide it. -/
theorem reread_snippet {text : String} {path : Path} {d : Document}
    (h : Document.parse text path = .ok d) (key : String) (path' : Path) :
    ((exists out, (d.snippet key).toText = .ok out) <->
        (d.snippet key).value.strayEnds false = 0) ∧
      forall out, (d.snippet key).toText = .ok out -> (d.snippet key).value.TagsReadable ->
        Yaml.Value.ofText out = .ok (.map [(.str key, (d.snippet key).value)]) ∧
          (Snippet.startsAsComment key.toList = false ∨ hasContent out = true ->
            Document.parse out path' = .ok ⟨path', [(.str key, (d.snippet key).value)]⟩) := by
  have hfits := fits_snippet h key
  have htext : forall out, (d.snippet key).toText = .ok out <->
      (d.snippet key).value.strayEnds false = 0 ∧ out = String.ofList (Yaml.Layout.documentText
        (Yaml.Value.map (d.snippet key).entries).draft) := by
    intro out
    rw [← Yaml.Value.strayEnds_single key]
    exact Yaml.Value.Sayable.toText_eq_ok_iff hfits.sayable
  constructor
  · simp only [htext]
    constructor
    · rintro ⟨out, hends, -⟩
      exact hends
    · intro hends
      exact ⟨_, hends, rfl⟩
  · intro out hout htags
    rcases (htext out).mp hout with ⟨-, rfl⟩
    have hread : Yaml.Value.ofText (String.ofList (Yaml.Layout.documentText
        (Yaml.Value.map (d.snippet key).entries).draft)) =
        .ok (.map [(.str key, (d.snippet key).value)]) :=
      hfits.sayable.ofText_documentText (htags.single key) hfits.height
    constructor
    · exact hread
    · rintro (hkey | hcontent)
      · exact parse_eq_of_ofText (Snippet.hasContent_toText hkey) path' hread
      · exact parse_eq_of_ofText hcontent path' hread

theorem reread_snippet_alias :
    exists d, Document.parse "b: &a !t [x]\npipelines: *a" (Path.ofString "p.yaml") = .ok d ∧
      (d.snippet "pipelines").toText = .ok "pipelines: !t\n- x\n" ∧
      Document.parse "pipelines: !t\n- x\n" (Path.ofString "s.yaml") =
        .ok ⟨Path.ofString "s.yaml", [(.str "pipelines", .tagged ⟨"t"⟩ (.seq [.str "x"]))]⟩ := by
  have hparse := parse_eq_of_ofText (by cbv) (Path.ofString "p.yaml") ofText_alias
  have hround := reread_snippet hparse "pipelines" (Path.ofString "s.yaml")
  have htags : (Yaml.Value.tagged ⟨"t"⟩ (.seq [.str "x"])).TagsReadable := by
    intro t ht
    rw [show t = ⟨"t"⟩ from List.mem_singleton.mp ht]
    rfl
  have hreread := (hround.2 _ rfl htags).2 (Or.inl rfl)
  exact ⟨_, hparse, rfl, hreread⟩

/-- A comma ends a tag, exclamation marks in front of a name are lost, and a tagged key takes the
start of the mapping around it. -/
theorem reread_snippet_fails :
    (exists d, Document.parse "pipelines: !<!a,b> x" (Path.ofString "p.yaml") = .ok d ∧
        (d.snippet "pipelines").toText = .ok "pipelines: !a,b x\n" ∧
        exists f, Document.parse "pipelines: !a,b x\n" (Path.ofString "s.yaml") = .error f) ∧
      (exists d d', Document.parse "pipelines: !<!!!a> x" (Path.ofString "p.yaml") = .ok d ∧
        (d.snippet "pipelines").toText = .ok "pipelines: !a x\n" ∧
        Document.parse "pipelines: !a x\n" (Path.ofString "s.yaml") = .ok d' ∧
        d'.get? "pipelines" ≠ d.get? "pipelines") ∧
      exists d, Document.parse "pipelines: \x7b!a b: c\x7d" (Path.ofString "p.yaml") = .ok d ∧
        (d.snippet "pipelines").toText = .error .strayEnd := by
  refine ⟨?comma, ?bangs, ?taggedKey⟩
  case comma =>
    refine ⟨_, parse_eq_of_ofText (by cbv) _ ofText_comma, rfl, ?_⟩
    rcases ofText_commaEnds with ⟨f, hf⟩
    exists .unreadable (Path.ofString "s.yaml") f
    rw [Document.parse, hf]
    rfl
  case bangs =>
    have hbangs := parse_eq_of_ofText (by cbv) (Path.ofString "p.yaml") ofText_bangs
    have hbang := parse_eq_of_ofText (by cbv) (Path.ofString "s.yaml") ofText_bang
    refine ⟨_, _, hbangs, rfl, hbang, ?_⟩
    simp [get?, Yaml.Entries.get?]
  case taggedKey => exact ⟨_, parse_eq_of_ofText (by cbv) _ ofText_taggedKey, rfl⟩

end Document
end Clippings
