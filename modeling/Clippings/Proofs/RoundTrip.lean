import Clippings.Document
import Clippings.Proofs.Yaml.Printable
import Clippings.Proofs.Yaml.Reading

/-!
# Written and read back

A snippet of a value without tags can be written unless a mapping of one entry has such a mapping
for its key.  What was written reads back as the document with that one entry.
-/

namespace Clippings
namespace Yaml
namespace Value

/-!
## Mappings
-/

theorem untagged_single {k v : Value} (hk : k.Untagged) (hv : v.Untagged) :
    (Value.map [(k, v)]).Untagged := by
  apply Untagged.map
  · intro e he
    rw [List.mem_singleton.mp he]
    exact hk
  · intro e he
    rw [List.mem_singleton.mp he]
    exact hv
  · exact List.pairwise_singleton _ _

theorem documentText_mapping (e : Value × Value) (entries : Entries) :
    Layout.documentText (Value.map (e :: entries)).draft =
      Layout.columnFromHere 0 (Layout.entryTexts 0 (entryDrafts (e :: entries))) := by
  have htexts : Layout.entryTexts 0 (entryDrafts (e :: entries)) ≠ [] := by
    rw [entryDrafts, Layout.entryTexts]
    simp
  rw [draft, draftWith, entryDrafts, Layout.documentText]
  · change [] ++ Layout.column 0 (Layout.entryTexts 0 (entryDrafts (e :: entries))) = _
    rw [Layout.column_eq 0 htexts]
    rfl
  · simp

/-- The text of a mapping with entries says that mapping. -/
theorem Sayable.ofText_documentText {e : Value × Value} {entries : Entries}
    (h : (Value.map (e :: entries)).Sayable) (htags : (Value.map (e :: entries)).TagsReadable)
    (hheight : (Value.map (e :: entries)).height ≤ Tree.maxDepth) :
    Value.ofText (String.ofList (Layout.documentText (Value.map (e :: entries)).draft)) =
      .ok (.map (e :: entries)) := by
  have hsound : (Value.map (e :: entries)).draft.Sound :=
    sound_draftWith h htags TagSpelling.isLegible_none
  have hpaired := paired_entryDrafts (e :: entries)
  have hchildren : forall d, d ∈ entryDrafts (e :: entries) -> d.Sound := by
    rw [draft, draftWith] at hsound
    cases hsound with
    | mapping _ hchildren _ => exact hchildren
  have hkinds : (Value.map (e :: entries)).draft.nodeKinds false false =
      .blockMappingStart :: (Draft.entryKinds (entryDrafts (e :: entries)) ++ [.blockEnd]) := by
    rw [draft, draftWith, entryDrafts, Spot.nodeKinds_collection]
    rfl
  have hclean : Layout.Clean (Layout.documentText (Value.map (e :: entries)).draft) := by
    rw [documentText_mapping]
    exact Layout.clean_columnFromHere (Layout.clean_entryTexts hpaired hchildren
      (fun d hd => Layout.clean_nodeText (hchildren d hd)) 0) 0
  have hcolumn := Spot.column_entries (m := 0) hpaired (by simp [entryDrafts]) hchildren
    (fun d hd => Spot.lexed_of_sound (hchildren d hd))
  rcases Token.ofText_column hcolumn with ⟨tokens, htokens, htokenKinds⟩
  have htokenKinds' : tokens.map (·.kind) =
      (Value.map (e :: entries)).draft.nodeKinds false false ++ [.streamEnd] := by
    rw [htokenKinds, hkinds]
    simp
  rcases Event.ofTokens_document hsound htokenKinds' with ⟨events, hevents, heventKinds⟩
  have hvalue := Tree.value_ofEvents h htags hheight heventKinds
  have htree : Tree.ofText (Layout.documentText (Value.map (e :: entries)).draft) =
      .ok (Tree.ofEvents events none) := by
    rw [Tree.ofText, forbiddenOffset?_of_clean hclean, documentText_mapping]
    simp only [htokens, hevents]
  rw [Value.ofText, String.toList_ofList, htree]
  exact hvalue

theorem ofText_documentText {e : Value × Value} {entries : Entries}
    (h : (Value.map (e :: entries)).Untagged)
    (hheight : (Value.map (e :: entries)).height ≤ Tree.maxDepth) :
    Value.ofText (String.ofList (Layout.documentText (Value.map (e :: entries)).draft)) =
      .ok (.map (e :: entries)) :=
  h.sayable.ofText_documentText h.tagsReadable hheight

end Value
end Yaml

/-!
## Texts with content
-/

namespace Text

theorem splitAt_eq (separator : Char) (cs : List Char) :
    exists pieces, splitAt separator cs = cs.takeWhile (· != separator) :: pieces := by
  induction cs with
  | nil => exact ⟨[], rfl⟩
  | cons c cs ih =>
      rcases ih with ⟨pieces, hpieces⟩
      rw [splitAt, hpieces]
      by_cases hc : c = separator
      · exact ⟨cs.takeWhile (· != separator) :: pieces, by simp [hc]⟩
      · exact ⟨pieces, by simp [hc]⟩

end Text

theorem hasContent_of_line {cs : List Char}
    (h : Line.hasContent (cs.takeWhile (· != '\n')) = true) :
    hasContent (String.ofList cs) = true := by
  rcases Text.splitAt_eq '\n' cs with ⟨pieces, hpieces⟩
  rw [hasContent, String.toList_ofList, hpieces, List.any_cons, h]
  rfl

theorem hasContent_of_first {c : Char} {cs : List Char} (hblank : Text.isBlank c = false)
    (hbreak : c ≠ '\n') (hcomment : c ≠ '#') :
    hasContent (String.ofList (c :: cs)) = true := by
  apply hasContent_of_line
  simp [hbreak, Line.hasContent, hblank, hcomment]

theorem hasContent_of_colon {s rest : List Char} (hline : '\n' ∉ s)
    (h : (s.dropWhile Text.isBlank).head? ≠ some '#') :
    hasContent (String.ofList (s ++ ':' :: rest)) = true := by
  apply hasContent_of_line
  have htake : (s ++ ':' :: rest).takeWhile (· != '\n') =
      s ++ ':' :: rest.takeWhile (· != '\n') := by
    rw [List.takeWhile_append_of_pos]
    · rfl
    · intro c hc
      rw [bne_iff_ne]
      intro heq
      subst heq
      exact hline hc
  rw [htake, Line.hasContent]
  cases hs : s.dropWhile Text.isBlank with
  | nil =>
      rw [List.dropWhile_append, hs]
      rfl
  | cons c cs =>
      rw [List.dropWhile_append, hs]
      rw [hs] at h
      simpa using h

namespace Snippet

/-- The first character is white space outside ASCII, which a plain scalar may start with, and a
comment sign comes next. -/
def startsAsComment (key : List Char) : Bool :=
  key.head?.any (fun c => 128 ≤ c.toNat) && (key.dropWhile Text.isBlank).head? == some '#'

theorem not_blank_of_printable {c : Char} (h : Yaml.Character.isPrintable c = true)
    (hloose : Yaml.Style.isLoose c = false) (hc : c.toNat < 128) :
    Text.isBlank c = false := by
  have hspace : c.toNat ≠ 32 := by
    intro hn
    have hc : c = ' ' := Char.toNat_inj.mp hn
    rw [hc] at hloose
    cases hloose
  have hfeed : c ≠ '\n' := by
    intro heq
    subst heq
    cases hloose
  simp only [Yaml.Character.isPrintable, Bool.or_eq_true, Bool.and_eq_true, beq_iff_eq,
    decide_eq_true_eq] at h
  simp only [Text.isBlank, Bool.or_eq_false_iff, Bool.and_eq_false_iff, beq_eq_false_iff_ne,
    decide_eq_false_iff_not]
  have : 32 ≤ c.toNat := by
    rcases h with (((h | h) | h) | h) | h
    · exact absurd h hfeed
    · exact h.1
    · omega
    · omega
    · omega
  omega

theorem head?_dropWhile_of_plain {s : List Char} (hplain : Yaml.Style.plainAllowed s = true)
    (h : startsAsComment s = false) :
    (s.dropWhile Text.isBlank).head? ≠ some '#' := by
  cases s with
  | nil => exact fun h => nomatch h
  | cons c cs =>
      simp only [Yaml.Style.plainAllowed, Bool.not_eq_true', Bool.or_eq_false_iff] at hplain
      rcases hplain with ⟨⟨⟨⟨⟨⟨-, hother⟩, -⟩, hspecial⟩, -⟩, hloose⟩, -⟩
      by_cases hc : 128 ≤ c.toNat
      · simpa [startsAsComment, hc] using h
      · have hprintable := (Yaml.Style.hasSpecial_cons_eq_false hspecial).1
        have hblank := not_blank_of_printable hprintable hloose (Nat.lt_of_not_le hc)
        rw [List.dropWhile_cons_of_neg (by simp [hblank])]
        rintro h
        cases h
        cases hother

theorem hasContent_toText {key : String} {v : Yaml.Value}
    (hkey : startsAsComment key.toList = false) :
    hasContent (String.ofList (Yaml.Layout.documentText
      (Yaml.Value.map (Snippet.mk key v).entries).draft)) = true := by
  rw [entries, Yaml.Value.documentText_mapping]
  rw [Yaml.Value.entryDrafts, Yaml.Layout.entryTexts]
  split
  · rename_i hsimple
    have hline : Yaml.Style.isMultiline key.toList = false := by
      simp only [Yaml.Value.draftWith, Yaml.Value.scalarText, Yaml.Layout.isSimpleKey,
        Bool.and_eq_true] at hsimple
      simpa using hsimple.1
    have hsuits := Yaml.Style.suits_choose true (Yaml.Value.wanted_stringStyle key.toList)
    have hliteral := Yaml.Style.choose_simpleKey_ne_literal (Yaml.Value.stringStyle key.toList)
      key.toList
    simp only [Yaml.Layout.columnFromHere, Yaml.Value.draftWith, Yaml.Value.scalarText,
      Yaml.Layout.keyText, Yaml.Layout.tagSpace, List.nil_append, List.append_assoc,
      List.cons_append]
    generalize Yaml.Style.choose true (Yaml.Value.stringStyle key.toList) key.toList = style at *
    cases hsuits with
    | plain hne hplain =>
        refine hasContent_of_colon ?_ (head?_dropWhile_of_plain hplain hkey)
        intro hfeed
        cases List.any_eq_false.mp hline _ hfeed rfl
    | singleQuoted hsingle hline => exact hasContent_of_first rfl (by decide) (by decide)
    | doubleQuoted => exact hasContent_of_first rfl (by decide) (by decide)
    | literal hblock => exact absurd rfl hliteral
  · exact hasContent_of_first rfl (by decide) (by decide)

/-!
## The round trip
-/

theorem untagged_entries {key : String} {v : Yaml.Value} (hv : v.Untagged) :
    (Yaml.Value.map (Snippet.mk key v).entries).Untagged :=
  Yaml.Value.untagged_single (.str key) hv

theorem clashes_entries (key : String) (v : Yaml.Value) :
    (Yaml.Value.map (Snippet.mk key v).entries).clashes = v.clashes := by
  rw [entries, Yaml.Value.clashes_map]
  simp [Yaml.Value.keyIsSingle, Yaml.Value.isSingle, Yaml.Value.clashesOfEntries,
    Yaml.Value.clashes]

theorem height_entries (key : String) (v : Yaml.Value) :
    (Yaml.Value.map (Snippet.mk key v).entries).height = v.height + 1 := by
  simp [entries, Yaml.Value.height, Yaml.Value.heightOfEntries]

theorem parse_toText (key : String) {v : Yaml.Value} (path : Path) (hv : v.Untagged)
    (hheight : v.height < Yaml.Tree.maxDepth) :
    ((exists text, (Snippet.mk key v).toText = .ok text) <-> v.clashes = 0) ∧
      forall text, (Snippet.mk key v).toText = .ok text ->
        Yaml.Value.ofText text = .ok (.map [(.str key, v)]) ∧
          (startsAsComment key.toList = false ∨ hasContent text = true ->
            Document.parse text path = .ok ⟨path, [(.str key, v)]⟩) := by
  have hentries : (Yaml.Value.map (Snippet.mk key v).entries).Untagged := untagged_entries hv
  have htext : forall text, (Snippet.mk key v).toText = .ok text <->
      v.clashes = 0 ∧ text = String.ofList (Yaml.Layout.documentText
        (Yaml.Value.map (Snippet.mk key v).entries).draft) := by
    intro text
    rw [← clashes_entries key v]
    exact Yaml.Value.toText_eq_ok_iff hentries
  constructor
  · simp only [htext]
    constructor
    · rintro ⟨text, hclashes, -⟩
      exact hclashes
    · intro hclashes
      exact ⟨_, hclashes, rfl⟩
  · intro text h
    rcases (htext text).mp h with ⟨-, rfl⟩
    have hread : Yaml.Value.ofText (String.ofList (Yaml.Layout.documentText
        (Yaml.Value.map (Snippet.mk key v).entries).draft)) = .ok (.map [(.str key, v)]) :=
      Yaml.Value.ofText_documentText hentries
        (Nat.le_trans (Nat.le_of_eq (height_entries key v)) hheight)
    constructor
    · exact hread
    · intro hkey
      have hcontent : hasContent (String.ofList (Yaml.Layout.documentText
          (Yaml.Value.map (Snippet.mk key v).entries).draft)) = true := by
        rcases hkey with hkey | hcontent
        · exact hasContent_toText hkey
        · exact hcontent
      rw [Document.parse, hread, hcontent]
      rfl

theorem parse_toText_collectionKey :
    (Snippet.mk "pipelines" (.map [(.seq [.bool true], .str "null\n")])).toText =
        .ok "pipelines:\n  ? - true\n  : |\n    null\n" ∧
      Document.parse "pipelines:\n  ? - true\n  : |\n    null\n" (Path.ofString "p.yaml") =
        .ok ⟨Path.ofString "p.yaml",
          [(.str "pipelines", .map [(.seq [.bool true], .str "null\n")])]⟩ := by
  have hkey : (Yaml.Value.seq [.bool true]).Untagged := by
    apply Yaml.Value.Untagged.seq
    intro v hv
    rw [List.mem_singleton.mp hv]
    exact .bool true
  have hvalue := Yaml.Value.untagged_single hkey (.str "null\n")
  have hround := parse_toText "pipelines" (Path.ofString "p.yaml") hvalue (by decide)
  rcases hround.1.mpr rfl with ⟨text, htext⟩
  have hline : text = "pipelines:\n  ? - true\n  : |\n    null\n" :=
    ((Yaml.Value.toText_eq_ok_iff (untagged_entries hvalue)).mp htext).2
  rw [hline] at htext
  exact ⟨htext, (hround.2 _ htext).2 (Or.inl rfl)⟩

/-- A mapping of one entry inside the key of another takes the start of the mapping around it, and a
key that looks like a comment hides its line. -/
theorem parse_toText_fails :
    (exists v : Yaml.Value, v.Untagged ∧ v.height < Yaml.Tree.maxDepth ∧
        (Snippet.mk "k" v).toText = .error .strayEnd) ∧
      (Snippet.mk "\u00a0#k" .null).toText = .ok "\u00a0#k: null\n" ∧
      Document.parse "\u00a0#k: null\n" (Path.ofString "p.yaml") =
        .ok ⟨Path.ofString "p.yaml", []⟩ := by
  have hkey := Yaml.Value.untagged_single (.str "a") .null
  have hvalue := Yaml.Value.untagged_single hkey .null
  constructor
  · exact ⟨_, hvalue, by decide, rfl⟩
  · exact ⟨rfl, rfl⟩

end Snippet
end Clippings
