import Clippings.Proofs.Yaml.NullOctet
import Clippings.Proofs.Yaml.Scalar.Tag
import Clippings.Yaml.Draft
import Clippings.Yaml.Value.Reader

/-!
# Tags that survive

The writer spells a tag with an exclamation mark in front, unless the name brings its own.  Where
that is read as the tag again is a matter of the name alone.
-/

namespace Clippings
namespace Yaml

namespace Tag

/-- The spelling of the tag is read back as the tag.  Commas and square brackets are written as they
are and end the tag where it is read; an exclamation mark in front of a name is not taken for a part
of it. -/
def isReadable (t : Tag) : Bool :=
  t.name.toList.all (fun c => !TagSpelling.isBracketed c) &&
    (t.name.toList.head? != some '!' || t.name == "!")

theorem spelling_cases {t : Tag} (hname : t.name ≠ "") (h : t.isReadable = true) :
    (t = ⟨"!"⟩ ∧ Pending.spelling t = [33]) ∨
      exists c cs, t = ⟨String.ofList (c :: cs)⟩ ∧ c ≠ '!' ∧
        Pending.spelling t = 33 :: (c :: cs).flatMap String.utf8EncodeChar := by
  rcases t with ⟨name⟩
  obtain ⟨cs, rfl⟩ : exists cs, name = String.ofList cs := ⟨name.toList, by simp⟩
  cases cs with
  | nil => exact absurd rfl hname
  | cons c cs =>
      by_cases hc : c = '!'
      · subst hc
        rw [isReadable, Bool.and_eq_true, Bool.or_eq_true] at h
        have hbang : String.ofList ('!' :: cs) = "!" := by simpa using h.2
        rw [hbang]
        exact Or.inl ⟨rfl, rfl⟩
      · refine Or.inr ⟨c, cs, rfl, hc, ?_⟩
        rw [Pending.spelling, String.toList_ofList]
        simp only [List.head?_cons, Option.some_beq_some, beq_eq_false_iff_ne.mpr hc,
          Bool.false_eq_true, if_false]
        rfl

theorem legible_spelling {t : Tag} (hname : t.name ≠ "") (hnull : '\x00' ∉ t.name.toList)
    (h : t.isReadable = true) :
    TagSpelling.Legible (Pending.spelling t) := by
  rcases spelling_cases hname h with ⟨-, hspelling⟩ | ⟨c, cs, rfl, -, hspelling⟩
  · refine ⟨[], hspelling, ?_⟩
    intro c hc
    cases hc
  · refine ⟨c :: cs, hspelling, ?_⟩
    rw [isReadable, Bool.and_eq_true, String.toList_ofList, List.all_eq_true] at h
    rw [String.toList_ofList] at hnull
    intro d hd
    constructor
    · simpa using h.1 d hd
    · rintro rfl
      exact hnull hd

end Tag

namespace Tree

theorem fromUTF8?_encode (name : List Char) :
    String.fromUTF8? (ByteArray.mk (name.flatMap String.utf8EncodeChar).toArray) =
      some (String.ofList name) := by
  have hbytes : ByteArray.mk (name.flatMap String.utf8EncodeChar).toArray =
      (String.ofList name).toByteArray := by
    rw [String.toByteArray_ofList, List.utf8Encode]
    apply ByteArray.ext
    rw [List.data_toByteArray]
  rw [hbytes, String.fromUTF8?, dif_pos (String.ofList name).isValidUTF8]
  rfl

theorem localTag?_spelling {t : Tag} (hname : t.name ≠ "") (h : t.isReadable = true) :
    localTag? (some (Pending.spelling t)) = some t := by
  rcases Tag.spelling_cases hname h with ⟨rfl, hspelling⟩ | ⟨c, cs, rfl, hc, hspelling⟩
  · have hbang := fromUTF8?_encode ['!']
    rw [hspelling, localTag?, localName?]
    simp only [beq_self_eq_true, if_true, List.isEmpty_nil]
    rw [show [(33 : UInt8)] = ['!'].flatMap String.utf8EncodeChar from rfl, hbang]
    rfl
  · have hempty : ((c :: cs).flatMap String.utf8EncodeChar).isEmpty = false := by
      rcases TagSpelling.exists_encode (List.cons_ne_nil c cs) with ⟨b, rest, hencode⟩
      rw [hencode]
      rfl
    rw [hspelling, localTag?, localName?]
    simp only [beq_self_eq_true, if_true, hempty, Bool.false_eq_true, if_false, fromUTF8?_encode,
      Option.map_some, Tag.ofText, String.toList_ofList]
    split
    · rename_i heq
      cases heq
      exact absurd rfl hc
    · rfl

theorem encode_of_fromUTF8? {octets : List UInt8} {s : String}
    (h : String.fromUTF8? (ByteArray.mk octets.toArray) = some s) :
    s.toList.flatMap String.utf8EncodeChar = octets := by
  unfold String.fromUTF8? at h
  split at h
  · injection h with h
    have hbytes : s.toList.utf8Encode = ByteArray.mk octets.toArray := by
      rw [← String.toByteArray_ofList, String.ofList_toList, ← h]
      rfl
    have hdata := congrArg (fun bytes : ByteArray => bytes.data.toList) hbytes
    simpa [List.utf8Encode, List.data_toByteArray] using hdata
  · cases h

theorem octets_of_localTag? {tag : Option Octets} {t : Tag} (h : localTag? tag = some t) :
    exists octets text, tag = some octets ∧ t = Tag.ofText text ∧ text ≠ "" ∧
      forall b, b ∈ text.toList.flatMap String.utf8EncodeChar -> b ∈ octets := by
  rw [localTag?, Option.map_eq_some_iff] at h
  rcases h with ⟨text, htext, rfl⟩
  unfold localName? at htext
  split at htext
  · rename_i b rest
    split at htext
    · have hencode := encode_of_fromUTF8? htext
      refine ⟨b :: rest, text, rfl, rfl, ?_, ?_⟩
      · rintro rfl
        cases rest <;> cases hencode
      · rw [hencode]
        intro c hc
        cases rest with
        | nil => exact hc
        | cons b' rest => exact List.mem_cons_of_mem b hc
    · cases htext
  · cases htext

theorem name_of_localTag? {tag : Option Octets} {t : Tag} (h : localTag? tag = some t) :
    t.name ≠ "" := by
  rcases octets_of_localTag? h with ⟨octets, text, -, rfl, hne, -⟩
  unfold Tag.ofText
  split
  · simp
  · exact hne

theorem null_not_mem_of_localTag? {tag : Option Octets} (htag : Yaml.NullFree tag) {t : Tag}
    (h : localTag? tag = some t) :
    '\x00' ∉ t.name.toList := by
  rcases octets_of_localTag? h with ⟨octets, text, rfl, rfl, -, hmem⟩
  have htext : '\x00' ∉ text.toList := by
    intro hnull
    refine htag octets rfl (hmem 0 ?_)
    exact List.mem_flatMap.mpr ⟨'\x00', hnull, by decide⟩
  unfold Tag.ofText
  split
  · rename_i heq
    rw [heq] at htext
    rw [String.toList_ofList]
    exact fun h => htext (List.mem_cons_of_mem _ h)
  · exact htext

end Tree

/-!
## The tags of a value
-/

namespace Value

mutual
def tags : Value -> List Tag
  | seq items => tagsOfItems items
  | map entries => tagsOfEntries entries
  | tagged t v => t :: tags v
  | _ => []
def tagsOfItems : List Value -> List Tag
  | [] => []
  | v :: rest => tags v ++ tagsOfItems rest
def tagsOfEntries : List (Value × Value) -> List Tag
  | [] => []
  | (k, v) :: rest => tags k ++ tags v ++ tagsOfEntries rest
end

def TagsReadable (v : Value) : Prop :=
  forall t, t ∈ v.tags -> t.isReadable = true

theorem TagsReadable.item {items : List Value} (h : (seq items).TagsReadable) {v : Value}
    (hv : v ∈ items) :
    v.TagsReadable := by
  have hmem : forall t, t ∈ v.tags -> t ∈ tagsOfItems items := by
    intro t ht
    clear h
    induction items with
    | nil => cases hv
    | cons w items ih =>
        rw [tagsOfItems, List.mem_append]
        rcases List.mem_cons.mp hv with rfl | hv
        · exact Or.inl ht
        · exact Or.inr (ih hv)
  exact fun t ht => h t (hmem t ht)

theorem TagsReadable.entry {entries : Entries} (h : (map entries).TagsReadable)
    {e : Value × Value} (he : e ∈ entries) :
    e.1.TagsReadable ∧ e.2.TagsReadable := by
  have hmem : forall t, t ∈ e.1.tags ++ e.2.tags -> t ∈ tagsOfEntries entries := by
    intro t ht
    clear h
    induction entries with
    | nil => cases he
    | cons e' entries ih =>
        rw [tagsOfEntries, List.mem_append]
        rcases List.mem_cons.mp he with rfl | he
        · exact Or.inl ht
        · exact Or.inr (ih he)
  constructor
  · intro t ht
    exact h t (hmem t (List.mem_append_left _ ht))
  · intro t ht
    exact h t (hmem t (List.mem_append_right _ ht))

theorem TagsReadable.inner {t : Tag} {v : Value} (h : (tagged t v).TagsReadable) :
    t.isReadable = true ∧ v.TagsReadable := by
  constructor
  · exact h t List.mem_cons_self
  · intro t' ht'
    exact h t' (List.mem_cons_of_mem t ht')

end Value
end Yaml
end Clippings
