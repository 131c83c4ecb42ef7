import Clippings.Proofs.Yaml.Saying

/-!
# Values inside values

What is inside a value that a text says has the form of such a value, too: no tag stands right in
front of another, and no mapping has a key twice.  Such a value can be written unless a mapping of
one entry inside it loses its start to its key, and that is then the fault.
-/

namespace Clippings
namespace Yaml
namespace Value

def children : Value -> List Value
  | seq items => items
  | map entries => entries.flatMap fun e => [e.1, e.2]
  | tagged _ v => children v
  | _ => []

/-- The first value is the second one or stands inside it, with the tag in front of it. -/
inductive Occurs (w : Value) : Value -> Prop where
  | here : Occurs w w
  | inside {v c : Value} : c ∈ v.children -> Occurs w c -> Occurs w v

theorem children_untag (v : Value) :
    v.untag.children = v.children := by
  fun_induction untag v with
  | case1 t v ih => exact ih
  | case2 => rfl

theorem Occurs.child {v w c : Value} (hw : Occurs w v) (hc : c ∈ w.children) :
    Occurs c v := by
  induction hw with
  | here => exact .inside hc .here
  | inside h _ ih => exact .inside h ih

theorem mem_children_map {entries : Entries} {c : Value} :
    c ∈ (map entries).children <-> exists e, e ∈ entries ∧ (c = e.1 ∨ c = e.2) := by
  simp [children, List.mem_flatMap]

theorem Sayable.of_mem_children {v c : Value} (h : v.Sayable) (hc : c ∈ v.children) :
    c.Sayable := by
  induction h with
  | null | bool | int | float | str => cases hc
  | seq hitems => exact hitems c hc
  | map hkeys hvalues =>
      rcases mem_children_map.mp hc with ⟨e, he, rfl | rfl⟩
      · exact hkeys e he
      · exact hvalues e he
  | tagged _ _ _ _ ih => exact ih hc

theorem Sayable.of_occurs {v w : Value} (h : v.Sayable) (hw : Occurs w v) :
    w.Sayable := by
  induction hw with
  | here => exact h
  | inside hc _ ih => exact ih (h.of_mem_children hc)

theorem Sayable.untagged_inner {t : Tag} {v : Value} (h : (Value.tagged t v).Sayable) :
    v.isTagged = false := by
  cases h with
  | tagged _ _ hv _ => exact hv

theorem Sayable.distinct {v : Value} (h : v.Sayable) {entries : Entries}
    (hv : v.untag = Value.map entries) :
    entries.Pairwise fun e e' => e.1.same e'.1 = false := by
  induction h with
  | null | bool | int | float | str | seq => cases hv
  | map _ _ hdistinct =>
      cases hv
      exact hdistinct
  | tagged _ _ _ _ ih => exact ih hv

/-!
## Lost starts
-/

/-- Somewhere inside is a mapping of one entry without a tag, and its key is such a mapping, too, or
has a tag. -/
def LosesStart (v : Value) : Prop :=
  exists k x, Occurs (map [(k, x)]) v ∧ (k.isSingle = true ∨ k.isTagged = true)

theorem strayEndsOfItems_eq_zero_iff {items : List Value} :
    strayEndsOfItems items = 0 <-> forall v, v ∈ items -> v.strayEnds false = 0 := by
  induction items with
  | nil => simp [strayEndsOfItems]
  | cons v items ih => simp [strayEndsOfItems, Nat.add_eq_zero_iff, ih]

theorem strayEndsOfEntries_eq_zero_iff {entries : Entries} :
    strayEndsOfEntries entries = 0 <->
      forall e, e ∈ entries -> e.1.strayEnds false = 0 ∧ e.2.strayEnds false = 0 := by
  induction entries with
  | nil => simp [strayEndsOfEntries]
  | cons e entries ih =>
      rcases e with ⟨k, v⟩
      simp [strayEndsOfEntries, Nat.add_eq_zero_iff, ih]

theorem strayEnds_eq_zero_iff (announced : Bool) (v : Value) :
    v.strayEnds announced = 0 <->
      (forall entries, v = map entries -> announced = false -> keyTakesStart entries = false) ∧
        forall c, c ∈ v.children -> c.strayEnds false = 0 := by
  fun_induction children v generalizing announced with
  | case1 items => simp [strayEnds, strayEndsOfItems_eq_zero_iff]
  | case2 entries =>
      have hown : (if !announced && keyTakesStart entries then 1 else 0) = 0 <->
          (announced = false -> keyTakesStart entries = false) := by
        cases announced <;> simp
      rw [strayEnds, Nat.add_eq_zero_iff, strayEndsOfEntries_eq_zero_iff, hown]
      simp only [map.injEq, forall_eq', List.mem_flatMap, List.mem_cons, List.not_mem_nil, or_false]
      grind
  | case3 t v ih =>
      rw [strayEnds, ih true]
      simp
  | case4 v hseq hmap htagged =>
      cases v with
      | seq items => exact absurd rfl (hseq items)
      | map entries => exact absurd rfl (hmap entries)
      | tagged t v => exact absurd rfl (htagged t v)
      | _ => simp [strayEnds]

theorem strayEnds_of_occurs {v w : Value} (h : v.strayEnds false = 0) (hw : Occurs w v) :
    w.strayEnds false = 0 := by
  induction hw with
  | here => exact h
  | inside hc _ ih => exact ih (((strayEnds_eq_zero_iff false _).mp h).2 _ hc)

theorem keyTakesStart_eq_false {v : Value} (h : ¬ v.LosesStart) {entries : Entries}
    (hv : v = map entries) :
    keyTakesStart entries = false := by
  subst hv
  match entries with
  | [] => rfl
  | [(k, x)] =>
      rw [keyTakesStart, Bool.or_eq_false_iff, ← Bool.not_eq_true, ← Bool.not_eq_true, ← not_or]
      exact fun hk => h ⟨k, x, .here, hk⟩
  | e :: e' :: rest => rfl

theorem LosesStart.of_child {v c : Value} (h : c.LosesStart) (hc : c ∈ v.children) :
    v.LosesStart := by
  rcases h with ⟨k, x, hoccurs, hk⟩
  exact ⟨k, x, .inside hc hoccurs, hk⟩

theorem strayEnds_of_not_losesStart {v : Value} (h : ¬ v.LosesStart)
    (hchildren : forall c, c ∈ v.children -> c.strayEnds false = 0) :
    v.strayEnds false = 0 :=
  (strayEnds_eq_zero_iff false v).mpr ⟨fun _ hv _ => keyTakesStart_eq_false h hv, hchildren⟩

/-- The induction is on what stands below a value, which is the same with a tag and without. -/
theorem Sayable.strayEnds_children {v : Value} (h : v.Sayable)
    (hkeeps : forall c, c ∈ v.children -> ¬ c.LosesStart) :
    forall c, c ∈ v.children -> c.strayEnds false = 0 := by
  have hstep : forall c : Value, ¬ c.LosesStart ->
      ((forall c', c' ∈ c.children -> ¬ c'.LosesStart) ->
        forall c', c' ∈ c.children -> c'.strayEnds false = 0) -> c.strayEnds false = 0 := by
    intro c hc ih
    exact strayEnds_of_not_losesStart hc (ih fun c' hc' hloses => hc (hloses.of_child hc'))
  induction h with
  | null | bool | int | float | str => exact fun c hc => nomatch hc
  | seq _ ih => exact fun c hc => hstep c (hkeeps c hc) (ih c hc)
  | map _ _ _ ihkeys ihvalues =>
      intro c hc
      apply hstep c (hkeeps c hc)
      rcases mem_children_map.mp hc with ⟨e, he, rfl | rfl⟩
      · exact ihkeys e he
      · exact ihvalues e he
  | tagged _ _ _ _ ih => exact ih hkeeps

/-- A value has stray ends exactly if a start inside it is lost. -/
theorem Sayable.strayEnds_eq_zero_iff {v : Value} (h : v.Sayable) :
    v.strayEnds false = 0 <-> ¬ v.LosesStart := by
  constructor
  · rintro hends ⟨k, x, hoccurs, hk⟩
    have hzero := ((Value.strayEnds_eq_zero_iff false _).mp
      (strayEnds_of_occurs hends hoccurs)).1 _ rfl rfl
    rw [keyTakesStart, Bool.or_eq_false_iff] at hzero
    rcases hk with hk | hk
    · rw [hzero.1] at hk
      cases hk
    · rw [hzero.2] at hk
      cases hk
  · intro hkeeps
    exact strayEnds_of_not_losesStart hkeeps
      (h.strayEnds_children fun c hc hloses => hkeeps (hloses.of_child hc))

/-!
## Faults
-/

theorem error_not_mem_walkItems {items : List Value} {f : WriteFault}
    (h : forall v, v ∈ items -> .error f ∉ v.walk .nothing) :
    .error f ∉ walkItems items := by
  induction items with
  | nil => exact List.not_mem_nil
  | cons v items ih =>
      rw [walkItems, List.mem_append, not_or]
      constructor
      · exact h v List.mem_cons_self
      · exact ih fun w hw => h w (List.mem_cons_of_mem v hw)

theorem error_not_mem_walkEntries {entries : Entries} {f : WriteFault}
    (h : forall e, e ∈ entries -> .error f ∉ e.1.walk .nothing ∧ .error f ∉ e.2.walk .nothing) :
    .error f ∉ walkEntries entries := by
  induction entries with
  | nil => exact List.not_mem_nil
  | cons e entries ih =>
      rcases e with ⟨k, v⟩
      rw [walkEntries, List.mem_append, List.mem_append, not_or, not_or]
      rcases h (k, v) List.mem_cons_self with ⟨hk, hv⟩
      have hrest := ih fun e he => h e (List.mem_cons_of_mem (k, v) he)
      exact ⟨hk, hv, hrest⟩

theorem Sayable.error_not_mem_walk {v : Value} (h : v.Sayable) {p : Pending}
    (hp : p.isTag = true -> v.isTagged = false) (f : WriteFault) :
    .error f ∉ v.walk p := by
  have huntagged : forall (p : Pending) (v : Value), p.isTag = false ->
      p.isTag = true -> v.isTagged = false := by
    intro p v hfalse htrue
    rw [hfalse] at htrue
    cases htrue
  induction h generalizing p with
  | null | bool | int | float | str => simp [walk]
  | seq _ ih =>
      have hitems := error_not_mem_walkItems fun v hv => ih v hv (huntagged .nothing v rfl)
      simp [walk, hitems]
  | map _ _ _ ihkeys ihvalues =>
      rename_i entries _ _ _
      have hentries := error_not_mem_walkEntries fun e he =>
        ⟨ihkeys e he (huntagged .nothing _ rfl), ihvalues e he (huntagged .nothing _ rfl)⟩
      rcases entries with _ | ⟨⟨k, x⟩, _ | ⟨e', rest⟩⟩
      · simp [walk, hentries]
      · have hkey := fun p hp =>
          ihkeys (k, x) (List.mem_singleton_self _) (huntagged p k hp)
        have hvalue := ihvalues (k, x) (List.mem_singleton_self _) (huntagged .nothing x rfl)
        cases p <;> simp [walk, Pending.isTag, hvalue, hkey .mapping rfl, hkey .taggedMapping rfl]
      · simp [walk, hentries]
  | tagged _ _ hv _ ih =>
      cases htag : p.isTag with
      | true => cases hp htag
      | false => simpa [walk, htag] using ih (p := .tag _) fun _ => hv

theorem gather_eq_error {frames : List Draft.Frame} {document : Option Draft}
    {events : List (Except WriteFault Event)} {f : WriteFault}
    (h : Draft.gather frames document events = .error f) :
    f = .strayEnd ∨ .error f ∈ events := by
  fun_induction Draft.gather frames document events with
  | case1 => cases h
  | case2 | case7 | case8 =>
      cases h
      exact Or.inl rfl
  | case3 =>
      cases h
      exact Or.inr List.mem_cons_self
  | case4 _ _ _ _ _ _ _ _ _ ih => exact (ih h).imp_right (List.mem_cons_of_mem _)
  | case5 _ _ _ _ _ ih => exact (ih h).imp_right (List.mem_cons_of_mem _)
  | case6 _ _ _ _ _ _ _ _ _ ih => exact (ih h).imp_right (List.mem_cons_of_mem _)
  | case9 _ _ _ _ _ _ _ ih => exact (ih h).imp_right (List.mem_cons_of_mem _)

theorem Sayable.toText_cases {v : Value} (h : v.Sayable) :
    ((exists text, v.toText = .ok text) ∧ ¬ v.LosesStart) ∨
      (v.toText = .error .strayEnd ∧ v.LosesStart) := by
  by_cases hends : v.strayEnds false = 0
  · exact Or.inl ⟨⟨_, h.toText_eq_ok_iff.mpr ⟨hends, rfl⟩⟩, h.strayEnds_eq_zero_iff.mp hends⟩
  · rw [h.strayEnds_eq_zero_iff, Classical.not_not] at hends
    refine Or.inr ⟨?_, hends⟩
    cases hd : Draft.ofValue v with
    | ok d => exact absurd hends (h.strayEnds_eq_zero_iff.mp (h.ofValue_eq_ok_iff.mp hd).1)
    | error f =>
        have hf : f = .strayEnd :=
          (gather_eq_error hd).resolve_right (h.error_not_mem_walk (p := .nothing) nofun f)
        rw [toText, hd, hf]
        rfl

end Value
end Yaml
end Clippings
