import Mathlib
import Clippings.Program
import Clippings.Proofs.Host.View
import Clippings.Proofs.Text.Utf8
import Clippings.Proofs.Yaml.Saying
import Clippings.Proofs.Yaml.Steps
import Clippings.Session

/-!
# Flags, settings file, defaults

Every setting is settled by itself: the flag's value is in force, or else that of the settings file,
or else the default.  The whole file is read before any flag counts, so a value that a setting
cannot have is an error also under a flag.
-/

namespace Clippings

open Yaml (Value Entries)

/-!
## Values that a setting can have
-/

inductive Policy.SaidBy (p : Policy) : Value -> Prop where
  | name : SaidBy p (.str p.name)
  | tag : SaidBy p (.tagged ⟨p.name⟩ .null)

theorem Policy.ofName_eq_ok {name : String} {p : Policy} :
    ofName name = .ok p <-> p.name = name := by
  constructor
  · intro h
    unfold ofName at h
    split at h
    · rename_i q hq
      cases h
      simpa using List.find?_some hq
    · cases h
  · rintro rfl
    cases p <;> rfl

theorem Policy.ofValue_eq_ok {v : Value} {p : Policy} :
    ofValue v = .ok p <-> p.SaidBy v := by
  constructor
  · intro h
    unfold ofValue at h
    split at h
    · rw [← ofName_eq_ok.mp h]
      exact .name
    · rename_i tag w
      split at h
      · cases h
      · rename_i q hq
        split at h
        · cases h
          rw [show tag = ⟨p.name⟩ by rw [ofName_eq_ok.mp hq]]
          exact .tag
        · cases h
    · cases h
  · intro h
    cases h <;> cases p <;> rfl

namespace Choices

def textOf? (v : Value) : Option String :=
  match v.untag with
  | .str s => some s
  | _ => none

theorem textOf?_eq_some {v : Value} {s : String} :
    textOf? v = some s <-> v.untag = .str s := by
  unfold textOf?
  cases v.untag <;> simp

theorem stringOf_cases (expected : String) (v : Value) :
    (exists s, textOf? v = some s ∧ stringOf expected v = .ok s) ∨
      (textOf? v = none ∧ exists complaint, stringOf expected v = .error complaint) := by
  unfold stringOf textOf?
  cases v.untag <;> simp

namespace Field

def Takes : Field -> Value -> Prop
  | policy, v => exists p : Policy, p.SaidBy v
  | _, v => exists s, v.untag = .str s

theorem name_injective : Function.Injective name := by
  intro f g h
  cases f <;> cases g <;> first | rfl | exact absurd h (by decide)

theorem ofName?_eq_some {name : String} {field : Field} :
    ofName? name = some field <-> field.name = name := by
  constructor
  · intro h
    simpa using List.find?_some h
  · rintro rfl
    cases field <;> rfl

end Field

/-!
## The choices of a mapping
-/

def textAt (entries : Entries) (field : Field) : Option String :=
  (entries.get? field.name).bind textOf?

def policyAt (entries : Entries) : Option Policy :=
  (entries.get? Field.policy.name).bind fun v => (Policy.ofValue v).toOption

def reading (c : Choices) (entries : Entries) : Choices :=
  ⟨((textAt entries .inputDirectory).map Path.ofString).or c.inputDirectory,
    ((textAt entries .outputDirectory).map Path.ofString).or c.outputDirectory,
    (textAt entries .pattern).or c.pattern, (textAt entries .key).or c.key,
    (policyAt entries).or c.policy⟩

/-- A setting has an entry with a value that it cannot have. -/
def Misfit (entries : Entries) : Prop :=
  exists (field : Field) (v : Value), entries.get? field.name = some v ∧ ¬ field.Takes v

theorem get?_cons_self (key : String) (v : Value) (rest : Entries) :
    Entries.get? ((.str key, v) :: rest) key = some v := by
  rw [Entries.get?, if_pos (beq_self_eq_true key)]

theorem get?_cons_of_ne {key other : String} (h : key ≠ other) (v : Value) (rest : Entries) :
    Entries.get? ((.str key, v) :: rest) other = Entries.get? rest other := by
  rw [Entries.get?, if_neg (by simpa using h)]

theorem get?_eq_none {key : String} {entries : Entries}
    (h : forall e, e ∈ entries -> (Value.str key).same e.1 = false) :
    entries.get? key = none := by
  induction entries with
  | nil => rfl
  | cons e rest ih =>
      have hrest := ih (fun e he => h e (List.mem_cons_of_mem _ he))
      rcases e with ⟨k, v⟩
      cases k with
      | str other =>
          have hne : other ≠ key := by
            rintro rfl
            have := h _ List.mem_cons_self
            simp [Value.same] at this
          rw [get?_cons_of_ne hne, hrest]
      | _ => exact hrest

theorem get?_cons_of_unknown {key : String} (h : Field.ofName? key = none) (v : Value)
    (rest : Entries) (field : Field) :
    Entries.get? ((.str key, v) :: rest) field.name = Entries.get? rest field.name := by
  apply get?_cons_of_ne
  intro heq
  rw [Field.ofName?_eq_some.mpr heq.symm] at h
  cases h

theorem get?_cons_of_other {field other : Field} (h : other ≠ field) (v : Value)
    (rest : Entries) :
    Entries.get? ((.str field.name, v) :: rest) other.name = Entries.get? rest other.name :=
  get?_cons_of_ne (fun heq => h (Field.name_injective heq.symm)) v rest

/-!
## One choice
-/

inductive Chosen (c : Choices) (v : Value) : Field -> Choices -> Prop where
  | inputDirectory {s : String} : textOf? v = some s ->
      Chosen c v .inputDirectory { c with inputDirectory := some (Path.ofString s) }
  | outputDirectory {s : String} : textOf? v = some s ->
      Chosen c v .outputDirectory { c with outputDirectory := some (Path.ofString s) }
  | pattern {s : String} : textOf? v = some s ->
      Chosen c v .pattern { c with pattern := some s }
  | key {s : String} : textOf? v = some s -> Chosen c v .key { c with key := some s }
  | policy {p : Policy} : Policy.ofValue v = .ok p ->
      Chosen c v .policy { c with policy := some p }

theorem choose_cases (c : Choices) (field : Field) (v : Value) :
    (exists c', c.choose field v = .ok c' ∧ Chosen c v field c') ∨
      (¬ field.Takes v ∧ exists complaint, c.choose field v = .error complaint) := by
  have hnoText : textOf? v = none -> ¬ exists s, v.untag = .str s := by
    rintro hnone ⟨s, hs⟩
    rw [textOf?_eq_some.mpr hs] at hnone
    cases hnone
  unfold choose pathOf
  cases field with
  | inputDirectory =>
      rcases stringOf_cases "path string" v with ⟨s, hs, hread⟩ | ⟨hnone, complaint, hread⟩
      · exact Or.inl ⟨_, by rw [hread]; rfl, .inputDirectory hs⟩
      · exact Or.inr ⟨hnoText hnone, complaint, by rw [hread]; rfl⟩
  | outputDirectory =>
      rcases stringOf_cases "path string" v with ⟨s, hs, hread⟩ | ⟨hnone, complaint, hread⟩
      · exact Or.inl ⟨_, by rw [hread]; rfl, .outputDirectory hs⟩
      · exact Or.inr ⟨hnoText hnone, complaint, by rw [hread]; rfl⟩
  | pattern =>
      rcases stringOf_cases "a string" v with ⟨s, hs, hread⟩ | ⟨hnone, complaint, hread⟩
      · exact Or.inl ⟨_, by rw [hread]; rfl, .pattern hs⟩
      · exact Or.inr ⟨hnoText hnone, complaint, by rw [hread]; rfl⟩
  | key =>
      rcases stringOf_cases "a string" v with ⟨s, hs, hread⟩ | ⟨hnone, complaint, hread⟩
      · exact Or.inl ⟨_, by rw [hread]; rfl, .key hs⟩
      · exact Or.inr ⟨hnoText hnone, complaint, by rw [hread]; rfl⟩
  | policy =>
      cases hread : Policy.ofValue v with
      | ok p => exact Or.inl ⟨_, rfl, .policy hread⟩
      | error complaint =>
          refine Or.inr ⟨?_, complaint, rfl⟩
          rintro ⟨p, hp⟩
          rw [Policy.ofValue_eq_ok.mpr hp] at hread
          cases hread

section Chosen

variable {c c' : Choices} {field : Field} {v : Value}

theorem Chosen.takes (h : Chosen c v field c') :
    field.Takes v := by
  cases h with
  | policy hp => exact ⟨_, Policy.ofValue_eq_ok.mp hp⟩
  | inputDirectory hs | outputDirectory hs | pattern hs | key hs =>
      exact ⟨_, textOf?_eq_some.mp hs⟩

theorem Chosen.has (h : Chosen c v field c') {other : Field} (hother : other ≠ field) :
    c'.has other = c.has other := by
  cases h <;> cases other <;> first | rfl | exact absurd rfl hother

theorem Chosen.reading {rest : Entries} (h : Chosen c v field c')
    (hnone : Entries.get? rest field.name = none) :
    c'.reading rest = c.reading ((.str field.name, v) :: rest) := by
  have hself := get?_cons_self field.name v rest
  have hother := fun other (hne : other ≠ field) => get?_cons_of_other hne v rest
  unfold Choices.reading textAt policyAt
  cases h with
  | policy hp => simp [hself, hother, hnone, hp, Except.toOption]
  | inputDirectory hs | outputDirectory hs | pattern hs | key hs =>
      simp [hself, hother, hnone, hs]

theorem Chosen.misfit_iff {rest : Entries} (h : Chosen c v field c')
    (hnone : Entries.get? rest field.name = none) :
    Misfit ((.str field.name, v) :: rest) <-> Misfit rest := by
  constructor
  · rintro ⟨other, w, hget, hw⟩
    by_cases hne : other = field
    · rw [hne, get?_cons_self] at hget
      cases hget
      exact absurd h.takes (hne ▸ hw)
    · exact ⟨other, w, (get?_cons_of_other hne v rest).symm.trans hget, hw⟩
  · rintro ⟨other, w, hget, hw⟩
    have hne : other ≠ field := by
      rintro rfl
      rw [hnone] at hget
      cases hget
    exact ⟨other, w, (get?_cons_of_other hne v rest).trans hget, hw⟩

end Chosen

/-!
## All choices of a mapping
-/

structure Plain (entries : Entries) : Prop where
  keys : forall e, e ∈ entries -> exists key, e.1 = .str key
  distinct : entries.Pairwise fun e e' => e.1.same e'.1 = false

theorem Plain.tail {e : Value × Value} {rest : Entries} (h : Plain (e :: rest)) :
    Plain rest :=
  ⟨fun e' he' => h.keys e' (List.mem_cons_of_mem e he'), h.distinct.of_cons⟩

theorem Plain.get?_eq_none {key : String} {v : Value} {rest : Entries}
    (h : Plain ((.str key, v) :: rest)) :
    Entries.get? rest key = none :=
  Choices.get?_eq_none (List.pairwise_cons.mp h.distinct).1

/-- Reading a mapping fails exactly at a misfit, wherever it stands. -/
theorem ofEntries_cases {entries : Entries} (hplain : Plain entries) (c : Choices)
    (hfresh : forall field : Field, c.has field = true -> entries.get? field.name = none) :
    (¬ Misfit entries ∧ ofEntries c entries = .ok (c.reading entries)) ∨
      (Misfit entries ∧ exists complaint, ofEntries c entries = .error complaint) := by
  induction entries generalizing c with
  | nil =>
      refine Or.inl ⟨?_, rfl⟩
      rintro ⟨field, v, h, -⟩
      cases h
  | cons e rest ih =>
      rcases e with ⟨k, v⟩
      rcases hplain.keys _ List.mem_cons_self with ⟨key, hkey⟩
      simp only at hkey
      subst hkey
      rw [ofEntries, show stringOf "field identifier" (.str key) = .ok key from rfl]
      simp only
      cases hname : Field.ofName? key with
      | none =>
          -- The name stands for no setting, so the rest says the same.
          have hsame := get?_cons_of_unknown hname v rest
          have hmisfit : Misfit ((.str key, v) :: rest) <-> Misfit rest := by
            simp only [Misfit, hsame]
          have hreading : c.reading ((.str key, v) :: rest) = c.reading rest := by
            simp only [reading, textAt, policyAt, hsame]
          rw [hmisfit, hreading]
          apply ih hplain.tail
          intro field hfield
          exact (hsame field).symm.trans (hfresh field hfield)
      | some field =>
          have hkey := Field.ofName?_eq_some.mp hname
          subst hkey
          have hnone := hplain.get?_eq_none
          have hself := get?_cons_self field.name v rest
          have hhas : c.has field = false := by
            rw [Bool.eq_false_iff]
            intro hhas
            rw [hfresh field hhas] at hself
            cases hself
          simp only [hhas, Bool.false_eq_true, if_false]
          rcases choose_cases c field v with ⟨c', hchoose, hchosen⟩ | ⟨hnot, complaint, hchoose⟩
          · rw [hchoose, ← hchosen.reading hnone, hchosen.misfit_iff hnone]
            apply ih hplain.tail
            intro other hhas'
            by_cases hne : other = field
            · rw [hne, hnone]
            · rw [hchosen.has hne] at hhas'
              exact (get?_cons_of_other hne v rest).symm.trans (hfresh other hhas')
          · rw [hchoose]
            exact Or.inr ⟨⟨field, v, hself, hnot⟩, complaint, rfl⟩

theorem ofValue_cases {entries : Entries} (hplain : Plain entries) :
    (¬ Misfit entries ∧ ofValue (.map entries) = .ok (empty.reading entries)) ∨
      (Misfit entries ∧ exists complaint, ofValue (.map entries) = .error complaint) := by
  apply ofEntries_cases hplain
  intro field hfield
  cases field <;> cases hfield

theorem plain_of_ofText {text : String} {entries : Entries}
    (h : Value.ofText text = .ok (.map entries))
    (hkeys : forall e, e ∈ entries -> exists key, e.1 = .str key) :
    Plain entries := by
  cases (Value.fits_ofText h).sayable with
  | map _ _ hdistinct => exact ⟨hkeys, hdistinct⟩

theorem not_misfit_nil :
    ¬ Misfit [] := by
  rintro ⟨field, v, h, -⟩
  cases h

end Choices

namespace Program

open Host (outcome)
open Storage (Tree)

/-!
## The settings file
-/

/-- The entries of the settings file, if there is one.  A file that says nothing has none. -/
inductive Supplies (t : Tree) (root : Path) : Option Path -> Entries -> Prop where
  | noFile : Supplies t root none []
  | noContent {file : Path} {text : String} :
      t.read (root.join file) = .ok (Text.Utf8.encode text.toList) ->
      hasContent text = false ->
      Supplies t root (some file) []
  | null {file : Path} {text : String} {v : Value} :
      t.read (root.join file) = .ok (Text.Utf8.encode text.toList) ->
      Value.ofText text = .ok v -> v.isNull = true ->
      Supplies t root (some file) []
  | mapping {file : Path} {text : String} {entries : Entries} :
      t.read (root.join file) = .ok (Text.Utf8.encode text.toList) ->
      hasContent text = true -> Value.ofText text = .ok (.map entries) ->
      (forall e, e ∈ entries -> exists key, e.1 = .str key) ->
      Supplies t root (some file) entries

theorem outcome_loadSettings {s : Session} {path : Path} {octets : List UInt8}
    (h : s.files.read path = .ok octets) :
    outcome (loadSettings path) s =
      ((Choices.ofOctets octets path).map Settings.default.choosing, s) := by
  have hload : outcome (loadChoices path) s = (Choices.ofOctets octets path, s) := by
    have hread : outcome (Host.read path) s = (.ok octets, s) := by
      rw [← h]
      rfl
    unfold loadChoices
    rw [Host.outcome_bind, hread]
    rfl
  unfold loadSettings
  rw [Host.outcome_bind, hload]
  cases Choices.ofOctets octets path <;> rfl

theorem ofOctets_encode (text : String) (path : Path) :
    Choices.ofOctets (Text.Utf8.encode text.toList) path = Choices.ofText text path := by
  rw [Choices.ofOctets, Text.Utf8.decode_eq_ok_iff.mpr rfl]
  simp only [String.ofList_toList]

theorem outcome_loadSettings_of_supplies {s : Session} {root file : Path} {entries : Entries}
    (h : Supplies s.files root (some file) entries) :
    (¬ Choices.Misfit entries ∧ outcome (loadSettings (root.join file)) s =
        (.ok (Settings.default.choosing (Choices.empty.reading entries)), s)) ∨
      (Choices.Misfit entries ∧
        exists f, outcome (loadSettings (root.join file)) s = (.error f, s)) := by
  cases h with
  | noContent hread hcontent =>
      refine Or.inl ⟨Choices.not_misfit_nil, ?_⟩
      rw [outcome_loadSettings hread, ofOctets_encode, Choices.ofText, hcontent]
      rfl
  | null hread hvalue hnull =>
      refine Or.inl ⟨Choices.not_misfit_nil, ?_⟩
      rw [outcome_loadSettings hread, ofOctets_encode, Choices.ofText, hvalue]
      simp only [hnull, if_true]
      split <;> rfl
  | mapping hread hcontent hvalue hkeys =>
      rw [outcome_loadSettings hread, ofOctets_encode, Choices.ofText, hcontent, hvalue]
      rcases Choices.ofValue_cases (Choices.plain_of_ofText hvalue hkeys) with
        ⟨hfit, hok⟩ | ⟨hmisfit, complaint, herror⟩
      · refine Or.inl ⟨hfit, ?_⟩
        simp only [hok]
        rfl
      · refine Or.inr ⟨hmisfit, .settings (root.join file) (.plainContent complaint), ?_⟩
        simp only [herror]
        rfl

/-!
## What is in force
-/

/-- The first that is there of a flag's value, the file's and the default. -/
def prevailing {α : Type} (flag file : Option α) (usual : α) : α :=
  match flag, file with
  | some x, _ => x
  | none, some x => x
  | none, none => usual

structure SeenFrom (root chosen directory : Path) : Prop where
  joined : directory = root.join chosen
  absolute : chosen.isAbsolute = true -> directory = chosen

structure Settled (a : Arguments) (root : Path) (entries : Entries) (s : Settings) : Prop where
  inputDirectory : SeenFrom root
    (prevailing a.inputDirectory
      ((Choices.textAt entries .inputDirectory).map Path.ofString)
      Settings.default.inputDirectory)
    s.inputDirectory
  outputDirectory : SeenFrom root
    (prevailing a.outputDirectory
      ((Choices.textAt entries .outputDirectory).map Path.ofString)
      Settings.default.outputDirectory)
    s.outputDirectory
  pattern : s.pattern =
    prevailing a.pattern (Choices.textAt entries .pattern) Settings.default.pattern
  key : s.key = prevailing a.key (Choices.textAt entries .key) Settings.default.key
  policy : s.policy = .keepGoing <->
    a.keepGoing = true ∨
      exists v, entries.get? "on_error" = some v ∧ Policy.keepGoing.SaidBy v

theorem getD_or_getD {α : Type} (flag file : Option α) (usual : α) :
    flag.getD ((file.or none).getD usual) = prevailing flag file usual := by
  cases flag <;> cases file <;> rfl

theorem seenFrom_join (root chosen : Path) :
    SeenFrom root chosen (root.join chosen) := by
  constructor
  · rfl
  · intro h
    rw [Path.join, if_pos h]

theorem policyAt_eq_some {entries : Entries} {p : Policy} :
    Choices.policyAt entries = some p <->
      exists v, entries.get? "on_error" = some v ∧ p.SaidBy v := by
  unfold Choices.policyAt
  simp only [Option.bind_eq_some_iff, ← Policy.ofValue_eq_ok, Choices.Field.name]
  apply exists_congr
  intro v
  cases Policy.ofValue v <;> simp [Except.toOption]

theorem settled_choosing (a : Arguments) (root : Path) (entries : Entries) :
    Settled a root entries
      (((Settings.default.choosing (Choices.empty.reading entries)).choosing a.choices).resolve
        root) := by
  constructor
  · rw [← getD_or_getD]
    exact seenFrom_join root _
  · rw [← getD_or_getD]
    exact seenFrom_join root _
  · exact getD_or_getD _ _ _
  · exact getD_or_getD _ _ _
  · rw [← policyAt_eq_some]
    change Option.getD (if a.keepGoing then some Policy.keepGoing else none)
      (((Choices.policyAt entries).or none).getD .failFast) = .keepGoing <-> _
    rcases Choices.policyAt entries with _ | (_ | _) <;> cases a.keepGoing <;> simp

/-- Settings are built unless the settings file has a misfit.  Every setting is then the flag's, the
file's or the default one, in this order, and only directories are taken from `root`. -/
theorem buildSettings_settles (a : Arguments) (root : Path) (s : Session) {entries : Entries}
    (h : Supplies s.files root a.config entries) :
    exists result, outcome (buildSettings a root) s = (result, s) ∧
      ((exists abort, result = .error abort) <-> Choices.Misfit entries) ∧
      (forall settings, result = .ok settings -> Settled a root entries settings) := by
  have hsettled := settled_choosing a root entries
  unfold buildSettings
  cases hconfig : a.config with
  | none =>
      rw [hconfig] at h
      cases h
      refine ⟨_, rfl, ?_, ?_⟩
      · simp [Choices.not_misfit_nil]
      · intro settings hok
        cases hok
        exact hsettled
  | some file =>
      rw [hconfig] at h
      simp only
      rw [Host.outcome_bind]
      rcases outcome_loadSettings_of_supplies h with ⟨hfit, hload⟩ | ⟨hmisfit, f, hload⟩
      · rw [hload]
        refine ⟨_, rfl, by simp [hfit], ?_⟩
        intro settings hok
        cases hok
        exact hsettled
      · rw [hload]
        refine ⟨_, rfl, by simp [hmisfit], ?_⟩
        intro settings hok
        cases hok

/-!
## A file and a flag

The file `c` below sets the key and the pattern, and a flag sets the pattern too.
-/

def settingsText : String :=
  "key: k\npattern: p"

def settingsFile : Tree :=
  ⟨[([[99]], .file (Text.Utf8.encode settingsText.toList))], []⟩

def withPattern : Arguments :=
  { Arguments.empty with config := some ⟨[99]⟩, pattern := some "q" }

def settingsEntries : Entries :=
  [(.str "key", .str "k"), (.str "pattern", .str "p")]

theorem ofText_settingsText :
    Value.ofText settingsText = .ok (.map settingsEntries) := by
  apply Yaml.Value.ofText_of_ofTextWithin 20
  · cbv
  · rfl

theorem supplies_settingsFile :
    Supplies settingsFile ⟨[]⟩ withPattern.config settingsEntries := by
  have hread : settingsFile.read (Path.join ⟨[]⟩ ⟨[99]⟩) =
      .ok (Text.Utf8.encode settingsText.toList) := by
    cbv
  refine .mapping hread (by cbv) ofText_settingsText ?_
  simp [settingsEntries]

/-- The pattern is the flag's, the key is the file's, and a directory is the default one. -/
theorem buildSettings_settles_withPattern :
    exists settings,
      outcome (buildSettings withPattern ⟨[]⟩)
        (Session.ofTree settingsFile (Journal.Filter.ofDirectives [])) =
          (.ok settings, Session.ofTree settingsFile (Journal.Filter.ofDirectives [])) ∧
      settings.pattern = "q" ∧ settings.key = "k" ∧
      settings.outputDirectory = Settings.default.outputDirectory := by
  rcases buildSettings_settles withPattern ⟨[]⟩
    (Session.ofTree settingsFile (Journal.Filter.ofDirectives [])) supplies_settingsFile with
    ⟨result, hbuild, herror, hok⟩
  have hfit : ¬ Choices.Misfit settingsEntries := by
    rintro ⟨field, v, hget, hnot⟩
    cases field <;> cases hget
    · exact hnot ⟨"p", rfl⟩
    · exact hnot ⟨"k", rfl⟩
  cases result with
  | error abort => exact absurd (herror.mp ⟨abort, rfl⟩) hfit
  | ok settings =>
      have hsettled := hok settings rfl
      refine ⟨settings, hbuild, hsettled.pattern, hsettled.key, ?_⟩
      rw [hsettled.outputDirectory.joined]
      decide

end Program
end Clippings
