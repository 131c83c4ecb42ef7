import Clippings.Arguments
import Clippings.Proofs.Pattern

/-!
# Spellings of a command line

The same arguments can be given in many ways: every option has some spellings, options stand in any
order, and files stand between them or behind two hyphens.  Whichever way is taken, what is read is
what was meant.
-/

namespace Clippings
namespace Arguments

open Text.Utf8 (encode)
open Reading (hyphen equals)

/-!
## Items
-/

inductive Item where
  | option (v : Valued) (value : List UInt8)
  | switch (s : Switch)
  | file (p : Path)
deriving DecidableEq, Repr

namespace Item

def value? (v : Valued) : Item -> Option (List UInt8)
  | option w value => if w = v then some value else none
  | _ => none

theorem value?_self (v : Valued) (value : List UInt8) :
    value? v (option v value) = some value :=
  if_pos rfl

theorem value?_of_ne {v w : Valued} (h : w ≠ v) (value : List UInt8) :
    value? v (option w value) = none :=
  if_neg h

def file? : Item -> Option Path
  | file p => some p
  | _ => none

end Item

def value? (a : Arguments) : Valued -> Option (List UInt8)
  | .config => a.config.map Path.octets
  | .root => a.root.map Path.octets
  | .inputDirectory => a.inputDirectory.map Path.octets
  | .outputDirectory => a.outputDirectory.map Path.octets
  | .pattern => a.pattern.map fun s => encode s.toList
  | .key => a.key.map fun s => encode s.toList

def isOn (a : Arguments) : Switch -> Bool
  | .keepGoing => a.keepGoing
  | .verbose => a.verbose
  | .help | .version => false

/-- The items say everything once and nothing else, the files in their order. -/
structure SaidBy (a : Arguments) (items : List Item) : Prop where
  options : forall v, items.filterMap (Item.value? v) = (a.value? v).toList
  switches : forall s, items.count (.switch s) = (a.isOn s).toNat
  files : items.filterMap Item.file? = a.files

structure NoEmptyPath (a : Arguments) : Prop where
  options : forall v, v ≠ .pattern -> v ≠ .key -> a.value? v ≠ some []
  files : forall p, p ∈ a.files -> p.octets ≠ []

/-!
## Spellings
-/

/-- How an item can be said. -/
inductive Spells : Item -> List (List UInt8) -> Prop where
  | joined {v : Valued} {long : String} {letter : Option Char} (value : List UInt8) :
      (.valued v, long, letter) ∈ Name.all ->
      Spells (.option v value) [hyphen :: hyphen :: (encode long.toList ++ equals :: value)]
  | apart {v : Valued} {long : String} {letter : Option Char} {value : List UInt8} :
      (.valued v, long, letter) ∈ Name.all ->
      value.head? ≠ some hyphen ->
      Spells (.option v value) [hyphen :: hyphen :: encode long.toList, value]
  | lettered {v : Valued} {long : String} {letter : Char} {value : List UInt8} :
      (.valued v, long, some letter) ∈ Name.all ->
      value.head? ≠ some hyphen ->
      Spells (.option v value) [hyphen :: encode [letter], value]
  | long {s : Switch} {long : String} {letter : Option Char} :
      (.switch s, long, letter) ∈ Name.all ->
      Spells (.switch s) [hyphen :: hyphen :: encode long.toList]
  | letter {s : Switch} {long : String} {letter : Char} :
      (.switch s, long, some letter) ∈ Name.all ->
      Spells (.switch s) [hyphen :: encode [letter]]
  | file {p : Path} :
      p.octets.head? ≠ some hyphen ->
      Spells (.file p) [p.octets]

inductive SpellsAll : List Item -> List (List UInt8) -> Prop where
  | nil : SpellsAll [] []
  | cons {item : Item} {items : List Item} {words line : List (List UInt8)} :
      Spells item words ->
      SpellsAll items line ->
      SpellsAll (item :: items) (words ++ line)
  | escaped (paths : List Path) :
      SpellsAll (paths.map .file) ([hyphen, hyphen] :: paths.map Path.octets)

/-- A command line that gives these arguments and no others. -/
def Spelling (a : Arguments) (line : List (List UInt8)) : Prop :=
  exists items, a.SaidBy items ∧ SpellsAll items line

/-!
## Names
-/

theorem text?_encode (s : String) :
    (Path.mk (encode s.toList)).text? = some s :=
  Path.text?_eq_some_iff.mpr rfl

namespace Name

variable {n : Name} {long : String}

theorem ofLong?_of_mem {letter : Option Char} (h : (n, long, letter) ∈ all) :
    ofLong? long = some n := by
  have hall : forall e, e ∈ all -> ofLong? e.2.1 = some e.1 := by decide
  exact hall _ h

theorem equals_not_mem {letter : Option Char} (h : (n, long, letter) ∈ all) :
    equals ∉ encode long.toList := by
  have hall : forall e, e ∈ all -> equals ∉ encode e.2.1.toList := by decide
  exact hall _ h

theorem encode_ne_nil {letter : Option Char} (h : (n, long, letter) ∈ all) :
    encode long.toList ≠ [] := by
  have hall : forall e, e ∈ all -> encode e.2.1.toList ≠ [] := by decide
  exact hall _ h

theorem ofLetter?_of_mem {letter : Char} (h : (n, long, some letter) ∈ all) :
    ofLetter? letter = some n ∧ (encode [letter]).head? ≠ some hyphen := by
  have hall : forall e, e ∈ all -> (e.2.2.all fun c =>
      ofLetter? c == some e.1 && (encode [c]).head? != some hyphen) = true := by decide
  simpa using hall _ h

theorem letter_ne_hyphens {letter : Char} (h : (n, long, some letter) ∈ all) :
    hyphen :: encode [letter] ≠ [hyphen, hyphen] := by
  intro heq
  exact (ofLetter?_of_mem h).2 (congrArg List.head? (List.cons.inj heq).2)

end Name

/-!
## Reading items

An item is settled at once, or it waits and is what is settled next.
-/

def take (a : Arguments) : Item -> Except Refusal Arguments
  | .option v value => a.set v value
  | .switch s => a.turnOn s
  | .file p => a.addFiles [p]

def takeAll (a : Arguments) : List Item -> Except Refusal Arguments
  | [] => .ok a
  | item :: rest =>
    match a.take item with
    | .error e => .error e
    | .ok a => takeAll a rest

theorem takeAll_cons {a a' : Arguments} {item : Item} {rest : List Item}
    (h : a.takeAll (item :: rest) = .ok a') :
    exists b, a.take item = .ok b ∧ b.takeAll rest = .ok a' := by
  rw [takeAll] at h
  cases hone : a.take item with
  | error f =>
      rw [hone] at h
      cases h
  | ok b =>
      rw [hone] at h
      exact ⟨b, rfl, h⟩

theorem addFiles_eq_ok_iff {a b : Arguments} {paths : List Path} :
    a.addFiles paths = .ok b <->
      (forall p, p ∈ paths -> p.octets ≠ []) ∧ b = { a with files := a.files ++ paths } := by
  unfold addFiles
  split
  · rename_i hempty
    rcases List.any_eq_true.mp hempty with ⟨p, hp, hnil⟩
    simp only [reduceCtorEq, false_iff, not_and]
    exact fun hall => absurd (List.isEmpty_iff.mp hnil) (hall p hp)
  · rename_i hall
    simp only [Bool.not_eq_true, List.any_eq_false, List.isEmpty_iff] at hall
    simp only [Except.ok.injEq]
    constructor
    · rintro rfl
      exact ⟨hall, rfl⟩
    · rintro ⟨-, rfl⟩
      rfl

namespace Reading

variable {r r' : Reading} {a a' : Arguments}

theorem settleWith_of_settle {f : Arguments -> Except Refusal Arguments}
    (hr : r.settle = .ok a) (hf : f a = .ok a') :
    r.settleWith f = .ok ⟨a', .nothing⟩ := by
  rw [settleWith, hr]
  simp only [hf]
  rfl

theorem await_of_settle (hr : r.settle = .ok a) (v : Valued) :
    r.await v = .ok ⟨a, .option v none⟩ := by
  rw [await, hr]
  rfl

theorem addFile_of_settle {p : Path} (hr : r.settle = .ok a) (ha : a.addFiles [p] = .ok a') :
    exists r', r.addFile p = .ok r' ∧ r'.settle = .ok a' := by
  unfold addFile
  cases hpending : r.pending with
  | nothing | option =>
      simp only [hr]
      exact ⟨_, rfl, ha⟩
  | files paths =>
      refine ⟨_, rfl, ?_⟩
      rw [settle, hpending] at hr
      rw [addFiles_eq_ok_iff] at hr ha
      rcases hr with ⟨hpaths, rfl⟩
      rcases ha with ⟨hp, rfl⟩
      refine addFiles_eq_ok_iff.mpr ⟨?_, by rw [List.append_assoc]⟩
      intro q hq
      exact (List.mem_append.mp hq).elim (hpaths q) (hp q)

def Awaits (r : Reading) : Prop :=
  exists v, r.pending = .option v none

theorem readOther_of_not_awaits (h : ¬ r.Awaits) (argument : List UInt8) :
    r.readOther argument = r.addFile ⟨argument⟩ := by
  unfold readOther
  split
  · rename_i v hv
    exact absurd ⟨v, hv⟩ h
  · rfl

theorem readOther_of_settle (hr : r.settle = .ok a) (argument : List UInt8) :
    r.readOther argument = r.addFile ⟨argument⟩ := by
  apply readOther_of_not_awaits
  rintro ⟨v, hpending⟩
  rw [settle, hpending] at hr
  cases hr

/-- An argument that is taken for the value of an option that waits for one: it does not start the
way options do. -/
def isValue : List UInt8 -> Bool
  | a :: _ :: _ => a != hyphen
  | _ => true

theorem readOne_of_isValue {argument : List UInt8} (h : isValue argument = true) :
    r.readOne argument = r.readOther argument := by
  unfold readOne
  split
  · simp only [isValue, bne_iff_ne] at h
    simp [h]
  · rfl

theorem readOne_of_head {argument : List UInt8} (h : argument.head? ≠ some hyphen) :
    r.readOne argument = r.readOther argument := by
  apply readOne_of_isValue
  unfold isValue
  split
  · simpa using h
  · rfl

theorem readOne_long (body : List UInt8) :
    r.readOne (hyphen :: hyphen :: body) = r.readLong body := rfl

theorem readLong_of_mem {n : Name} {long : String} {letter : Option Char}
    (h : (n, long, letter) ∈ Name.all) (value : Option (List UInt8)) :
    r.readLong (encode long.toList ++ value.elim [] (equals :: ·)) =
      match n, value with
      | .valued v, none => r.await v
      | .valued v, some value => r.settleWith (·.set v value)
      | .switch s, none => r.settleWith (·.turnOn s)
      | .switch s, some value => .error (.unexpectedValue (Text.Utf8.lossy value) s.shown) := by
  have hname : (encode long.toList ++ value.elim [] (equals :: ·)).takeWhile (· != equals) =
      encode long.toList := by
    rw [List.takeWhile_append_of_pos]
    · cases value <;> simp
    · intro b hb
      simpa using fun heq : b = equals => Name.equals_not_mem h (heq ▸ hb)
  unfold readLong
  simp only [hname, List.drop_left, text?_encode, Option.bind_some, Name.ofLong?_of_mem h]
  cases value <;> cases n <;> rfl

theorem readOne_letter {n : Name} {long : String} {letter : Char}
    (h : (n, long, some letter) ∈ Name.all) :
    r.readOne (hyphen :: encode [letter]) =
      match n with
      | .valued v => r.await v
      | .switch s => r.settleWith (·.turnOn s) := by
  rcases Text.Utf8.head_encodeChar letter [] with ⟨first, rest, hencode, hhead⟩
  rcases Name.ofLetter?_of_mem h with ⟨hletter, hhyphen⟩
  have hword : encode [letter] = first :: rest := by
    rw [Text.Utf8.encode_cons, hencode]
    exact List.append_nil _
  rw [hword] at hhyphen ⊢
  have hfirst : (first == hyphen) = false := by simpa using hhyphen
  have hone : r.readOne (hyphen :: first :: rest) = r.readLetters (first :: rest) := by
    rw [readOne, hfirst]
    rfl
  rw [List.append_nil] at hhead
  rw [hone, readLetters, hhead]
  simp only [Nat.add_sub_cancel, List.drop_length, hletter]
  cases n with
  | valued v => rfl
  | switch s =>
      simp only
      cases r.settleWith (·.turnOn s) with
      | error f => rfl
      | ok r => exact readLetters.eq_1 r

theorem readAll_cons {argument : List UInt8} (h : argument ≠ [hyphen, hyphen])
    (hone : r.readOne argument = .ok r') (rest : List (List UInt8)) :
    r.readAll (argument :: rest) = r'.readAll rest := by
  rw [readAll, if_neg (by simpa using h), hone]

theorem readAll_apart {word value : List UInt8} {v : Valued} (hword : word ≠ [hyphen, hyphen])
    (hone : r.readOne word = .ok ⟨a, .option v none⟩) (hvalue : value.head? ≠ some hyphen)
    (rest : List (List UInt8)) :
    r.readAll ([word, value] ++ rest) = readAll ⟨a, .option v (some value)⟩ rest := by
  rw [List.cons_append, readAll_cons hword hone]
  refine readAll_cons ?_ ?_ rest
  · intro heq
    exact hvalue (congrArg List.head? heq)
  · rw [readOne_of_head hvalue]
    rfl

/-- Whatever the spelling of an item, reading goes on with what the item does. -/
theorem readAll_spells {item : Item} {words : List (List UInt8)} (h : Spells item words)
    (hr : r.settle = .ok a) (ha : a.take item = .ok a') :
    exists r' : Reading, r'.settle = .ok a' ∧
      forall rest, r.readAll (words ++ rest) = r'.readAll rest := by
  cases h with
  | joined value hmem =>
      refine ⟨⟨a', .nothing⟩, rfl, readAll_cons (by simp) ?_⟩
      exact (readLong_of_mem hmem (some value)).trans (settleWith_of_settle hr ha)
  | apart hmem hvalue =>
      rename_i v long letter value
      refine ⟨⟨a, .option v (some value)⟩, ha, readAll_apart ?_ ?_ hvalue⟩
      · simpa using Name.encode_ne_nil hmem
      · rw [readOne_long, ← List.append_nil (encode long.toList)]
        exact (readLong_of_mem hmem none).trans (await_of_settle hr v)
  | lettered hmem hvalue =>
      rename_i v long letter value
      refine ⟨⟨a, .option v (some value)⟩, ha, readAll_apart ?_ ?_ hvalue⟩
      · exact Name.letter_ne_hyphens hmem
      · exact (readOne_letter hmem).trans (await_of_settle hr v)
  | long hmem =>
      rename_i s long letter
      refine ⟨⟨a', .nothing⟩, rfl, readAll_cons ?_ ?_⟩
      · simpa using Name.encode_ne_nil hmem
      · rw [readOne_long, ← List.append_nil (encode long.toList)]
        exact (readLong_of_mem hmem none).trans (settleWith_of_settle hr ha)
  | letter hmem =>
      refine ⟨⟨a', .nothing⟩, rfl, readAll_cons (Name.letter_ne_hyphens hmem) ?_⟩
      exact (readOne_letter hmem).trans (settleWith_of_settle hr ha)
  | file hfile =>
      rename_i p
      rcases addFile_of_settle hr ha with ⟨r', hadd, hsettle⟩
      refine ⟨r', hsettle, readAll_cons ?_ ?_⟩
      · intro heq
        exact hfile (congrArg List.head? heq)
      · rw [readOne_of_head hfile, readOther_of_settle hr, hadd]

theorem readFiles_of_settle {paths : List Path} (hr : r.settle = .ok a)
    (ha : a.takeAll (paths.map .file) = .ok a') :
    exists r', r.readFiles (paths.map Path.octets) = .ok r' ∧ r'.settle = .ok a' := by
  induction paths generalizing r a with
  | nil =>
      cases ha
      exact ⟨r, rfl, hr⟩
  | cons p paths ih =>
      rcases takeAll_cons ha with ⟨b, hone, hrest⟩
      rcases addFile_of_settle hr hone with ⟨r', hadd, hsettle⟩
      rw [List.map_cons, readFiles, hadd]
      exact ih hsettle hrest

end Reading

/-- A line of items does what the items do one after the other. -/
theorem settle_readAll {items : List Item} {line : List (List UInt8)} (h : SpellsAll items line)
    {r : Reading} {a a' : Arguments} (hr : r.settle = .ok a) (ha : a.takeAll items = .ok a') :
    exists r', r.readAll line = .ok r' ∧ r'.settle = .ok a' := by
  induction h generalizing r a with
  | nil =>
      cases ha
      exact ⟨r, rfl, hr⟩
  | cons hspells _ ih =>
      rename_i item items words line hline
      rcases takeAll_cons ha with ⟨b, hone, hrest⟩
      rcases Reading.readAll_spells hspells hr hone with ⟨r', hsettle, hread⟩
      rw [hread line]
      exact ih hsettle hrest
  | escaped paths =>
      rw [Reading.readAll, if_pos (by simp)]
      exact Reading.readFiles_of_settle hr ha

/-!
## What items say
-/

theorem ext_of_said {a b : Arguments} (hoptions : forall v, a.value? v = b.value? v)
    (hswitches : forall s, a.isOn s = b.isOn s) (hfiles : a.files = b.files) :
    a = b := by
  have hpath : Function.Injective Path.octets := by
    intro p q h
    cases p
    cases q
    exact congrArg Path.mk h
  have htext : Function.Injective fun s : String => encode s.toList := by
    intro s t hst
    have hs := text?_encode s
    rw [show encode s.toList = encode t.toList from hst, text?_encode] at hs
    exact (Option.some.inj hs).symm
  cases a with
  | mk files config root input output pattern key keepGoing verbose =>
      cases b with
      | mk files' config' root' input' output' pattern' key' keepGoing' verbose' =>
          have hconfig : config = config' := Option.map_injective hpath (hoptions .config)
          have hroot : root = root' := Option.map_injective hpath (hoptions .root)
          have hinput : input = input' := Option.map_injective hpath (hoptions .inputDirectory)
          have houtput : output = output' := Option.map_injective hpath (hoptions .outputDirectory)
          have hpattern : pattern = pattern' := Option.map_injective htext (hoptions .pattern)
          have hkey : key = key' := Option.map_injective htext (hoptions .key)
          have hkeepGoing : keepGoing = keepGoing' := hswitches .keepGoing
          have hverbose : verbose = verbose' := hswitches .verbose
          have hfiles : files = files' := hfiles
          subst_vars
          rfl

theorem pathOf_of_ne_nil (shown : String) {value : List UInt8} (h : value ≠ []) :
    pathOf shown value = .ok ⟨value⟩ :=
  if_neg (by simpa using h)

theorem textOf_encode (s : String) :
    textOf (encode s.toList) = .ok s := by
  rw [textOf, text?_encode]

theorem isGiven_eq (a : Arguments) (v : Valued) :
    a.isGiven v = (a.value? v).isSome := by
  cases v <;> simp [isGiven, value?]

theorem set_of_value? {a b : Arguments} {v : Valued} {value : List UInt8} (ha : a.NoEmptyPath)
    (hv : a.value? v = some value) (hb : b.value? v = none) :
    exists b', b.set v value = .ok b' ∧
      (forall w, b'.value? w = if v = w then some value else b.value? w) ∧
      (forall s, b'.isOn s = b.isOn s) ∧ b'.files = b.files := by
  have hopen : ¬ b.isGiven v = true := by simp [isGiven_eq, hb]
  unfold set
  rw [if_neg hopen]
  cases v with
  | config | root | inputDirectory | outputDirectory =>
      have hne : value ≠ [] := by
        intro hnil
        rw [hnil] at hv
        exact ha.options _ (by simp) (by simp) hv
      rw [pathOf_of_ne_nil _ hne]
      refine ⟨_, rfl, ?_, ?_, rfl⟩
      · intro w
        cases w <;> rfl
      · intro s
        cases s <;> rfl
  | pattern | key =>
      rcases Option.map_eq_some_iff.mp hv with ⟨text, -, htext⟩
      rw [← htext, textOf_encode]
      refine ⟨_, rfl, ?_, ?_, rfl⟩
      · intro w
        cases w <;> rfl
      · intro s
        cases s <;> rfl

theorem turnOn_of_isOn {a b : Arguments} {s : Switch} (ha : a.isOn s = true)
    (hb : b.isOn s = false) :
    exists b', b.turnOn s = .ok b' ∧ (forall v, b'.value? v = b.value? v) ∧
      (forall t, b'.isOn t = (decide (s = t) || b.isOn t)) ∧ b'.files = b.files := by
  cases s with
  | help | version => cases ha
  | keepGoing | verbose =>
      refine ⟨_, if_neg (Bool.not_eq_true _ ▸ hb), ?_, ?_, rfl⟩
      · intro v
        cases v <;> rfl
      · intro t
        cases t <;> rfl

theorem of_toList_append_cons {α : Type} {x y : Option α} {value : α} {rest : List α}
    (h : x.toList ++ value :: rest = y.toList) :
    x = none ∧ y = some value ∧ rest = [] := by
  cases x <;> cases y <;> simp_all

theorem of_toNat_eq {x y : Bool} (h : x.toNat = y.toNat) :
    x = y := by
  cases x <;> cases y <;> first | rfl | cases h

theorem of_toNat_add_succ {x y : Bool} {n : Nat} (h : x.toNat + (n + 1) = y.toNat) :
    x = false ∧ y = true ∧ n = 0 := by
  cases x <;> cases y <;> simp_all

structure Completes (b : Arguments) (items : List Item) (a : Arguments) : Prop where
  options : forall v, (b.value? v).toList ++ items.filterMap (Item.value? v) = (a.value? v).toList
  switches : forall s, (b.isOn s).toNat + items.count (.switch s) = (a.isOn s).toNat
  files : b.files ++ items.filterMap Item.file? = a.files

theorem Completes.nil {a b : Arguments} (h : Completes b [] a) :
    b = a := by
  apply ext_of_said
  · intro v
    have hv := h.options v
    rw [List.filterMap_nil, List.append_nil] at hv
    simpa using congrArg List.head? hv
  · intro s
    have hs := h.switches s
    rw [List.count_nil, Nat.add_zero] at hs
    exact of_toNat_eq hs
  · simpa using h.files

theorem Completes.option {a b : Arguments} {v : Valued} {value : List UInt8} {items : List Item}
    (ha : a.NoEmptyPath) (h : Completes b (.option v value :: items) a) :
    exists b', b.set v value = .ok b' ∧ Completes b' items a := by
  have hv := h.options v
  rw [List.filterMap_cons_some (Item.value?_self v value)] at hv
  rcases of_toList_append_cons hv with ⟨hb, hav, hrest⟩
  rcases set_of_value? ha hav hb with ⟨b', hset, hvalues, hswitches, hfiles⟩
  refine ⟨b', hset, ?_, ?_, ?_⟩
  · intro w
    rw [hvalues]
    by_cases hw : v = w
    · subst hw
      rw [if_pos rfl, hrest, hav, List.append_nil]
    · rw [if_neg hw, ← h.options w, List.filterMap_cons_none (Item.value?_of_ne hw value)]
  · intro s
    rw [hswitches, ← h.switches s, List.count_cons_of_ne (by simp)]
  · rw [hfiles, ← h.files]
    rfl

theorem Completes.switch {a b : Arguments} {s : Switch} {items : List Item}
    (h : Completes b (.switch s :: items) a) :
    exists b', b.turnOn s = .ok b' ∧ Completes b' items a := by
  have hs := h.switches s
  rw [List.count_cons_self] at hs
  rcases of_toNat_add_succ hs with ⟨hb, has, hrest⟩
  rcases turnOn_of_isOn has hb with ⟨b', hturn, hvalues, hswitches, hfiles⟩
  refine ⟨b', hturn, ?_, ?_, ?_⟩
  · intro v
    rw [hvalues, ← h.options v]
    rfl
  · intro t
    rw [hswitches]
    by_cases ht : s = t
    · subst ht
      rw [hrest, has, decide_eq_true rfl]
      rfl
    · rw [← h.switches t, List.count_cons_of_ne (by simpa using ht), decide_eq_false ht,
        Bool.false_or]
  · rw [hfiles, ← h.files]
    rfl

theorem Completes.file {a b : Arguments} {p : Path} {items : List Item} (ha : a.NoEmptyPath)
    (h : Completes b (.file p :: items) a) :
    exists b', b.addFiles [p] = .ok b' ∧ Completes b' items a := by
  have hfiles := h.files
  rw [List.filterMap_cons_some (show Item.file? (.file p) = some p from rfl)] at hfiles
  have hp : p.octets ≠ [] := ha.files p (by rw [← hfiles]; simp)
  have hadd : b.addFiles [p] = .ok { b with files := b.files ++ [p] } :=
    addFiles_eq_ok_iff.mpr ⟨by simpa using hp, rfl⟩
  refine ⟨_, hadd, ?_, ?_, ?_⟩
  · intro v
    rw [← h.options v]
    cases v <;> rfl
  · intro s
    rw [← h.switches s, List.count_cons_of_ne (by simp)]
    cases s <;> rfl
  · rw [← hfiles, List.append_assoc]
    rfl

theorem Completes.take {a b : Arguments} {item : Item} {items : List Item} (ha : a.NoEmptyPath)
    (h : Completes b (item :: items) a) :
    exists b', b.take item = .ok b' ∧ Completes b' items a := by
  cases item with
  | option v value => exact h.option ha
  | switch s => exact h.switch
  | file p => exact h.file ha

theorem takeAll_of_completes {a b : Arguments} {items : List Item} (ha : a.NoEmptyPath)
    (h : Completes b items a) :
    b.takeAll items = .ok a := by
  induction items generalizing b with
  | nil => rw [takeAll, h.nil]
  | cons item items ih =>
      rcases h.take ha with ⟨b', htake, hrest⟩
      rw [takeAll, htake]
      exact ih hrest

/-- Whatever the order and the spelling, a command line is read as the arguments that it gives.  So
all lines that give the same are read as the same. -/
theorem parse_of_spelling {a : Arguments} {line : List (List UInt8)} (ha : a.NoEmptyPath)
    (h : a.Spelling line) :
    parse line = .ok a ∧
      forall line', a.Spelling line' -> parse line' = parse line := by
  have hparse : forall line, a.Spelling line -> parse line = .ok a := by
    intro line hline
    rcases hline with ⟨items, hsaid, hspells⟩
    have hcompletes : Completes empty items a := by
      constructor
      · intro v
        rw [← hsaid.options v]
        cases v <;> rfl
      · intro s
        rw [← hsaid.switches s]
        cases s <;> exact Nat.zero_add _
      · exact hsaid.files
    have htake := takeAll_of_completes ha hcompletes
    rcases settle_readAll hspells (r := ⟨empty, .nothing⟩) rfl htake with ⟨r, hread, hsettle⟩
    rw [parse, hread]
    exact hsettle
  constructor
  · exact hparse line h
  · intro line' h'
    rw [hparse line h, hparse line' h']

def scattered : Arguments :=
  ⟨[Path.ofString "a", Path.ofString "b", Path.ofString "--help"], some (Path.ofString "c"), none,
    none, none, some "-p=*", none, true, true⟩

theorem spelling_scattered :
    scattered.Spelling (["a", "-v", "--pattern=-p=*", "b", "--keep-going", "-c", "c", "--",
      "--help"].map fun s => encode s.toList) := by
  have hfile : forall s : String, (encode s.toList).head? ≠ some hyphen ->
      Spells (.file (Path.ofString s)) [encode s.toList] := fun _ => .file
  have hverbose : Spells (.switch .verbose) [hyphen :: encode ['v']] :=
    .letter (show (.switch .verbose, "verbose", some 'v') ∈ Name.all by decide)
  have hpattern := Spells.joined (encode "-p=*".toList)
    (show (.valued .pattern, "pattern", some 'p') ∈ Name.all by decide)
  have hkeepGoing : Spells (.switch .keepGoing) [hyphen :: hyphen :: encode "keep-going".toList] :=
    .long (show (.switch .keepGoing, "keep-going", none) ∈ Name.all by decide)
  have hconfig : Spells (.option .config (encode "c".toList))
      [hyphen :: encode ['c'], encode "c".toList] :=
    .lettered (show (.valued .config, "config", some 'c') ∈ Name.all by decide) (by decide)
  have hall := SpellsAll.cons (hfile "a" (by decide)) (.cons hverbose (.cons hpattern
    (.cons (hfile "b" (by decide)) (.cons hkeepGoing (.cons hconfig
      (.escaped [Path.ofString "--help"]))))))
  refine ⟨_, ⟨?_, ?_, ?_⟩, hall⟩
  · intro v
    cases v <;> decide
  · intro s
    cases s <;> decide
  · decide

theorem parse_of_spelling_scattered :
    scattered.NoEmptyPath ∧
      parse (["a", "-v", "--pattern=-p=*", "b", "--keep-going", "-c", "c", "--", "--help"].map
        fun s => encode s.toList) = .ok scattered := by
  have hpaths : scattered.NoEmptyPath := by
    refine ⟨?_, by decide⟩
    intro v
    cases v <;> decide
  exact ⟨hpaths, (parse_of_spelling hpaths spelling_scattered).1⟩

end Arguments
end Clippings
