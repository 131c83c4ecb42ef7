import Clippings.Proofs.Arguments.Refusals

/-!
# The switch for a talkative journal

The other arguments are read alike with the switch and without it, wherever it stands among them,
as long as it stands there as the switch: not as the value of an option, nor as the name of a file.
-/

namespace Clippings
namespace Arguments

open Reading (hyphen)

def quiet (a : Arguments) : Arguments :=
  { a with verbose := false }

def talkative (a : Arguments) : Arguments :=
  { a with verbose := true }

/-- Two command lines are read as the same arguments, the switch apart, or refused for the same
reason. -/
def ReadAlike (line line' : List (List UInt8)) : Prop :=
  (parse line).map quiet = (parse line').map quiet

/-!
## Two readings side by side

One reading has met the switch and the other one has not.  They go on alike, unless the switch comes
once more.
-/

inductive Beside {α : Type} (r : α -> α -> Prop) :
    Except Refusal α -> Except Refusal α -> Prop where
  | refused (e : Refusal) : Beside r (.error e) (.error e)
  | read {x y : α} : r x y -> Beside r (.ok x) (.ok y)
  | twice (x : Except Refusal α) : Beside r x (.error (.repeated Switch.verbose.shown))

abbrev Unmoved (f : Arguments -> Except Refusal Arguments) : Prop :=
  forall a, Beside (fun b b' => b' = b.talkative) (f a) (f a.talkative)

theorem unmoved_of_map {f : Arguments -> Except Refusal Arguments}
    (h : forall a, f a.talkative = (f a).map talkative) :
    Unmoved f := by
  intro a
  rw [h]
  cases f a with
  | error e => exact .refused e
  | ok b => exact .read rfl

theorem set_talkative (a : Arguments) (v : Valued) (value : List UInt8) :
    a.talkative.set v value = (a.set v value).map talkative := by
  have hgiven : a.talkative.isGiven v = a.isGiven v := by cases v <;> rfl
  unfold set
  rw [hgiven]
  split
  · rfl
  · cases v with
    | config | root | inputDirectory | outputDirectory =>
        simp only
        cases pathOf _ value <;> rfl
    | pattern | key =>
        simp only
        cases textOf value <;> rfl

theorem addFiles_talkative (a : Arguments) (paths : List Path) :
    a.talkative.addFiles paths = (a.addFiles paths).map talkative := by
  unfold addFiles
  split <;> rfl

theorem unmoved_turnOn (s : Switch) :
    Unmoved (·.turnOn s) := by
  intro a
  cases s with
  | verbose => exact .twice _
  | help | version => exact .refused _
  | keepGoing =>
      cases hgoing : a.keepGoing with
      | true => simp [turnOn, talkative, hgoing, Beside.refused]
      | false => simp [turnOn, talkative, hgoing, Beside.read]

namespace Reading

variable {r r' : Reading}

/-- How the readings differ between two arguments. -/
inductive Louder : Reading -> Reading -> Prop where
  | same (a : Arguments) (pending : Pending) : Louder ⟨a, pending⟩ ⟨a.talkative, pending⟩
  /-- The switch has settled what still waits in the other reading. -/
  | settled {r r' : Reading} {a : Arguments} :
      r.settle = .ok a -> r'.settle = .ok a.talkative -> Louder r r'
  /-- An empty path waits in both, so both are refused when it is settled. -/
  | emptyPath {a b : Arguments} {ps qs : List Path} :
      ⟨[]⟩ ∈ ps -> ⟨[]⟩ ∈ qs -> Louder ⟨a, .files ps⟩ ⟨b, .files qs⟩

theorem addFiles_of_empty_mem {paths : List Path} (h : ⟨[]⟩ ∈ paths) (a : Arguments) :
    a.addFiles paths = .error (.missingValue filesShown) :=
  if_pos (List.any_eq_true.mpr ⟨⟨[]⟩, h, rfl⟩)

theorem Louder.settle (h : Louder r r') :
    r'.settle = r.settle.map talkative := by
  cases h with
  | same a pending =>
      cases pending with
      | nothing => rfl
      | option v value =>
          cases value with
          | none => rfl
          | some value => exact set_talkative a v value
      | files paths => exact addFiles_talkative a paths
  | settled hr hr' =>
      rw [hr, hr']
      rfl
  | emptyPath hps hqs =>
      exact (addFiles_of_empty_mem hqs _).trans
        (congrArg (Except.map talkative) (addFiles_of_empty_mem hps _).symm)

theorem Louder.settleWith (h : Louder r r') {f : Arguments -> Except Refusal Arguments}
    (hf : Unmoved f) :
    Beside Louder (r.settleWith f) (r'.settleWith f) := by
  unfold Reading.settleWith
  rw [h.settle]
  cases r.settle with
  | error e => exact .refused e
  | ok a =>
      have ha := hf a
      simp only [Except.map]
      generalize f a = x at ha
      generalize f a.talkative = y at ha
      cases ha with
      | refused e => exact .refused e
      | read hb =>
          rw [hb]
          exact .read (.same _ .nothing)
      | twice => exact .twice _

theorem Louder.await (h : Louder r r') (v : Valued) :
    Beside Louder (r.await v) (r'.await v) := by
  unfold Reading.await
  rw [h.settle]
  cases r.settle with
  | error e => exact .refused e
  | ok a => exact .read (.same a (.option v none))

theorem exists_addFile_of_settle {a : Arguments} (h : r.settle = .ok a) (p : Path) :
    exists b paths, r.addFile p = .ok ⟨b, .files (paths ++ [p])⟩ := by
  unfold addFile
  cases hpending : r.pending with
  | nothing | option =>
      rw [h]
      exact ⟨a, [], rfl⟩
  | files paths => exact ⟨r.done, paths, rfl⟩

theorem Louder.addFile (h : Louder r r') (p : Path) :
    Beside Louder (r.addFile p) (r'.addFile p) := by
  cases h with
  | same a pending =>
      have hsettle := (Louder.same a pending).settle
      cases pending with
      | files paths => exact .read (.same a (.files (paths ++ [p])))
      | nothing | option =>
          unfold Reading.addFile
          simp only [hsettle]
          cases Reading.settle ⟨a, _⟩ with
          | error e => exact .refused e
          | ok b => exact .read (.same b (.files [p]))
  | emptyPath hps hqs =>
      exact .read (.emptyPath (List.mem_append_left [p] hps) (List.mem_append_left [p] hqs))
  | settled hr hr' =>
      rename_i a
      -- An empty path is no offence before it is settled, so both readings go on with it.
      by_cases hp : p = ⟨[]⟩
      · rcases exists_addFile_of_settle hr p with ⟨b, ps, hadd⟩
        rcases exists_addFile_of_settle hr' p with ⟨b', qs, hadd'⟩
        rw [hadd, hadd']
        exact .read (.emptyPath (by simp [hp]) (by simp [hp]))
      · have hadd : a.addFiles [p] = .ok { a with files := a.files ++ [p] } := by
          refine addFiles_eq_ok_iff.mpr ⟨fun q hq hempty => hp ?_, rfl⟩
          rw [← List.mem_singleton.mp hq]
          exact congrArg Path.mk hempty
        have hadd' := addFiles_talkative a [p]
        rw [hadd] at hadd'
        rcases addFile_of_settle hr hadd with ⟨s, hs, hsettle⟩
        rcases addFile_of_settle hr' hadd' with ⟨s', hs', hsettle'⟩
        rw [hs, hs']
        exact .read (.settled hsettle hsettle')

theorem Louder.readOther (h : Louder r r') (argument : List UInt8) :
    Beside Louder (r.readOther argument) (r'.readOther argument) := by
  have hadd := h.addFile ⟨argument⟩
  cases h with
  | same a pending =>
      cases pending with
      | nothing | files => exact hadd
      | option v value =>
          cases value with
          | none => exact .read (.same a (.option v (some argument)))
          | some value => exact hadd
  | settled hr hr' =>
      rw [readOther_of_settle hr, readOther_of_settle hr']
      exact hadd
  | emptyPath => exact hadd

theorem Louder.readLong (h : Louder r r') (body : List UInt8) :
    Beside Louder (r.readLong body) (r'.readLong body) := by
  unfold Reading.readLong
  simp only
  generalize (Path.mk _).text?.bind Name.ofLong? = name
  generalize List.drop _ body = behind
  rcases name with _ | v | s
  · exact .refused _
  · cases behind with
    | nil => exact h.await v
    | cons _ value =>
        exact h.settleWith (f := fun a => a.set v value)
          (unmoved_of_map fun a => set_talkative a v value)
  · cases behind with
    | nil => exact h.settleWith (unmoved_turnOn s)
    | cons => exact .refused _

theorem Louder.readLetters (h : Louder r r') (octets : List UInt8) :
    Beside Louder (r.readLetters octets) (r'.readLetters octets) := by
  fun_induction Reading.readLetters r octets generalizing r' with
  | case1 r =>
      rw [Reading.readLetters]
      exact .read h
  | case2 r b rest c width hhead hletter =>
      rw [Reading.readLetters, hhead]
      simp only [hletter]
      exact .refused _
  | case3 r b rest c width hhead behind v hletter =>
      rename_i hbehind
      rw [Reading.readLetters, hhead]
      simp only [hletter]
      rw [if_pos hbehind]
      exact h.await v
  | case4 r b rest c width hhead behind v hletter =>
      rename_i hbehind
      rw [Reading.readLetters, hhead]
      simp only [hletter]
      rw [if_neg hbehind]
      exact h.settleWith (f := fun a => a.set v (attached (rest.drop (width - 1))))
        (unmoved_of_map fun a => set_talkative a v _)
  | case5 r b rest c width hhead s hletter e hone =>
      have hbeside := h.settleWith (unmoved_turnOn s)
      rw [hone] at hbeside
      rw [Reading.readLetters, hhead]
      simp only [hletter]
      generalize r'.settleWith (·.turnOn s) = y at hbeside
      cases hbeside with
      | refused => exact .refused _
      | twice => exact .twice _
  | case6 r b rest c width hhead behind s hletter next hone =>
      rename_i ih
      have hbeside := h.settleWith (unmoved_turnOn s)
      rw [hone] at hbeside
      rw [Reading.readLetters, hhead]
      simp only [hletter]
      generalize r'.settleWith (·.turnOn s) = y at hbeside
      cases hbeside with
      | read hnext => exact ih hnext
      | twice => exact .twice _
  | case7 r b rest hhead =>
      rw [Reading.readLetters]
      split
      · rename_i c width hchar
        exact absurd hchar (hhead c width)
      · exact .refused _

theorem Louder.readOne (h : Louder r r') (argument : List UInt8) :
    Beside Louder (r.readOne argument) (r'.readOne argument) := by
  unfold Reading.readOne
  split
  · split
    · exact h.readLong _
    · split
      · exact h.readLetters _
      · exact h.readOther _
  · exact h.readOther _

theorem Louder.readFiles (h : Louder r r') (line : List (List UInt8)) :
    Beside Louder (r.readFiles line) (r'.readFiles line) := by
  induction line generalizing r r' with
  | nil => exact .read h
  | cons argument rest ih =>
      have hone := h.addFile ⟨argument⟩
      rw [Reading.readFiles, Reading.readFiles]
      generalize r.addFile ⟨argument⟩ = x at hone
      generalize r'.addFile ⟨argument⟩ = y at hone
      cases hone with
      | refused e => exact .refused e
      | read hnext => exact ih hnext
      | twice => exact .twice _

theorem Louder.readAll (h : Louder r r') (line : List (List UInt8)) :
    Beside Louder (r.readAll line) (r'.readAll line) := by
  induction line generalizing r r' with
  | nil => exact .read h
  | cons argument rest ih =>
      have hone := h.readOne argument
      rw [Reading.readAll, Reading.readAll]
      split
      · exact h.readFiles rest
      · generalize r.readOne argument = x at hone
        generalize r'.readOne argument = y at hone
        cases hone with
        | refused e => exact .refused e
        | read hnext => exact ih hnext
        | twice => exact .twice _

theorem readAll_append {front : List (List UInt8)} (h : [hyphen, hyphen] ∉ front)
    (back : List (List UInt8)) :
    r.readAll (front ++ back) =
      match r.readAll front with
      | .error e => .error e
      | .ok r => r.readAll back := by
  induction front generalizing r with
  | nil => rfl
  | cons argument rest ih =>
      have hargument : ¬ (argument == [hyphen, hyphen]) = true := by
        intro heq
        exact h (by simp [eq_of_beq heq])
      have hrest : [hyphen, hyphen] ∉ rest := fun hmem => h (List.mem_cons_of_mem argument hmem)
      rw [List.cons_append, readAll, readAll, if_neg hargument, if_neg hargument]
      cases r.readOne argument with
      | error e => rfl
      | ok next => exact ih hrest

theorem readAll_cons_of_error {argument : List UInt8} {e : Refusal}
    (h : argument ≠ [hyphen, hyphen]) (hone : r.readOne argument = .error e)
    (rest : List (List UInt8)) :
    r.readAll (argument :: rest) = .error e := by
  rw [readAll, if_neg (by simpa using h), hone]

theorem readOne_switch {s : Switch} {flag : List UInt8} (h : Spells (.switch s) [flag]) :
    flag ≠ [hyphen, hyphen] ∧ r.readOne flag = r.settleWith (·.turnOn s) := by
  cases h with
  | long hmem =>
      constructor
      · simpa using Name.encode_ne_nil hmem
      · rw [readOne_long, ← List.append_nil (Text.Utf8.encode _)]
        exact readLong_of_mem hmem none
  | letter hmem => exact ⟨Name.letter_ne_hyphens hmem, readOne_letter hmem⟩

end Reading

/-!
## With the switch and without it
-/

/-- The switch, behind arguments that make sense without the rest of the line. -/
theorem parse_insert_verbose {front : List (List UInt8)} {flag : List UInt8}
    (hflag : Spells (.switch .verbose) [flag]) (hfront : [hyphen, hyphen] ∉ front)
    (hsense : exists a, parse front = .ok a) (back : List (List UInt8)) :
    parse (front ++ flag :: back) = (parse (front ++ back)).map talkative ∨
      parse (front ++ flag :: back) = .error (.repeated Switch.verbose.shown) := by
  rcases hsense with ⟨a, ha⟩
  unfold parse at ha ⊢
  rw [Reading.readAll_append hfront, Reading.readAll_append hfront]
  cases hread : Reading.readAll ⟨empty, .nothing⟩ front with
  | error e =>
      rw [hread] at ha
      cases ha
  | ok r =>
      rw [hread] at ha
      have hsettle : r.settle = .ok a := ha
      rcases Reading.readOne_switch (r := r) hflag with ⟨hflag, hone⟩
      simp only
      cases hverbose : a.verbose with
      | true =>
          have hturn : r.settleWith (·.turnOn .verbose) =
              .error (.repeated Switch.verbose.shown) := by
            simp [Reading.settleWith, hsettle, turnOn, hverbose, Except.map]
          rw [Reading.readAll_cons_of_error hflag (hone.trans hturn)]
          exact Or.inr rfl
      | false =>
          have hturn : r.settleWith (·.turnOn .verbose) = .ok ⟨a.talkative, .nothing⟩ := by
            apply Reading.settleWith_of_settle hsettle
            simp [turnOn, hverbose, talkative]
          have hlouder : r.Louder ⟨a.talkative, .nothing⟩ := .settled hsettle rfl
          have hbeside := hlouder.readAll back
          rw [Reading.readAll_cons hflag (hone.trans hturn)]
          generalize r.readAll back = x at hbeside
          generalize Reading.readAll _ back = y at hbeside
          cases hbeside with
          | refused e => exact Or.inl rfl
          | read hlouder => exact Or.inl hlouder.settle
          | twice => exact Or.inr rfl

theorem readAlike_insert_verbose {front : List (List UInt8)} {flag : List UInt8}
    (hflag : Spells (.switch .verbose) [flag]) (hfront : [hyphen, hyphen] ∉ front)
    (hsense : exists a, parse front = .ok a) {back : List (List UInt8)}
    (honce : parse (front ++ flag :: back) ≠ .error (.repeated Switch.verbose.shown)) :
    ReadAlike (front ++ flag :: back) (front ++ back) := by
  rcases parse_insert_verbose hflag hfront hsense back with h | h
  · rw [ReadAlike, h]
    cases parse (front ++ back) <;> rfl
  · exact absurd h honce

/-- What two lines come to alike: runs that differ in the switch at most, the same answer, or
errors. -/
inductive Akin : Except Refusal Arguments -> Except Refusal Arguments -> Prop where
  | run {a b : Arguments} : a.quiet = b.quiet -> Akin (.ok a) (.ok b)
  | same (e : Refusal) : Akin (.error e) (.error e)
  | errors {e e' : Refusal} : e.status = 2 -> e'.status = 2 -> Akin (.error e) (.error e')

theorem akin_of_readAlike {line line' : List (List UInt8)} (h : ReadAlike line line') :
    Akin (parse line) (parse line') := by
  unfold ReadAlike at h
  cases hone : parse line with
  | error e =>
      cases hother : parse line' with
      | error e' =>
          rw [hone, hother] at h
          cases h
          exact .same e
      | ok b =>
          rw [hone, hother] at h
          cases h
  | ok a =>
      cases hother : parse line' with
      | error e' =>
          rw [hone, hother] at h
          cases h
      | ok b =>
          rw [hone, hother] at h
          exact .run (Except.ok.inj h)

theorem readAlike_of_akin {line line' : List (List UInt8)} {a : Arguments}
    (h : Akin (parse line) (parse line')) (ha : parse line = .ok a) :
    ReadAlike line line' := by
  unfold ReadAlike
  generalize parse line = x at h ha ⊢
  generalize parse line' = y at h ⊢
  cases h with
  | run hquiet => exact congrArg Except.ok hquiet
  | same e => rfl
  | errors => cases ha

/-- The front of a line ends with an option whose value comes first in the rest. -/
def CutsValue (front back : List (List UInt8)) : Prop :=
  exists r argument, Reading.readAll ⟨empty, .nothing⟩ front = .ok r ∧ r.Awaits ∧
    back.head? = some argument ∧ Reading.isValue argument = true

theorem akin_insert_verbose {front back : List (List UInt8)} {flag : List UInt8}
    (hflag : Spells (.switch .verbose) [flag]) (hfront : [hyphen, hyphen] ∉ front)
    (hcut : ¬ CutsValue front back)
    (honce : parse (front ++ flag :: back) ≠ .error (.repeated Switch.verbose.shown)) :
    Akin (parse (front ++ flag :: back)) (parse (front ++ back)) := by
  cases hread : Reading.readAll ⟨empty, .nothing⟩ front with
  | error e =>
      have hboth : forall back, parse (front ++ back) = .error e := by
        intro back
        rw [parse, Reading.readAll_append hfront, hread]
      rw [hboth, hboth]
      exact .same e
  | ok r =>
      cases hsettle : r.settle with
      | ok a =>
          have hsense : parse front = .ok a := by
            rw [parse, hread]
            exact hsettle
          exact akin_of_readAlike (readAlike_insert_verbose hflag hfront ⟨a, hsense⟩ honce)
      | error e =>
          -- The switch settles what waits, so this error comes first.
          rcases Reading.readOne_switch (r := r) hflag with ⟨hflag, hone⟩
          have hfails := Reading.fails_settle hsettle
          have hwith : parse (front ++ flag :: back) = .error e := by
            have hturn : r.readOne flag = .error e := by rw [hone, Reading.settleWith, hsettle]
            rw [parse, Reading.readAll_append hfront, hread]
            simp only
            rw [Reading.readAll_cons_of_error hflag hturn]
          have hwithout : Fails (parse (front ++ back)) := by
            rw [parse, Reading.readAll_append hfront, hread]
            apply Reading.fails_readAll hfails
            intro hawaits argument hhead
            rw [Bool.eq_false_iff]
            exact fun hvalue => hcut ⟨r, argument, hread, hawaits, hhead, hvalue⟩
          rcases hfails with ⟨e₁, he₁, hstatus₁⟩
          cases hsettle.symm.trans he₁
          rcases hwithout with ⟨e₂, he₂, hstatus₂⟩
          rw [hwith, he₂]
          exact .errors hstatus₁ hstatus₂

end Arguments
end Clippings
