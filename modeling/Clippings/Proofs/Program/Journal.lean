import Clippings.Proofs.Arguments.Verbosity
import Clippings.Proofs.Host.Diary
import Clippings.Proofs.Program.Accounts

/-!
# The journal only looks on

Which records are shown makes no difference to anything else: a run does the same to the files, says
the same and ends with the same status under every filter, and with the switch for a talkative
journal or without it.  Every filter shows its part of one and the same account, so of two levels
the coarser one shows what the finer one shows up to it.
-/

namespace Clippings

open Host (outcome Seen)
open Journal (Filter Level Record)

/-!
## Levels
-/

namespace Journal.Filter

/-- The filter that speaks of the program's own records only.  It shows those up to a level, or none
of them. -/
def own (level : Option Level) : Filter :=
  ofDirectives [⟨some Program.targetStart, [], level⟩]

def ownText (level : Option Level) : String :=
  Program.targetStart ++ "=" ++ level.elim "off" Level.name

theorem ofText?_ownText (level : Option Level) :
    ofText? (ownText level) = some (own level) := by
  rcases level with _ | level
  · decide
  · cases level <;> decide

theorem admits_own (level : Option Level) (r : Record) :
    (own level).admits r =
      (Program.targetStart.toList.isPrefixOf r.target.toList &&
        decide (r.level.rank ≤ level.elim 0 Level.rank)) := by
  let d : Directive := ⟨some Program.targetStart, [], level⟩
  have hcovers : d.covers r = Program.targetStart.toList.isPrefixOf r.target.toList :=
    Bool.and_true _
  have hown : (own level).directives = [d] := rfl
  rw [← hcovers]
  unfold admits
  rw [hown, List.find?_cons]
  cases d.covers r <;> rfl

/-- A coarser level shows what a finer one shows up to it. -/
theorem admits_own_of_le {level level' : Option Level}
    (h : level.elim 0 Level.rank ≤ level'.elim 0 Level.rank) (r : Record) :
    (own level).admits r =
      (decide (r.level.rank ≤ level.elim 0 Level.rank) && (own level').admits r) := by
  rw [admits_own, admits_own]
  by_cases hr : r.level.rank ≤ level.elim 0 Level.rank
  · rw [decide_eq_true hr, decide_eq_true (hr.trans h), Bool.true_and]
  · rw [decide_eq_false hr, Bool.and_false, Bool.false_and]

end Journal.Filter

/-!
## Steps

What the library can be asked for, one thing after the other.
-/

inductive Step where
  | read (definition : Path)
  | readSettings (file : Path)
  | list (directory : Path) (pattern : Pattern)
  | extract (e : Extractor) (input : Path)
  /-- What is extracted is announced by some lines of output, perhaps none. -/
  | extractFiles (e : Extractor) (inputs : List Path) (policy : Policy)
      (announced : Extracted -> List String)
  | extractAll (e : Extractor) (directory : Path) (pattern : Pattern) (policy : Policy)
      (announced : Extracted -> List String)
  | run (a : Arguments)

inductive Answer where
  | definition (result : Except Failure Document)
  | settings (result : Except Failure Settings)
  | files (result : Except Failure (List Path))
  | output (result : Except Failure Path)
  | report (result : Except Failure Report)
  | ended (result : Except Abort Unit)

namespace Step

variable {m : Type -> Type} [Monad m] [Host m]

def printAll : List String -> m Unit
  | [] => pure ()
  | text :: rest => do
    Host.print text
    printAll rest

def perform : Step -> m Answer
  | read definition => do pure (.definition (← Document.load definition))
  | readSettings file => do pure (.settings (← Program.loadSettings file))
  | list directory pattern => do pure (.files (← Extractor.matchingFiles directory pattern))
  | extract e input => do pure (.output (← e.extract input))
  | extractFiles e inputs policy announced => do
    pure (.report (← e.extractFiles inputs policy fun x => printAll (announced x)))
  | extractAll e directory pattern policy announced => do
    pure (.report (← e.extractAll directory pattern policy fun x => printAll (announced x)))
  | run a => do pure (.ended (← Program.run a))

def performAll : List Step -> m (List Answer)
  | [] => pure []
  | step :: rest => do
    let answer ← perform step
    let answers ← performAll rest
    pure (answer :: answers)

end Step

namespace Host.Sight

variable {σ τ : Type} [Host (StateM σ)] [Host (StateM τ)] {v : σ -> τ}

theorem printAll (hv : Sight v) (texts : List String) :
    Seen v (Step.printAll texts) (Step.printAll texts) := by
  induction texts with
  | nil => exact Seen.pure _
  | cons text rest ih => exact Seen.bind (hv.print text) (fun _ => ih)

theorem perform (hv : Sight v) (step : Step) :
    Seen v step.perform step.perform := by
  cases step with
  | read definition => exact Seen.bind (hv.load definition) (fun _ => Seen.pure _)
  | readSettings file => exact Seen.bind (hv.loadSettings file) (fun _ => Seen.pure _)
  | list directory pattern =>
      exact Seen.bind (hv.matchingFiles directory pattern) (fun _ => Seen.pure _)
  | extract e input => exact Seen.bind (hv.extract e input) (fun _ => Seen.pure _)
  | extractFiles e inputs policy announced =>
      have hannounce := fun x => hv.printAll (announced x)
      exact Seen.bind (hv.extractOnto hannounce e policy Report.empty inputs) (fun _ => Seen.pure _)
  | extractAll e directory pattern policy announced =>
      have hannounce := fun x => hv.printAll (announced x)
      exact Seen.bind (hv.extractAll hannounce e directory pattern policy) (fun _ => Seen.pure _)
  | run a => exact Seen.bind (hv.run a) (fun _ => Seen.pure _)

theorem performAll (hv : Sight v) (steps : List Step) :
    Seen v (Step.performAll steps) (Step.performAll steps) := by
  induction steps with
  | nil => exact Seen.pure _
  | cons step rest ih =>
      exact Seen.bind (hv.perform step) (fun _ => Seen.bind ih (fun _ => Seen.pure _))

end Host.Sight

theorem Host.Sight.follow {σ τ : Type} [Host (StateM σ)] [Host (StateM τ)] {v : σ -> τ}
    (hv : Sight v) (read : Except Arguments.Refusal Arguments) (advice : String) :
    Seen v (Program.follow read advice) (Program.follow read advice) := by
  cases read with
  | error r =>
      simp only [Program.follow]
      split
      · exact Seen.bind (hv.print _) (fun _ => Seen.pure _)
      · exact Seen.bind (hv.complain _) (fun _ => Seen.pure _)
  | ok a =>
      apply Seen.bind (hv.run a)
      intro result
      cases result with
      | ok _ => exact Seen.pure _
      | error f => exact Seen.bind (hv.complain _) (fun _ => Seen.pure _)

namespace Program

/-!
## The whole program
-/

theorem seen_execute (line : List (List UInt8)) (wish : Option String)
    (advice : List (List UInt8) -> String) :
    Seen Session.screen (execute line wish advice)
      (follow (Arguments.parse line) (advice line)) := by
  have hprepare : Seen Session.screen (prepare (Arguments.parse line) wish) (pure ()) := by
    intro s
    cases Arguments.parse line <;> rfl
  exact Seen.bind hprepare (fun _ => Session.sight_screen.follow _ _)

theorem outcome_follow_screen (line : List (List UInt8)) (wish : Option String)
    (advice : List (List UInt8) -> String) (t : Storage.Tree) (f : Filter) :
    outcome (follow (Arguments.parse line) (advice line)) (Screen.mk t [] []) =
      let ended := outcome (execute line wish advice) (Session.ofTree t f)
      (ended.1, ended.2.screen) :=
  seen_execute line wish advice (.ofTree t f)

section AnyHost

variable {m : Type -> Type} [Monad m] [Host m]

theorem follow_quiet (read : Except Arguments.Refusal Arguments) (advice : String) :
    (follow (read.map Arguments.quiet) advice : m Nat) = follow read advice := by
  cases read <;> rfl

theorem follow_of_readAlike {line line' : List (List UInt8)} (h : Arguments.ReadAlike line line')
    {advice advice' : String} (hadvice : forall e, Arguments.parse line = .error e ->
      advice = advice') :
    (follow (Arguments.parse line) advice : m Nat) = follow (Arguments.parse line') advice' := by
  rw [← follow_quiet, h, follow_quiet]
  cases hline : Arguments.parse line with
  | error e => rw [hadvice e hline]
  | ok a =>
      rw [Arguments.ReadAlike, hline] at h
      cases hline' : Arguments.parse line' with
      | error e =>
          rw [hline'] at h
          cases h
      | ok b => rfl

end AnyHost

theorem outcome_follow_error (r : Arguments.Refusal) (advice : String) (w : Screen) :
    outcome (follow (.error r) advice) w =
      (r.status, if r.status = 0 then { w with output := w.output ++ [r.message] }
        else { w with complaints := w.complaints ++ [r.complaint advice] }) := by
  simp only [follow, beq_iff_eq]
  split <;> rfl

theorem outcome_follow_of_akin {read read' : Except Arguments.Refusal Arguments}
    (h : Arguments.Akin read read') (advice advice' : String) (w : Screen) :
    (outcome (follow read advice) w).1 = (outcome (follow read' advice') w).1 ∧
      (outcome (follow read advice) w).2.files = (outcome (follow read' advice') w).2.files ∧
      (outcome (follow read advice) w).2.output = (outcome (follow read' advice') w).2.output := by
  cases h with
  | run hquiet =>
      rename_i a b
      have hrun : (follow (.ok a) advice : StateM Screen Nat) = follow (.ok b) advice' :=
        calc follow (.ok a) advice = follow (.ok a.quiet) advice := rfl
          _ = follow (.ok b.quiet) advice' := by rw [hquiet]; rfl
      rw [hrun]
      exact ⟨rfl, rfl, rfl⟩
  | same e =>
      rw [outcome_follow_error, outcome_follow_error]
      split <;> exact ⟨rfl, rfl, rfl⟩
  | errors he he' =>
      rw [outcome_follow_error, outcome_follow_error, he, he']
      exact ⟨rfl, rfl, rfl⟩

/-- Under every filter the library gives the same account of what it was asked for, of which the
filter shows its part. -/
theorem outcome_performAll_diary (steps : List Step) (t : Storage.Tree) (f : Filter) :
    outcome (Step.performAll steps) (.ofTree t f) =
      let told := outcome (Step.performAll steps) (Diary.mk t [])
      (told.1, Diary.session f [] told.2) :=
  Diary.outcome_of_seen
    (fun filter before => (Diary.sight_session filter before).performAll steps) _

/-- Command lines that are read alike, the switch for a talkative journal apart, do and say the same
and end alike, whatever filters the environment asks for; only the advice on a line that is refused
can depend on the line.  Lines that are merely akin may be refused for different errors.  A line
with the switch is akin to the line without it, unless it is there already: the switch stands before
two hyphens, and not where the value of an option should.  It is read alike if it makes sense, or if
what stands before the switch does.  And of what the library notes down, a coarser level shows what
a finer one shows up to it. -/
theorem journal_changes_nothing (advice : List (List UInt8) -> String) :
    (forall line line', Arguments.ReadAlike line line' ->
      (forall e, Arguments.parse line = .error e -> advice line = advice line') ->
      forall wish wish' t f f',
      let one := outcome (execute line wish advice) (Session.ofTree t f)
      let other := outcome (execute line' wish' advice) (Session.ofTree t f')
      one.1 = other.1 ∧ one.2.screen = other.2.screen) ∧
    (forall line line', Arguments.Akin (Arguments.parse line) (Arguments.parse line') ->
      forall wish wish' t f f',
      let one := outcome (execute line wish advice) (Session.ofTree t f)
      let other := outcome (execute line' wish' advice) (Session.ofTree t f')
      one.1 = other.1 ∧ one.2.files = other.2.files ∧ one.2.output = other.2.output) ∧
    (forall front flag back, Arguments.Spells (.switch .verbose) [flag] ->
      [Arguments.Reading.hyphen, Arguments.Reading.hyphen] ∉ front ->
      ¬ Arguments.CutsValue front back ->
      Arguments.parse (front ++ flag :: back) ≠
        .error (.repeated Arguments.Switch.verbose.shown) ->
      Arguments.Akin (Arguments.parse (front ++ flag :: back)) (Arguments.parse (front ++ back)) ∧
        ((exists a, Arguments.parse front = .ok a) ∨
          (exists a, Arguments.parse (front ++ flag :: back) = .ok a) ->
          Arguments.ReadAlike (front ++ flag :: back) (front ++ back))) ∧
    (forall (level level' : Option Level) f f',
      level.elim 0 Level.rank ≤ level'.elim 0 Level.rank ->
      Filter.ofText? (Filter.ownText level) = some f ->
      Filter.ofText? (Filter.ownText level') = some f' -> forall steps t,
      let coarse := outcome (Step.performAll steps) (Session.ofTree t f)
      let fine := outcome (Step.performAll steps) (Session.ofTree t f')
      coarse.1 = fine.1 ∧ coarse.2.screen = fine.2.screen ∧
        coarse.2.records =
          fine.2.records.filter fun r => r.level.rank ≤ level.elim 0 Level.rank) := by
  refine ⟨?alike, ?akin, ?switch, ?levels⟩
  case alike =>
    intro line line' halike hadvice wish wish' t f f' one other
    have hone := outcome_follow_screen line wish advice t f
    have hother := outcome_follow_screen line' wish' advice t f'
    rw [follow_of_readAlike halike hadvice, hother] at hone
    injection hone with hstatus hscreen
    exact ⟨hstatus.symm, hscreen.symm⟩
  case akin =>
    intro line line' hakin wish wish' t f f' one other
    have hone := outcome_follow_screen line wish advice t f
    have hother := outcome_follow_screen line' wish' advice t f'
    have hends := outcome_follow_of_akin hakin (advice line) (advice line') (Screen.mk t [] [])
    rw [hone, hother] at hends
    exact hends
  case switch =>
    intro front flag back hflag hfront hcut honce
    have hakin := Arguments.akin_insert_verbose hflag hfront hcut honce
    constructor
    · exact hakin
    · rintro (hsense | ⟨a, ha⟩)
      · exact Arguments.readAlike_insert_verbose hflag hfront hsense honce
      · exact Arguments.readAlike_of_akin hakin ha
  case levels =>
    intro level level' f f' hle hf hf' steps t coarse fine
    cases (Filter.ofText?_ownText level).symm.trans hf
    cases (Filter.ofText?_ownText level').symm.trans hf'
    have hcoarse : coarse = _ := outcome_performAll_diary steps t (.own level)
    have hfine : fine = _ := outcome_performAll_diary steps t (.own level')
    rw [hcoarse, hfine]
    refine ⟨rfl, Diary.screen_session _ _ [] _, ?_⟩
    rw [Diary.records_session, Diary.records_session, List.filter_filter]
    apply List.filter_congr
    intro r _
    exact Filter.admits_own_of_le hle r

/-- The switch between a file and another option, and an input that has no file name. -/
theorem journal_changes_nothing_nameless :
    let talkativeLine := ["a", "--verbose", "--keep-going"].map fun s => Text.Utf8.encode s.toList
    let quietLine := ["a", "--keep-going"].map fun s => Text.Utf8.encode s.toList
    let start := Session.ofTree ⟨[], []⟩ (.ofDirectives [])
    let steps := [Step.extractFiles (.usual ⟨[]⟩) [⟨[]⟩] .keepGoing fun _ => []]
    let coarse := outcome (Step.performAll steps) (Session.ofTree ⟨[], []⟩ (.own (some .error)))
    let fine := outcome (Step.performAll steps) (Session.ofTree ⟨[], []⟩ (.own (some .debug)))
    Arguments.ReadAlike talkativeLine quietLine ∧
      (outcome (execute talkativeLine (some "trace")) start).2.screen =
        (outcome (execute quietLine (some "off")) start).2.screen ∧
      fine.2.records = [Extractor.recordSkipped ⟨[]⟩ (.noFileName ⟨[]⟩)] ∧
      coarse.2.records = [] := by
  intro talkativeLine quietLine start steps coarse fine
  have hchanges := journal_changes_nothing fun _ => Arguments.adviceText
  have hflag : Arguments.Spells (.switch .verbose)
      [Text.Utf8.encode "--verbose".toList] :=
    .long (show (.switch .verbose, "verbose", some 'v') ∈ Arguments.Name.all by decide)
  have hfront : Arguments.parse [Text.Utf8.encode ['a']] = .ok
      { Arguments.empty with files := [Path.ofString "a"] } := by
    cbv
  have hparse : Arguments.parse talkativeLine = .ok
      { Arguments.empty with
        files := [Path.ofString "a"], keepGoing := true, verbose := true } := by
    cbv
  have hcut : ¬ Arguments.CutsValue [Text.Utf8.encode ['a']]
      [Text.Utf8.encode "--keep-going".toList] := by
    rintro ⟨r, argument, -, -, hhead, hvalue⟩
    cases hhead
    revert hvalue
    decide
  have honce : Arguments.parse talkativeLine ≠
      .error (.repeated Arguments.Switch.verbose.shown) := by
    rw [hparse]
    intro htwice
    cases htwice
  have halike : Arguments.ReadAlike talkativeLine quietLine :=
    (hchanges.2.2.1 [Text.Utf8.encode ['a']] _ _ hflag (by decide) hcut honce).2
      (Or.inl ⟨_, hfront⟩)
  have hscreen := (hchanges.1 _ _ halike (fun _ _ => rfl) (some "trace") (some "off") ⟨[], []⟩
    (.ofDirectives []) (.ofDirectives [])).2
  have hfine : fine.2.records = [Extractor.recordSkipped ⟨[]⟩ (.noFileName ⟨[]⟩)] := rfl
  have hcoarse := (hchanges.2.2.2 (some .error) (some .debug) _ _ (by decide)
    (Filter.ofText?_ownText _) (Filter.ofText?_ownText _) steps ⟨[], []⟩).2.2
  refine ⟨halike, hscreen, hfine, hcoarse.trans ?_⟩
  change fine.2.records.filter _ = []
  rw [hfine]
  decide

/-- Where a value is missing and another option is unknown, the switch between the two decides which
error comes first. -/
theorem verbose_changes_refusal :
    let talkativeLine := ["--key", "--verbose", "-x"].map fun s => Text.Utf8.encode s.toList
    let quietLine := ["--key", "-x"].map fun s => Text.Utf8.encode s.toList
    let start := Session.ofTree ⟨[], []⟩ (.ofDirectives [])
    let talkative := outcome (execute talkativeLine none) start
    let quiet := outcome (execute quietLine none) start
    talkative.1 = 2 ∧ quiet.1 = 2 ∧
      talkative.2.complaints =
        ["error: a value is required for '--key <KEY>' but none was supplied\n" ++
          Arguments.adviceText] ∧
      quiet.2.complaints = ["error: unexpected argument '-x' found\n" ++ Arguments.adviceText] ∧
      talkative.2.complaints ≠ quiet.2.complaints := by
  have htalkative : Arguments.parse (["--key", "--verbose", "-x"].map fun s =>
      Text.Utf8.encode s.toList) = .error (.missingValue "--key <KEY>") := by
    cbv
  have hquiet : Arguments.parse (["--key", "-x"].map fun s => Text.Utf8.encode s.toList) =
      .error (.unknown "-x") := by
    cbv
  intro talkativeLine quietLine start talkative quiet
  have hsaid : talkative = _ := outcome_execute_of_error htalkative none _ _
  have hsaid' : quiet = _ := outcome_execute_of_error hquiet none _ _
  rw [hsaid, hsaid']
  decide

end Program
end Clippings
