import Clippings.Proofs.Extraction.Overwriting

/-!
# Every input has its turn

A run that keeps going tries every input once, in order, on the files that the tries before it left.
Each try ends in the report, as one extracted file or as one failure.  What was extracted is
announced when its output is written and before the next input is tried.
-/

namespace Clippings

open Host (outcome)
open Storage (Tree)

/-!
## Announcements and files
-/

structure Call where
  extracted : Extracted
  files : Tree

/-- A session together with the announcements that were made in it, in order. -/
structure Chronicle where
  session : Session
  calls : List Call

namespace Chronicle

def lift {α : Type} (f : SessionM α) : StateM Chronicle α := fun c =>
  ((outcome f c.session).1, { c with session := (outcome f c.session).2 })

def note (x : Extracted) : StateM Chronicle Unit := fun c =>
  ((), { c with calls := c.calls ++ [⟨x, c.session.files⟩] })

instance : Host (StateM Chronicle) where
  workingDirectory := lift Host.workingDirectory
  read p := lift (Host.read p)
  write p content := lift (Host.write p content)
  makeDirectory p := lift (Host.makeDirectory p)
  names p := lift (Host.names p)
  isFile p := lift (Host.isFile p)
  isDirectory p := lift (Host.isDirectory p)
  record r := lift (Host.record r)
  filter f := lift (Host.filter f)
  print text := lift (Host.print text)
  complain text := lift (Host.complain text)

theorem view (calls : List Call) :
    Host.View (fun s : Session => Chronicle.mk s calls) := by
  constructor <;> intros <;> intro s <;> rfl

theorem exists_outcome_extract (e : Extractor) (input : Path) (s : Session) (calls : List Call) :
    exists s' : Session, outcome (e.extract input) (Chronicle.mk s calls) =
        ((outcome (e.extract input) s.files).1, ⟨s', calls⟩) ∧
      s'.files = (outcome (e.extract input) s.files).2 := by
  have hcalls := (view calls).extract e input s
  have hfiles := Session.view_files.extract e input s
  exists (outcome (e.extract input) s).2
  constructor
  · rw [hcalls, hfiles]
  · rw [hfiles]

theorem exists_outcome_record (r : Journal.Record) (s : Session) (calls : List Call) :
    exists s' : Session, outcome (Host.record r) (Chronicle.mk s calls) = ((), ⟨s', calls⟩) ∧
      s'.files = s.files := by
  refine ⟨s.record r, rfl, ?_⟩
  unfold Session.record
  split <;> rfl

end Chronicle

namespace Extractor

def Attempt.call? (a : Attempt) : Option Call :=
  a.extracted?.map (⟨·, a.after⟩)

def callsOf (as : List Attempt) : List Call :=
  as.filterMap Attempt.call?

@[simp]
theorem callsOf_cons_ok {t t' : Tree} {input output : Path} (as : List Attempt) :
    callsOf (⟨input, t, .ok output, t'⟩ :: as) = ⟨⟨input, output⟩, t'⟩ :: callsOf as := rfl

@[simp]
theorem callsOf_cons_error {t t' : Tree} {input : Path} {f : Failure} (as : List Attempt) :
    callsOf (⟨input, t, .error f, t'⟩ :: as) = callsOf as := rfl

theorem map_extracted_callsOf (as : List Attempt) :
    (callsOf as).map Call.extracted = extractedBy as := by
  rw [callsOf, List.map_filterMap, extractedBy]
  apply List.filterMap_congr
  intro a _
  cases ha : a.extracted? <;> simp [Attempt.call?, ha]

theorem exists_outcome_extractOnto (e : Extractor) (policy : Policy) (r : Report)
    (inputs : List Path) (s : Session) (calls : List Call) :
    exists s' : Session,
      outcome (e.extractOnto policy Chronicle.note r inputs) (Chronicle.mk s calls) =
        (answer policy r (e.attempts policy s.files inputs),
          ⟨s', calls ++ callsOf (e.attempts policy s.files inputs)⟩) ∧
      s'.files = treeAfter s.files (e.attempts policy s.files inputs) := by
  induction inputs generalizing r s calls with
  | nil =>
      refine ⟨s, ?_, rfl⟩
      rw [outcome_extractOnto_nil]
      cases policy <;> simp [attempts, answer, extractedBy, failuresOf, callsOf]
  | cons input rest ih =>
      rcases Chronicle.exists_outcome_extract e input s calls with ⟨s₁, hrun, hfiles⟩
      cases hx : outcome (e.extract input) s.files with
      | mk result t =>
          rw [hx] at hrun hfiles
          have hfiles : s₁.files = t := hfiles
          subst hfiles
          cases result with
          | ok output =>
              rcases ih (r.addExtracted ⟨input, output⟩) s₁
                (calls ++ [⟨⟨input, output⟩, s₁.files⟩]) with ⟨s', hrest, hs'⟩
              exists s'
              constructor
              · rw [outcome_extractOnto_of_ok hrun, attempts_cons_of_ok hx]
                apply hrest.trans
                cases policy <;> simp [answer, Report.addExtracted]
              · rw [hs', attempts_cons_of_ok hx, treeAfter]
          | error f =>
              cases policy with
              | failFast =>
                  refine ⟨s₁, ?_, ?_⟩
                  · rw [outcome_extractOnto_failFast hrun, attempts_cons_failFast hx]
                    simp only [callsOf_cons_error]
                    simp [answer, callsOf]
                  · rw [attempts_cons_failFast hx, treeAfter, treeAfter]
              | keepGoing =>
                  rcases Chronicle.exists_outcome_record (recordSkipped input f) s₁ calls with
                    ⟨s₂, hrecord, hs₂⟩
                  rcases ih (r.addFailure f) s₂ calls with ⟨s', hrest, hs'⟩
                  rw [hs₂] at hrest hs'
                  exists s'
                  constructor
                  · rw [outcome_extractOnto_keepGoing hrun, hrecord, attempts_cons_keepGoing hx]
                    apply hrest.trans
                    simp [answer, Report.addFailure]
                  · rw [hs', attempts_cons_keepGoing hx, treeAfter]

/-!
## Turns
-/

def leave (e : Extractor) (t : Tree) (input : Path) : Tree :=
  (outcome (e.extract input) t).2

theorem attempts_keepGoing_cons (e : Extractor) (t : Tree) (input : Path) (rest : List Path) :
    e.attempts .keepGoing t (input :: rest) =
      e.attempt t input :: e.attempts .keepGoing (e.leave t input) rest := by
  rw [attempts.eq_def]
  simp only
  split <;> rfl

theorem treeAfter_keepGoing (e : Extractor) (t : Tree) (inputs : List Path) :
    treeAfter t (e.attempts .keepGoing t inputs) = inputs.foldl e.leave t := by
  induction inputs generalizing t with
  | nil => rfl
  | cons input rest ih =>
      rw [attempts_keepGoing_cons, treeAfter, List.foldl_cons]
      exact ih (e.leave t input)

/-- An input is tried on what the inputs before it left. -/
theorem getElem?_keepGoing (e : Extractor) (t : Tree) (inputs : List Path) (k : Nat) :
    (e.attempts .keepGoing t inputs)[k]? =
      inputs[k]?.map (e.attempt ((inputs.take k).foldl e.leave t)) := by
  induction inputs generalizing t k with
  | nil => rfl
  | cons input rest ih =>
      rw [attempts_keepGoing_cons]
      cases k with
      | zero => rfl
      | succ k =>
          rw [List.getElem?_cons_succ, ih]
          rfl

theorem step_of_mem {e : Extractor} {t : Tree} {as : List Attempt} {a : Attempt} (ht : t.Closed)
    (h : Trail e t as) (ha : a ∈ as) :
    Step e a.before a.input a.result a.after := by
  rcases List.append_of_mem ha with ⟨earlier, later, rfl⟩
  rcases trail_append.mp h with ⟨hearlier, hbefore, hx, -⟩
  rw [hbefore]
  exact step_of_outcome (passed_of_trail ht hearlier).closed hx

/-- A run that keeps going always answers with a report.  It leaves what extracting from one input
after the other leaves; every input adds one element to the report, that of its own extraction on
the files left by those before it; and each extracted file is announced when its snippet is in
place, on the files that its extraction left. -/
theorem keepGoing_tries_every_input (e : Extractor) (inputs : List Path) (c : Chronicle)
    (hc : c.session.files.WellFormed) :
    exists (r : Report) (c' : Chronicle) (as : List Attempt),
      outcome (e.extractFiles inputs .keepGoing Chronicle.note) c = (.ok r, c') ∧
      c'.session.files = inputs.foldl e.leave c.session.files ∧
      (forall k : Nat, as[k]? =
        inputs[k]?.map (e.attempt ((inputs.take k).foldl e.leave c.session.files))) ∧
      r.extracted = as.filterMap Attempt.extracted? ∧
      r.failures = as.filterMap Attempt.failure? ∧
      r.count + r.failures.length = inputs.length ∧
      (exists calls, c'.calls = c.calls ++ calls ∧ calls = as.filterMap Attempt.call? ∧
        calls.map Call.extracted = r.extracted) ∧
      (forall a o, a ∈ as -> a.result = .ok o -> e.outputPath a.input = .ok o ∧
        exists text, e.Snips a.before a.input text ∧
          a.after.read o = .ok (Text.Utf8.encode text.toList)) := by
  rcases c with ⟨s, calls⟩
  rcases exists_outcome_extractOnto e .keepGoing Report.empty inputs s calls with
    ⟨s', hrun, hfiles⟩
  rw [treeAfter_keepGoing] at hfiles
  have htrail := trail_attempts e .keepGoing s.files inputs
  have hturns := getElem?_keepGoing e s.files inputs
  have hlength : (e.attempts .keepGoing s.files inputs).length = inputs.length := by
    rw [← List.length_map Attempt.input, map_input_attempts (by simp)]
  generalize e.attempts .keepGoing s.files inputs = as at hrun htrail hturns hlength
  refine ⟨⟨extractedBy as, failuresOf as⟩, _, as, hrun, hfiles, hturns, rfl, rfl, ?_, ?_, ?_⟩
  · rw [Report.count, length_extractedBy_add, hlength]
  · exists callsOf as
    exact ⟨rfl, rfl, map_extracted_callsOf as⟩
  · intro a o ha ho
    rcases (step_of_mem hc.closed htrail ha).ok o ho with
      ⟨text, addr, houtput, hsnips, hfind, hfile, -⟩
    exact ⟨houtput, text, hsnips, Tree.read_of_find hfind hfile⟩

/-- One file is given twice, one has no name, and two share their output. -/
theorem keepGoing_tries_every_input_namesakes :
    namesakes.WellFormed ∧
      exists (r : Report) (c' : Chronicle),
        outcome (keeper.extractFiles (namesakePaths ++ ⟨[46, 46]⟩ :: namesakePaths) .keepGoing
            Chronicle.note)
          ⟨Session.ofTree namesakes (Journal.Filter.ofDirectives []), []⟩ = (.ok r, c') ∧
        c'.session.files =
          (namesakePaths ++ ⟨[46, 46]⟩ :: namesakePaths).foldl keeper.leave namesakes ∧
        r.count + r.failures.length = 5 ∧ c'.calls.map Call.extracted = r.extracted := by
  have hwell : namesakes.WellFormed := by decide
  rcases keepGoing_tries_every_input keeper (namesakePaths ++ ⟨[46, 46]⟩ :: namesakePaths)
    ⟨Session.ofTree namesakes (Journal.Filter.ofDirectives []), []⟩ hwell with
    ⟨r, c', as, hrun, hfiles, -, -, -, hcount, ⟨calls, hcalls, -, hextracted⟩, -⟩
  refine ⟨hwell, r, c', hrun, hfiles, hcount, ?_⟩
  rw [hcalls, List.nil_append, hextracted]

end Extractor
end Clippings
