import Clippings.Proofs.Extraction.Policy
import Clippings.Proofs.Extraction.Single
import Clippings.Proofs.Storage.Joined

/-!
# The attempts of a run

A run over many files tries them one after the other, each on the files that the attempt before it
left.  What is written for one file may be written over for a later one: at the end, every file that
was written to holds what was written last.
-/

namespace Clippings
namespace Extractor

open Host (outcome)
open Storage (Tree Address Name)

/-!
## Attempts
-/

/-- One file is tried: the tree it is tried on, what comes of it, and the tree it leaves. -/
structure Attempt where
  input : Path
  before : Tree
  result : Except Failure Path
  after : Tree

namespace Attempt

def extracted? (a : Attempt) : Option Extracted :=
  match a.result with
  | .ok output => some ⟨a.input, output⟩
  | .error _ => none

def failure? (a : Attempt) : Option Failure :=
  match a.result with
  | .ok _ => none
  | .error f => some f

end Attempt

def attempt (e : Extractor) (t : Tree) (input : Path) : Attempt :=
  ⟨input, t, (outcome (e.extract input) t).1, (outcome (e.extract input) t).2⟩

/-- The attempts of a run.  One that stops at failures has no attempt after a failed one. -/
def attempts (e : Extractor) (policy : Policy) (t : Tree) : List Path -> List Attempt
  | [] => []
  | input :: rest =>
    match (e.attempt t input).result with
    | .ok _ => e.attempt t input :: attempts e policy (e.attempt t input).after rest
    | .error _ =>
      match policy with
      | .failFast => [e.attempt t input]
      | .keepGoing => e.attempt t input :: attempts e policy (e.attempt t input).after rest

def extractedBy (as : List Attempt) : List Extracted :=
  as.filterMap Attempt.extracted?

def failuresOf (as : List Attempt) : List Failure :=
  as.filterMap Attempt.failure?

def treeAfter (t : Tree) : List Attempt -> Tree
  | [] => t
  | a :: rest => treeAfter a.after rest

def answer (policy : Policy) (r : Report) (as : List Attempt) : Except Failure Report :=
  match policy, failuresOf as with
  | .failFast, f :: _ => .error f
  | _, fs => .ok ⟨r.extracted ++ extractedBy as, r.failures ++ fs⟩

section Cons

variable {e : Extractor} {t t' : Tree} {input output : Path} {f : Failure}

@[simp]
theorem extractedBy_cons_ok (as : List Attempt) :
    extractedBy (⟨input, t, .ok output, t'⟩ :: as) = ⟨input, output⟩ :: extractedBy as := rfl

@[simp]
theorem extractedBy_cons_error (as : List Attempt) :
    extractedBy (⟨input, t, .error f, t'⟩ :: as) = extractedBy as := rfl

@[simp]
theorem failuresOf_cons_ok (as : List Attempt) :
    failuresOf (⟨input, t, .ok output, t'⟩ :: as) = failuresOf as := rfl

@[simp]
theorem failuresOf_cons_error (as : List Attempt) :
    failuresOf (⟨input, t, .error f, t'⟩ :: as) = f :: failuresOf as := rfl

theorem attempts_cons_of_ok (h : outcome (e.extract input) t = (.ok output, t'))
    (policy : Policy) (rest : List Path) :
    e.attempts policy t (input :: rest) =
      ⟨input, t, .ok output, t'⟩ :: e.attempts policy t' rest := by
  rw [attempts.eq_def]
  simp only [attempt, h]

theorem attempts_cons_failFast (h : outcome (e.extract input) t = (.error f, t'))
    (rest : List Path) :
    e.attempts .failFast t (input :: rest) = [⟨input, t, .error f, t'⟩] := by
  rw [attempts]
  simp only [attempt, h]

theorem attempts_cons_keepGoing (h : outcome (e.extract input) t = (.error f, t'))
    (rest : List Path) :
    e.attempts .keepGoing t (input :: rest) =
      ⟨input, t, .error f, t'⟩ :: e.attempts .keepGoing t' rest := by
  rw [attempts]
  simp only [attempt, h]

end Cons

theorem length_extractedBy_add (as : List Attempt) :
    (extractedBy as).length + (failuresOf as).length = as.length := by
  induction as with
  | nil => rfl
  | cons a rest ih =>
      rcases a with ⟨input, before, result, after⟩
      cases result with
      | ok output =>
          simp only [extractedBy_cons_ok, failuresOf_cons_ok, List.length_cons]
          omega
      | error f =>
          simp only [extractedBy_cons_error, failuresOf_cons_error, List.length_cons]
          omega

theorem answer_eq_ok_iff {policy : Policy} {r r' : Report} {as : List Attempt} :
    answer policy r as = .ok r' <-> (policy = .failFast -> failuresOf as = []) ∧
      r' = ⟨r.extracted ++ extractedBy as, r.failures ++ failuresOf as⟩ := by
  unfold answer
  cases policy with
  | failFast =>
      cases failuresOf as with
      | nil => simp [eq_comm (a := r')]
      | cons f fs => simp
  | keepGoing => simp [eq_comm (a := r')]

theorem map_input_attempts {e : Extractor} {policy : Policy} {t : Tree} {inputs : List Path}
    (h : policy = .failFast -> failuresOf (e.attempts policy t inputs) = []) :
    (e.attempts policy t inputs).map Attempt.input = inputs := by
  induction inputs generalizing t with
  | nil => rfl
  | cons input rest ih =>
      cases hx : outcome (e.extract input) t with
      | mk result t' =>
          cases result with
          | ok output =>
              rw [attempts_cons_of_ok hx] at h ⊢
              rw [List.map_cons, ih h]
          | error f =>
              cases policy with
              | failFast =>
                  rw [attempts_cons_failFast hx] at h
                  cases h rfl
              | keepGoing =>
                  rw [attempts_cons_keepGoing hx, List.map_cons, ih (by simp)]

/-- A host whose state is a tree and the list of what was announced. -/
structure Ledger {σ : Type} [Host (StateM σ)] (announce : Extracted -> StateM σ Unit)
    (state : List Extracted -> Tree -> σ) : Prop where
  view : forall xs, Host.View (state xs)
  note : forall x xs t, outcome (announce x) (state xs t) = ((), state (xs ++ [x]) t)

theorem ledger_silent :
    Ledger (fun _ => pure ()) (fun _ t => t) := by
  constructor
  · intro _
    constructor <;> intros <;> intro t <;> rfl
  · intros
    rfl

/-- A run makes its attempts, announces what they extract and answers what they come to. -/
theorem outcome_extractOnto {σ : Type} [Host (StateM σ)] {announce : Extracted -> StateM σ Unit}
    {state : List Extracted -> Tree -> σ} (h : Ledger announce state) (e : Extractor)
    (policy : Policy) (r : Report) (inputs : List Path) (xs : List Extracted) (t : Tree) :
    outcome (e.extractOnto policy announce r inputs) (state xs t) =
      (answer policy r (e.attempts policy t inputs),
        state (xs ++ extractedBy (e.attempts policy t inputs))
          (treeAfter t (e.attempts policy t inputs))) := by
  induction inputs generalizing r xs t with
  | nil =>
      rw [outcome_extractOnto_nil]
      cases policy <;> simp [attempts, answer, extractedBy, failuresOf, treeAfter]
  | cons input rest ih =>
      have hseen := (h.view xs).extract e input t
      cases hx : outcome (e.extract input) t with
      | mk result t' =>
          rw [hx] at hseen
          cases result with
          | ok output =>
              rw [outcome_extractOnto_of_ok hseen, h.note, ih, attempts_cons_of_ok hx]
              cases policy <;> simp [answer, Report.addExtracted, treeAfter]
          | error f =>
              cases policy with
              | failFast =>
                  rw [outcome_extractOnto_failFast hseen, attempts_cons_failFast hx]
                  simp only [extractedBy_cons_error]
                  simp [answer, treeAfter, extractedBy]
              | keepGoing =>
                  have hrecord := (h.view xs).record (recordSkipped input f) t'
                  rw [outcome_extractOnto_keepGoing hseen, hrecord, attempts_cons_keepGoing hx]
                  change outcome _ (state xs t') = _
                  rw [ih]
                  simp [answer, Report.addFailure, treeAfter]

end Extractor
end Clippings
