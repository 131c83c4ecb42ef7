import Clippings.Proofs.Host.View
import Clippings.Session

/-!
# The two policies

A run that keeps going and a run that stops at the first failure do the same up to that failure.
So the second run is the first one, cut right after the first input that failed.
-/

namespace Clippings
namespace Extractor

open Host (outcome)

section AnyHost

variable {σ : Type} [Host (StateM σ)] {announce : Extracted -> StateM σ Unit}

/-!
## One input
-/

theorem outcome_extractOnto_nil (e : Extractor) (policy : Policy) (r : Report) (s : σ) :
    outcome (e.extractOnto policy announce r []) s = (.ok r, s) := rfl

theorem outcome_extractOnto_of_ok {e : Extractor} {input output : Path} {s s' : σ}
    (h : outcome (e.extract input) s = (.ok output, s'))
    (policy : Policy) (r : Report) (rest : List Path) :
    outcome (e.extractOnto policy announce r (input :: rest)) s =
      outcome (e.extractOnto policy announce (r.addExtracted ⟨input, output⟩) rest)
        (outcome (announce ⟨input, output⟩) s').2 := by
  rw [extractOnto, Host.outcome_bind, h]
  rfl

theorem outcome_extractOnto_failFast {e : Extractor} {input : Path} {f : Failure} {s s' : σ}
    (h : outcome (e.extract input) s = (.error f, s')) (r : Report) (rest : List Path) :
    outcome (e.extractOnto .failFast announce r (input :: rest)) s = (.error f, s') := by
  rw [extractOnto, Host.outcome_bind, h]
  rfl

theorem outcome_extractOnto_keepGoing {e : Extractor} {input : Path} {f : Failure} {s s' : σ}
    (h : outcome (e.extract input) s = (.error f, s')) (r : Report) (rest : List Path) :
    outcome (e.extractOnto .keepGoing announce r (input :: rest)) s =
      outcome (e.extractOnto .keepGoing announce (r.addFailure f) rest)
        (outcome (Host.record (recordSkipped input f)) s').2 := by
  rw [extractOnto, Host.outcome_bind, h]
  rfl

/-!
## Up to the first failure
-/

def Smooth (e : Extractor) (announce : Extracted -> StateM σ Unit) (s : σ) (inputs : List Path)
    (written : List Extracted) (s' : σ) : Prop :=
  forall policy (r : Report), outcome (e.extractOnto policy announce r inputs) s =
    (.ok ⟨r.extracted ++ written, r.failures⟩, s')

theorem Smooth.nil (e : Extractor) (s : σ) :
    Smooth e announce s [] [] s := by
  intro policy r
  rw [outcome_extractOnto_nil, List.append_nil]

theorem Smooth.cons {e : Extractor} {s s₁ s' : σ} {input output : Path} {inputs : List Path}
    {written : List Extracted} (h : outcome (e.extract input) s = (.ok output, s₁))
    (hrest : Smooth e announce (outcome (announce ⟨input, output⟩) s₁).2 inputs written s') :
    Smooth e announce s (input :: inputs) (⟨input, output⟩ :: written) s' := by
  intro policy r
  rw [outcome_extractOnto_of_ok h, hrest]
  simp [Report.addExtracted]

theorem outcome_extractOnto_append {e : Extractor} {policy : Policy} {r r' : Report}
    {before : List Path} {s s' : σ}
    (h : outcome (e.extractOnto policy announce r before) s = (.ok r', s')) (after : List Path) :
    outcome (e.extractOnto policy announce r (before ++ after)) s =
      outcome (e.extractOnto policy announce r' after) s' := by
  induction before generalizing r s with
  | nil =>
      rw [outcome_extractOnto_nil] at h
      cases h
      rfl
  | cons input rest ih =>
      rw [List.cons_append]
      cases hx : outcome (e.extract input) s with
      | mk result s₁ =>
          cases result with
          | ok output =>
              rw [outcome_extractOnto_of_ok hx] at h ⊢
              exact ih h
          | error f =>
              cases policy with
              | failFast =>
                  rw [outcome_extractOnto_failFast hx] at h
                  cases h
              | keepGoing =>
                  rw [outcome_extractOnto_keepGoing hx] at h ⊢
                  exact ih h

/-- Either all inputs are extracted, or there is a first one that fails. -/
theorem smooth_or_exists_failing (e : Extractor) (announce : Extracted -> StateM σ Unit)
    (inputs : List Path) (s : σ) :
    (exists written s', Smooth e announce s inputs written s') ∨
      exists before input after written s₁ f s₂, inputs = before ++ input :: after ∧
        Smooth e announce s before written s₁ ∧
        outcome (e.extract input) s₁ = (.error f, s₂) := by
  induction inputs generalizing s with
  | nil => exact Or.inl ⟨[], s, Smooth.nil e s⟩
  | cons input rest ih =>
      cases hx : outcome (e.extract input) s with
      | mk result s₁ =>
          cases result with
          | error f => exact Or.inr ⟨[], input, rest, [], s, f, s₁, rfl, Smooth.nil e s, hx⟩
          | ok output =>
              rcases ih (outcome (announce ⟨input, output⟩) s₁).2 with
                ⟨written, s', hsmooth⟩ | ⟨before, input', after, written, s₂, f, s₃, hi, hs, hf⟩
              · exact Or.inl ⟨_, s', Smooth.cons hx hsmooth⟩
              · refine Or.inr ⟨input :: before, input', after, _, s₂, f, s₃, ?_,
                  Smooth.cons hx hs, hf⟩
                rw [hi, List.cons_append]

theorem exists_outcome_keepGoing (e : Extractor) (announce : Extracted -> StateM σ Unit)
    (inputs : List Path) (r : Report) (s : σ) :
    exists (r' : Report) (s' : σ),
      outcome (e.extractOnto .keepGoing announce r inputs) s = (.ok r', s') ∧
        r.extracted <+: r'.extracted ∧ r.failures <+: r'.failures := by
  induction inputs generalizing r s with
  | nil => exact ⟨r, s, rfl, List.prefix_rfl, List.prefix_rfl⟩
  | cons input rest ih =>
      cases hx : outcome (e.extract input) s with
      | mk result s₁ =>
          cases result with
          | ok output =>
              rw [outcome_extractOnto_of_ok hx]
              rcases ih (r.addExtracted ⟨input, output⟩)
                (outcome (announce ⟨input, output⟩) s₁).2 with ⟨r', s', hr, hxs, hfs⟩
              exact ⟨r', s', hr, (List.prefix_append _ _).trans hxs, hfs⟩
          | error f =>
              rw [outcome_extractOnto_keepGoing hx]
              rcases ih (r.addFailure f) (outcome (Host.record (recordSkipped input f)) s₁).2 with
                ⟨r', s', hr, hxs, hfs⟩
              exact ⟨r', s', hr, hxs, (List.prefix_append _ _).trans hfs⟩

end AnyHost
end Extractor

/-!
## Sessions under watch
-/

/-- A session together with the pairs that were announced in it, in order. -/
structure Watch where
  session : Session
  announced : List Extracted

namespace Watch

def lift {α : Type} (f : SessionM α) : StateM Watch α := fun w =>
  ((Host.outcome f w.session).1, { w with session := (Host.outcome f w.session).2 })

def note (x : Extracted) : StateM Watch Unit := fun w =>
  ((), { w with announced := w.announced ++ [x] })

instance : Host (StateM Watch) where
  workingDirectory := lift Host.workingDirectory
  read p := lift (Host.read p)
  write p content := lift (Host.write p content)
  makeDirectory p := lift (Host.makeDirectory p)
  names p := lift (Host.names p)
  isFile p := lift (Host.isFile p)
  isDirectory p := lift (Host.isDirectory p)
  record r := lift (Host.record r)
  filter f := lift (Host.filter f)
  print text := lift (Host.print text)
  complain text := lift (Host.complain text)

theorem view (announced : List Extracted) :
    Host.View (fun s : Session => Watch.mk s announced) := by
  constructor <;> intros <;> intro s <;> rfl

theorem announced_extract (e : Extractor) (input : Path) (w : Watch) :
    (Host.outcome (e.extract input) w).2.announced = w.announced := by
  have h := (view w.announced).extract e input w.session
  rw [show w = Watch.mk w.session w.announced from rfl, h]

theorem announced_record (r : Journal.Record) (w : Watch) :
    (Host.outcome (Host.record r : StateM Watch Unit) w).2.announced = w.announced := rfl

theorem files_record (r : Journal.Record) (w : Watch) :
    (Host.outcome (Host.record r : StateM Watch Unit) w).2.session.files = w.session.files := by
  change (w.session.record r).files = w.session.files
  unfold Session.record
  split <;> rfl

end Watch

namespace Extractor

open Host (outcome)

/-- What a run reports as extracted is what it announces. -/
theorem announced_of_outcome {e : Extractor} {policy : Policy} {r r' : Report}
    {inputs : List Path} {w w' : Watch}
    (h : outcome (e.extractOnto policy Watch.note r inputs) w = (.ok r', w')) :
    exists written, r'.extracted = r.extracted ++ written ∧
      w'.announced = w.announced ++ written := by
  induction inputs generalizing r w with
  | nil =>
      rw [outcome_extractOnto_nil] at h
      cases h
      exact ⟨[], by simp⟩
  | cons input rest ih =>
      have ha := Watch.announced_extract e input w
      cases hx : outcome (e.extract input) w with
      | mk result w₁ =>
          rw [hx] at ha
          cases result with
          | ok output =>
              rw [outcome_extractOnto_of_ok hx] at h
              rcases ih h with ⟨written, hr, hw⟩
              refine ⟨⟨input, output⟩ :: written, ?_, ?_⟩
              · simp [hr, Report.addExtracted]
              · have ha : w₁.announced = w.announced := ha
                simp [hw, Watch.note, outcome, ha]
          | error f =>
              cases policy with
              | failFast =>
                  rw [outcome_extractOnto_failFast hx] at h
                  cases h
              | keepGoing =>
                  rw [outcome_extractOnto_keepGoing hx] at h
                  rcases ih h with ⟨written, hr, hw⟩
                  refine ⟨written, hr, ?_⟩
                  rw [hw, Watch.announced_record, ha]

/-!
## Both policies
-/

/-- The run that stops is the run that keeps going, cut right after its first failure: no input
after that one matters to it. -/
theorem failFast_cuts_keepGoing (e : Extractor) (inputs : List Path) (w : Watch) :
    exists (r : Report) (w' : Watch),
      outcome (e.extractFiles inputs .keepGoing Watch.note) w = (.ok r, w') ∧
      w'.announced = w.announced ++ r.extracted ∧
      (r.failures = [] ->
        outcome (e.extractFiles inputs .failFast Watch.note) w = (.ok r, w')) ∧
      (forall f fs, r.failures = f :: fs ->
        exists before input after written w₁ w₂ w₃,
          inputs = before ++ input :: after ∧
          outcome (e.extractFiles before .keepGoing Watch.note) w = (.ok ⟨written, []⟩, w₁) ∧
          outcome (e.extractFiles (before ++ [input]) .keepGoing Watch.note) w =
            (.ok ⟨written, [f]⟩, w₂) ∧
          outcome (e.extractFiles inputs .failFast Watch.note) w = (.error f, w₃) ∧
          (forall later,
            outcome (e.extractFiles (before ++ input :: later) .failFast Watch.note) w =
            (.error f, w₃)) ∧
          w₃.announced = w.announced ++ written ∧
          w₃.session.files = w₂.session.files) := by
  rcases exists_outcome_keepGoing e Watch.note inputs Report.empty w with ⟨r, w', hr, -, -⟩
  have hannounced : w'.announced = w.announced ++ r.extracted := by
    rcases announced_of_outcome hr with ⟨written, hx, hw⟩
    rw [hw, hx]
    rfl
  refine ⟨r, w', hr, hannounced, ?_⟩
  rcases smooth_or_exists_failing e Watch.note inputs w with
    ⟨written, w'', hsmooth⟩ | ⟨before, input, after, written, w₁, f, w₂, hi, hsmooth, hf⟩
  · have hk := hsmooth .keepGoing Report.empty
    rw [hr] at hk
    cases hk
    constructor
    · intro _
      exact hsmooth .failFast Report.empty
    · intro f fs hfs
      cases hfs
  · -- The run that keeps going goes through the failing input, too, and so reports it first.
    have hk := hsmooth .keepGoing Report.empty
    have hrest : outcome (e.extractOnto .keepGoing Watch.note (⟨written, [f]⟩ : Report) after)
        (outcome (Host.record (recordSkipped input f)) w₂).2 = (.ok r, w') := by
      rw [← hr, hi, outcome_extractOnto_append hk, outcome_extractOnto_keepGoing hf]
      rfl
    have hfirst : [f] <+: r.failures := by
      rcases exists_outcome_keepGoing e Watch.note after ⟨written, [f]⟩
        (outcome (Host.record (recordSkipped input f)) w₂).2 with ⟨r', _, hr', -, hfs⟩
      rw [hrest] at hr'
      cases hr'
      exact hfs
    have hstop : forall later,
        outcome (e.extractFiles (before ++ input :: later) .failFast Watch.note) w =
          (.error f, w₂) := by
      intro later
      rw [extractFiles, outcome_extractOnto_append (hsmooth .failFast Report.empty),
        outcome_extractOnto_failFast hf]
    have hannounced₁ : w₁.announced = w.announced ++ written := by
      rcases announced_of_outcome hk with ⟨written', hx, hw⟩
      rw [hw]
      exact congrArg (w.announced ++ ·) hx.symm
    constructor
    · intro hnone
      rw [hnone] at hfirst
      simp at hfirst
    · intro f' fs hfs
      rw [hfs, List.cons_prefix_cons] at hfirst
      rw [← hfirst.1]
      refine ⟨before, input, after, written, w₁,
        (outcome (Host.record (recordSkipped input f)) w₂).2, w₂, hi, hk, ?_, ?_, hstop, ?_, ?_⟩
      · rw [extractFiles, outcome_extractOnto_append hk, outcome_extractOnto_keepGoing hf]
        rfl
      · rw [hi]
        exact hstop after
      · rw [← hannounced₁, ← Watch.announced_extract e input w₁, hf]
      · rw [Watch.files_record]

end Extractor
end Clippings
