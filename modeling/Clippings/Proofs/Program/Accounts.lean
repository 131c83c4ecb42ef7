import Clippings.Proofs.Extraction.Overwriting
import Clippings.Proofs.Host.Screen

/-!
# The account of a run

What the program says, and the status it ends with, tell what became of every file: there is a line
for each file that was written and one for each that failed, and the numbers add up.
-/

namespace Clippings

open Host (outcome Seen)
open Storage (Tree)

/-!
## Views of the program
-/

namespace Host

variable {σ τ : Type} [Host (StateM σ)] [Host (StateM τ)] {v : σ -> τ}

namespace View

theorem loadSettings (hv : View v) (path : Path) :
    Seen v (Program.loadSettings path) (Program.loadSettings path) := by
  have hchoices : Seen v (Program.loadChoices path) (Program.loadChoices path) := by
    apply Seen.bind (hv.read path)
    intro r
    cases r with
    | error f => exact Seen.pure _
    | ok octets => exact Seen.pure _
  apply Seen.bind hchoices
  intro r
  cases r with
  | error f => exact Seen.pure _
  | ok c => exact Seen.pure _

theorem buildSettings (hv : View v) (a : Arguments) (root : Path) :
    Seen v (Program.buildSettings a root) (Program.buildSettings a root) := by
  unfold Program.buildSettings
  cases a.config with
  | none => exact Seen.pure _
  | some file =>
      apply Seen.bind (hv.loadSettings _)
      intro r
      cases r with
      | error f => exact Seen.pure _
      | ok c => exact Seen.pure _

end View

namespace Sight

theorem rootOf (hv : Sight v) (a : Arguments) :
    Seen v (Program.rootOf a) (Program.rootOf a) := by
  unfold Program.rootOf
  cases a.root with
  | some root => exact Seen.pure _
  | none =>
      apply Seen.bind hv.workingDirectory
      intro r
      cases r with
      | error f => exact Seen.pure _
      | ok root => exact Seen.pure _

theorem programExtract (hv : Sight v) (a : Arguments) (root : Path) (s : Settings)
    (e : Extractor) :
    Seen v (Program.extract a root s e) (Program.extract a root s e) := by
  have hannounce : forall x, Seen v (Program.announce x) (Program.announce x) :=
    fun x => hv.print _
  unfold Program.extract
  split
  · apply Seen.bind (hv.record _)
    intro _
    apply Seen.bind (hv.extractAll hannounce e _ _ _)
    intro r
    cases r with
    | error f => exact Seen.pure _
    | ok r => exact Seen.pure _
  · apply Seen.bind (hv.extractOnto hannounce e _ Report.empty _)
    intro r
    cases r with
    | error f => exact Seen.pure _
    | ok r => exact Seen.pure _

theorem complainAll (hv : Sight v) (fs : List Failure) :
    Seen v (Program.complainAll fs) (Program.complainAll fs) := by
  induction fs with
  | nil => exact Seen.pure _
  | cons f rest ih => exact Seen.bind (hv.complain _) (fun _ => ih)

theorem summarize (hv : Sight v) (e : Extractor) (r : Report) :
    Seen v (Program.summarize e r) (Program.summarize e r) := by
  apply Seen.bind (hv.complainAll r.failures)
  intro _
  apply Seen.bind (hv.print _)
  intro _
  split <;> exact Seen.pure _

theorem runFrom (hv : Sight v) (a : Arguments) (root : Path) :
    Seen v (Program.runFrom a root) (Program.runFrom a root) := by
  apply Seen.bind (hv.buildSettings a root)
  intro r
  cases r with
  | error f => exact Seen.pure _
  | ok s =>
      apply Seen.bind (hv.record _)
      intro _
      apply Seen.bind (hv.programExtract a root s _)
      intro r
      cases r with
      | error f => exact Seen.pure _
      | ok r => exact hv.summarize _ r

theorem run (hv : Sight v) (a : Arguments) :
    Seen v (Program.run a) (Program.run a) := by
  apply Seen.bind (hv.rootOf a)
  intro r
  cases r with
  | error f => exact Seen.pure _
  | ok root => exact hv.runFrom a root

end Sight
end Host

namespace Program

/-!
## Roots and settings
-/

def batch {m : Type -> Type} [Monad m] [Host m] (a : Arguments) (root : Path) (s : Settings)
    (announce : Extracted -> m Unit) : m (Except Failure Report) :=
  let e : Extractor := ⟨s.outputDirectory, s.key⟩
  if a.files.isEmpty then e.extractAll s.inputDirectory s.filePattern s.policy announce
  else e.extractFiles (a.files.map root.join) s.policy announce

def abortFor (a : Arguments) (s : Settings) (f : Failure) : Abort :=
  if a.files.isEmpty then .directory s.inputDirectory f else .files f

theorem outcome_extract (a : Arguments) (root : Path) (s : Settings) (w : Screen) :
    outcome (extract a root s ⟨s.outputDirectory, s.key⟩) w =
      match outcome (batch a root s announce) w with
      | (.error f, w') => (.error (abortFor a s f), w')
      | (.ok r, w') => (.ok r, w') := by
  unfold extract batch abortFor
  by_cases hfiles : a.files.isEmpty = true
  · simp only [if_pos hfiles]
    rw [Host.outcome_bind]
    change outcome (_ >>= _) w = _
    rw [Host.outcome_bind]
    cases outcome (Extractor.extractAll _ _ _ _ announce) w with
    | mk r w' => cases r <;> rfl
  · simp only [if_neg hfiles]
    rw [Host.outcome_bind]
    cases outcome (Extractor.extractFiles _ _ _ announce) w with
    | mk r w' => cases r <;> rfl

/-!
## Lines
-/

def verdict (r : Report) : Except Abort Unit :=
  if r.failures = [] then .ok ()
  else .error (.someFailed r.failures.length (r.failures.length + r.count))

section Answers

variable {a : Arguments} {s s' : Session} {settings : Settings} {t : Tree} {inputs : List Path}
  {as : List Extractor.Attempt} {result : Except Abort Unit}

end Answers

theorem outcome_execute_of_error {arguments : List (List UInt8)} {refusal : Arguments.Refusal}
    (h : Arguments.parse arguments = .error refusal) (wish : Option String)
    (advice : List (List UInt8) -> String) (s : Session) :
    outcome (execute arguments wish advice) s =
      (refusal.status, s.add (if refusal.status = 0 then .output refusal.message
        else .complaint (refusal.complaint (advice arguments)))) := by
  unfold execute
  rw [h, Host.outcome_bind]
  simp only [prepare, follow, beq_iff_eq]
  split <;> rfl

end Program
end Clippings
