import Clippings.Extractor

/-!
# Views of a host

A host may keep more than a program can tell: a session keeps records and lines besides its files.
A view forgets some of that.  Through a view every request has the same answer and does the same,
and so has every program made of requests.
-/

namespace Clippings
namespace Host

def outcome {σ α : Type} (f : StateM σ α) (s : σ) : α × σ :=
  f s

@[simp]
theorem outcome_pure {σ α : Type} (a : α) (s : σ) :
    outcome (pure a) s = (a, s) := rfl

theorem outcome_bind {σ α β : Type} (f : StateM σ α) (h : α -> StateM σ β) (s : σ) :
    outcome (f >>= h) s = outcome (h (outcome f s).1) (outcome f s).2 := rfl

/-- `g` is what `f` looks like through `v`. -/
def Seen {σ τ α : Type} (v : σ -> τ) (f : StateM σ α) (g : StateM τ α) : Prop :=
  forall s : σ, outcome g (v s) = ((outcome f s).1, v (outcome f s).2)

structure View {σ τ : Type} [Host (StateM σ)] [Host (StateM τ)] (v : σ -> τ) : Prop where
  read : forall p, Seen v (Host.read p) (Host.read p)
  write : forall p content, Seen v (Host.write p content) (Host.write p content)
  makeDirectory : forall p, Seen v (Host.makeDirectory p) (Host.makeDirectory p)
  names : forall p, Seen v (Host.names p) (Host.names p)
  isFile : forall p, Seen v (Host.isFile p) (Host.isFile p)
  isDirectory : forall p, Seen v (Host.isDirectory p) (Host.isDirectory p)
  record : forall r, Seen v (Host.record r) (Host.record r)

namespace Seen

variable {σ τ α β : Type} {v : σ -> τ}

theorem pure (a : α) :
    Seen v (Pure.pure a) (Pure.pure a) := by
  intro s
  rfl

theorem bind {f : StateM σ α} {g : StateM τ α} {h : α -> StateM σ β} {k : α -> StateM τ β}
    (hf : Seen v f g) (hk : forall a, Seen v (h a) (k a)) :
    Seen v (f >>= h) (g >>= k) := by
  intro s
  rw [outcome_bind, outcome_bind, hf s]
  exact hk (outcome f s).1 (outcome f s).2

end Seen
end Host

/-!
## Directories
-/

namespace Host
namespace View

variable {σ τ : Type} [Host (StateM σ)] [Host (StateM τ)] {v : σ -> τ}

theorem settle (hv : View v) (p : Path) (r : Except Storage.Fault Unit) :
    Seen v (Host.settle p r) (Host.settle p r) := by
  cases r with
  | ok _ => exact Seen.pure _
  | error f =>
      apply Seen.bind (hv.isDirectory p)
      intro there
      cases there with
      | true => exact Seen.pure _
      | false => exact Seen.pure _

theorem makeInnermost (hv : View v) (ps : List Path) :
    Seen v (Host.makeInnermost ps) (Host.makeInnermost ps) := by
  induction ps with
  | nil => exact Seen.pure _
  | cons p outer ih =>
      apply Seen.bind (hv.makeDirectory p)
      intro r
      split
      · apply Seen.bind ih
        intro r
        cases r with
        | error f => exact Seen.pure _
        | ok _ => exact Seen.bind (hv.makeDirectory p) (hv.settle p)
      · exact hv.settle p _

theorem makeDirectories (hv : View v) (p : Path) :
    Seen v (Host.makeDirectories p) (Host.makeDirectories p) :=
  hv.makeInnermost _

/-!
## One file
-/

theorem load (hv : View v) (path : Path) :
    Seen v (Document.load path) (Document.load path) := by
  apply Seen.bind (hv.read path)
  intro r
  cases r with
  | error f => exact Seen.pure _
  | ok octets => exact Seen.pure _

theorem writeText (hv : View v) (e : Extractor) (output : Path) (text : String) :
    Seen v (e.writeText output text) (e.writeText output text) := by
  apply Seen.bind (hv.makeDirectories e.outputDirectory)
  intro r
  cases r with
  | error f => exact Seen.pure _
  | ok _ =>
      apply Seen.bind (hv.write output _)
      intro r
      cases r with
      | error f => exact Seen.pure _
      | ok _ => exact Seen.pure _

theorem writeSnippet (hv : View v) (e : Extractor) (input output : Path) (d : Document) :
    Seen v (e.writeSnippet input output d) (e.writeSnippet input output d) := by
  apply Seen.bind (hv.record _)
  intro _
  cases hempty : (d.takeSnippet e.key).isEmpty with
  | true =>
      simp only [hempty, if_true]
      apply Seen.bind (hv.record _)
      intro _
      cases (d.takeSnippet e.key).toText with
      | error f => exact Seen.pure _
      | ok text => exact hv.writeText e output text
  | false =>
      simp only [hempty]
      cases (d.takeSnippet e.key).toText with
      | error f => exact Seen.pure _
      | ok text => exact hv.writeText e output text

theorem extract (hv : View v) (e : Extractor) (input : Path) :
    Seen v (e.extract input) (e.extract input) := by
  unfold Extractor.extract
  cases e.outputPath input with
  | error f => exact Seen.pure _
  | ok output =>
      apply Seen.bind (hv.load input)
      intro r
      cases r with
      | error f => exact Seen.pure _
      | ok d =>
          apply Seen.bind (hv.writeSnippet e input output d)
          intro r
          cases r with
          | error f => exact Seen.pure _
          | ok _ => exact Seen.bind (hv.record _) (fun _ => Seen.pure _)

/-!
## Many files
-/

section Announced

variable {announce : Extracted -> StateM σ Unit} {announce' : Extracted -> StateM τ Unit}

theorem extractOnto (hv : View v) (ha : forall x, Seen v (announce x) (announce' x))
    (e : Extractor) (policy : Policy) (r : Report) (inputs : List Path) :
    Seen v (e.extractOnto policy announce r inputs) (e.extractOnto policy announce' r inputs) := by
  induction inputs generalizing r with
  | nil => exact Seen.pure _
  | cons input rest ih =>
      apply Seen.bind (hv.extract e input)
      intro result
      cases result with
      | ok output => exact Seen.bind (ha _) (fun _ => ih _)
      | error f =>
          cases policy with
          | failFast => exact Seen.pure _
          | keepGoing => exact Seen.bind (hv.record _) (fun _ => ih _)

theorem keepFiles (hv : View v) (ps : List Path) :
    Seen v (Extractor.keepFiles ps) (Extractor.keepFiles ps) := by
  induction ps with
  | nil => exact Seen.pure _
  | cons p rest ih =>
      apply Seen.bind (hv.isFile p)
      intro _
      exact Seen.bind ih (fun _ => Seen.pure _)

theorem matchingFiles (hv : View v) (directory : Path) (pattern : Pattern) :
    Seen v (Extractor.matchingFiles directory pattern)
      (Extractor.matchingFiles directory pattern) := by
  apply Seen.bind (hv.names directory)
  intro r
  cases r with
  | error f => exact Seen.pure _
  | ok names => exact Seen.bind (hv.keepFiles _) (fun _ => Seen.pure _)

theorem extractAll (hv : View v) (ha : forall x, Seen v (announce x) (announce' x))
    (e : Extractor) (directory : Path) (pattern : Pattern) (policy : Policy) :
    Seen v (e.extractAll directory pattern policy announce)
      (e.extractAll directory pattern policy announce') := by
  apply Seen.bind (hv.makeDirectories e.outputDirectory)
  intro r
  cases r with
  | error f => exact Seen.pure _
  | ok _ =>
      apply Seen.bind (hv.matchingFiles directory pattern)
      intro r
      cases r with
      | error f => exact Seen.pure _
      | ok inputs =>
          apply Seen.bind (hv.record _)
          intro _
          exact hv.extractOnto ha e policy Report.empty inputs

end Announced
end View
end Host
end Clippings
