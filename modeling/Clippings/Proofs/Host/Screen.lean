import Clippings.Program
import Clippings.Proofs.Extraction.Attempts

/-!
# What a run shows

A screen is a session without its records: the files, and the lines of the output and those of the
complaints, each in order.  The program does the same on it as in the session.
-/

namespace Clippings

open Host (outcome Seen)

/-- A view in which the lines that a program shows are seen as well. -/
structure Host.Sight {σ τ : Type} [Host (StateM σ)] [Host (StateM τ)] (v : σ -> τ) : Prop
    extends Host.View v where
  workingDirectory : Seen v Host.workingDirectory Host.workingDirectory
  print : forall text, Seen v (Host.print text) (Host.print text)
  complain : forall text, Seen v (Host.complain text) (Host.complain text)

/-!
## Screens
-/

structure Screen where
  files : Storage.Tree
  output : List String
  complaints : List String

namespace Screen

def lift {α : Type} (f : StateM Storage.Tree α) : StateM Screen α := fun w =>
  ((outcome f w.files).1, { w with files := (outcome f w.files).2 })

instance : Host (StateM Screen) where
  workingDirectory := lift Host.workingDirectory
  read p := lift (Host.read p)
  write p content := lift (Host.write p content)
  makeDirectory p := lift (Host.makeDirectory p)
  names p := lift (Host.names p)
  isFile p := lift (Host.isFile p)
  isDirectory p := lift (Host.isDirectory p)
  record _ := pure ()
  filter _ := pure ()
  print text := fun w => ((), { w with output := w.output ++ [text] })
  complain text := fun w => ((), { w with complaints := w.complaints ++ [text] })

theorem view (output complaints : List String) :
    Host.View (fun t : Storage.Tree => Screen.mk t output complaints) := by
  constructor <;> intros <;> intro t <;> rfl

end Screen

def Session.screen (s : Session) : Screen :=
  ⟨s.files, s.output, s.complaints⟩

theorem Session.screen_record (s : Session) (r : Journal.Record) :
    (s.record r).screen = s.screen := by
  unfold Session.record
  split
  · simp [Session.screen, Session.add, Session.output, Session.complaints]
  · rfl

theorem Session.shown_change (s : Session) (r : Except Storage.Fault Storage.Tree) :
    (s.change r).2.shown = s.shown := by
  cases r <;> rfl

theorem Session.seen_lift {α : Type} {f : SessionM α} {g : StateM Storage.Tree α}
    (h : Seen Session.files f g) (hshown : forall s, (outcome f s).2.shown = s.shown) :
    Seen Session.screen f (Screen.lift g) := by
  intro s
  change ((outcome g s.files).1, (⟨(outcome g s.files).2, s.output, s.complaints⟩ : Screen)) = _
  rw [h s]
  simp only [Session.screen, Session.output, Session.complaints, hshown]

theorem Session.sight_screen :
    Host.Sight Session.screen := by
  have hfiles := Session.view_files
  refine ⟨⟨?read, ?write, ?makeDirectory, ?names, ?isFile, ?isDirectory, ?record⟩,
    ?workingDirectory, ?print, ?complain⟩
  case read => exact fun p => seen_lift (hfiles.read p) fun _ => rfl
  case write => exact fun p content => seen_lift (hfiles.write p content) fun s => s.shown_change _
  case makeDirectory => exact fun p => seen_lift (hfiles.makeDirectory p) fun s => s.shown_change _
  case names => exact fun p => seen_lift (hfiles.names p) fun _ => rfl
  case isFile => exact fun p => seen_lift (hfiles.isFile p) fun _ => rfl
  case isDirectory => exact fun p => seen_lift (hfiles.isDirectory p) fun _ => rfl
  case record =>
    intro r s
    exact congrArg (Prod.mk ()) (s.screen_record r).symm
  case workingDirectory => exact seen_lift (fun _ => rfl) fun _ => rfl
  case print =>
    intro text s
    simp [outcome, Host.print, Session.screen, Session.add, Session.output, Session.complaints]
  case complain =>
    intro text s
    simp [outcome, Host.complain, Session.screen, Session.add, Session.output,
      Session.complaints]

end Clippings
