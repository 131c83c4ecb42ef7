import Clippings.Proofs.Host.Screen
import Mathlib.Data.List.Basic

/-!
# The journal without a filter

A diary takes down every line of a session, records that no filter admits included.  What a session
shows is what its filter leaves of the diary, and no program can tell the two apart.
-/

namespace Clippings

open Host (outcome Seen)
open Journal (Filter Record)

def Line.passes (f : Filter) : Line -> Bool
  | .record r => f.admits r
  | _ => true

structure Diary where
  files : Storage.Tree
  lines : List Line

namespace Diary

def lift {α : Type} (f : StateM Storage.Tree α) : StateM Diary α := fun d =>
  ((outcome f d.files).1, { d with files := (outcome f d.files).2 })

def note (line : Line) : StateM Diary Unit := fun d =>
  ((), { d with lines := d.lines ++ [line] })

instance : Host (StateM Diary) where
  workingDirectory := lift Host.workingDirectory
  read p := lift (Host.read p)
  write p content := lift (Host.write p content)
  makeDirectory p := lift (Host.makeDirectory p)
  names p := lift (Host.names p)
  isFile p := lift (Host.isFile p)
  isDirectory p := lift (Host.isDirectory p)
  record r := note (.record r)
  filter _ := pure ()
  print text := note (.output text)
  complain text := note (.complaint text)

/-- The session of a diary, behind what was shown before, where a filter is in force. -/
def session (f : Filter) (before : List Line) (d : Diary) : Session :=
  ⟨d.files, f, before ++ d.lines.filter (Line.passes f)⟩

theorem session_note (f : Filter) (before : List Line) (line : Line) (d : Diary) :
    session f before (outcome (note line) d).2 =
      if line.passes f then (session f before d).add line else session f before d := by
  unfold session
  change Session.mk d.files f (before ++ (d.lines ++ [line]).filter (Line.passes f)) = _
  rw [List.filter_append, List.filter_cons]
  split
  · rw [← List.append_assoc]
    rfl
  · rw [List.filter_nil, List.append_nil]

theorem seen_lift {α : Type} {f : SessionM α} {g : StateM Storage.Tree α}
    (h : Seen Session.files f g)
    (hkept : forall s, (outcome f s).2.filter = s.filter ∧ (outcome f s).2.shown = s.shown)
    (filter : Filter) (before : List Line) :
    Seen (session filter before) (lift g) f := by
  intro d
  have hfiles : outcome g d.files = _ := h (session filter before d)
  rcases hkept (session filter before d) with ⟨hfilter, hshown⟩
  generalize outcome f (session filter before d) = out at hfiles hfilter hshown
  change out = ((outcome g d.files).1, session filter before ⟨(outcome g d.files).2, d.lines⟩)
  rw [hfiles]
  calc out = (out.1, ⟨out.2.files, out.2.filter, out.2.shown⟩) := rfl
    _ = (out.1, session filter before ⟨out.2.files, d.lines⟩) := by rw [hfilter, hshown]; rfl

theorem sight_session (f : Filter) (before : List Line) :
    Host.Sight (session f before) := by
  have hfiles := Session.view_files
  have hchange : forall (s : Session) r,
      (s.change r).2.filter = s.filter ∧ (s.change r).2.shown = s.shown := by
    intro s r
    cases r <;> exact ⟨rfl, rfl⟩
  refine ⟨⟨?read, ?write, ?makeDirectory, ?names, ?isFile, ?isDirectory, ?record⟩,
    ?workingDirectory, ?print, ?complain⟩
  case read => exact fun p => seen_lift (hfiles.read p) (fun _ => ⟨rfl, rfl⟩) f before
  case write =>
    exact fun p content => seen_lift (hfiles.write p content) (fun s => hchange s _) f before
  case makeDirectory =>
    exact fun p => seen_lift (hfiles.makeDirectory p) (fun s => hchange s _) f before
  case names => exact fun p => seen_lift (hfiles.names p) (fun _ => ⟨rfl, rfl⟩) f before
  case isFile => exact fun p => seen_lift (hfiles.isFile p) (fun _ => ⟨rfl, rfl⟩) f before
  case isDirectory => exact fun p => seen_lift (hfiles.isDirectory p) (fun _ => ⟨rfl, rfl⟩) f before
  case workingDirectory => exact seen_lift (fun _ => rfl) (fun _ => ⟨rfl, rfl⟩) f before
  case record =>
    intro r d
    exact congrArg (Prod.mk ()) (session_note f before (.record r) d).symm
  case print =>
    intro text d
    exact congrArg (Prod.mk ()) (session_note f before (.output text) d).symm
  case complain =>
    intro text d
    exact congrArg (Prod.mk ()) (session_note f before (.complaint text) d).symm

/-- A program that looks the same in every session of a diary shows what the filter in force leaves
of one and the same account. -/
theorem outcome_of_seen {α : Type} {f : SessionM α} {g : StateM Diary α}
    (h : forall filter before, Seen (session filter before) g f) (s : Session) :
    outcome f s = ((outcome g ⟨s.files, []⟩).1,
      session s.filter s.shown (outcome g ⟨s.files, []⟩).2) := by
  have hblank : session s.filter s.shown ⟨s.files, []⟩ = s :=
    congrArg (Session.mk s.files s.filter) (List.append_nil s.shown)
  have hseen := h s.filter s.shown ⟨s.files, []⟩
  rwa [hblank] at hseen

/-!
## What a filter leaves
-/

theorem filterMap_passes {α : Type} {g : Line -> Option α} (hg : forall r, g (.record r) = none)
    (f : Filter) (lines : List Line) :
    (lines.filter (Line.passes f)).filterMap g = lines.filterMap g := by
  rw [List.filterMap_filter]
  apply List.filterMap_congr
  intro line _
  cases line with
  | output | complaint => rfl
  | record r => rw [hg, ite_self]

theorem screen_session (f f' : Filter) (before : List Line) (d : Diary) :
    (session f before d).screen = (session f' before d).screen := by
  unfold session Session.screen Session.output Session.complaints
  simp only [List.filterMap_append]
  rw [filterMap_passes (fun _ => rfl), filterMap_passes (fun _ => rfl),
    filterMap_passes (fun _ => rfl), filterMap_passes (fun _ => rfl)]

def records (d : Diary) : List Record :=
  d.lines.filterMap fun line =>
    match line with
    | .record r => some r
    | _ => none

theorem records_session (f : Filter) (d : Diary) :
    (session f [] d).records = d.records.filter f.admits := by
  unfold session Session.records records
  rw [List.nil_append, List.filterMap_filter, List.filter_filterMap]
  apply List.filterMap_congr
  intro line _
  cases line with
  | output | complaint => rfl
  | record r =>
      rw [Option.filter_some]
      rfl

end Diary
end Clippings
