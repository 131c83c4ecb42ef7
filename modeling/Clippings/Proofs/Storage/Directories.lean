import Clippings.Proofs.Host.View
import Clippings.Proofs.Path.Join
import Clippings.Proofs.Storage.Files
import Clippings.Session

/-!
# A file tree as a host

What a program does to files can be told from the tree alone.  Making directories adds directories
at the ends of some paths and changes nothing else.
-/

namespace Clippings
namespace Storage
namespace Tree

/-!
## The tree alone
-/

def change (t : Tree) : Except Fault Tree -> Except Fault Unit × Tree
  | .ok t' => (.ok (), t')
  | .error f => (.error f, t)

instance : Host (StateM Tree) where
  workingDirectory t := (t.workingDirectory, t)
  read p t := (t.read p, t)
  write p content t := t.change (t.write p content)
  makeDirectory p t := t.change (t.makeDirectory p)
  names p t := (t.names p, t)
  isFile p t := (t.isFile p, t)
  isDirectory p t := (t.isDirectory p, t)
  record _ t := ((), t)
  filter _ t := ((), t)
  print _ t := ((), t)
  complain _ t := ((), t)

end Tree
end Storage

theorem Session.view_files :
    Host.View Session.files := by
  constructor
  case write =>
    intro p content s
    change s.files.change (s.files.write p content) =
      ((s.change (s.files.write p content)).1, (s.change (s.files.write p content)).2.files)
    cases s.files.write p content <;> rfl
  case makeDirectory =>
    intro p s
    change s.files.change (s.files.makeDirectory p) =
      ((s.change (s.files.makeDirectory p)).1, (s.change (s.files.makeDirectory p)).2.files)
    cases s.files.makeDirectory p <;> rfl
  case record =>
    intro r s
    change ((), s.files) = ((), (s.record r).files)
    unfold Session.record
    split <;> rfl
  all_goals
    intros
    intro s
    rfl

theorem Session.seen_silent (_ : Extracted) :
    Host.Seen Session.files (pure () : StateM Session Unit) (pure () : StateM Storage.Tree Unit) :=
  Host.Seen.pure ()

namespace Storage
namespace Tree

open Host (outcome)

/-!
## Growing
-/

/-- Directories appear at the ends of some paths, where nothing was; all else is as it was. -/
structure Grows (ps : List Path) (t t' : Tree) : Prop where
  here : t'.here = t.here
  at? : forall a, t'.at? a = t.at? a ∨
    (t.at? a = none ∧ t'.at? a = some .directory ∧ exists p, p ∈ ps ∧ t'.find false p = .ok a)

namespace Grows

variable {ps qs : List Path} {t t' t'' : Tree}

theorem refl (ps : List Path) (t : Tree) :
    Grows ps t t := by
  constructor
  · rfl
  · intro a
    exact Or.inl rfl

theorem keeps (h : Grows ps t t') :
    Keeps t t' := by
  constructor
  · exact h.here
  · intro a e he
    rcases h.at? a with hsame | ⟨hnone, -⟩
    · rw [hsame, he]
      rfl
    · rw [he] at hnone
      cases hnone

theorem trans (h : Grows ps t t') (h' : Grows ps t' t'') :
    Grows ps t t'' := by
  constructor
  · rw [h'.here, h.here]
  · intro a
    rcases h'.at? a with hsame' | ⟨hnone', hdir', hp'⟩
    · rcases h.at? a with hsame | ⟨hnone, hdir, p, hp, hfind⟩
      · exact Or.inl (hsame'.trans hsame)
      · exact Or.inr ⟨hnone, hsame'.trans hdir, p, hp, h'.keeps.find hfind⟩
    · rcases h.at? a with hsame | ⟨-, hdir, -⟩
      · exact Or.inr ⟨hsame ▸ hnone', hdir', hp'⟩
      · rw [hdir] at hnone'
        cases hnone'

theorem mono (h : Grows ps t t') (hps : forall p, p ∈ ps -> p ∈ qs) :
    Grows qs t t' := by
  constructor
  · exact h.here
  · intro a
    rcases h.at? a with hsame | ⟨hnone, hdir, p, hp, hfind⟩
    · exact Or.inl hsame
    · exact Or.inr ⟨hnone, hdir, p, hps p hp, hfind⟩

theorem at?_file (h : Grows ps t t') {a : Address} {content : List UInt8} :
    t'.at? a = some (.file content) <-> t.at? a = some (.file content) := by
  rcases h.at? a with hsame | ⟨hnone, hdir, -⟩
  · rw [hsame]
  · simp [hnone, hdir]

end Grows

theorem makeDirectory_grows {t t' : Tree} {p : Path} (h : t.makeDirectory p = .ok t') :
    Grows [p] t t' ∧ t'.isDirectory p = true := by
  rcases makeDirectory_cases h with ⟨name, a, hnone, -, -, -, -, rfl, hfind⟩
  have hself := t.at?_set_self .directory (List.cons_ne_nil name a)
  constructor
  · constructor
    · rfl
    · intro b
      by_cases hb : b = name :: a
      · subst hb
        exact Or.inr ⟨hnone, hself, p, List.mem_singleton_self p, hfind⟩
      · exact Or.inl (t.at?_set_of_ne .directory hb)
  · simp [isDirectory, entryOf?, hfind, hself]

theorem WellFormed.makeDirectory {t t' : Tree} {p : Path} (ht : t.WellFormed)
    (h : t.makeDirectory p = .ok t') :
    t'.WellFormed := by
  rcases makeDirectory_cases h with ⟨name, a, hnone, ha, hname, hpart, hfault, rfl, -⟩
  refine ht.set_fresh .directory hnone ha ⟨hname, ?_, ?_⟩
  · intro hslash
    exact (Path.mem_parts hpart hslash).2 rfl
  · intro hzero
    have hmem := (Path.mem_parts hpart hzero).1
    unfold pathFault? at hfault
    simp [hmem] at hfault

theorem Closed.makeDirectory {t t' : Tree} {p : Path} (ht : t.Closed)
    (h : t.makeDirectory p = .ok t') :
    t'.Closed := by
  rcases makeDirectory_cases h with ⟨name, a, hnone, ha, -, -, -, rfl, -⟩
  exact ht.set (Keeps.set_fresh .directory hnone) ha

/-!
## Changes
-/

theorem outcome_makeDirectory_ok {t t' : Tree} {p : Path} (h : t.makeDirectory p = .ok t') :
    outcome (Host.makeDirectory p) t = (.ok (), t') := by
  change t.change (t.makeDirectory p) = _
  rw [h]
  rfl

theorem outcome_makeDirectory_error {t : Tree} {p : Path} {f : Fault}
    (h : t.makeDirectory p = .error f) :
    outcome (Host.makeDirectory p) t = (.error f, t) := by
  change t.change (t.makeDirectory p) = _
  rw [h]
  rfl

theorem outcome_write_ok {t t' : Tree} {p : Path} {content : List UInt8}
    (h : t.write p content = .ok t') :
    outcome (Host.write p content) t = (.ok (), t') := by
  change t.change (t.write p content) = _
  rw [h]
  rfl

theorem outcome_write_error {t : Tree} {p : Path} {content : List UInt8} {f : Fault}
    (h : t.write p content = .error f) :
    outcome (Host.write p content) t = (.error f, t) := by
  change t.change (t.write p content) = _
  rw [h]
  rfl

/-!
## Making directories
-/

structure Made (ps : List Path) (t : Tree) (r : Except Fault Unit × Tree) : Prop where
  grows : Grows ps t r.2
  wellFormed : t.WellFormed -> r.2.WellFormed
  closed : t.Closed -> r.2.Closed
  there : r.1 = .ok () -> forall p, ps.head? = some p -> r.2.isDirectory p = true

theorem outcome_settle_error (p : Path) (f : Fault) (t : Tree) :
    outcome (Host.settle p (.error f)) t =
      (if t.isDirectory p then .ok () else .error f, t) := by
  change outcome (if t.isDirectory p then pure (Except.ok ()) else pure (.error f)) t = _
  split <;> rfl

/-- Makes a directory whose neighbours are there, or settles for the one that is there already. -/
theorem made_of_makeDirectory {p : Path} {outer : List Path} {t t' : Tree}
    {r : Except Fault Unit} (h : Made outer t (r, t')) :
    Made (p :: outer) t (outcome (Host.makeDirectory p >>= Host.settle p) t') := by
  have hgrows : Grows (p :: outer) t t' :=
    h.grows.mono (fun q hq => List.mem_cons_of_mem p hq)
  rw [Host.outcome_bind]
  cases hmake : t'.makeDirectory p with
  | ok t'' =>
      rw [outcome_makeDirectory_ok hmake]
      rcases makeDirectory_grows hmake with ⟨hg, hthere⟩
      constructor
      · apply hgrows.trans
        apply hg.mono
        intro q hq
        exact List.mem_cons.mpr (Or.inl (List.mem_singleton.mp hq))
      · intro ht
        exact (h.wellFormed ht).makeDirectory hmake
      · intro ht
        exact (h.closed ht).makeDirectory hmake
      · intro _ q hq
        cases hq
        exact hthere
  | error f =>
      rw [outcome_makeDirectory_error hmake]
      simp only [outcome_settle_error]
      refine ⟨hgrows, h.wellFormed, h.closed, ?_⟩
      intro hok q hq
      cases hq
      by_cases hdir : t'.isDirectory p = true
      · exact hdir
      · simp [hdir] at hok

theorem made_makeInnermost (ps : List Path) (t : Tree) :
    Made ps t (outcome (Host.makeInnermost ps) t) := by
  induction ps generalizing t with
  | nil => exact ⟨Grows.refl [] t, id, id, by simp⟩
  | cons p outer ih =>
      have hnothing : Made outer t (.error .notFound, t) :=
        ⟨Grows.refl _ t, id, id, by simp⟩
      have hdirect := made_of_makeDirectory (p := p) hnothing
      rw [Host.makeInnermost, Host.outcome_bind]
      rw [Host.outcome_bind] at hdirect
      cases hmake : t.makeDirectory p with
      | ok t' =>
          rw [outcome_makeDirectory_ok hmake] at hdirect ⊢
          exact hdirect
      | error f =>
          rw [outcome_makeDirectory_error hmake] at hdirect ⊢
          by_cases hf : f = .notFound
          · subst hf
            have houter := ih t
            change Made (p :: outer) t (outcome (Host.makeInnermost outer >>= _) t)
            rw [Host.outcome_bind]
            cases hrest : outcome (Host.makeInnermost outer) t with
            | mk r t' =>
                rw [hrest] at houter
                cases r with
                | error f =>
                    have hgrows := houter.grows.mono (fun q hq => List.mem_cons_of_mem p hq)
                    exact ⟨hgrows, houter.wellFormed, houter.closed, by simp⟩
                | ok _ => exact made_of_makeDirectory houter
          · cases f <;> first | exact absurd rfl hf | exact hdirect

theorem grows_makeDirectories (p : Path) (t : Tree) :
    Grows p.ancestors t (outcome (Host.makeDirectories p) t).2 ∧
      (t.Closed -> (outcome (Host.makeDirectories p) t).2.Closed) := by
  have h := made_makeInnermost (p.ancestors.filter fun q => !q.octets.isEmpty) t
  exact ⟨h.grows.mono (fun q hq => (List.mem_filter.mp hq).1), h.closed⟩

theorem made_makeDirectories (p : Path) {t : Tree} (ht : t.WellFormed) :
    Grows p.ancestors t (outcome (Host.makeDirectories p) t).2 ∧
      (outcome (Host.makeDirectories p) t).2.WellFormed := by
  have h := made_makeInnermost (p.ancestors.filter fun q => !q.octets.isEmpty) t
  exact ⟨(grows_makeDirectories p t).1, h.wellFormed ht⟩

/-!
## Making them again
-/

theorem isDirectory_iff {t : Tree} {p : Path} :
    t.isDirectory p = true <-> exists a, t.find false p = .ok a ∧ t.at? a = some .directory := by
  unfold isDirectory entryOf?
  cases t.find false p <;> simp

theorem Keeps.isDirectory {t t' : Tree} (h : Keeps t t') {p : Path}
    (hp : t.isDirectory p = true) :
    t'.isDirectory p = true := by
  rw [isDirectory_iff] at hp ⊢
  rcases hp with ⟨a, hfind, ha⟩
  exact ⟨a, h.find hfind, h.directory ha⟩

theorem makeDirectory_of_isDirectory {t : Tree} {p : Path} (h : t.isDirectory p = true) :
    exists f, t.makeDirectory p = .error f ∧ f ≠ .notFound := by
  rcases isDirectory_iff.mp h with ⟨b, hfind, hb⟩
  cases hmake : t.makeDirectory p with
  | ok t' =>
      exfalso
      rcases makeDirectory_cases hmake with ⟨name, a, hnone, -, -, -, -, rfl, hfind'⟩
      have hkeeps : Keeps t (t.set (name :: a) .directory) := Keeps.set_fresh .directory hnone
      rw [hkeeps.find hfind] at hfind'
      cases hfind'
      rw [hnone] at hb
      cases hb
  | error f =>
      refine ⟨f, rfl, ?_⟩
      intro heq
      subst heq
      rcases find_eq_ok_iff.mp hfind with ⟨hfault, links', hway⟩
      unfold makeDirectory at hmake
      rw [hfault] at hmake
      simp only at hmake
      split at hmake
      · cases hmake
      rename_i name parents hparts
      rcases parts_of_reversedParts hparts with ⟨empties, -, hp, -⟩
      rcases hway.split parents.reverse (name :: empties) hp with ⟨links₁, c, hw₁, -⟩
      rw [walk_of_way hw₁] at hmake
      simp only at hmake
      split at hmake
      · cases hmake
      split at hmake
      · cases hmake
      split at hmake
      · cases hmake
      split at hmake <;> cases hmake

theorem outcome_makeInnermost_of_isDirectory {t : Tree} {p : Path} (outer : List Path)
    (h : t.isDirectory p = true) :
    outcome (Host.makeInnermost (p :: outer)) t = (.ok (), t) := by
  rcases makeDirectory_of_isDirectory h with ⟨f, hmake, hf⟩
  have hsettle : outcome (Host.settle p (.error f)) t = (.ok (), t) := by
    rw [outcome_settle_error, if_pos h]
  rw [Host.makeInnermost, Host.outcome_bind, outcome_makeDirectory_error hmake]
  cases f <;> first | exact absurd rfl hf | exact hsettle

theorem ancestors_eq_cons (p : Path) :
    exists outer, p.ancestors = p :: outer := by
  unfold Path.ancestors
  cases p.octets.length with
  | zero => exact ⟨[], rfl⟩
  | succ n =>
      rw [Path.ancestorsUpTo]
      split
      · exact ⟨[], rfl⟩
      · exact ⟨_, rfl⟩

theorem outcome_makeDirectories_of_there {t : Tree} {p : Path}
    (h : p.octets = [] ∨ t.isDirectory p = true) :
    outcome (Host.makeDirectories p) t = (.ok (), t) := by
  by_cases hp : p.octets = []
  · have hnone : (p.ancestors.filter fun q => !q.octets.isEmpty) = [] := by
      simp [Path.ancestors, Path.ancestorsUpTo, hp]
    rw [Host.makeDirectories, hnone]
    rfl
  · rcases ancestors_eq_cons p with ⟨outer, houter⟩
    rw [Host.makeDirectories, houter, List.filter_cons_of_pos (by simp [hp])]
    exact outcome_makeInnermost_of_isDirectory _ (h.resolve_left hp)

/-- Where directories were made, they are there for good: making them again does nothing. -/
theorem makeDirectories_again {t t₁ : Tree} {p : Path}
    (h : outcome (Host.makeDirectories p) t = (.ok (), t₁)) :
    (p.octets = [] ∨ t₁.isDirectory p = true) ∧
      forall t₂, Keeps t₁ t₂ -> outcome (Host.makeDirectories p) t₂ = (.ok (), t₂) := by
  have hthere : p.octets = [] ∨ t₁.isDirectory p = true := by
    by_cases hp : p.octets = []
    · exact Or.inl hp
    · rcases ancestors_eq_cons p with ⟨outer, houter⟩
      have hmade := made_makeInnermost (p.ancestors.filter fun q => !q.octets.isEmpty) t
      rw [show outcome (Host.makeInnermost _) t = (.ok (), t₁) from h] at hmade
      refine Or.inr (hmade.there rfl p ?_)
      rw [houter, List.filter_cons_of_pos (by simp [hp])]
      rfl
  constructor
  · exact hthere
  · intro t₂ hkeeps
    exact outcome_makeDirectories_of_there (hthere.imp_right hkeeps.isDirectory)

end Tree
end Storage
end Clippings
