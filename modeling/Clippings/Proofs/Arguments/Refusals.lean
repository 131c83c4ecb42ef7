import Clippings.Proofs.Arguments

/-!
# Readings past help

What waits in a reading may be such that it cannot be settled.  Then the line is refused however it
goes on.  The error may be another one all the same: what is read next can be wrong by itself, and
that is found out first.
-/

namespace Clippings
namespace Arguments

open Reading (hyphen)

/-- Something is refused, and not in order to answer with a help text or a version. -/
def Fails {α : Type} (x : Except Refusal α) : Prop :=
  exists e, x = .error e ∧ e.status = 2

theorem fails_map {α β : Type} {x : Except Refusal α} (h : Fails x) (f : α -> β) :
    Fails (x.map f) := by
  rcases h with ⟨e, rfl, he⟩
  exact ⟨e, rfl, he⟩

/-!
## Settling is no answer
-/

theorem status_of_set {a : Arguments} {v : Valued} {value : List UInt8} {e : Refusal}
    (h : a.set v value = .error e) :
    e.status = 2 := by
  unfold set at h
  split at h
  · cases h
    rfl
  · cases v with
    | config | root | inputDirectory | outputDirectory =>
        simp only [pathOf] at h
        split at h <;> cases h
        rfl
    | pattern | key =>
        simp only [textOf] at h
        split at h <;> cases h
        rfl

theorem status_of_addFiles {a : Arguments} {paths : List Path} {e : Refusal}
    (h : a.addFiles paths = .error e) :
    e.status = 2 := by
  unfold addFiles at h
  split at h <;> cases h
  rfl

namespace Reading

variable {r : Reading}

theorem fails_settle {e : Refusal} (h : r.settle = .error e) :
    Fails r.settle := by
  refine ⟨e, h, ?_⟩
  unfold settle at h
  split at h
  · cases h
  · cases h
    rfl
  · exact status_of_set h
  · exact status_of_addFiles h

/-!
## Nothing helps any more
-/

theorem fails_settleWith (h : Fails r.settle) (f : Arguments -> Except Refusal Arguments) :
    Fails (r.settleWith f) := by
  rcases h with ⟨e, he, hstatus⟩
  refine ⟨e, ?_, hstatus⟩
  rw [settleWith, he]

theorem fails_readLong (h : Fails r.settle) (body : List UInt8) :
    Fails (r.readLong body) := by
  unfold readLong
  simp only
  split
  · exact ⟨_, rfl, rfl⟩
  · split
    · exact fails_map h _
    · exact fails_settleWith h _
  · split
    · exact fails_settleWith h _
    · exact ⟨_, rfl, rfl⟩

theorem fails_readLetters (h : Fails r.settle) (b : UInt8) (rest : List UInt8) :
    Fails (r.readLetters (b :: rest)) := by
  rw [readLetters]
  split
  · simp only
    split
    · exact ⟨_, rfl, rfl⟩
    · split
      · exact fails_map h _
      · exact fails_settleWith h _
    · rcases fails_settleWith h (·.turnOn _) with ⟨e, he, hstatus⟩
      rw [he]
      exact ⟨e, rfl, hstatus⟩
  · exact ⟨_, rfl, rfl⟩

theorem fails_readOne (h : Fails r.settle) {argument : List UInt8}
    (hvalue : isValue argument = false) :
    Fails (r.readOne argument) := by
  unfold readOne
  split
  · rename_i a b rest
    have ha : a = hyphen := by simpa [isValue] using hvalue
    subst ha
    split
    · exact fails_readLong h rest
    · rw [if_pos (beq_self_eq_true hyphen)]
      exact fails_readLetters h b rest
  · rename_i hshort
    unfold isValue at hvalue
    split at hvalue
    · exact absurd rfl (hshort _ _ _)
    · cases hvalue

theorem fails_addFile (h : Fails r.settle) (p : Path) :
    Fails (r.addFile p) ∨ exists r', r.addFile p = .ok r' ∧ Fails r'.settle ∧ ¬ r'.Awaits := by
  unfold addFile
  cases hpending : r.pending with
  | nothing | option => exact Or.inl (fails_map h _)
  | files paths =>
      refine Or.inr ⟨_, rfl, ?_, ?_⟩
      · rcases h with ⟨e, he, -⟩
        -- One of the files that wait is an empty path, and so it is among more of them.
        have hempty : paths.any (·.octets.isEmpty) = true := by
          simp only [settle, hpending, addFiles] at he
          split at he
          · assumption
          · cases he
        refine ⟨_, if_pos ?_, rfl⟩
        rw [List.any_append, hempty, Bool.true_or]
      · rintro ⟨v, hv⟩
        cases hv

theorem fails_readFiles (h : Fails r.settle) (line : List (List UInt8)) :
    Fails (match r.readFiles line with
      | .error e => .error e
      | .ok r => r.settle) := by
  induction line generalizing r with
  | nil => exact h
  | cons argument rest ih =>
      rw [readFiles]
      rcases fails_addFile h ⟨argument⟩ with ⟨e, he, hstatus⟩ | ⟨r', hr', hfails, -⟩
      · rw [he]
        exact ⟨e, rfl, hstatus⟩
      · rw [hr']
        exact ih hfails

/-- What waits cannot be settled, and if it is an option without its value, none comes. -/
theorem fails_readAll (h : Fails r.settle) {line : List (List UInt8)}
    (hvalue : r.Awaits -> forall argument, line.head? = some argument -> isValue argument = false) :
    Fails (match r.readAll line with
      | .error e => .error e
      | .ok r => r.settle) := by
  induction line generalizing r with
  | nil => exact h
  | cons argument rest ih =>
      rw [readAll]
      by_cases hescape : (argument == [hyphen, hyphen]) = true
      · rw [if_pos hescape]
        exact fails_readFiles h rest
      · rw [if_neg hescape]
        cases hshape : isValue argument with
        | false =>
            rcases fails_readOne h hshape with ⟨e, he, hstatus⟩
            rw [he]
            exact ⟨e, rfl, hstatus⟩
        | true =>
            have hawaits : ¬ r.Awaits := by
              intro hr
              cases hshape.symm.trans (hvalue hr argument rfl)
            rw [readOne_of_isValue hshape, readOther_of_not_awaits hawaits]
            rcases fails_addFile h ⟨argument⟩ with ⟨e, he, hstatus⟩ | ⟨r', hr', hfails, hnot⟩
            · rw [he]
              exact ⟨e, rfl, hstatus⟩
            · rw [hr']
              exact ih hfails fun hr => absurd hr hnot

end Reading
end Arguments
end Clippings
