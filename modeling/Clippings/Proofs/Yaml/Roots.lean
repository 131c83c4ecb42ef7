import Clippings.Proofs.Yaml.Presence

/-!
# Roots

An alias stands for a node that was started before it, so the root of a text is never one.
-/

namespace Clippings
namespace Yaml
namespace Tree
namespace Builder

variable {b : Builder}

/-- The first node outside every collection is no alias, and the first anchor comes with a node. -/
structure Rooted (b : Builder) : Prop where
  root : forall number, b.roots.getLast? ≠ some (.alias number)
  begun : b.anchors.names ≠ [] -> b.Begun

theorem rooted_empty :
    Rooted empty :=
  ⟨fun number => by simp [empty], fun h => absurd rfl h⟩

theorem rooted_add {node : Node} (position : Nat)
    (hroot : forall number, b.roots.getLast? ≠ some (.alias number))
    (hnode : b.Begun ∨ forall number, node ≠ .alias number) :
    (b.add position node).Rooted := by
  refine ⟨fun number => ?_, fun _ => begun_add b position node⟩
  unfold add
  cases hframes : b.frames with
  | cons f frames => exact hroot number
  | nil =>
      cases hroots : b.roots with
      | cons root roots =>
          simp only [List.getLast?_cons_cons]
          rw [← hroots]
          exact hroot number
      | nil =>
          have hfirst := hnode.resolve_left fun hbegun => by
            rw [Begun, hframes, hroots] at hbegun
            exact hbegun.elim (· rfl) (· rfl)
          simpa using hfirst number

theorem Rooted.step (h : b.Rooted) :
    b.step.Rooted :=
  ⟨h.root, h.begun⟩

theorem Rooted.close (h : b.Rooted) (complete : Bool) :
    (b.close complete).Rooted := by
  unfold Builder.close
  split
  · exact h
  · exact rooted_add _ h.root (Or.inr fun _ => Node.noConfusion)

theorem Rooted.closeAll (h : b.Rooted) :
    b.closeAll.Rooted := by
  have hfold : forall (frames : List Frame) (b : Builder), b.Rooted ->
      (frames.foldl (fun b _ => b.close false) b).Rooted := by
    intro frames
    induction frames with
    | nil => exact fun _ h => h
    | cons f frames ih => exact fun b h => ih _ (h.close false)
  exact hfold b.frames b h

theorem Rooted.tree (h : b.Rooted) (fault : Option TreeFault) (followed : Bool) (number : Nat) :
    (b.tree fault followed).root ≠ some (.alias number) :=
  h.closeAll.root number

theorem Rooted.run (h : b.Rooted) (fault : Option TreeFault) (events : List (Mark × Event))
    (number : Nat) :
    (Builder.run fault b events).root ≠ some (.alias number) := by
  induction events generalizing b with
  | nil => exact h.tree fault false number
  | cons marked rest ih =>
      rcases marked with ⟨place, event⟩
      cases event with
      | documentStart => exact ih h
      | documentEnd => exact h.tree none _ number
      | streamEnd => exact h.tree none false number
      | «alias» name =>
          rw [Builder.run]
          cases hname : b.anchors.names.lookup name with
          | none => exact h.tree _ false number
          | some target =>
              -- The anchor came with a node, so the alias is not what starts the document.
              have hbegun : b.Begun := h.begun fun hnames => by
                rw [hnames] at hname
                cases hname
              exact ih (rooted_add _ h.root (Or.inl hbegun)).step
      | scalar properties style text =>
          refine ih (rooted_add _ ?_ (Or.inr fun _ => Node.noConfusion)).step
          exact h.root
      | collectionStart shape properties =>
          exact ih (Rooted.step ⟨h.root, fun _ => Or.inr (List.cons_ne_nil _ _)⟩)
      | collectionEnd shape => exact ih (h.close true).step

end Builder

theorem root_ne_alias {text : List Char} {t : Tree} (h : Tree.ofText text = .ok t)
    (number : Nat) :
    t.root ≠ some (.alias number) := by
  unfold Tree.ofText at h
  split at h
  · cases h
  · cases h
    exact Builder.rooted_empty.run _ _ number

theorem breakFault_eq_noDocument {t : Tree} :
    t.breakFault = .noDocument <-> t.fault = none := by
  unfold breakFault
  cases t.fault with
  | none => simp
  | some fault => cases fault <;> simp

theorem finish_ne_noDocument {α : Type} (t : Tree) (result : α) :
    t.finish result ≠ .error .noDocument := by
  unfold finish
  split
  · rename_i hfault
    intro h
    rw [breakFault_eq_noDocument.mp (Except.error.inj h)] at hfault
    cases hfault
  · split <;> simp

end Tree
end Yaml
end Clippings
