import Clippings.Proofs.Storage.Joined

/-!
# What is missing

Where a path leads nowhere because a name is missing, there is a first such name on its way.  If
directories are made and the path leads somewhere then, one of them was made under that name.
-/

namespace Clippings
namespace Storage
namespace Tree

inductive Breaks (t : Tree) : Nat -> Address -> List Name -> Address -> Prop where
  | missing {links : Nat} {a : Address} {part : Name} {rest : List Name} :
      t.at? a = some .directory ->
      Ordinary part ->
      t.at? (part :: a) = none ->
      Breaks t links a (part :: rest) (part :: a)
  | stay {links : Nat} {a c : Address} {part : Name} {rest : List Name} :
      t.at? a = some .directory ->
      part = [] ∨ part = Path.dot ->
      Breaks t links a rest c ->
      Breaks t links a (part :: rest) c
  | up {links : Nat} {a c : Address} {rest : List Name} :
      t.at? a = some .directory ->
      Breaks t links a.tail rest c ->
      Breaks t links a (Path.dotDot :: rest) c
  | enter {links : Nat} {a c : Address} {part : Name} {rest : List Name} {e : Entry} :
      t.at? a = some .directory ->
      Ordinary part ->
      t.at? (part :: a) = some e ->
      (forall target, e ≠ .link target) ->
      Breaks t links (part :: a) rest c ->
      Breaks t links a (part :: rest) c
  | follow {links : Nat} {a c : Address} {part : Name} {rest : List Name} {target : Path} :
      t.at? a = some .directory ->
      Ordinary part ->
      t.at? (part :: a) = some (.link target) ->
      Breaks t links (if target.isAbsolute then [] else a) (Path.parts target.octets ++ rest) c ->
      Breaks t (links + 1) a (part :: rest) c

/-- The address of the first name that is missing on the way of a path. -/
def BreaksOff (t : Tree) (p : Path) (c : Address) : Prop :=
  Breaks t maxLinks (t.origin p) (Path.parts p.octets) c

theorem Breaks.at?_eq_none {t : Tree} {links : Nat} {a c : Address} {parts : List Name}
    (h : Breaks t links a parts c) :
    t.at? c = none := by
  induction h with
  | missing _ _ hnone => exact hnone
  | stay _ _ _ ih | up _ _ ih | enter _ _ _ _ _ ih | follow _ _ _ _ ih => exact ih

theorem Closed.exists_of_find {t : Tree} (ht : t.Closed) {p : Path} {a : Address}
    (h : t.find false p = .ok a) :
    exists e, t.at? a = some e := by
  rcases find_eq_ok_iff.mp h with ⟨-, links', hway⟩
  rcases ht.exists_entry hway (ht.origin p) with ⟨e, he, -⟩
  exact ⟨e, he⟩

theorem Closed.find_eq_error {t : Tree} (ht : t.Closed) {p : Path} (h : t.entryOf? p = none) :
    exists f, t.find false p = .error f := by
  cases hfind : t.find false p with
  | error f => exact ⟨f, rfl⟩
  | ok a =>
      rcases ht.exists_of_find hfind with ⟨e, he⟩
      simp [entryOf?, hfind, he] at h

theorem names_of_find_error {t : Tree} {p : Path} {f : Fault} (h : t.find false p = .error f) :
    t.names p = .error f := by
  rw [names, h]

/-!
## After directories were made
-/

/-- The way breaks off at an address where a directory is in another tree. -/
def Mended (t t' : Tree) (links : Nat) (a : Address) (parts : List Name) (f : Fault) : Prop :=
  f = .notFound ∧ exists c, Breaks t links a parts c ∧ t'.at? c = some .directory

theorem Mended.step {t t' : Tree} {links₁ links₂ : Nat} {a₁ a₂ : Address}
    {parts₁ parts₂ : List Name} {f : Fault} (h : Mended t t' links₂ a₂ parts₂ f)
    (hstep : forall c, Breaks t links₂ a₂ parts₂ c -> Breaks t links₁ a₁ parts₁ c) :
    Mended t t' links₁ a₁ parts₁ f := by
  rcases h with ⟨hf, c, hc, hmade⟩
  exact ⟨hf, c, hstep c hc, hmade⟩

namespace Grows

variable {ps : List Path} {t t' : Tree}

theorem at?_of_some (h : Grows ps t t') {a : Address} {e : Entry} (ha : t.at? a = some e) :
    t'.at? a = some e := by
  rcases h.at? a with hsame | ⟨hnone, -⟩
  · rw [hsame, ha]
  · rw [ha] at hnone
    cases hnone

theorem directory_of_new (h : Grows ps t t') (ht : t.Closed) {a : Address} (ha : t.at? a = none)
    {name : Name} {e : Entry} (he : t'.at? (name :: a) = some e) :
    e = .directory := by
  rcases h.at? (name :: a) with hsame | ⟨-, hdir, -⟩
  · rw [hsame] at he
    have hparent := ht.parent he
    rw [List.tail_cons, ha] at hparent
    cases hparent
  · rw [hdir] at he
    cases he
    rfl

/-- A lookup that fails still fails, and for the same reason, unless its way broke off where there
is a directory now. -/
theorem walk_or_mended (h : Grows ps t t') (ht : t.Closed) {links : Nat} {a : Address}
    {parts : List Name} {f : Fault} (ha : t.at? a ≠ none)
    (hwalk : t.walk false links a parts = .error f) :
    t'.walk false links a parts = .error f ∨ Mended t t' links a parts f := by
  fun_induction Tree.walk t false links a parts with
  | case1 | case7 => cases hwalk
  | case2 links a part rest hdir =>
      rcases Option.ne_none_iff_exists'.mp ha with ⟨e, he⟩
      rw [he] at hdir
      rw [walk, h.at?_of_some he, if_pos hdir]
      exact Or.inl hwalk
  | case3 links a part rest hdir hpart ih =>
      have hdir := eq_directory_of_test hdir
      have hpart : part = [] ∨ part = Path.dot := by simpa using hpart
      rw [walk_stay false _ _ (h.at?_of_some hdir) hpart]
      exact (ih ha hwalk).imp_right fun h => h.step fun _ hc => .stay hdir hpart hc
  | case4 links a part rest hdir hpart hup ih =>
      have hdir := eq_directory_of_test hdir
      have hparent : t.at? a.tail ≠ none := by simp [ht.parent hdir]
      have hup : part = Path.dotDot := by simpa using hup
      subst hup
      rw [walk_up false _ _ (h.at?_of_some hdir)]
      exact (ih hparent hwalk).imp_right fun h => h.step fun _ hc => .up hdir hc
  | case5 links a part rest hdir hpart hup hlen =>
      rw [walk, h.at?_of_some (eq_directory_of_test hdir), if_neg (by simp), if_neg hpart,
        if_neg hup, if_pos hlen]
      exact Or.inl hwalk
  | case6 links a part rest hdir hpart hup hlen hslash => cases hslash
  | case8 links a part rest hdir hpart hup hlen hslash hnone hlast =>
      have hdir := eq_directory_of_test hdir
      have hpart := ordinary_of_tests hpart hup hlen
      -- The first missing name: it is missing still, or a directory was made under it.
      rcases h.at? (part :: a) with hsame | ⟨-, hmade, -⟩
      · rw [walk_part _ (h.at?_of_some hdir) hpart rfl, hsame, hnone]
        exact Or.inl hwalk
      · exact Or.inr ⟨(Except.error.inj hwalk).symm, _, .missing hdir hpart hnone, hmade⟩
  | case9 a part rest hdir hpart hup hlen hslash target hlink =>
      have hdir := h.at?_of_some (eq_directory_of_test hdir)
      rw [walk_part _ hdir (ordinary_of_tests hpart hup hlen) rfl, h.at?_of_some hlink]
      exact Or.inl hwalk
  | case10 a part rest hdir hpart hup hlen hslash target hlink links ih =>
      have hdir := eq_directory_of_test hdir
      have hpart := ordinary_of_tests hpart hup hlen
      have htarget : t.at? (if target.isAbsolute then [] else a) ≠ none := by
        split
        · exact Option.some_ne_none _
        · exact ha
      rw [walk_follow _ (h.at?_of_some hdir) hpart (h.at?_of_some hlink) rfl]
      exact (ih htarget hwalk).imp_right fun h => h.step fun _ hc => .follow hdir hpart hlink hc
  | case11 links a part rest hdir hpart hup hlen hslash e hlink he ih =>
      have hdir := eq_directory_of_test hdir
      have hpart := ordinary_of_tests hpart hup hlen
      have hthere : t.at? (part :: a) ≠ none := by simp [he]
      rw [walk_enter _ (h.at?_of_some hdir) hpart (h.at?_of_some he) hlink rfl]
      exact (ih hthere hwalk).imp_right fun h => h.step fun _ hc => .enter hdir hpart he hlink hc

theorem find_or_breaksOff (h : Grows ps t t') (ht : t.Closed) {p : Path} {f : Fault}
    (hfind : t.find false p = .error f) :
    t'.find false p = .error f ∨
      f = .notFound ∧ exists c q, t.BreaksOff p c ∧ q ∈ ps ∧ t'.find false q = .ok c := by
  unfold find at hfind ⊢
  cases hfault : pathFault? p with
  | some g =>
      rw [hfault] at hfind
      exact Or.inl hfind
  | none =>
      rw [hfault] at hfind
      have hthere : t.at? (t.origin p) ≠ none := by simp [ht.origin p]
      rw [h.keeps.origin p]
      rcases h.walk_or_mended ht hthere hfind with hwalk | ⟨hf, c, hc, hmade⟩
      · exact Or.inl hwalk
      · rcases h.at? c with hsame | ⟨-, -, q, hq, hfindq⟩
        · rw [hsame, hc.at?_eq_none] at hmade
          cases hmade
        · exact Or.inr ⟨hf, c, q, hc, hq, hfindq⟩

end Grows

end Tree
end Storage
end Clippings
