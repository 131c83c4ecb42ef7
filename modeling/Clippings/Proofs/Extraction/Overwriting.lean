import Mathlib
import Clippings.Proofs.Extraction.Attempts
import Clippings.Proofs.Yaml.Steps

/-!
# Writing over

Inputs from different directories may have one name, and so one output.  A run writes each of their
snippets in turn and reports every one; at its end, the output holds the last.
-/

namespace Clippings
namespace Extractor

open Host (outcome)
open Storage (Tree Address Name)

/-!
## One attempt
-/

def Snips (e : Extractor) (t : Tree) (input : Path) (text : String) : Prop :=
  exists octets d, t.read input = .ok octets ∧ Document.ofOctets octets input = .ok d ∧
    (d.takeSnippet e.key).toText = .ok text

structure Step (e : Extractor) (t : Tree) (input : Path) (result : Except Failure Path)
    (t' : Tree) : Prop where
  closed : t'.Closed
  keeps : Tree.Keeps t t'
  unlinked : t.Unlinked -> t'.Unlinked
  ok : forall o, result = .ok o -> exists text a, e.outputPath input = .ok o ∧
    e.Snips t input text ∧ t'.find false o = .ok a ∧
    t'.at? a = some (.file (Text.Utf8.encode text.toList)) ∧ SameFilesBut (some a) t t'
  error : forall f, result = .error f -> SameFilesBut none t t'

theorem step_of_outcome {e : Extractor} {t t' : Tree} {input : Path}
    {result : Except Failure Path} (ht : t.Closed)
    (h : outcome (e.extract input) t = (result, t')) :
    Step e t input result t' := by
  rw [outcome_extract] at h
  cases hplan : e.plan t input with
  | error f =>
      rw [hplan] at h
      cases h
      have hsame := sameFilesBut_of_grows (Tree.Grows.refl [] t)
      exact ⟨ht, Tree.Keeps.refl t, id, by simp, fun _ _ => hsame⟩
  | ok planned =>
      rcases planned with ⟨output, text⟩
      rcases plan_eq_ok hplan with ⟨houtput, octets, hread, htext⟩
      rcases textOf_eq_ok.mp htext with ⟨d, hd, htext⟩
      rw [hplan] at h
      simp only at h
      rcases Written.of_closed e output text ht with ⟨hwritten, hclosed⟩
      generalize outcome (e.writeText output text) t = w at h hwritten hclosed
      cases hwritten with
      | none p cause hgrows =>
          cases h
          constructor
          · exact hclosed
          · exact hgrows.keeps
          · intro hu
            exact hu.grows hgrows
          · simp
          · intro _ _
            exact sameFilesBut_of_grows hgrows
      | file hgrows ha hold hfind =>
          rename_i t₁ a
          cases h
          constructor
          · exact hclosed
          · exact hgrows.keeps.trans (keeps_set _ hold)
          · intro hu
            exact (hu.grows hgrows).set_file ha _
          · intro o ho
            cases ho
            have hsnips : e.Snips t input text := ⟨octets, d, hread, hd, htext⟩
            have hthere := t₁.at?_set_self (.file (Text.Utf8.encode text.toList)) ha
            exact ⟨text, a, houtput, hsnips, hfind, hthere, sameFilesBut_set hgrows a _⟩
          · simp

/-!
## Attempts in a row
-/

/-- Every attempt is made on the tree that the one before it left. -/
def Trail (e : Extractor) (t : Tree) : List Attempt -> Prop
  | [] => True
  | a :: rest => a.before = t ∧ outcome (e.extract a.input) t = (a.result, a.after) ∧
      Trail e a.after rest

theorem trail_attempts (e : Extractor) (policy : Policy) (t : Tree) (inputs : List Path) :
    Trail e t (e.attempts policy t inputs) := by
  induction inputs generalizing t with
  | nil => trivial
  | cons input rest ih =>
      cases hx : outcome (e.extract input) t with
      | mk result t' =>
          cases result with
          | ok output =>
              rw [attempts_cons_of_ok hx]
              exact ⟨rfl, hx, ih t'⟩
          | error f =>
              cases policy with
              | failFast =>
                  rw [attempts_cons_failFast hx]
                  exact ⟨rfl, hx, trivial⟩
              | keepGoing =>
                  rw [attempts_cons_keepGoing hx]
                  exact ⟨rfl, hx, ih t'⟩

theorem treeAfter_append (t : Tree) (as bs : List Attempt) :
    treeAfter t (as ++ bs) = treeAfter (treeAfter t as) bs := by
  induction as generalizing t with
  | nil => rfl
  | cons a rest ih => exact ih a.after

theorem trail_append {e : Extractor} {t : Tree} {as bs : List Attempt} :
    Trail e t (as ++ bs) <-> Trail e t as ∧ Trail e (treeAfter t as) bs := by
  induction as generalizing t with
  | nil => simp [Trail, treeAfter]
  | cons a rest ih => simp [Trail, treeAfter, ih, and_assoc]

/-- What attempts leave is closed, everything that was there is there, and a file that no output
leads to at the end is as it was. -/
structure Passed (as : List Attempt) (t t' : Tree) : Prop where
  closed : t'.Closed
  keeps : Tree.Keeps t t'
  unlinked : t.Unlinked -> t'.Unlinked
  at?_file : forall a,
    (forall b o, b ∈ as -> b.result = .ok o -> t'.find false o ≠ .ok a) ->
      forall content, t'.at? a = some (.file content) <-> t.at? a = some (.file content)

theorem passed_of_trail {e : Extractor} {t : Tree} {as : List Attempt} (ht : t.Closed)
    (h : Trail e t as) :
    Passed as t (treeAfter t as) := by
  induction as generalizing t with
  | nil => exact ⟨ht, Tree.Keeps.refl t, id, fun _ _ _ => Iff.rfl⟩
  | cons a rest ih =>
      rcases h with ⟨-, hx, hrest⟩
      have hstep := step_of_outcome ht hx
      have hpassed := ih hstep.closed hrest
      constructor
      · exact hpassed.closed
      · exact hstep.keeps.trans hpassed.keeps
      · intro hu
        exact hpassed.unlinked (hstep.unlinked hu)
      · intro c hc content
        have hlater := hpassed.at?_file c
          (fun b o hb => hc b o (List.mem_cons_of_mem a hb)) content
        rw [treeAfter, hlater]
        cases hresult : a.result with
        | error f => exact hstep.error f hresult c (by simp) content
        | ok o =>
            rcases hstep.ok o hresult with ⟨text, addr, -, -, hfind, -, hsame⟩
            apply hsame c _ content
            intro heq
            cases heq
            exact hc a o List.mem_cons_self hresult (hpassed.keeps.find hfind)

/-- What an attempt wrote is there at the end, unless a later attempt wrote to the same file. -/
theorem lastWritten_of_trail {e : Extractor} {t : Tree} {earlier later : List Attempt}
    {a : Attempt} {o : Path} (ht : t.Closed) (h : Trail e t (earlier ++ a :: later))
    (ha : a.result = .ok o) :
    exists text addr, e.outputPath a.input = .ok o ∧ e.Snips a.before a.input text ∧
      (treeAfter t (earlier ++ a :: later)).find false o = .ok addr ∧
      ((forall b o', b ∈ later -> b.result = .ok o' ->
          (treeAfter t (earlier ++ a :: later)).find false o' ≠ .ok addr) ->
        (treeAfter t (earlier ++ a :: later)).at? addr =
          some (.file (Text.Utf8.encode text.toList))) := by
  rcases trail_append.mp h with ⟨hearlier, hbefore, hx, hlater⟩
  have hstep := step_of_outcome (passed_of_trail ht hearlier).closed hx
  have hpassed := passed_of_trail hstep.closed hlater
  rcases hstep.ok o ha with ⟨text, addr, houtput, hsnips, hfind, hfile, -⟩
  rw [treeAfter_append, treeAfter]
  rw [← hbefore] at hsnips
  refine ⟨text, addr, houtput, hsnips, hpassed.keeps.find hfind, ?_⟩
  intro hnone
  exact (hpassed.at?_file addr hnone _).mpr hfile

theorem outputPath_eq_ok_iff {e : Extractor} {input o : Path} :
    e.outputPath input = .ok o <->
      exists name, input.fileName? = some name ∧ o = e.outputDirectory.join ⟨name⟩ := by
  unfold outputPath
  cases input.fileName? <;> simp [eq_comm]

/-- Without links, two outputs are one file if and only if the inputs have one name. -/
theorem find_eq_find_iff {e : Extractor} {t : Tree} {input input' o o' : Path} {a a' : Address}
    (ht : t.Unlinked) (ho : e.outputPath input = .ok o) (hfind : t.find false o = .ok a)
    (ho' : e.outputPath input' = .ok o') (hfind' : t.find false o' = .ok a') :
    t.find false o = t.find false o' <-> input.fileName? = input'.fileName? := by
  have hhead : forall {input o : Path} {name : Name} {a : Address},
      input.fileName? = some name -> o = e.outputDirectory.join ⟨name⟩ ->
        t.find false o = .ok a -> a.head? = some name := by
    rintro input o name a hname rfl hfind
    rcases Path.mem_parts_of_fileName? hname with ⟨hmem, h₁, h₂, h₃⟩
    exact Tree.head?_of_find_join ht (fun hslash => (Path.mem_parts hmem hslash).2 rfl)
      h₁ h₂ h₃ hfind
  rcases outputPath_eq_ok_iff.mp ho with ⟨name, hname, hjoin⟩
  rcases outputPath_eq_ok_iff.mp ho' with ⟨name', hname', hjoin'⟩
  constructor
  · intro heq
    rw [hfind, hfind'] at heq
    cases heq
    rw [hname, hname', ← hhead hname hjoin hfind, ← hhead hname' hjoin' hfind']
  · intro heq
    rw [hname, hname'] at heq
    cases heq
    rw [hjoin, hjoin']

/-!
## A whole run
-/

/-- A run that answers with a report has tried every input, in order.  Every reported output leads
to a file at the end, and that file holds the snippet of what the input held when it was tried,
unless a later input was written to the same file.  Without links, this happens where a later input has the
same name, and only there. -/
theorem extractFiles_keeps_lastWritten (e : Extractor) (inputs : List Path) (policy : Policy)
    (s s' : Session) (r : Report) (hs : s.files.WellFormed)
    (hrun : outcome (e.extractFiles inputs policy (fun _ => pure ())) s = (.ok r, s')) :
    exists as : List Attempt,
      as.map Attempt.input = inputs ∧ Trail e s.files as ∧ s'.files = treeAfter s.files as ∧
      r.extracted = extractedBy as ∧ r.failures = failuresOf as ∧
      (forall earlier a later o, as = earlier ++ a :: later -> a.result = .ok o ->
        exists text addr, e.outputPath a.input = .ok o ∧ e.Snips a.before a.input text ∧
          s'.files.find false o = .ok addr ∧
          ((forall b o', b ∈ later -> b.result = .ok o' -> s'.files.find false o' ≠ .ok addr) ->
            s'.files.at? addr = some (.file (Text.Utf8.encode text.toList)))) ∧
      (s.files.LinkFree -> forall a b o o', a ∈ as -> b ∈ as ->
        a.result = .ok o -> b.result = .ok o' ->
          (s'.files.find false o = s'.files.find false o' <->
            a.input.fileName? = b.input.fileName?)) := by
  have hsilent : forall _ : Extracted, Host.Seen Session.files (pure () : StateM Session Unit)
      (pure () : StateM Tree Unit) :=
    fun _ => Host.Seen.pure ()
  have hseen := Session.view_files.extractOnto hsilent e policy Report.empty inputs s
  rw [show outcome (e.extractOnto policy _ Report.empty inputs) s = _ from hrun,
    outcome_extractOnto ledger_silent e policy Report.empty inputs []] at hseen
  injection hseen with hanswer hfiles
  rcases answer_eq_ok_iff.mp hanswer with ⟨hcomplete, hr⟩
  have hinputs := map_input_attempts hcomplete
  have htrail := trail_attempts e policy s.files inputs
  have hpassed := passed_of_trail hs.closed htrail
  generalize e.attempts policy s.files inputs = as at hfiles hr hinputs htrail hpassed
  have hlast : forall earlier a later o, as = earlier ++ a :: later -> a.result = .ok o ->
      exists text addr, e.outputPath a.input = .ok o ∧ e.Snips a.before a.input text ∧
        s'.files.find false o = .ok addr ∧
        ((forall b o', b ∈ later -> b.result = .ok o' -> s'.files.find false o' ≠ .ok addr) ->
          s'.files.at? addr = some (.file (Text.Utf8.encode text.toList))) := by
    intro earlier a later o has ha
    rw [← hfiles, has]
    exact lastWritten_of_trail hs.closed (has ▸ htrail) ha
  have hextracted : r.extracted = extractedBy as := by simp [hr, Report.empty]
  have hfailures : r.failures = failuresOf as := by simp [hr, Report.empty]
  refine ⟨as, hinputs, htrail, hfiles.symm, hextracted, hfailures, hlast, ?_⟩
  intro hlinks a b o o' ha hb hao hbo
  have hunlinked : s'.files.Unlinked := hfiles ▸ hpassed.unlinked hlinks.unlinked
  rcases List.append_of_mem ha with ⟨_, _, hsplit⟩
  rcases hlast _ a _ o hsplit hao with ⟨-, addr, houtput, -, hfind, -⟩
  rcases List.append_of_mem hb with ⟨_, _, hsplit'⟩
  rcases hlast _ b _ o' hsplit' hbo with ⟨-, addr', houtput', -, hfind', -⟩
  exact find_eq_find_iff hunlinked houtput hfind houtput' hfind'

/-!
## Two inputs of one name

The files `a/x` and `b/x` are both extracted to `o/x`.  The first is empty, the second is a mapping.
-/

def namesakes : Tree :=
  ⟨[([[97]], .directory), ([[98]], .directory), ([[120], [97]], .file []),
    ([[120], [98]], .file [107, 58, 32, 49])], []⟩

def namesakePaths : List Path :=
  [⟨[97, 47, 120]⟩, ⟨[98, 47, 120]⟩]

def keeper : Extractor :=
  ⟨⟨[111]⟩, "k"⟩

theorem textOf_first :
    keeper.textOf ⟨[97, 47, 120]⟩ [] = .ok "k: null\n" := by
  have hdocument : Document.ofOctets [] ⟨[97, 47, 120]⟩ = .ok ⟨⟨[97, 47, 120]⟩, []⟩ := by
    cbv
  rw [textOf_eq_ok]
  exact ⟨_, hdocument, rfl⟩

theorem ofText_second :
    Yaml.Value.ofText "k: 1" = .ok (.map [(.str "k", .int 1)]) := by
  apply Yaml.Value.ofText_of_ofTextWithin 20
  · cbv
  · rfl

theorem textOf_second :
    keeper.textOf ⟨[98, 47, 120]⟩ [107, 58, 32, 49] = .ok "k: 1\n" := by
  have hdecode : Text.Utf8.decode [107, 58, 32, 49] = .ok "k: 1".toList := by
    cbv
  have hcontent : hasContent "k: 1" = true := by
    cbv
  have hdocument : Document.ofOctets [107, 58, 32, 49] ⟨[98, 47, 120]⟩ =
      .ok ⟨⟨[98, 47, 120]⟩, [(.str "k", .int 1)]⟩ := by
    unfold Document.ofOctets
    rw [hdecode]
    simp only [String.ofList_toList, Document.parse, hcontent, ofText_second]
    rfl
  rw [textOf_eq_ok]
  exact ⟨_, hdocument, rfl⟩

def namesakesWith (content : List UInt8) : Tree :=
  (namesakes.set [[111]] .directory).set [[120], [111]] (.file content)

theorem outcome_first :
    outcome (keeper.extract ⟨[97, 47, 120]⟩) namesakes =
      (.ok ⟨[111, 47, 120]⟩, namesakesWith (Text.Utf8.encode "k: null\n".toList)) := by
  have hplan : keeper.plan namesakes ⟨[97, 47, 120]⟩ = .ok (⟨[111, 47, 120]⟩, "k: null\n") := by
    have hread : namesakes.read ⟨[97, 47, 120]⟩ = .ok [] := by
      cbv
    have houtput : keeper.outputPath ⟨[97, 47, 120]⟩ = .ok ⟨[111, 47, 120]⟩ := by
      cbv
    simp only [plan, houtput, hread, textOf_first]
    rfl
  have hmake : outcome (Host.makeDirectories keeper.outputDirectory) namesakes =
      (.ok (), namesakes.set [[111]] .directory) := by
    cbv
  have hwrite : (namesakes.set [[111]] .directory).write ⟨[111, 47, 120]⟩
      (Text.Utf8.encode "k: null\n".toList) =
        .ok (namesakesWith (Text.Utf8.encode "k: null\n".toList)) := by
    cbv
  simp only [outcome_extract, hplan, outcome_writeText, hmake, hwrite]

theorem outcome_second :
    outcome (keeper.extract ⟨[98, 47, 120]⟩)
        (namesakesWith (Text.Utf8.encode "k: null\n".toList)) =
      (.ok ⟨[111, 47, 120]⟩, namesakesWith (Text.Utf8.encode "k: 1\n".toList)) := by
  have hplan : keeper.plan (namesakesWith (Text.Utf8.encode "k: null\n".toList))
      ⟨[98, 47, 120]⟩ = .ok (⟨[111, 47, 120]⟩, "k: 1\n") := by
    have hread : (namesakesWith (Text.Utf8.encode "k: null\n".toList)).read ⟨[98, 47, 120]⟩ =
        .ok [107, 58, 32, 49] := by
      cbv
    have houtput : keeper.outputPath ⟨[98, 47, 120]⟩ = .ok ⟨[111, 47, 120]⟩ := by
      cbv
    simp only [plan, houtput, hread, textOf_second]
    rfl
  have hmake : outcome (Host.makeDirectories keeper.outputDirectory)
      (namesakesWith (Text.Utf8.encode "k: null\n".toList)) =
        (.ok (), namesakesWith (Text.Utf8.encode "k: null\n".toList)) :=
    Tree.outcome_makeInnermost_of_isDirectory [] (by cbv)
  have hwrite : (namesakesWith (Text.Utf8.encode "k: null\n".toList)).write ⟨[111, 47, 120]⟩
      (Text.Utf8.encode "k: 1\n".toList) =
        .ok (namesakesWith (Text.Utf8.encode "k: 1\n".toList)) := by
    cbv
  simp only [outcome_extract, hplan, outcome_writeText, hmake, hwrite]

theorem exists_run_namesakes (policy : Policy) (filter : Journal.Filter) :
    exists s', outcome (keeper.extractFiles namesakePaths policy (fun _ => pure ()))
        (Session.ofTree namesakes filter) =
          (.ok ⟨[⟨⟨[97, 47, 120]⟩, ⟨[111, 47, 120]⟩⟩, ⟨⟨[98, 47, 120]⟩, ⟨[111, 47, 120]⟩⟩], []⟩,
            s') ∧
      s'.files = namesakesWith (Text.Utf8.encode "k: 1\n".toList) := by
  have hseen := Session.view_files.extractOnto Session.seen_silent keeper policy Report.empty
    namesakePaths (Session.ofTree namesakes filter)
  have hattempts : keeper.attempts policy namesakes namesakePaths =
      [⟨⟨[97, 47, 120]⟩, namesakes, .ok ⟨[111, 47, 120]⟩,
          namesakesWith (Text.Utf8.encode "k: null\n".toList)⟩,
        ⟨⟨[98, 47, 120]⟩, namesakesWith (Text.Utf8.encode "k: null\n".toList),
          .ok ⟨[111, 47, 120]⟩, namesakesWith (Text.Utf8.encode "k: 1\n".toList)⟩] := by
    rw [namesakePaths, attempts_cons_of_ok outcome_first, attempts_cons_of_ok outcome_second]
    rfl
  rw [show (Session.ofTree namesakes filter).files = namesakes from rfl,
    outcome_extractOnto ledger_silent keeper policy Report.empty namesakePaths [], hattempts]
    at hseen
  cases hrun : outcome (keeper.extractFiles namesakePaths policy (fun _ => pure ()))
    (Session.ofTree namesakes filter) with
  | mk result s' =>
      rw [show outcome (keeper.extractOnto policy _ Report.empty namesakePaths) _ = _ from hrun]
        at hseen
      injection hseen with hresult hfiles
      refine ⟨s', ?_, hfiles.symm⟩
      change _ = result at hresult
      rw [← hresult]
      cases policy <;> rfl

theorem extractFiles_keeps_lastWritten_namesakes :
    namesakes.WellFormed ∧
      exists r s' as, outcome (keeper.extractFiles namesakePaths .failFast (fun _ => pure ()))
          (Session.ofTree namesakes (Journal.Filter.ofDirectives [])) = (.ok r, s') ∧
        as.map Attempt.input = namesakePaths ∧ Trail keeper namesakes as ∧
        r.extracted = extractedBy as ∧ s'.files = treeAfter namesakes as := by
  have hwell : namesakes.WellFormed := by decide
  rcases exists_run_namesakes .failFast (Journal.Filter.ofDirectives []) with ⟨s', hrun, -⟩
  rcases extractFiles_keeps_lastWritten keeper namesakePaths .failFast
    (Session.ofTree namesakes (Journal.Filter.ofDirectives [])) s' _ hwell hrun with
    ⟨as, hinputs, htrail, hfiles, hextracted, -⟩
  exact ⟨hwell, _, s', as, hrun, hinputs, htrail, hextracted, hfiles⟩

/-- Two different inputs are reported with one output, which counts as two files and does not hold
the snippet of the first. -/
theorem extractFiles_counts_namesakes :
    exists r s', namesakes.WellFormed ∧ namesakePaths.Nodup ∧
      outcome (keeper.extractFiles namesakePaths .failFast (fun _ => pure ()))
        (Session.ofTree namesakes (Journal.Filter.ofDirectives [])) = (.ok r, s') ∧
      r.count = 2 ∧ ¬ (r.extracted.map Extracted.output).Nodup ∧
      ⟨⟨[97, 47, 120]⟩, ⟨[111, 47, 120]⟩⟩ ∈ r.extracted ∧
      keeper.Snips namesakes ⟨[97, 47, 120]⟩ "k: null\n" ∧
      s'.files.read ⟨[111, 47, 120]⟩ ≠ .ok (Text.Utf8.encode "k: null\n".toList) := by
  rcases exists_run_namesakes .failFast (Journal.Filter.ofDirectives []) with ⟨s', hrun, hfiles⟩
  refine ⟨_, s', by decide, by decide, hrun, rfl, by decide, by decide, ?_, ?_⟩
  · rcases textOf_eq_ok.mp textOf_first with ⟨d, hd, htext⟩
    exact ⟨[], d, by cbv, hd, htext⟩
  · rw [hfiles]
    have hread : (namesakesWith (Text.Utf8.encode "k: 1\n".toList)).read ⟨[111, 47, 120]⟩ =
        .ok (Text.Utf8.encode "k: 1\n".toList) := by
      cbv
    rw [hread]
    intro h
    injection h with h
    revert h
    decide

end Extractor
end Clippings
