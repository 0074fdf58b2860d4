import Mathlib.Data.List.Induction
import PageCompiler.CommandLine.Basic
import PageCompiler.Proofs.CommandLine.Outputs
import PageCompiler.Proofs.Compile.Calls
import PageCompiler.Proofs.Compile.Containment

/-!
# `PageCompiler.Proofs.CommandLine.Contract`: what a run of the compiler leaves

`Fulfils` is what users of the program rely on: outputs that are there are kept, unless they may be
overwritten; else a result leaves a page and a report, and a problem leaves page and report as they
were and a report of its own. The program looks for outputs before it makes their directory, so it
does not see those to which a path leads only once directories on its way are made.
`compile_fulfils_iff` says that this is the only way to miss the contract. It does not happen if the
path leads to a directory before the run, or if it goes only down.

No text that the compiler cannot read gets through its check (`outcome_ne_malformed`). So no run
ends with the code for such a text.
-/

set_option autoImplicit false

namespace PageCompiler

open Text

/-! ### Failures of the compiler -/

/-- The check of a text ends in no reading error: it reports those as defects. -/
theorem Repair.verdict_ne_malformed {text : String} {mender : Option Mender}
    {settings : CompilerSettings} (e : ParseError) :
    verdict text mender settings ≠ .error (.malformed e) := by
  intro h
  unfold verdict attempt at h
  split at h
  · cases h
  · split at h
    · cases h
    · split at h
      · cases h
      · split at h
        · cases h
        · split at h
          · cases h
          · cases h
          · split at h
            · cases h
            · split at h
              · cases h
              · cases h

/-- Asking the service ends in no reading error. -/
theorem Compiler.answer_ne_malformed {c : Compiler} {text : String} {a : Analysis} {o : RuleOutput}
    {wanted : List String} (e : ParseError) : c.answer text a o wanted ≠ .error (.malformed e) := by
  intro h
  unfold answer at h
  split at h
  · cases h
  · cases h
  · unfold heard at h
    split at h
    · cases h
    · cases h
    · split at h
      · cases h
      · cases h

/-- A text that passes the check can be read. -/
theorem Compiler.outcome_ne_malformed (c : Compiler) (text : String) (e : ParseError) :
    c.outcome text ≠ .error (.malformed e) := by
  intro h
  unfold outcome at h
  rcases Failure.bind_error h with h | ⟨checked, hverdict, h⟩
  · exact Repair.verdict_ne_malformed e h
  obtain ⟨d, hread⟩ := Issue.read_of_detect_nil (Repair.detect_of_verdict hverdict)
  rw [hread] at h
  rcases Failure.bind_error h with h | ⟨_, _, h⟩
  · cases h
  rcases Failure.bind_error h with h | ⟨a, _, h⟩
  · obtain ⟨_, _, h⟩ := Failure.mapError_error h
    cases h
  unfold build at h
  rcases Failure.bind_error h with h | ⟨asked, _, h⟩
  · exact answer_ne_malformed e h
  rcases Failure.bind_error h with h | ⟨page, _, h⟩
  · obtain ⟨_, _, h⟩ := Failure.mapError_error h
    cases h
  rcases Failure.bind_error h with h | ⟨named, _, h⟩
  · unfold canonical at h
    split at h <;> cases h
  · cases h

/-- The texts that the program is given are compiled by a compiler. -/
def Terminal.Uses (t : Terminal) (c : Compiler) : Prop :=
  ∀ text, t.compile (CompilerSettings.ofEnvironment t.environment) text = (c.run text).1

namespace CommandLine

/-- The code with which a problem ends a run, unless the text could not be read. -/
theorem Problem.exitCode_eq {p : Problem} (h : ∀ e, p ≠ .compile (.malformed e)) :
    p.exitCode = if p.typeName ∈ refusalTypes then 3 else 1 := by
  have hfile : ∀ fault : FileFault, fault.typeName ∉ refusalTypes := by
    intro fault
    cases fault <;> decide
  have htemplate : ∀ e : TemplateError, e.typeName ∉ refusalTypes := by
    intro e
    unfold TemplateError.typeName
    split <;> decide
  cases p with
  | unreadable e => rfl
  | write e => exact (if_neg (hfile e.fault)).symm
  | compile e =>
    cases e with
    | malformed e => exact absurd rfl (h e)
    | template e => exact (if_neg (htemplate e)).symm
    | _ => rfl

theorem Problem.exitCode_ne_two {p : Problem} (h : ∀ e, p ≠ .compile (.malformed e)) :
    p.exitCode ≠ 2 := by
  rw [exitCode_eq h]
  split <;> decide

/-- No problem of a compilation is a reading error. -/
theorem compileContent_ne_malformed {t : Terminal} {c : Compiler} (hcompile : t.Uses c)
    {content : List UInt8} {p : Problem} (h : compileContent t content = .error p) :
    ∀ e, p ≠ .compile (.malformed e) := by
  rintro e rfl
  unfold compileContent at h
  rcases Failure.bind_error h with h | ⟨text, _, h⟩
  · obtain ⟨_, _, h⟩ := Failure.mapError_error h
    cases h
  · obtain ⟨_, hrun, h⟩ := Failure.mapError_error h
    cases h
    rw [hcompile text, c.run_fst] at hrun
    exact c.outcome_ne_malformed text e hrun

end CommandLine

/-! ### Outputs that are seen -/

namespace Disk

/-- Some output is in a directory. -/
def HasOutput (d : Disk) (home : Location) : Prop :=
  ∃ name ∈ outputNames, (d.node? (home ++ [name])).isSome = true

theorem hasOutput_of_has {d : Disk} {p : Path} {name : String} (hname : name ∈ outputNames)
    (h : d.has (p.child name) = .ok true) : d.HasOutput (d.destination p) := by
  unfold has at h
  split at h
  next l hl =>
    obtain ⟨-, rfl⟩ := reaches_of_locate_child (of_mem_outputNames hname).1 hl
    exact ⟨name, hname, Except.ok.inj h⟩
  · cases h
  · cases h

/-- In a directory that is reached, an output is seen if it is there. -/
theorem Reaches.has_child {d : Disk} {p : Path} (hreaches : d.Reaches p) {name : String}
    (hname : name ∈ outputNames) {seen : Bool} (h : d.has (p.child name) = .ok seen) :
    seen = (d.node? (d.destination p ++ [name])).isSome := by
  obtain ⟨hup, hshort⟩ := of_mem_outputNames hname
  by_cases htext : (p.child name).text.utf8ByteSize ≤ maxPathBytes
  · rw [has, hreaches.locate_child hup hshort htext] at h
    exact (Except.ok.inj h).symm
  · rw [has, locate, if_pos (by omega)] at h
    cases h

/-- Every location stands in a directory. -/
def WellFormed (d : Disk) : Prop :=
  ∀ l name, (d.node? (l ++ [name])).isSome = true → d.node? l = some .directory

/-- What stands further down stands in a directory. -/
theorem WellFormed.directory {d : Disk} (h : d.WellFormed) {l : Location} {s : List String}
    (hs : s ≠ []) (hnode : (d.node? (l ++ s)).isSome = true) : d.node? l = some .directory := by
  induction s using List.reverseRecOn with
  | nil => exact absurd rfl hs
  | append_singleton s name ih =>
    rw [← List.append_assoc] at hnode
    have hparent := h _ _ hnode
    by_cases hnil : s = []
    · rw [hnil, List.append_nil] at hparent
      exact hparent
    · exact ih hnil (by rw [hparent]; rfl)

/-- Where every location stands in a directory, steps that go only down are followed to a directory
that is there, unless a name is too long. -/
theorem WellFormed.walk {d : Disk} (h : d.WellFormed) {here : Location} {steps : List String}
    (hup : ".." ∉ steps) (hnode : d.node? (here ++ steps) = some .directory) :
    d.walk here steps = .ok (here ++ steps) ∨ d.walk here steps = .error .nameTooLong := by
  induction steps generalizing here with
  | nil =>
    rw [List.append_nil]
    exact .inl rfl
  | cons step steps ih =>
    obtain ⟨hstep, hup⟩ := not_or.1 (mt List.mem_cons.2 hup)
    have hhere : d.node? here = some .directory :=
      h.directory (List.cons_ne_nil step steps) (by rw [hnode]; rfl)
    have hsplit : here ++ step :: steps = here ++ [step] ++ steps := by simp
    rw [Disk.walk, hhere]
    simp only
    rw [if_neg (by simpa using Ne.symm hstep)]
    split
    · exact .inr rfl
    · rw [hsplit] at hnode ⊢
      exact ih hup hnode

/-- A path that goes only down is followed step by step. -/
theorem resolve_of_not_mem {here : Location} {steps : List String} (hup : ".." ∉ steps) :
    resolve here steps = here ++ steps := by
  induction steps generalizing here with
  | nil => rw [resolve, List.append_nil]
  | cons step steps ih =>
    obtain ⟨hstep, hup⟩ := not_or.1 (mt List.mem_cons.2 hup)
    rw [resolve, if_neg (by simpa using Ne.symm hstep), ih hup, List.append_assoc]
    rfl

/-- Where every location stands in a directory, a path that goes only down reaches its outputs. -/
theorem WellFormed.reaches {d : Disk} (h : d.WellFormed) {p : Path} (hup : ".." ∉ p.parts)
    (houtput : d.HasOutput (d.destination p))
    (hlooked : ∀ name ∈ outputNames, ∃ seen, d.has (p.child name) = .ok seen) : d.Reaches p := by
  obtain ⟨name, hname, hnode⟩ := houtput
  have hdirectory := h _ _ hnode
  have hdestination : d.destination p = d.origin p ++ p.parts := resolve_of_not_mem hup
  rw [hdestination] at hdirectory
  rcases h.walk hup hdirectory with hwalk | hwalk
  · rw [← hdestination] at hdirectory hwalk
    exact ⟨hwalk, hdirectory⟩
  · obtain ⟨seen, hseen⟩ := hlooked name hname
    have hchild : d.locate (p.child name) = .error .nameTooLong := by
      unfold locate
      split
      · rfl
      · show d.walk (d.origin p) (p.parts ++ [name]) = _
        rw [walk_append, hwalk]
        rfl
    rw [has, hchild] at hseen
    cases hseen

end Disk

namespace Outputs

/-- The outputs that are listed are those that are seen. -/
theorem existing_ok {d : Disk} {p : Path} {existing : List String}
    (h : (within p).existing d = .ok existing) :
    ∃ seen : String → Bool, (∀ name ∈ outputNames, d.has (p.child name) = .ok (seen name)) ∧
      existing = outputNames.filter seen := by
  unfold Outputs.existing at h
  obtain ⟨page, hpage, h⟩ := Failure.bind_ok h
  obtain ⟨report, hreport, h⟩ := Failure.bind_ok h
  obtain ⟨error, herror, h⟩ := Failure.bind_ok h
  obtain rfl := Except.ok.inj h
  refine ⟨fun name => if name = "out.html" then page
    else if name = "out.artifact.json" then report else error, ?_, ?_⟩
  · intro name hname
    simp only [outputNames, List.mem_cons, List.not_mem_nil, or_false] at hname
    rcases hname with rfl | rfl | rfl
    · exact hpage
    · exact hreport
    · exact herror
  · cases page <;> cases report <;> cases error <;> rfl

/-- What is listed is there. -/
theorem hasOutput_of_existing {d : Disk} {p : Path} {existing : List String}
    (h : (within p).existing d = .ok existing) (hne : existing ≠ []) :
    d.HasOutput (d.destination p) := by
  obtain ⟨seen, hseen, rfl⟩ := existing_ok h
  obtain ⟨name, hname⟩ := List.exists_mem_of_ne_nil _ hne
  obtain ⟨hname, htrue⟩ := List.mem_filter.1 hname
  have hhas := hseen name hname
  rw [htrue] at hhas
  exact Disk.hasOutput_of_has hname hhas

/-- In a directory that is reached, what is there is listed. -/
theorem existing_ne_nil {d : Disk} {p : Path} {existing : List String}
    (h : (within p).existing d = .ok existing) (hreaches : d.Reaches p)
    (houtput : d.HasOutput (d.destination p)) : existing ≠ [] := by
  obtain ⟨seen, hseen, rfl⟩ := existing_ok h
  obtain ⟨name, hname, hnode⟩ := houtput
  refine List.ne_nil_of_mem (List.mem_filter.2 ⟨hname, ?_⟩)
  rw [hreaches.has_child hname (hseen name hname), hnode]

end Outputs

/-! ### The contract -/

namespace CommandLine

/-- The report of an error, field by field: its type, its message, what was being done when it came
up, and what else the compiler says about it. -/
def noteFields (p : Problem) : Fields :=
  let (stage, detail) :=
    match p with
    | .unreadable _ => ("read_input", [])
    | .compile e => ("compile", e.detail)
    | .write _ => ("write_output", [])
  [("error", .map
    [("error_type", .text p.typeName), ("error_message", .text p.message), ("stage", .text stage),
     ("detail", .map detail)])]

theorem Problem.record_eq (p : Problem) : p.record = noteFields p := by
  cases p <;> rfl

/-- What a run leaves, by what was there in the directory of its outputs, whether that may be
overwritten, and what came of the compilation. -/
structure Fulfils (w : Workspace) (home : Location) (force : Bool)
    (result : Except Problem Compilation) (out : Outcome) : Prop where
  /-- Outputs that may not be overwritten are kept, and nothing else changes. -/
  kept : w.disk.HasOutput home → force = false →
    out.exitCode = 1 ∧ ∀ l, out.workspace.disk.node? l = w.disk.node? l
  /-- A result leaves its page and its report, and no report of an error. -/
  saved : ¬ (w.disk.HasOutput home ∧ force = false) → ∀ c, result = .ok c →
    out.exitCode = 0 ∧
    out.workspace.disk.content? (home ++ ["out.html"]) = some (Utf8.encode c.artifact.page) ∧
    out.workspace.disk.content? (home ++ ["out.artifact.json"]) =
      some (Utf8.encode (Json.record c.toFields)) ∧
    out.workspace.disk.node? (home ++ ["out.error.json"]) = none
  /-- A problem leaves a report of its own, and page and report as they were. -/
  noted : ¬ (w.disk.HasOutput home ∧ force = false) → ∀ p, result = .error p →
    out.exitCode = (if p.typeName ∈ refusalTypes then 3 else 1) ∧
    out.workspace.disk.content? (home ++ ["out.html"]) = w.disk.content? (home ++ ["out.html"]) ∧
    out.workspace.disk.content? (home ++ ["out.artifact.json"]) =
      w.disk.content? (home ++ ["out.artifact.json"]) ∧
    out.workspace.disk.content? (home ++ ["out.error.json"]) =
      some (Utf8.encode (Json.record (noteFields p)))

/-- What has to be written can be written. -/
def Writable (o : Outputs) (w : Workspace) : Except Problem Compilation → Prop
  | .ok c => (FileM.runFrom (o.writeResult c) w).1 = .ok ()
  | .error p => (FileM.runFrom (o.writeError p.record) w).1 = .ok ()

section Finish

variable {p : Path} {w : Workspace} {before : List String}

/-- If writing succeeds, a compilation is saved and the exit code is zero. -/
theorem finish_ok {c : Compilation} (h : Writable (.within p) w (.ok c)) :
    (finish (.within p) (.ok c) before w).exitCode = 0 ∧
      Outputs.Saved w.disk (finish (.within p) (.ok c) before w).workspace.disk p
        (Utf8.encode c.artifact.page) (Utf8.encode (Json.record c.toFields)) := by
  cases hrun : FileM.runFrom ((Outputs.within p).writeResult c) w with
  | mk x w' =>
    rw [Writable, hrun] at h
    subst h
    have hfinish : finish (.within p) (.ok c) before w =
        { exitCode := 0, output := printed (before ++ summary c ++ ["INFO: success"]),
          crash := none, workspace := w' } := by
      have hrun : ((Outputs.within p).writeResult c).run.run w = (.ok (), w') := hrun
      rw [finish, hrun]
    rw [hfinish]
    exact ⟨rfl, Outputs.saved_of_writeResult hrun⟩

/-- If writing succeeds, a problem is noted and gives the exit code. -/
theorem finish_error {e : Problem} (h : Writable (.within p) w (.error e)) :
    (finish (.within p) (.error e) before w).exitCode = e.exitCode ∧
      Outputs.Noted w.disk (finish (.within p) (.error e) before w).workspace.disk p
        (Utf8.encode (Json.record e.record)) := by
  cases hrun : FileM.runFrom ((Outputs.within p).writeError e.record) w with
  | mk x w' =>
    rw [Writable, hrun] at h
    subst h
    have hreport : reportProblem (.within p) e w = w' := congrArg Prod.snd hrun
    refine ⟨rfl, ?_⟩
    rw [finish, fail, hreport]
    exact Outputs.noted_of_writeError hrun

/-- After a run that writes, the directory of the outputs is reached. -/
theorem reaches_finish {result : Except Problem Compilation} (h : Writable (.within p) w result) :
    (finish (.within p) result before w).workspace.disk.workingDirectory =
        w.disk.workingDirectory ∧
      (finish (.within p) result before w).workspace.disk.Reaches p := by
  cases result with
  | ok c => exact ⟨(finish_ok h).2.workingDirectory, (finish_ok h).2.reaches⟩
  | error e => exact ⟨(finish_error h).2.workingDirectory, (finish_error h).2.reaches⟩

/-- A run that writes and may do so fulfils the contract. -/
theorem fulfils_finish {force : Bool} {result : Except Problem Compilation}
    (h : Writable (.within p) w result)
    (hresult : ∀ p, result = .error p → ∀ e, p ≠ .compile (.malformed e))
    (hfree : ¬ (w.disk.HasOutput (w.disk.destination p) ∧ force = false)) :
    Fulfils w (w.disk.destination p) force result (finish (.within p) result before w) := by
  refine ⟨fun houtput hforce => absurd ⟨houtput, hforce⟩ hfree, ?_, ?_⟩
  · rintro - c rfl
    obtain ⟨hexit, hsaved⟩ := finish_ok h
    refine ⟨hexit, ?_, ?_, hsaved.error⟩
    · rw [Disk.content?, hsaved.page]
    · rw [Disk.content?, hsaved.report]
  · rintro - e rfl
    obtain ⟨hexit, hnoted⟩ := finish_error h
    refine ⟨?_, hnoted.page, hnoted.report, ?_⟩
    · rw [hexit, Problem.exitCode_eq (hresult e rfl)]
    · rw [Disk.content?, hnoted.error, Problem.record_eq]

end Finish

/-- A compilation into a directory, once the arguments are understood and the source is found. -/
theorem run_compile {t : Terminal} {w : Workspace} {args : List String} {source outDir : String}
    {force : Bool} {content : List UInt8}
    (hparse : Command.parse? args = some (.compile source outDir force))
    (hsource : w.disk.find? (Path.ofText source) = some (.file content))
    (hnull : outDir.contains '\x00' = false) :
    run t w args = compileInto t w content (Outputs.within (Path.ofText outDir)) force := by
  unfold run
  rw [hparse]
  unfold execute
  dsimp only
  rw [hsource]
  dsimp only
  rw [hnull]
  rfl

section CompileInto

variable {t : Terminal} {c : Compiler} {w : Workspace} {content : List UInt8} {p : Path}
  {force : Bool} {existing : List String}

/-- Outputs that are seen and may not be overwritten stop the run. -/
theorem compileInto_refused (hexisting : (Outputs.within p).existing w.disk = .ok existing)
    (hseen : existing ≠ []) (hforce : force = false) :
    (compileInto t w content (.within p) force).exitCode = 1 ∧
      (compileInto t w content (.within p) force).workspace = w := by
  have hempty : existing.isEmpty = false := by
    rw [List.isEmpty_eq_false_iff]
    exact hseen
  rw [compileInto, hexisting]
  simp only [hempty, hforce, Bool.not_false, Bool.and_self, if_true]
  exact ⟨rfl, rfl⟩

/-- Otherwise the compilation is carried out and its result is written. -/
theorem compileInto_finish (hexisting : (Outputs.within p).existing w.disk = .ok existing)
    (hopen : existing = [] ∨ force = true) :
    ∃ before, compileInto t w content (.within p) force =
      finish (.within p) (compileContent t content) before w := by
  have hcond : (!existing.isEmpty && !force) = false := by
    rcases hopen with rfl | rfl <;> simp
  rw [compileInto, hexisting]
  simp only [hcond, Bool.false_eq_true, if_false]
  exact ⟨_, rfl⟩

/-- The contract is kept, unless there are outputs that may not be overwritten and that the check
made before the directory is made does not see. -/
theorem fulfils_compileInto_iff (hcompile : t.Uses c)
    (hexisting : (Outputs.within p).existing w.disk = .ok existing)
    (hwrites : existing = [] ∨ force = true →
      Writable (.within p) w (compileContent t content)) :
    Fulfils w (w.disk.destination p) force (compileContent t content)
        (compileInto t w content (.within p) force) ↔
      force = true ∨ existing ≠ [] ∨ ¬ w.disk.HasOutput (w.disk.destination p) := by
  by_cases hopen : existing = [] ∨ force = true
  · obtain ⟨before, hrun⟩ := @compileInto_finish t w content p force existing hexisting hopen
    rw [hrun]
    constructor
    · intro hfulfils
      by_contra hhidden
      simp only [not_or, not_not, Bool.not_eq_true] at hhidden
      obtain ⟨hforce, hnone, houtput⟩ := hhidden
      -- Had nothing changed, the directory that is reached after the run was reached before it.
      obtain ⟨hwork, hreaches⟩ := @reaches_finish p w before _ (hwrites hopen)
      have hsame := (hfulfils.kept houtput hforce).2
      have hbefore : w.disk.Reaches p :=
        hreaches.mono hwork.symm fun l hl => by rw [← hsame l]; exact hl
      exact Outputs.existing_ne_nil hexisting hbefore houtput hnone
    · intro hfree
      refine fulfils_finish (hwrites hopen) (fun _ => compileContent_ne_malformed hcompile) ?_
      rintro ⟨houtput, hforce⟩
      rcases hfree with h | hseen | h
      · rw [hforce] at h
        cases h
      · rcases hopen with hnone | h
        · exact hseen hnone
        · rw [hforce] at h
          cases h
      · exact h houtput
  · obtain ⟨hseen, hforce⟩ := not_or.1 hopen
    rw [Bool.not_eq_true] at hforce
    obtain ⟨hexit, hsame⟩ :=
      @compileInto_refused t w content p force existing hexisting hseen hforce
    have hrefused := And.intro (Outputs.hasOutput_of_existing hexisting hseen) hforce
    refine iff_of_true ⟨fun _ _ => ⟨hexit, fun l => by rw [hsame]⟩, ?_, ?_⟩ (.inr (.inl hseen))
    · exact fun hfree => absurd hrefused hfree
    · exact fun hfree => absurd hrefused hfree

/-- Outputs are seen if their directory is reached, and also if the path goes only down and every
location on the disk stands in a directory. -/
theorem existing_ne_nil_of_hasOutput (hexisting : (Outputs.within p).existing w.disk = .ok existing)
    (hpath : w.disk.Reaches p ∨ (".." ∉ p.parts ∧ w.disk.WellFormed))
    (houtput : w.disk.HasOutput (w.disk.destination p)) : existing ≠ [] := by
  refine Outputs.existing_ne_nil hexisting ?_ houtput
  rcases hpath with hreaches | ⟨hup, hwf⟩
  · exact hreaches
  · obtain ⟨seen, hseen, -⟩ := Outputs.existing_ok hexisting
    exact hwf.reaches hup houtput fun name hname => ⟨_, hseen name hname⟩

/-- No compilation ends like that of a document that cannot be read, whether or not anything can be
written. -/
theorem compileInto_exitCode_ne_two (hcompile : t.Uses c) :
    (compileInto t w content (.within p) force).exitCode ≠ 2 := by
  unfold compileInto
  split
  · exact show 1 ≠ 2 by decide
  · dsimp only
    split
    · exact show 1 ≠ 2 by decide
    · unfold finish
      split
      next he => exact Problem.exitCode_ne_two (compileContent_ne_malformed hcompile he)
      · split
        next e _ _ => exact @Problem.exitCode_ne_two (.write e) (fun m hm => by cases hm)
        · exact show 0 ≠ 2 by decide

end CompileInto

/-- The contract of a compilation whose files can be written. A run keeps it, unless it may not
overwrite and the outputs that are there are hidden from the check that is made before their
directory is. Nothing is hidden in a directory that is there and reached, nor by a path that goes
only down. -/
theorem compile_fulfils_iff (t : Terminal) (c : Compiler) (w : Workspace) (args : List String)
    (source outDir : String) (force : Bool) (content : List UInt8) (existing : List String)
    (hcompile : t.Uses c)
    (hparse : Command.parse? args = some (.compile source outDir force))
    (hsource : w.disk.find? (Path.ofText source) = some (.file content))
    (hnull : outDir.contains '\x00' = false)
    (hexisting : (Outputs.within (Path.ofText outDir)).existing w.disk = .ok existing)
    (hwrites : existing = [] ∨ force = true →
      Writable (.within (Path.ofText outDir)) w (compileContent t content)) :
    (Fulfils w (w.disk.destination (Path.ofText outDir)) force (compileContent t content)
        (run t w args) ↔
      force = true ∨ existing ≠ [] ∨
        ¬ w.disk.HasOutput (w.disk.destination (Path.ofText outDir))) ∧
    (w.disk.Reaches (Path.ofText outDir) ∨
        (".." ∉ (Path.ofText outDir).parts ∧ w.disk.WellFormed) →
      Fulfils w (w.disk.destination (Path.ofText outDir)) force (compileContent t content)
        (run t w args)) ∧
    (run t w args).exitCode ≠ 2 := by
  rw [run_compile hparse hsource hnull]
  have hiff := fulfils_compileInto_iff hcompile hexisting hwrites
  refine ⟨hiff, fun hpath => hiff.2 (.inr ?_), compileInto_exitCode_ne_two hcompile⟩
  by_cases houtput : w.disk.HasOutput (w.disk.destination (Path.ofText outDir))
  · exact .inl (existing_ne_nil_of_hasOutput hexisting hpath houtput)
  · exact .inr houtput

/-- A text to compile, and outputs beside it. -/
def besideOutputs : Workspace where
  disk :=
    { entries := [(["a.apml"], .file (Utf8.encode "## UI Components\n")), (["b"], .directory),
        (["b", "out.html"], .file (Utf8.encode "keep"))],
      workingDirectory := [] }
  temporaries := 0
  token := fun _ => "0"

/-- The program with the compiler that asks nobody. -/
def offline : Terminal where
  program := "apmlc"
  environment := []
  compile := fun settings text => (({ Compiler.standard with settings } : Compiler).run text).1

theorem writable_besideOutputs (result : Except Problem Compilation) :
    Writable (.within (Path.ofText "x/../b")) besideOutputs result := by
  cases result with
  | ok c => rfl
  | error p => rfl

/-- A page is kept if the path leads straight to it. A path that leads through a directory which is
missing hides it from the check, and it is overwritten. -/
theorem compile_fulfils_iff_besideOutputs :
    Fulfils besideOutputs ["b"] false (compileContent offline (Utf8.encode "## UI Components\n"))
        (run offline besideOutputs ["compile", "a.apml", "--out-dir", "b"]) ∧
      ¬ Fulfils besideOutputs ["b"] false
        (compileContent offline (Utf8.encode "## UI Components\n"))
        (run offline besideOutputs ["compile", "a.apml", "--out-dir", "x/../b"]) := by
  let c : Compiler := { Compiler.standard with settings := CompilerSettings.ofEnvironment [] }
  have hsource : besideOutputs.disk.find? (Path.ofText "a.apml") =
      some (.file (Utf8.encode "## UI Components\n")) := by decide +kernel
  have houtput : besideOutputs.disk.HasOutput ["b"] :=
    ⟨"out.html", by decide, by decide +kernel⟩
  constructor
  · have hkept := compile_fulfils_iff offline c besideOutputs
      ["compile", "a.apml", "--out-dir", "b"] "a.apml" "b" false
      (Utf8.encode "## UI Components\n") ["out.html"] (fun _ => rfl) (by decide +kernel)
      hsource (by simp) (by decide +kernel) (fun hopen => by rcases hopen with h | h <;> cases h)
    exact hkept.2.1 (.inl ⟨by decide +kernel, by decide +kernel⟩)
  · have hhidden := compile_fulfils_iff offline c besideOutputs
      ["compile", "a.apml", "--out-dir", "x/../b"] "a.apml" "x/../b" false
      (Utf8.encode "## UI Components\n") [] (fun _ => rfl) (by decide +kernel) hsource (by simp)
      (by decide +kernel) (fun _ => writable_besideOutputs _)
    intro hfulfils
    rcases hhidden.1.1 hfulfils with h | h | h
    · cases h
    · exact h rfl
    · exact h houtput

end CommandLine

end PageCompiler
