import PageCompiler.CommandLine.Outputs
import PageCompiler.Proofs.CommandLine.Disk

/-!
# `PageCompiler.Proofs.CommandLine.Outputs`: what writing leaves

A file is written under a temporary name and moved to its place. `Written` says what a disk looks
like after that: the file is there, and the other outputs are as they were. Results and errors are
written in several such steps. `Saved` and `Noted` say what comes of all of them together.
-/

set_option autoImplicit false

namespace PageCompiler

open Text

/-- The names of the outputs. -/
def outputNames : List String :=
  ["out.html", "out.artifact.json", "out.error.json"]

/-- The names of outputs can be looked up in a directory. -/
theorem of_mem_outputNames {name : String} (h : name ∈ outputNames) :
    name ≠ ".." ∧ name.utf8ByteSize ≤ Disk.maxNameBytes := by
  have hall : ∀ name ∈ outputNames, name ≠ ".." ∧ name.utf8ByteSize ≤ Disk.maxNameBytes := by decide
  exact hall name h

/-- No output has the name of a temporary file. -/
theorem ne_temporary {name : String} (h : name ∈ outputNames) (stem token : String) :
    name ≠ stem ++ "." ++ token ++ ".tmp" := by
  have hlast : ∀ name ∈ outputNames, name.toList.getLast? ≠ some 'p' := by decide
  rintro rfl
  refine hlast _ h ?_
  rw [String.toList_append, List.getLast?_append]
  rfl

namespace Disk

/-- A file is put into the directory of a path. The other outputs stay as they are. -/
structure Written (d d' : Disk) (p : Path) (name : String) (content : List UInt8) : Prop where
  workingDirectory : d'.workingDirectory = d.workingDirectory
  reaches : d'.Reaches p
  written : d'.node? (d.destination p ++ [name]) = some (.file content)
  others : ∀ other ∈ outputNames, other ≠ name →
    d'.node? (d.destination p ++ [other]) = d.node? (d.destination p ++ [other])

/-- A temporary file beside an output is moved to the place of the output. -/
theorem written_of_rename {d d' : Disk} {p : Path} {name stem token : String}
    {content : List UInt8} (hname : name ∈ outputNames) {home : Location}
    (hhome : d.locate p = .ok home)
    (h : (d.put (home ++ [stem ++ "." ++ token ++ ".tmp"]) (.file content)).rename
      (home ++ [stem ++ "." ++ token ++ ".tmp"]) content (p.child name) = .ok d') :
    d.Written d' p name content := by
  obtain rfl : home = d.destination p := eq_resolve_of_walk (walk_of_locate hhome)
  generalize hplace : d.destination p ++ [stem ++ "." ++ token ++ ".tmp"] = place at h
  have hplace_ne : place ≠ [] := by
    rw [← hplace]
    simp
  have hother : ∀ other ∈ outputNames, d.destination p ++ [other] ≠ place := by
    intro other hmem heq
    rw [← hplace] at heq
    exact ne_temporary hmem stem token (List.singleton_inj.1 (List.append_cancel_left heq))
  unfold rename at h
  simp only at h
  split at h
  · cases h
  next l hl =>
    obtain ⟨hreaches, hl'⟩ := reaches_of_locate_child (of_mem_outputNames hname).1 hl
    have hdestination : (d.put place (.file content)).destination p = d.destination p := rfl
    rw [hdestination] at hl'
    subst hl'
    have hne : d.destination p ++ [name] ≠ [] := by simp
    split at h
    · cases h
    next hnot =>
      obtain rfl := Except.ok.inj h
      have hnode : ∀ l, (((d.put place (.file content)).erase place).put (d.destination p ++ [name])
          (.file content)).node? l =
            if l = d.destination p ++ [name] then some (.file content)
            else if l = place then none else d.node? l := by
        intro l
        rw [node?_put _ hne, node?_erase _ hplace_ne, node?_put _ hplace_ne]
        split
        · rfl
        · split
          · rfl
          · rfl
      refine ⟨rfl, hreaches.mono rfl fun l hdirectory => ?_, ?_, ?_⟩
      · -- Neither the temporary file nor the file that gives way is a directory.
        rw [hnode]
        rw [node?_put _ hplace_ne] at hdirectory
        have htarget : l ≠ d.destination p ++ [name] := by
          rintro rfl
          apply hnot
          rw [node?_put _ hplace_ne]
          exact hdirectory
        split at hdirectory
        · cases hdirectory
        next hl => rw [if_neg htarget, if_neg hl, hdirectory]
      · rw [hnode, if_pos rfl]
      · intro other hmem hdiffers
        rw [hnode, if_neg ?_, if_neg (hother other hmem)]
        intro heq
        exact hdiffers (List.singleton_inj.1 (List.append_cancel_left heq))

/-- An output is removed from the directory of a path. -/
structure Removed (d d' : Disk) (p : Path) (name : String) : Prop where
  workingDirectory : d'.workingDirectory = d.workingDirectory
  reaches : d'.Reaches p
  removed : d'.node? (d.destination p ++ [name]) = none
  others : ∀ other, other ≠ name →
    d'.node? (d.destination p ++ [other]) = d.node? (d.destination p ++ [other])

/-- Unlinking an output removes this output and nothing else. -/
theorem removed_of_unlink {d d' : Disk} {p : Path} (hreaches : d.Reaches p) {name : String}
    (hname : name ∈ outputNames) (h : d.unlink (p.child name) = .ok d') : d.Removed d' p name := by
  obtain ⟨hup, hshort⟩ := of_mem_outputNames hname
  have hlocate : d.locate (p.child name) = .ok (d.destination p ++ [name]) := by
    by_cases htext : (p.child name).text.utf8ByteSize ≤ maxPathBytes
    · exact hreaches.locate_child hup hshort htext
    · rw [unlink, locate, if_pos (by omega)] at h
      cases h
  have hne : d.destination p ++ [name] ≠ [] := by simp
  rw [unlink, hlocate] at h
  simp only at h
  split at h
  next hnone =>
    obtain rfl := Except.ok.inj h
    exact ⟨rfl, hreaches, hnone, fun _ _ => rfl⟩
  next content hfile =>
    obtain rfl := Except.ok.inj h
    have hnode := d.node?_erase hne
    refine ⟨rfl, hreaches.mono rfl fun l hdirectory => ?_, ?_, ?_⟩
    · rw [hnode, if_neg ?_, hdirectory]
      rintro rfl
      rw [hfile] at hdirectory
      cases hdirectory
    · rw [hnode, if_pos rfl]
    · intro other hdiffers
      rw [hnode, if_neg]
      intro heq
      exact hdiffers (List.singleton_inj.1 (List.append_cancel_left heq))
  next => cases h

end Disk

/-! ### Steps -/

namespace FileM

variable {α β : Type}

/-- What comes of work on files that starts from a workspace. -/
def runFrom (m : FileM α) (w : Workspace) : Except FileError α × Workspace :=
  (ExceptT.run m).run w

/-- Of two steps that succeed the second goes on where the first ended. -/
theorem runFrom_bind_ok {m : FileM α} {k : α → FileM β} {w w' : Workspace} {b : β}
    (h : runFrom (m >>= k) w = (.ok b, w')) :
    ∃ a w₁, runFrom m w = (.ok a, w₁) ∧ runFrom (k a) w₁ = (.ok b, w') := by
  unfold runFrom at h ⊢
  rw [ExceptT.run_bind, StateT.run_bind] at h
  cases hfirst : (ExceptT.run m).run w with
  | mk x w₁ =>
    rw [hfirst] at h
    cases x with
    | ok a => exact ⟨a, w₁, rfl, h⟩
    | error e => cases h

theorem change_ok {f : Disk → Except FileError Disk} {w w' : Workspace}
    (h : runFrom (change f) w = (.ok (), w')) :
    ∃ disk, f w.disk = .ok disk ∧ w' = { w with disk } := by
  unfold change at h
  obtain ⟨_, _, hget, h⟩ := runFrom_bind_ok h
  cases hget
  split at h
  next disk hdisk =>
    cases h
    exact ⟨disk, hdisk, rfl⟩
  next => cases h

/-- Making directories takes nothing away. -/
theorem makeDirectories_ok {p : Path} {w w' : Workspace}
    (h : runFrom (makeDirectories p) w = (.ok (), w')) : w.disk.Grows w'.disk := by
  unfold makeDirectories at h
  obtain ⟨_, _, hget, h⟩ := runFrom_bind_ok h
  cases hget
  obtain ⟨_, _, hmodify, h⟩ := runFrom_bind_ok h
  cases hmodify
  split at h
  · cases h
    exact w.disk.grows_makeDirectories p
  · cases h

/-- A temporary file stands beside the outputs. -/
theorem writeTemporary_ok {directory : Path} {name : String} {content : List UInt8}
    {w w' : Workspace} {place : Location}
    (h : runFrom (writeTemporary directory name content) w = (.ok place, w')) :
    ∃ home, w.disk.locate directory = .ok home ∧
      place = home ++ [name ++ "." ++ w.token w.temporaries ++ ".tmp"] ∧
      w'.disk = w.disk.put place (.file content) := by
  unfold writeTemporary at h
  obtain ⟨_, _, hget, h⟩ := runFrom_bind_ok h
  cases hget
  split at h
  · cases h
  next home hhome =>
    cases h
    exact ⟨home, hhome, rfl, rfl⟩

end FileM

/-! ### Outputs -/

namespace Outputs

open FileM

variable {p : Path} {w w' : Workspace}

/-- A page that was written is there, and the other outputs are as before. -/
theorem writePage_ok {page : String} (h : runFrom ((within p).writePage page) w = (.ok (), w')) :
    w.disk.Written w'.disk p "out.html" (Utf8.encode page) := by
  unfold writePage at h
  obtain ⟨place, w₁, htemporary, h⟩ := runFrom_bind_ok h
  obtain ⟨home, hhome, rfl, hdisk⟩ := writeTemporary_ok htemporary
  obtain ⟨_, _, hget, h⟩ := runFrom_bind_ok h
  cases hget
  split at h
  next disk hrename =>
    cases h
    rw [hdisk] at hrename
    exact Disk.written_of_rename (by decide) hhome hrename
  next =>
    obtain ⟨_, _, hmodify, h⟩ := runFrom_bind_ok h
    cases hmodify
    cases h

/-- A record that was written is there, and the other outputs are as before. -/
theorem writeRecord_ok {name : String} (hname : name ∈ outputNames) {record : Fields}
    (h : runFrom ((within p).writeRecord (p.child name) name record) w = (.ok (), w')) :
    w.disk.Written w'.disk p name (Utf8.encode (Json.record record)) := by
  unfold writeRecord at h
  obtain ⟨place, w₁, htemporary, h⟩ := runFrom_bind_ok h
  obtain ⟨home, hhome, rfl, hdisk⟩ := writeTemporary_ok htemporary
  obtain ⟨disk, hrename, rfl⟩ := change_ok h
  rw [hdisk] at hrename
  exact Disk.written_of_rename hname hhome hrename

/-- A page and a report are there, and no report of an error is. -/
structure Saved (d d' : Disk) (p : Path) (page report : List UInt8) : Prop where
  workingDirectory : d'.workingDirectory = d.workingDirectory
  reaches : d'.Reaches p
  page : d'.node? (d.destination p ++ ["out.html"]) = some (.file page)
  report : d'.node? (d.destination p ++ ["out.artifact.json"]) = some (.file report)
  error : d'.node? (d.destination p ++ ["out.error.json"]) = none

/-- The report of an error is there, and page and report of results are as they were. -/
structure Noted (d d' : Disk) (p : Path) (error : List UInt8) : Prop where
  workingDirectory : d'.workingDirectory = d.workingDirectory
  reaches : d'.Reaches p
  page : d'.content? (d.destination p ++ ["out.html"]) =
    d.content? (d.destination p ++ ["out.html"])
  report : d'.content? (d.destination p ++ ["out.artifact.json"]) =
    d.content? (d.destination p ++ ["out.artifact.json"])
  error : d'.node? (d.destination p ++ ["out.error.json"]) = some (.file error)

/-- A result that was written is saved. -/
theorem saved_of_writeResult {c : Compilation}
    (h : runFrom ((within p).writeResult c) w = (.ok (), w')) :
    Saved w.disk w'.disk p (Utf8.encode c.artifact.page)
      (Utf8.encode (Json.record c.toFields)) := by
  unfold writeResult at h
  obtain ⟨_, w₁, hmade, h⟩ := runFrom_bind_ok h
  obtain ⟨_, w₂, hpage, h⟩ := runFrom_bind_ok h
  obtain ⟨_, w₃, hreport, h⟩ := runFrom_bind_ok h
  obtain ⟨disk, hunlink, rfl⟩ := change_ok h
  have hgrows := makeDirectories_ok hmade
  have hpage := writePage_ok hpage
  have hreport := writeRecord_ok (by decide) hreport
  have herror := Disk.removed_of_unlink hreport.reaches (by decide) hunlink
  have hwork₁ := hgrows.workingDirectory
  have hwork₂ := hpage.workingDirectory.trans hwork₁
  have hwork₃ := hreport.workingDirectory.trans hwork₂
  have hpage' := hpage.written
  have hreport' := hreport.written
  have hkept := hreport.others "out.html" (by decide) (by decide)
  have hremoved := herror.removed
  have hothers := herror.others
  rw [Disk.destination_congr hwork₁] at hpage'
  rw [Disk.destination_congr hwork₂] at hreport' hkept
  rw [Disk.destination_congr hwork₃] at hremoved hothers
  refine ⟨herror.workingDirectory.trans hwork₃, herror.reaches, ?_, ?_, hremoved⟩
  · rw [hothers "out.html" (by decide), hkept, hpage']
  · rw [hothers "out.artifact.json" (by decide), hreport']

/-- A problem that was written is noted. -/
theorem noted_of_writeError {record : Fields}
    (h : runFrom ((within p).writeError record) w = (.ok (), w')) :
    Noted w.disk w'.disk p (Utf8.encode (Json.record record)) := by
  unfold writeError at h
  obtain ⟨_, w₁, hmade, h⟩ := runFrom_bind_ok h
  have hgrows := makeDirectories_ok hmade
  have herror := writeRecord_ok (by decide) h
  have hwork₁ := hgrows.workingDirectory
  have hwritten := herror.written
  have hothers := herror.others
  rw [Disk.destination_congr hwork₁] at hwritten hothers
  -- A directory that is made in the place of an output is no file.
  have hkept : ∀ name ∈ outputNames, name ≠ "out.error.json" →
      w'.disk.content? (w.disk.destination p ++ [name]) =
        w.disk.content? (w.disk.destination p ++ [name]) := by
    intro name hname hdiffers
    rw [← hgrows.content?, Disk.content?, Disk.content?, hothers name hname hdiffers]
  exact ⟨herror.workingDirectory.trans hwork₁, herror.reaches,
    hkept "out.html" (by decide) (by decide), hkept "out.artifact.json" (by decide) (by decide),
    hwritten⟩

end Outputs

end PageCompiler
