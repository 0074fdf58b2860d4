import PageCompiler.Proofs.Compile.Outcome
import PageCompiler.Proofs.Text.Blank
import PageCompiler.Proofs.Text.Scan

/-!
# `PageCompiler.Proofs.Compile.Mending`: compiling a mended text

A text with defects is sent away once, and a mended text comes back, often between code fences. The
fences are taken off whatever stands between them (`stripFences_fenced`), since the closing fence is
looked for at the end of the reply only: a mended text may hold fences itself, and may start and end
with white space.

Behind the check, a compilation sees the mended text and never the text it was given. So compiling a
text that gets mended is compiling the mended text, up to the metrics, which say what was mended.
-/

set_option autoImplicit false

namespace PageCompiler

open Text

namespace Repair

theorem dropEnding?_append (s ending : List Char) : dropEnding? ending (s ++ ending) = some s := by
  rw [dropEnding?, List.reverse_append, after?_append, Option.map_some, List.reverse_reverse]

/-- Between the fences stands the text, behind the feed that ends the opening line. -/
theorem fenced?_append {tag : List Char} (htag : ∀ c ∈ tag, isNameChar c = true)
    (document : List Char) :
    fenced? (fence ++ (tag ++ ('\n' :: document ++ '\n' :: fence))) = some ('\n' :: document) := by
  -- A feed cannot be part of the tag, so the tag ends with the opening line.
  have hopening : (tag ++ ('\n' :: document ++ '\n' :: fence)).dropWhile isNameChar =
      '\n' :: document ++ '\n' :: fence :=
    dropWhile_run htag (show isNameChar '\n' = false by decide)
  have hfeed : (('\n' :: document).takeWhile isBlank).contains '\n' = true := by
    rw [List.takeWhile_cons, if_pos (by decide), List.contains_cons]
    rfl
  unfold fenced?
  simp only [after?_append, Option.bind_eq_bind, Option.bind_some, hopening, dropEnding?_append,
    hfeed, if_true]

/-- A text between code fences, with white space around them, is found again without the white space
at its ends. It may hold any lines, fences among them. -/
theorem stripFences_fenced {lead tag trail : String} (document : String)
    (hlead : ∀ c ∈ lead.toList, isBlank c = true) (htrail : ∀ c ∈ trail.toList, isBlank c = true)
    (htag : ∀ c ∈ tag.toList, isNameChar c = true) :
    stripFences (lead ++ "```" ++ tag ++ "\n" ++ document ++ "\n```" ++ trail) =
      trimmed document := by
  have hreply : (lead ++ "```" ++ tag ++ "\n" ++ document ++ "\n```" ++ trail).toList =
      lead.toList ++ (fence ++ (tag.toList ++ ('\n' :: document.toList ++ '\n' :: fence)) ++
        trail.toList) := by
    simp [fence]
  have hmark : ∀ d ∈ fence, isBlank d = false := by decide
  have htrim : trim (lead ++ "```" ++ tag ++ "\n" ++ document ++ "\n```" ++ trail).toList =
      fence ++ (tag.toList ++ ('\n' :: document.toList ++ '\n' :: fence)) := by
    rw [hreply]
    refine trim_around hlead htrail (by decide) ?_
    intro d hd
    -- The last character of the reply is the last mark of the closing fence.
    have hlast : (fence ++ (tag.toList ++ ('\n' :: document.toList ++ ['\n'])) ++ fence).getLast? =
        some d := by
      rw [← hd]
      show _ = (fence ++ _).getLast?
      simp
    rw [List.getLast?_append] at hlast
    exact hmark d (List.mem_of_getLast? hlast)
  have hcore : trim ('\n' :: document.toList) = trim document.toList := by
    have hwithin : trim (['\n'] ++ (document.toList ++ [])) = trim document.toList :=
      trim_within (by decide) (by decide)
    rwa [List.append_nil] at hwithin
  unfold stripFences
  simp only [htrim, fenced?_append htag, hcore]
  rfl

/-- A text without defects is handed on as it is. -/
theorem verdict_of_clean {text : String} (h : Issue.detect text = .ok []) (mender : Option Mender)
    (settings : CompilerSettings) : verdict text mender settings = .ok (text, []) := by
  unfold verdict
  rw [h]
  rfl

/-- A text whose defects are mended is handed on as the reply has it. -/
theorem verdict_of_mended {text reply : String} {issues : List Issue} {m : Mender}
    {settings : CompilerSettings} (hdetect : Issue.detect text = .ok issues)
    (hdefects : issues ≠ []) (hrepairable : ∀ i ∈ issues, i.repairable = true)
    (hreply : m (request text issues settings) settings.repairTimeout = .text reply)
    (hclean : Issue.detect (stripFences reply) = .ok []) :
    verdict text (some m) settings = .ok (stripFences reply, issues) := by
  have hany : (issues.any fun i => !i.repairable) = false := by
    rw [List.any_eq_false]
    intro i hi
    simp [hrepairable i hi]
  unfold verdict attempt
  simp only [hdetect, List.isEmpty_iff, if_neg hdefects, hany, Bool.false_eq_true, if_false, hreply,
    hclean, if_true]

end Repair

/-- A result that says which defects were mended on the way to it. -/
def Compilation.mended (r : Compilation) (issues : List Issue) : Compilation :=
  { r with metrics :=
    { r.metrics with repairAttempted := true, repairedCodes := issues.map Issue.code } }

namespace Compiler

/-- A compiler with another service for mending texts, or with none. -/
def withMender (c : Compiler) (mender : Option Mender) : Compiler :=
  { c with mender := mender }

/-- A survey that says which defects were mended on the way to it. -/
def Survey.mended (s : Survey) (issues : List Issue) : Survey :=
  { s with checked := (s.checked.1, issues) }

theorem Survey.calls_mended (s : Survey) (issues : List Issue) (c : Compiler)
    (mender mender' : Option Mender) :
    (s.mended issues).calls (c.withMender mender) = s.calls (c.withMender mender') := rfl

/-- What was mended is seen in the metrics only. -/
theorem Survey.build_mended (s : Survey) {issues : List Issue} (h : issues ≠ []) (c : Compiler)
    (mender mender' : Option Mender) :
    (s.mended issues).build (c.withMender mender) =
      (s.build (c.withMender mender')).map (·.mended issues) := by
  have hattempted : (!issues.isEmpty) = true := by
    simpa using h
  show _ = (fun r => Compilation.mended r issues) <$> s.build (c.withMender mender')
  unfold Survey.build Compiler.build
  simp only [map_bind, map_pure, Compilation.mended, metrics, Survey.mended, hattempted]
  rfl

/-- Behind the check, a mended text is surveyed like any other. -/
theorem survey_of_verdict {c : Compiler} {text usable : String} {issues : List Issue}
    {mender mender' : Option Mender}
    (h : Repair.verdict text mender c.settings = .ok (usable, issues))
    (h' : Repair.verdict usable mender' c.settings = .ok (usable, [])) :
    (c.withMender mender).survey text =
      ((c.withMender mender').survey usable).map (·.mended issues) := by
  have hfirst : Repair.verdict text (c.withMender mender).mender (c.withMender mender).settings =
      .ok (usable, issues) := h
  have hsecond : Repair.verdict usable (c.withMender mender').mender
      (c.withMender mender').settings = .ok (usable, []) := h'
  show _ = (fun s => Survey.mended s issues) <$> (c.withMender mender').survey usable
  unfold survey
  rw [hfirst, hsecond]
  simp only [map_bind, map_pure]
  rfl

end Compiler

/-- Mending is transparent. If a text has defects that can all be mended, and the service gives back
a text between code fences that has none, then the outcome is the one for that text without the
white space at its ends, up to the report of what was mended. This holds for a result and for a
failure. The other service is asked for the same. -/
theorem mending_is_transparent (c : Compiler) (m : Mender) (mender : Option Mender)
    (text document lead tag trail : String) {issues : List Issue}
    (hdetect : Issue.detect text = .ok issues) (hdefects : issues ≠ [])
    (hrepairable : ∀ i ∈ issues, i.repairable = true)
    (hlead : ∀ ch ∈ lead.toList, isBlank ch = true)
    (htrail : ∀ ch ∈ trail.toList, isBlank ch = true)
    (htag : ∀ ch ∈ tag.toList, isNameChar ch = true)
    (hreply : m (Repair.request text issues c.settings) c.settings.repairTimeout =
      .text (lead ++ "```" ++ tag ++ "\n" ++ document ++ "\n```" ++ trail))
    (hclean : Issue.detect (trimmed document) = .ok []) :
    ((c.withMender (some m)).run text).1 =
      ((c.withMender mender).run (trimmed document)).1.map (·.mended issues) ∧
    ((c.withMender (some m)).run text).2.generations =
      ((c.withMender mender).run (trimmed document)).2.generations := by
  have hstrip := Repair.stripFences_fenced document hlead htrail htag
  have hverdict := Repair.verdict_of_mended hdetect hdefects hrepairable hreply (hstrip ▸ hclean)
  rw [hstrip] at hverdict
  -- From here on the text that was given plays no part.
  have hsurvey := Compiler.survey_of_verdict hverdict
    (Repair.verdict_of_clean hclean mender c.settings)
  rw [Compiler.run_fst_eq_survey_bind, Compiler.run_fst_eq_survey_bind, Compiler.run_generations,
    Compiler.run_generations, hsurvey]
  cases (c.withMender mender).survey (trimmed document) with
  | error e => exact ⟨rfl, rfl⟩
  | ok s => exact ⟨s.build_mended hdefects c _ _, s.calls_mended issues c _ _⟩

/-- A mended text with white space at its ends and with fences of its own. -/
def fencedBar : String :=
  " \n## UI Components\n```\nbar: \x7btype: progress_bar\x7d\n```\n\t"

/-- The reply in fences is compiled as the text between them. -/
theorem mending_is_transparent_bar :
    let mender : Mender := fun _ _ => .text ("\n " ++ "```" ++ "page-1" ++ "\n" ++ fencedBar ++
      "\n```" ++ " \n")
    Issue.detect "note" = .ok [.missingSection "ui_components"] ∧
    ((Compiler.standard.withMender (some mender)).run "note").1 =
      ((Compiler.standard.withMender none).run (trimmed fencedBar)).1.map
        (·.mended [.missingSection "ui_components"]) := by
  intro mender
  have hdetect : Issue.detect "note" = .ok [.missingSection "ui_components"] := by rfl
  obtain ⟨issues, hclean, hnil⟩ := @Failure.exists_ok _ _ (Issue.detect (trimmed fencedBar))
    (·.isEmpty) (by decide +kernel)
  rw [List.isEmpty_iff.1 hnil] at hclean
  refine ⟨hdetect, ?_⟩
  exact (mending_is_transparent .standard mender none "note" fencedBar "\n " "page-1" " \n" hdetect
    (by decide) (by decide) (by decide) (by decide) (by decide) rfl hclean).1

end PageCompiler
