import PageCompiler.Fallback.Request

/-!
# `PageCompiler.Proofs.Fallback.Budget`: the context of a request keeps to its limits

A request quotes the document and the markup that rules have rendered. Each quotation has a limit.
`Fitted` says what a limit makes of a text: the whole text if there is room for it, and otherwise a
start of it that fills the limit, together with the mark of a cut if there is room for more than the
mark. `fitted_truncate` proves it for every limit that is not negative, and the limits that an
environment sets are positive (`positiveInt_pos`).

The prompt is a list of parts, and the first two hold the quotations. A positive limit leaves
something of every text that is not empty, so rendered markup is always quoted
(`Fitted.optionalPart_eq`).
-/

set_option autoImplicit false

namespace PageCompiler

/-- A limit is positive if its default is. -/
theorem Settings.positiveInt_pos (env : Environment) (name : String) {default : Int}
    (h : 0 < default) : 0 < positiveInt env name default := by
  unfold positiveInt
  split
  · split
    next hpos => exact hpos
    next => exact h
  · exact h

namespace Fallback

/-! ### Cutting a text -/

/-- What a limit makes of a text. -/
structure Fitted (full : String) (limit : Int) (part : String) : Prop where
  within : part.length ≤ limit
  whole : full.length ≤ limit → part = full
  /-- A cut loses something, fills the limit, and is marked if the mark leaves room for a text. -/
  cut : limit < full.length → part.length = limit ∧ ∃ kept lost, full = kept ++ lost ∧ lost ≠ "" ∧
    part = kept ++ if truncationMark.length < limit then truncationMark else ""

theorem truncate_of_length_le {s : String} {limit : Int} (h : s.length ≤ limit) :
    truncate s limit = s :=
  if_pos h

/-- The first characters of a text, fewer than it has, and what is lost behind them. -/
theorem exists_takeChars {s : String} {n : Int} (hn : 0 ≤ n) (h : n < s.length) :
    ∃ kept lost, s = kept ++ lost ∧ lost ≠ "" ∧ String.ofList (takeChars s.toList n) = kept ∧
      kept.length = n := by
  refine ⟨_, String.ofList (s.toList.drop n.toNat), ?_, ?_, rfl, ?_⟩
  · rw [takeChars, if_pos hn, ← String.ofList_append, List.take_append_drop, String.ofList_toList]
  · intro hlost
    have hlength := congrArg String.length hlost
    rw [String.length_ofList, List.length_drop, String.length_toList] at hlength
    change _ = 0 at hlength
    omega
  · rw [takeChars, if_pos hn, String.length_ofList, List.length_take, String.length_toList]
    omega

/-- A text is cut to its limit as `Fitted` says. -/
theorem fitted_truncate (s : String) {limit : Int} (h : 0 ≤ limit) :
    Fitted s limit (truncate s limit) := by
  by_cases hfits : s.length ≤ limit
  · rw [truncate_of_length_le hfits]
    exact ⟨hfits, fun _ => rfl, fun hcut => absurd hfits (Int.not_le.2 hcut)⟩
  · have hless : limit < s.length := Int.not_le.1 hfits
    have hcut : (truncate s limit).length = limit ∧ ∃ kept lost, s = kept ++ lost ∧ lost ≠ "" ∧
        truncate s limit =
          kept ++ if truncationMark.length < limit then truncationMark else "" := by
      simp only [truncate, String.length_toList]
      rw [if_neg hfits]
      -- The mark takes its room from the text, so a limit without room for both leaves it out.
      split
      next hmark =>
        obtain ⟨kept, lost, hs, hlost, htake, hlength⟩ := exists_takeChars h hless
        rw [htake, if_neg (Int.not_lt.2 hmark)]
        exact ⟨hlength, kept, lost, hs, hlost, String.append_empty.symm⟩
      next hmark =>
        have hroom : truncationMark.length < limit := Int.not_le.1 hmark
        obtain ⟨kept, lost, hs, hlost, htake, hlength⟩ :=
          exists_takeChars (s := s) (n := limit - truncationMark.length) (by omega) (by omega)
        rw [htake, if_pos hroom, String.length_append]
        exact ⟨by omega, kept, lost, hs, hlost, rfl⟩
    exact ⟨Int.le_of_eq hcut.1, fun hle => absurd hle hfits, fun _ => hcut⟩

/-- A positive limit leaves something of every text that is not empty. -/
theorem Fitted.eq_empty_iff {full part : String} {limit : Int} (h : Fitted full limit part)
    (hpos : 0 < limit) : part = "" ↔ full = "" := by
  constructor
  · rintro rfl
    by_cases hfits : full.length ≤ limit
    · exact (h.whole hfits).symm
    · have hlength := (h.cut (Int.not_le.1 hfits)).1
      exact absurd hlength (Int.ne_of_lt hpos)
  · rintro rfl
    exact h.whole (Int.le_of_lt hpos)

/-! ### The prompt -/

/-- The markup of components is empty only if there are none. -/
theorem fragmentsText_eq_empty_iff {fragments : Assoc String} :
    fragmentsText fragments = "" ↔ fragments.isEmpty = true := by
  cases fragments with
  | nil => simp [fragmentsText]
  | cons a l =>
    refine ⟨fun h => ?_, fun h => by simp at h⟩
    -- What is joined is empty only if its first text is, and that one ends with a tag.
    have hfirst : fragmentText a.1 a.2 = "" := by
      cases l with
      | nil => rwa [fragmentsText, List.map_cons, List.map_nil, String.intercalate_singleton] at h
      | cons b l =>
        rw [fragmentsText, List.map_cons, List.map_cons, String.intercalate_cons_cons] at h
        exact (String.append_eq_empty_iff.1 (String.append_eq_empty_iff.1 h).1).1
    exact absurd (String.append_eq_empty_iff.1 hfirst).2 (by decide)

/-- Rendered markup is quoted if there is any. -/
theorem Fitted.optionalPart_eq {fragments : Assoc String} {limit : Int} {part : String}
    (h : Fitted (fragmentsText fragments) limit part) (hpos : 0 < limit) (heading : String) :
    optionalPart heading part =
      if fragments.isEmpty then [] else [heading ++ "\n" ++ part] := by
  have hempty : part.isEmpty = fragments.isEmpty := Bool.eq_iff_iff.2
    (String.isEmpty_iff.trans ((h.eq_empty_iff hpos).trans fragmentsText_eq_empty_iff))
  rw [optionalPart, hempty]

/-- The parts of a prompt behind its quotations. -/
def otherParts (unresolved : List String) (styleGuide : String) : List String :=
  (if unresolved.isEmpty then []
   else ["FOCUS ON THESE COMPONENTS:\n" ++ ", ".intercalate unresolved]) ++
    optionalPart "STYLE GUIDE:" styleGuide

/-- A request quotes the document and the rendered markup within the limits of the settings, and an
environment sets limits that are positive. To cut a text again changes nothing. -/
theorem request_keeps_budgets :
    (∀ env, 0 < (CompilerSettings.ofEnvironment env).maxDocumentChars ∧
      0 < (CompilerSettings.ofEnvironment env).maxFragmentChars) ∧
    (∀ documentText ruleFragments unresolved styleGuide settings,
      0 < settings.maxDocumentChars → 0 < settings.maxFragmentChars →
      ∃ document fragments,
        Fitted documentText settings.maxDocumentChars document ∧
        Fitted (fragmentsText ruleFragments) settings.maxFragmentChars fragments ∧
        (request documentText ruleFragments unresolved styleGuide settings).prompt =
          "\n\n".intercalate
            (["Compile this APML to Vue 3 fragments:\n\n" ++ document] ++
              (if ruleFragments.isEmpty then []
               else ["EXISTING FRAGMENTS (keep, do not regenerate):\n" ++ fragments]) ++
              otherParts unresolved styleGuide)) ∧
    ∀ t n, 0 ≤ n → truncate (truncate t n) n = truncate t n := by
  refine ⟨fun env => ⟨Settings.positiveInt_pos env _ (by decide),
    Settings.positiveInt_pos env _ (by decide)⟩, ?_,
    fun t n hn => truncate_of_length_le (fitted_truncate t hn).within⟩
  intro documentText ruleFragments unresolved styleGuide settings hdocument hfragments
  have hfitted := fitted_truncate (fragmentsText ruleFragments) (Int.le_of_lt hfragments)
  refine ⟨_, _, fitted_truncate documentText (Int.le_of_lt hdocument), hfitted, ?_⟩
  simp only [request, hfitted.optionalPart_eq hfragments, List.append_assoc, otherParts]
  rfl

/-- A document that is cut with a mark, and markup that is cut without one. -/
theorem request_keeps_budgets_cut :
    (0 : Int) < 20 ∧ (0 : Int) < 5 ∧ ∃ document fragments,
      Fitted "## UI Components\nhero: \x7b\x7d" 20 document ∧
      Fitted (fragmentsText [("hero", "<p>")]) 5 fragments ∧
      (request "## UI Components\nhero: \x7b\x7d" [("hero", "<p>")] ["menu"] ""
        ⟨.int 60, .int 30, 4000, 2000, 20, 5⟩).prompt =
          "\n\n".intercalate
            (["Compile this APML to Vue 3 fragments:\n\n" ++ document] ++
              ["EXISTING FRAGMENTS (keep, do not regenerate):\n" ++ fragments] ++
              otherParts ["menu"] "") :=
  ⟨by decide, by decide, request_keeps_budgets.2.1 _ [("hero", "<p>")] _ _
    ⟨.int 60, .int 30, 4000, 2000, 20, 5⟩ (by decide) (by decide)⟩

end Fallback

end PageCompiler
