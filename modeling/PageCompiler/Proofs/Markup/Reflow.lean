import PageCompiler.Artifact.Assembly
import PageCompiler.Proofs.Markup.Edited
import PageCompiler.Proofs.Text.Fields

/-!
# `PageCompiler.Proofs.Markup.Reflow`: markup at another margin

The markup of a fragment is cut into lines and laid out again at the margin of its place in the
page. Line breaks inside of texts and attribute values are cut at too. This is an edit that puts
white space in the place of a line break and the white space behind it (`edited_indentLines`), so it
keeps the tags.
-/

set_option autoImplicit false

namespace PageCompiler

open Text

/-- White space that starts with a line break may become other white space. -/
def reflow : Edit := fun _ old new _ =>
  (∃ c gap, old = c :: gap ∧ isLineBreak c = true ∧ ∀ d ∈ gap, isBlank d = true) ∧
    ∀ d ∈ new, isBlank d = true

/-- A line break and white space in front of a text that is laid out again. -/
theorem reflow_swap {before : Option Char} {c : Char} (hc : isLineBreak c = true)
    {gap new s t : List Char} (hgap : ∀ d ∈ gap, isBlank d = true)
    (hnew : ∀ d ∈ new, isBlank d = true) (h : ∀ before, Edited reflow before s t) :
    Edited reflow before (c :: gap ++ s) (new ++ t) :=
  .swap before ⟨⟨c, gap, rfl, hc, hgap⟩, hnew⟩ (h _)

theorem reflow_append {before : Option Char} {s t s' t' : List Char}
    (h : Edited reflow before s t) (h' : ∀ before, Edited reflow before s' t') :
    Edited reflow before (s ++ s') (t ++ t') :=
  h.append (fun hold => hold) (h' _)

namespace Assembly

/-- A line at a margin, where a blank line is left empty. -/
def indentLine (margin line : List Char) : List Char :=
  if allBlank line then [] else margin ++ line

/-- Lines at a margin, each behind a line feed. -/
def indented (margin : List Char) (ls : List (List Char)) : List Char :=
  ls.flatMap fun line => '\n' :: indentLine margin line

/-- Lines are indented without the line feeds at the ends of the text. -/
theorem fedLines_indentLines (margin : String) (s : String) :
    Markup.fedLines [] (indentLines margin s) =
      indented margin.toList
        (lines (dropRightWhile (· == '\n') (s.toList.dropWhile (· == '\n')))) := by
  have hline : ∀ line : List Char,
      '\n' :: ([] ++ (if allBlank line then "" else margin ++ String.ofList line).toList) =
        '\n' :: indentLine margin.toList line := by
    intro line
    unfold indentLine
    split
    · rfl
    · simp [String.toList_append]
  unfold Markup.fedLines indentLines indented
  rw [List.flatMap_map]
  simp only [hline]

/-- A line break in front of a text, and the lines of the text at a margin. White space may stand
between. -/
theorem edited_lines {margin : List Char} (hmargin : ∀ d ∈ margin, isBlank d = true) {c : Char}
    (hc : isLineBreak c = true) {gap : List Char} (hgap : ∀ d ∈ gap, isBlank d = true)
    (s : List Char) (before : Option Char) :
    Edited reflow before (c :: gap ++ s) (indented margin (lines s)) := by
  induction hn : s.length using Nat.strong_induction_on generalizing s c gap before with
  | _ n ih =>
  subst hn
  -- The first line, and what follows it: nothing, or a line break.
  have hline : OneLine (s.takeWhile fun d => !isLineBreak d) := by
    intro d hd
    simpa using List.mem_takeWhile_imp hd
  have hs : (s.takeWhile fun d => !isLineBreak d) ++ (s.dropWhile fun d => !isLineBreak d) = s :=
    List.takeWhile_append_dropWhile
  generalize s.takeWhile (fun d => !isLineBreak d) = line at hline hs
  have hrest :
      ∀ d, (s.dropWhile fun d => !isLineBreak d).head? = some d → isLineBreak d = true := by
    intro d hd
    have h := List.head?_dropWhile_not (fun d => !isLineBreak d) s
    rw [hd] at h
    simpa using h
  generalize s.dropWhile (fun d => !isLineBreak d) = rest at hs hrest
  subst hs
  -- What the first line becomes, given what the rest becomes.
  have hfirst : ∀ t, (∀ before, Edited reflow before rest t) →
      Edited reflow before (c :: gap ++ (line ++ rest)) ('\n' :: indentLine margin line ++ t) := by
    intro t ht
    unfold indentLine
    split
    next hblank =>
      rw [← List.append_assoc]
      refine reflow_swap hc ?_ (by decide) ht
      intro d hd
      rcases List.mem_append.1 hd with hd | hd
      · exact hgap d hd
      · exact List.all_eq_true.1 hblank d hd
    next =>
      have hnew : ∀ d ∈ '\n' :: margin, isBlank d = true :=
        List.forall_mem_cons.2 ⟨by decide, hmargin⟩
      rw [← List.cons_append, List.append_assoc]
      exact reflow_swap hc hgap hnew fun before => reflow_append (.refl before line) ht
  cases rest with
  | nil =>
    rw [List.append_nil] at hfirst ⊢
    by_cases hline' : line = []
    · subst hline'
      rw [show lines [] = [] from rfl]
      have hnil : ∀ d ∈ ([] : List Char), isBlank d = true := by simp
      have h : Edited reflow before (c :: gap ++ []) ([] ++ []) :=
        reflow_swap hc hgap hnil fun before => .nil before
      simpa [indented] using h
    · rw [lines_of_oneLine hline hline']
      have h := hfirst [] fun before => .nil before
      simpa [indented] using h
  | cons d rest =>
    have hd : isLineBreak d = true := hrest d rfl
    by_cases hpair : d = '\r' ∧ rest.head? = some '\n'
    · -- A carriage return takes the line feed behind it along.
      obtain ⟨rfl, hhead⟩ := hpair
      obtain ⟨rest, rfl⟩ : ∃ rest', rest = '\n' :: rest' := by
        cases rest with
        | nil => cases hhead
        | cons e rest =>
          obtain rfl : e = '\n' := by simpa using hhead
          exact ⟨rest, rfl⟩
      rw [lines_append_pair hline]
      refine hfirst _ fun before => ?_
      have hgap' : ∀ d ∈ ['\n'], isBlank d = true := by decide
      exact ih rest.length (by simp; omega) hd hgap' rest before rfl
    · rw [lines_append_break hline hd fun he hh => hpair ⟨he, hh⟩]
      refine hfirst _ fun before => ?_
      have hgap' : ∀ d ∈ ([] : List Char), isBlank d = true := by simp
      exact ih rest.length (by simp; omega) hd hgap' rest before rfl

/-- Laying a text out again behind a line feed is an edit of its line breaks. -/
theorem edited_indentLines {margin : String} (hmargin : ∀ d ∈ margin.toList, isBlank d = true)
    (s : String) (before : Option Char) :
    Edited reflow before ('\n' :: s.toList) (Markup.fedLines [] (indentLines margin s)) := by
  have hfeed : ∀ {t : List Char}, (∀ d ∈ t, (d == '\n') = true) → ∀ d ∈ t, isBlank d = true := by
    intro t ht d hd
    rw [eq_of_beq (ht d hd)]
    decide
  rw [fedLines_indentLines]
  -- The line feeds at both ends go with the line breaks next to them.
  obtain ⟨trail, htrail, hfeeds⟩ :=
    exists_dropRightWhile_append (· == '\n') (s.toList.dropWhile (· == '\n'))
  have hlead : ∀ d ∈ s.toList.takeWhile (· == '\n'), isBlank d = true := by
    refine hfeed ?_
    intro d hd
    exact @List.mem_takeWhile_imp _ (· == '\n') _ _ hd
  have hs : '\n' :: s.toList = '\n' :: s.toList.takeWhile (· == '\n') ++
      dropRightWhile (· == '\n') (s.toList.dropWhile (· == '\n')) ++ trail := by
    rw [List.append_assoc, ← htrail, List.cons_append, List.takeWhile_append_dropWhile]
  have hend : ∀ before, Edited reflow before trail [] := by
    intro before
    cases trail with
    | nil => exact .nil before
    | cons d trail =>
      obtain ⟨hd, hrest⟩ := List.forall_mem_cons.1 hfeeds
      obtain rfl := eq_of_beq hd
      have h : Edited reflow before ('\n' :: trail ++ []) ([] ++ []) :=
        reflow_swap (by decide) (hfeed hrest) (by simp) fun before => .nil before
      simpa using h
  rw [hs, ← List.append_nil (indented _ _)]
  exact reflow_append (edited_lines hmargin (by decide) hlead _ before) hend

end Assembly

namespace Markup

/-! ### The tags stay -/

theorem delimiter_reflow {d : Char} (hd : isBlank d = false) : Edited.Delimiter reflow d where
  not_mem := by
    rintro before old new rest ⟨⟨c, gap, rfl, hc, hgap⟩, -⟩ hmem
    have hblank : isBlank d = true := by
      rcases List.mem_cons.1 hmem with rfl | hmem
      · exact isBlank_of_isLineBreak hc
      · exact hgap d hmem
    rw [hd] at hblank
    cases hblank
  upTo := fun h => h

/-- A text on one line stays in front of what is laid out again. -/
theorem reflow_fixed {before : Option Char} {line s u : List Char} (hline : OneLine line)
    (h : Edited reflow before (line ++ s) u) :
    ∃ s', u = line ++ s' ∧ Edited reflow (behind before line) s s' := by
  refine h.fixed ?_ ?_
  · rintro c hc before old new rest ⟨⟨d, gap, hd, hbreak, -⟩, -⟩
    obtain ⟨rfl, -⟩ := List.cons.inj hd
    rw [hline c hc] at hbreak
    cases hbreak
  · rintro before new rest ⟨⟨d, gap, hd, -⟩, -⟩
    cases hd

/-- Breaking lines differently is a mild edit. -/
theorem mild_reflow : Mild reflow where
  plain := by
    rintro before old new rest ⟨-, hnew⟩ c hc
    have hblank := hnew c hc
    refine ⟨?_, ?_, ?_⟩
    · rintro rfl
      exact absurd hblank (by decide)
    · rintro rfl
      exact absurd hblank (by decide)
    · rintro rfl
      exact absurd hblank (by decide)
  delimiter := by
    intro d hd
    have hall : ∀ d ∈ ['<', '"'], isBlank d = false := by decide
    exact delimiter_reflow (hall d hd)
  word := by
    intro w hw d hd before s u h
    have hwords : ∀ w ∈ fixedWords, OneLine w.toList := by
      unfold OneLine
      decide +kernel
    have hends : ∀ d ∈ wordEnds, isLineBreak d = false := by decide
    have hline : OneLine (w.toList ++ [d]) :=
      oneLine_append.2 ⟨hwords w hw, oneLine_cons.2 ⟨hends d hd, by intro c hc; cases hc⟩⟩
    have h : Edited reflow before ((w.toList ++ [d]) ++ s) u := by simpa using h
    obtain ⟨s', rfl, hs'⟩ := reflow_fixed hline h
    rw [behind_append] at hs'
    exact ⟨s', by simp, hs'⟩

/-- Laying out again changes white space only. -/
theorem inked_reflow {before : Option Char} {s t : List Char} (h : Edited reflow before s t) :
    inked t = inked s := by
  have hblank : ∀ u : List Char, (∀ d ∈ u, isBlank d = true) → inked u = [] := by
    intro u hu
    rw [inked, List.filter_eq_nil_iff]
    intro d hd
    simp [hu d hd]
  induction h with
  | nil => rfl
  | keep before c h ih =>
    rw [inked, inked, List.filter_cons, List.filter_cons, ← inked, ← inked, ih]
  | swap before hold h ih =>
    obtain ⟨⟨c, gap, rfl, hc, hgap⟩, hnew⟩ := hold
    have hold : inked (c :: gap) = [] :=
      hblank _ (List.forall_mem_cons.2 ⟨isBlank_of_isLineBreak hc, hgap⟩)
    rw [inked_append, inked_append, hblank _ hnew, hold, ih]

theorem keeps_reflow (tidy : Prop) : Keeps tidy reflow := by
  refine keeps_of mild_reflow.plain ?_ ?_
  · intro _ before s t h
    rw [endsInEquals_iff, inked_reflow h, ← endsInEquals_iff]
    exact id
  · -- The variables of a loop stand on one line.
    intro head hhead before s t h
    have hheads : ∀ head ∈ loopHeads, OneLine head.toList := by
      unfold OneLine
      decide
    obtain ⟨s', ht, -⟩ := reflow_fixed (hheads head hhead) h
    exact ⟨s', ht⟩

/-- Rendered markup at a margin is rendered markup. -/
theorem Rendered.indentLines {tidy : Prop} {margin s : String} {tags : List Tag}
    (hmargin : ∀ d ∈ margin.toList, isBlank d = true) (h : Rendered tidy tags s.toList) :
    ∃ tags', Rendered tidy tags' (fedLines [] (Assembly.indentLines margin s)) := by
  have hfeed : Rendered tidy tags ('\n' :: s.toList) :=
    ⟨Woven.plain_append (s := ['\n']) (by decide) h.woven, h.fits, h.balanced⟩
  obtain ⟨tags', h', -⟩ := hfeed.edited mild_reflow (keeps_reflow tidy)
    (Assembly.edited_indentLines hmargin s none)
  exact ⟨tags', h'⟩

end Markup

end PageCompiler
