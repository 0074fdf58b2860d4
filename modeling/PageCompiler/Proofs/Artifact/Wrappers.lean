import PageCompiler.Artifact.Assembly
import PageCompiler.Proofs.Document.Line

/-!
# `PageCompiler.Proofs.Artifact.Wrappers`: the places of components in a page

Each fragment stands in a `div` of its own, which a line of the page opens. The lines of the
fragment are set further in, so no line of a fragment opens such a place, whatever its markup is.
The page has as many places as fragments (`wrapperCount_markup`).
-/

set_option autoImplicit false

namespace PageCompiler

open Text

theorem Text.startsWith_append (pattern s : List Char) :
    startsWith pattern (pattern ++ s) = true := by
  unfold startsWith
  induction pattern with
  | nil => rfl
  | cons c pattern ih => simpa [after?] using ih

/-- The markup of a name is on one line. -/
theorem Markup.oneLine_escape {name : String} (h : OneLine name.toList) :
    OneLine (Markup.escape name).toList := by
  have hchar : ∀ {c : Char}, isLineBreak c = false → OneLine (Markup.escapeChar c) := by
    intro c hc
    unfold Markup.escapeChar OneLine
    iterate 5
      split
      · decide
    simpa using hc
  intro c hc
  rw [Markup.escape, String.toList_ofList, List.mem_flatMap] at hc
  obtain ⟨d, hd, hc⟩ := hc
  exact hchar (h d hd) c hc

namespace Assembly

/-- How a line starts that opens the place of a component. -/
def wrapperStart : String := "    <div class=\"component "

/-- A line opens the place of a component. -/
def opensWrapper (line : String) : Bool :=
  startsWith wrapperStart.toList line.toList

/-- The number of places for components in the markup of a page. -/
def wrapperCount (markup : String) : Nat :=
  (linesOf markup).countP opensWrapper

theorem oneLine_indentLines {margin : String} (h : OneLine margin.toList) (s : String) :
    ∀ line ∈ indentLines margin s, OneLine line.toList := by
  intro line hline
  obtain ⟨l, hl, rfl⟩ := List.mem_map.1 hline
  split
  · exact fun c hc => absurd hc (by simp)
  · rw [String.toList_append, String.toList_ofList]
    exact oneLine_append.2 ⟨h, oneLine_of_mem_lines l hl⟩

/-- What is set further in opens no place. -/
theorem opensWrapper_indentLines (s : String) :
    ∀ line ∈ indentLines "      " s, opensWrapper line = false := by
  intro line hline
  obtain ⟨l, _, rfl⟩ := List.mem_map.1 hline
  split
  · decide
  · rw [opensWrapper, String.toList_append]
    rfl

/-- The rest of the line that opens the place of a fragment. -/
def wrapperRest (f : Fragment) : String :=
  Markup.escape f.component ++ ("\" data-component=\"" ++ (Markup.escape f.component ++ ("\"" ++
    ((if f.source == .fallback then " data-source=\"fallback\"" else "") ++ ">"))))

theorem fragmentLines_eq (f : Fragment) :
    fragmentLines f =
      (wrapperStart ++ wrapperRest f) :: (indentLines "      " f.markup ++ ["    </div>"]) := by
  simp only [fragmentLines, wrapperStart, wrapperRest, String.append_assoc, List.cons_append]

/-- A fragment opens one place, with its first line. -/
theorem countP_fragmentLines (f : Fragment) : (fragmentLines f).countP opensWrapper = 1 := by
  have hfirst : opensWrapper (wrapperStart ++ wrapperRest f) = true := by
    rw [opensWrapper, String.toList_append]
    exact startsWith_append _ _
  have hinside : (indentLines "      " f.markup).countP opensWrapper = 0 := by
    rw [List.countP_eq_zero]
    intro line hline
    rw [opensWrapper_indentLines _ line hline]
    decide
  have hclose : ["    </div>"].countP opensWrapper = 0 := by decide
  rw [fragmentLines_eq, List.countP_cons_of_pos hfirst, List.countP_append, hinside, hclose]

/-- No line of a fragment holds a line break. -/
theorem oneLine_fragmentLines {f : Fragment} (h : Bundle.isName f.component.toList = true) :
    ∀ line ∈ fragmentLines f, OneLine line.toList := by
  have hname := Markup.oneLine_escape (oneLine_of_isName h)
  have hsource :
      OneLine (if f.source == .fallback then " data-source=\"fallback\"" else "").toList := by
    split
    · exact show ∀ c ∈ _, _ by decide
    · exact show ∀ c ∈ _, _ by decide
  have hfixed : OneLine wrapperStart.toList ∧ OneLine "\" data-component=\"".toList ∧
      OneLine "\"".toList ∧ OneLine ">".toList := by
    unfold OneLine
    decide
  intro line hline
  rw [fragmentLines_eq, List.mem_cons, List.mem_append, List.mem_singleton] at hline
  rcases hline with rfl | hline | rfl
  · simp only [wrapperRest, String.toList_append, oneLine_append]
    exact ⟨hfixed.1, hname, hfixed.2.1, hname, hfixed.2.2.1, hsource, hfixed.2.2.2⟩
  · exact oneLine_indentLines (show ∀ c ∈ _, _ by decide) _ line hline
  · exact show ∀ c ∈ _, _ by decide

/-- Each fragment opens one wrapper. -/
theorem countP_flatMap_fragmentLines (fragments : List Fragment) :
    (fragments.flatMap fragmentLines).countP opensWrapper = fragments.length := by
  induction fragments with
  | nil => rfl
  | cons f fragments ih =>
    rw [List.flatMap_cons, List.countP_append, countP_fragmentLines, ih, List.length_cons,
      Nat.add_comm]

/-- The lines of a page in front of its fragments. -/
def headLines : List String :=
  ["<div id=\"app\">", "  <div class=\"app-container\">",
    "    <h1>" ++ Markup.mustache "appTitle" ++ "</h1>"]

/-- The markup of a page has a place for each fragment, and no other. -/
theorem wrapperCount_markup {fragments : List Fragment}
    (h : ∀ f ∈ fragments, Bundle.isName f.component.toList = true) :
    wrapperCount (markup fragments) = fragments.length := by
  -- No line of the page holds a break of its own, so its lines are those it was put together from.
  have hlines : linesOf (markup fragments) =
      headLines ++ fragments.flatMap fragmentLines ++ ["  </div>"] ++ ["</div>"] := by
    have hmarkup : markup fragments = "\n".intercalate
        (headLines ++ fragments.flatMap fragmentLines ++ ["  </div>"] ++ ["</div>"]) := by
      rw [markup, List.append_assoc _ ["  </div>"]]
      rfl
    rw [hmarkup]
    refine linesOf_intercalate ?_ (show ∀ c ∈ _, _ by decide) (by decide)
    intro line hline
    rcases List.mem_append.1 hline with hline | hline
    · rcases List.mem_append.1 hline with hline | hline
      · have hhead : ∀ line ∈ headLines, ∀ c ∈ line.toList, isLineBreak c = false := by decide
        exact hhead line hline
      · obtain ⟨f, hf, hline⟩ := List.mem_flatMap.1 hline
        exact oneLine_fragmentLines (h f hf) line hline
    · rw [List.mem_singleton.1 hline]
      exact show ∀ c ∈ _, _ by decide
  have hhead : headLines.countP opensWrapper = 0 := by decide
  have htail : ["  </div>"].countP opensWrapper = 0 ∧ ["</div>"].countP opensWrapper = 0 := by
    decide
  rw [wrapperCount, hlines, List.countP_append, List.countP_append, List.countP_append, hhead,
    countP_flatMap_fragmentLines, htail.1, htail.2]
  simp

end Assembly

end PageCompiler
