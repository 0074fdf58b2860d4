import PageCompiler.Proofs.Decimal
import PageCompiler.Proofs.Keyword
import PageCompiler.Proofs.Pattern.Fits

/-!
# `PageCompiler.Proofs.Pattern.Tabs`: when the tabs of a panel are told apart

The key of a tab joins the words of its name, or the word `tab` and its position if the name has no
words (`toList_tabKey`). No word has an underscore, so two keys are the same only if their words
are. That happens in two ways: two names have the same words, or the name of one tab is what another
one without words is called by its position (`Clash`, `tabKey_eq_iff`).

The buttons and panes of a panel refer to nothing but these keys, and the state starts from the
first of them. `tabs_told_apart_iff` says this of the text that is rendered, and for which tabs the
keys are all different and exactly one pane is shown at first.
-/

set_option autoImplicit false

namespace PageCompiler.Pattern

open Text Markup

/-! ### The words of a name -/

/-- Characters of words: ASCII letters in lower case, and digits. -/
def isWordChar (c : Char) : Bool :=
  ('a' ≤ c && c ≤ 'z') || ('0' ≤ c && c ≤ '9')

/-- Those of some runs that are not empty. -/
def wordRuns (runs : List (List Char)) : List (List Char) :=
  runs.filter fun run => !run.isEmpty

/-- The words of a text: its longest runs of word characters. -/
def wordsOf (s : List Char) : List (List Char) :=
  wordRuns (s.splitOnP fun c => !isWordChar c)

theorem wordRuns_cons_nil (runs : List (List Char)) : wordRuns ([] :: runs) = wordRuns runs := rfl

theorem wordRuns_cons_cons (c : Char) (run : List Char) (runs : List (List Char)) :
    wordRuns ((c :: run) :: runs) = (c :: run) :: wordRuns runs := rfl

theorem intercalate_cons (word : List Char) (words : List (List Char)) :
    ['_'].intercalate (word :: words) = word ++ words.flatMap ('_' :: ·) := by
  induction words generalizing word with
  | nil => simp
  | cons next words ih =>
    rw [List.intercalate_cons_cons, ih, List.flatMap_cons]
    simp

/-- What is made of a text, given the runs that it is cut into: inside of a word the first run goes
on with it, and behind a gap all words have an underscore in front. -/
theorem slugChars_eq_runs (s : List Char) :
    ∃ run runs, s.splitOnP (fun c => !isWordChar c) = run :: runs ∧
      slugChars true false s = run ++ (wordRuns runs).flatMap ('_' :: ·) ∧
      slugChars true true s = (wordRuns (run :: runs)).flatMap ('_' :: ·) ∧
      ∀ pending, slugChars false pending s = ['_'].intercalate (wordRuns (run :: runs)) := by
  induction s with
  | nil => exact ⟨[], [], rfl, rfl, rfl, fun _ => rfl⟩
  | cons c s ih =>
    obtain ⟨run, runs, hruns, hinside, hbehind, hfront⟩ := ih
    rw [List.splitOnP_cons_eq_if_modifyHead, hruns]
    cases hc : isWordChar c with
    | true =>
      refine ⟨c :: run, runs, rfl, ?_, ?_, fun pending => ?_⟩
      · rw [slugChars, ← isWordChar, if_pos hc, hinside]
        rfl
      · rw [slugChars, ← isWordChar, if_pos hc, hinside, wordRuns_cons_cons]
        rfl
      · rw [slugChars, ← isWordChar, if_pos hc, hinside, wordRuns_cons_cons, intercalate_cons]
        rfl
    | false =>
      -- The run ends here, and an empty one is no word.
      refine ⟨[], run :: runs, rfl, ?_, ?_, fun pending => ?_⟩
      · rw [slugChars, ← isWordChar, if_neg (by simp [hc]), hbehind]
        rfl
      · rw [slugChars, ← isWordChar, if_neg (by simp [hc]), hbehind, wordRuns_cons_nil]
      · rw [slugChars, ← isWordChar, if_neg (by simp [hc]), hfront, wordRuns_cons_nil]

theorem slugChars_eq (s : List Char) :
    slugChars false false s = ['_'].intercalate (wordsOf s) := by
  obtain ⟨run, runs, hruns, -, -, hfront⟩ := slugChars_eq_runs s
  rw [hfront, wordsOf, hruns]

theorem mem_wordsOf {s word : List Char} (h : word ∈ wordsOf s) : word ≠ [] ∧ '_' ∉ word := by
  obtain ⟨hrun, hne⟩ := List.mem_filter.1 h
  obtain ⟨-, -, -, hchars, -⟩ := Keyword.mem_splitOnP_iff.1 hrun
  refine ⟨by simpa using hne, fun hmem => ?_⟩
  exact absurd (hchars '_' hmem) (by decide)

/-! ### Keys -/

/-- The words of the name of a tab. -/
def nameWords (tab : Fields) : List (List Char) :=
  wordsOf (lower (asText (tab.either "name" "text") "").toList)

/-- What a tab without a name is called by its position. -/
def positionWords (position : Nat) : List (List Char) :=
  ["tab".toList, (toString position).toList]

/-- The words of the key of a tab. -/
def tabWords (tab : Fields × Nat) : List (List Char) :=
  if nameWords tab.1 = [] then positionWords tab.2 else nameWords tab.1

theorem positionWords_inj {n m : Nat} (h : positionWords n = positionWords m) : n = m := by
  have hdigits : (toString n).toList = (toString m).toList := by simpa [positionWords] using h
  rw [Nat.toString_eq_repr, Nat.toString_eq_repr, Nat.toList_repr, Nat.toList_repr] at hdigits
  rw [← Decimal.digitsValue_toDigits n, hdigits, Decimal.digitsValue_toDigits]

/-- The key of a tab joins its words. -/
theorem toList_tabKey (tab : Fields × Nat) :
    (tabKey tab.1 tab.2).toList = ['_'].intercalate (tabWords tab) := by
  unfold tabKey slug orElse tabWords
  rw [slugChars_eq, ← nameWords]
  cases hwords : nameWords tab.1 with
  | nil =>
    rw [if_pos rfl, if_pos (by decide), String.toList_append, positionWords, intercalate_cons]
    simp
  | cons word words =>
    -- Words are not empty, so neither is the key.
    have hne : word ≠ [] := (mem_wordsOf (hwords ▸ List.mem_cons_self)).1
    rw [if_neg (by simpa [intercalate_cons] using fun h => absurd h hne), if_neg (by simp),
      String.toList_ofList]

theorem tabWords_ne_nil (tab : Fields × Nat) : tabWords tab ≠ [] := by
  unfold tabWords
  split
  · exact List.cons_ne_nil _ _
  · assumption

theorem not_mem_tabWords (tab : Fields × Nat) : ∀ word ∈ tabWords tab, '_' ∉ word := by
  unfold tabWords
  split
  · have hdigits : '_' ∉ (toString tab.2).toList := by
      rw [Nat.toString_eq_repr, Nat.toList_repr]
      exact fun h => absurd (Decimal.mem_asciiDigits_of_mem_toDigits h) (by decide)
    exact List.forall_mem_cons.2 ⟨by decide, List.forall_mem_singleton.2 hdigits⟩
  · exact fun word h => (mem_wordsOf h).2

/-- Different words make different keys. -/
theorem tabKey_eq_iff_words {a b : Fields × Nat} :
    tabKey a.1 a.2 = tabKey b.1 b.2 ↔ tabWords a = tabWords b := by
  rw [← String.toList_inj, toList_tabKey, toList_tabKey]
  constructor
  · intro h
    rw [← List.splitOn_intercalate '_' (not_mem_tabWords a) (tabWords_ne_nil a), h,
      List.splitOn_intercalate '_' (not_mem_tabWords b) (tabWords_ne_nil b)]
  · exact congrArg _

/-- Two tabs at different positions that cannot be told apart. -/
inductive Clash (a b : Fields × Nat) : Prop where
  /-- The names have the same words. -/
  | names (hsame : nameWords a.1 = nameWords b.1) (hwords : nameWords a.1 ≠ [])
  /-- The first has the name that the second has by its position. -/
  | secondPosition (ha : nameWords a.1 = positionWords b.2) (hb : nameWords b.1 = [])
  /-- The second has the name that the first has by its position. -/
  | firstPosition (ha : nameWords a.1 = []) (hb : nameWords b.1 = positionWords a.2)

/-- Two tabs have one key exactly if they clash. -/
theorem tabKey_eq_iff {a b : Fields × Nat} (h : a.2 ≠ b.2) :
    tabKey a.1 a.2 = tabKey b.1 b.2 ↔ Clash a b := by
  rw [tabKey_eq_iff_words, tabWords, tabWords]
  constructor
  · intro hwords
    split at hwords
    next ha =>
      split at hwords
      next => exact absurd (positionWords_inj hwords) h
      next => exact .firstPosition ha hwords.symm
    next ha =>
      split at hwords
      next hb => exact .secondPosition hwords hb
      next => exact .names hwords ha
  · intro hclash
    cases hclash with
    | names hsame hwords => rw [if_neg hwords, if_neg (hsame ▸ hwords), hsame]
    | secondPosition ha hb => rw [if_neg (by rw [ha]; exact List.cons_ne_nil _ _), if_pos hb, ha]
    | firstPosition ha hb => rw [if_pos ha, if_neg (by rw [hb]; exact List.cons_ne_nil _ _), hb]

/-! ### The attributes of a panel -/

/-- The values of an attribute in some tags. -/
def attrValues (name : String) (tags : List Tag) : List String :=
  tags.flatMap fun tag => tag.attrs.filterMap fun a => if a.name = name then a.value else none

@[simp] theorem attrValues_append (name : String) (tags tags' : List Tag) :
    attrValues name (tags ++ tags') = attrValues name tags ++ attrValues name tags' :=
  List.flatMap_append

theorem attrValues_cons (name : String) (tag : Tag) (tags : List Tag) :
    attrValues name (tag :: tags) =
      (tag.attrs.filterMap fun a => if a.name = name then a.value else none) ++
        attrValues name tags :=
  rfl

theorem blockTags_append (bs bs' : List Block) :
    blockTags (bs ++ bs') = blockTags bs ++ blockTags bs' := by
  induction bs with
  | nil => rfl
  | cons b bs ih => rw [List.cons_append, blockTags, ih, blockTags, List.append_assoc]

theorem attrValues_blockTags_map {α : Type} (name : String) (f : α → Block) (l : List α) :
    attrValues name (blockTags (l.map f)) = l.flatMap fun x => attrValues name (f x).tags := by
  induction l with
  | nil => rfl
  | cons x l ih => rw [List.map_cons, blockTags, attrValues_append, ih, List.flatMap_cons]

/-- A box adds nothing but its class. -/
theorem attrValues_box {name : String} (hname : name ≠ "class") (class_ : String)
    (children : List Block) :
    attrValues name (Block.tags (.block "div" [attr "class" class_] children)) =
      attrValues name (blockTags children) := by
  rw [Block.tags, attrValues_cons, attrValues_append, attrValues_cons]
  simp [opening, closing, attr, attrValues, hname.symm]

theorem attrValues_leaf (name tag : String) (attrs : List Attr) (content : String) :
    attrValues name (leaf tag attrs content).tags =
      attrs.filterMap fun a => if a.name = name then a.value else none := by
  simp [leaf, Block.tags, Inline.tags, tagsAll, attrValues, opening, closing]

/-- The tabs of a panel with their positions. -/
def tabsOf (c : Component) : List (Fields × Nat) :=
  (elements (Assoc.get? c.properties "tabs")).zipIdx 1

/-- The keys of the tabs of a panel. -/
def tabKeys (c : Component) : List String :=
  (tabsOf c).map fun tab => tabKey tab.1 tab.2

/-- Apart from classes a panel has the attributes of its buttons and of its panes. -/
theorem attrValues_tabbedMarkup {name : String} (hname : name ≠ "class") (c : Component) :
    let active := c.prop "bind" "active_tab"
    attrValues name (blockTags (tabbedMarkup c)) =
      ((tabsOf c).flatMap fun tab => attrValues name (tabButton active tab.1 tab.2).tags) ++
        (tabsOf c).flatMap fun tab => attrValues name (tabPane active tab.1 tab.2).tags := by
  intro active
  have htitle : attrValues name
      (blockTags (if c.shows "title" then [leaf "h2" [] (c.prop "title" "")] else [])) = [] := by
    split
    · rfl
    · rfl
  rw [tabbedMarkup, blockTags, attrValues_append, attrValues_box hname, blockTags_append,
    attrValues_append, htitle]
  simp only [blockTags, attrValues_append, attrValues_box hname, attrValues_blockTags_map]
  simp [attrValues, active, tabsOf]

/-- What every tab has once, depending on its key only. -/
theorem flatMap_tabsOf (c : Component) {g : Fields × Nat → List String} {f : String → String}
    (h : ∀ tab, g tab = [f (tabKey tab.1 tab.2)]) : (tabsOf c).flatMap g = (tabKeys c).map f := by
  rw [tabKeys, List.map_map, List.map_eq_flatMap, funext h]
  rfl

/-- An attribute that every button has once, and no pane. -/
theorem attrValues_of_buttons {name : String} (hname : name ≠ "class") (c : Component)
    {f : String → String}
    (hbutton : ∀ tab n, attrValues name (tabButton (c.prop "bind" "active_tab") tab n).tags =
      [f (tabKey tab n)])
    (hpane : ∀ tab n, attrValues name (tabPane (c.prop "bind" "active_tab") tab n).tags = []) :
    attrValues name (blockTags (tabbedMarkup c)) = (tabKeys c).map f := by
  rw [attrValues_tabbedMarkup hname, flatMap_tabsOf c fun tab => hbutton tab.1 tab.2,
    List.flatMap_eq_nil_iff.2 fun tab _ => hpane tab.1 tab.2, List.append_nil]

/-- An attribute that every pane has once, and no button. -/
theorem attrValues_of_panes {name : String} (hname : name ≠ "class") (c : Component)
    {f : String → String}
    (hbutton : ∀ tab n, attrValues name (tabButton (c.prop "bind" "active_tab") tab n).tags = [])
    (hpane : ∀ tab n, attrValues name (tabPane (c.prop "bind" "active_tab") tab n).tags =
      [f (tabKey tab n)]) :
    attrValues name (blockTags (tabbedMarkup c)) = (tabKeys c).map f := by
  rw [attrValues_tabbedMarkup hname, flatMap_tabsOf c fun tab => hpane tab.1 tab.2,
    List.flatMap_eq_nil_iff.2 fun tab _ => hbutton tab.1 tab.2, List.nil_append]

/-! ### Telling tabs apart -/

theorem positions_differ (c : Component) : (tabsOf c).Pairwise fun a b => a.2 ≠ b.2 := by
  rw [← List.pairwise_map, tabsOf, List.zipIdx_map_snd]
  exact List.nodup_range'

/-- All keys differ exactly if no two tabs clash. -/
theorem nodup_tabKeys_iff (c : Component) :
    (tabKeys c).Nodup ↔ (tabsOf c).Pairwise fun a b => ¬Clash a b := by
  rw [tabKeys, List.Nodup, List.pairwise_map]
  constructor
  · intro h
    refine (h.and (positions_differ c)).imp fun {a b} hab => ?_
    rw [← tabKey_eq_iff hab.2]
    exact hab.1
  · intro h
    refine (h.and (positions_differ c)).imp fun {a b} hab => ?_
    rw [Ne, tabKey_eq_iff hab.2]
    exact hab.1

/-- The pane of a tab is shown at first: the state has its key. -/
def ShownAtFirst (c : Component) (tab : Fields × Nat) : Prop :=
  Assoc.get? (tabbedPanel.state c) (asText (Assoc.get? c.properties "bind") "active_tab") =
    some (.text (tabKey tab.1 tab.2))

/-- At first the panes are shown that have the key of the first tab. -/
theorem shownAtFirst_iff {c : Component} {first : Fields × Nat} {rest : List (Fields × Nat)}
    (h : tabsOf c = first :: rest) {tab : Fields × Nat} :
    ShownAtFirst c tab ↔ tabKey first.1 first.2 = tabKey tab.1 tab.2 := by
  unfold tabsOf at h
  cases htabs : elements (Assoc.get? c.properties "tabs") with
  | nil =>
    rw [htabs] at h
    cases h
  | cons tab' tabs' =>
    rw [htabs] at h
    obtain ⟨rfl, -⟩ := List.cons.inj h
    have hstate : tabbedPanel.state c =
        [(asText (Assoc.get? c.properties "bind") "active_tab", .text (tabKey tab' 1))] := by
      simp only [tabbedPanel, tabbedState, htabs]
    simp [ShownAtFirst, hstate, Assoc.get?]

/-- One pane is shown at first if and only if no other tab clashes with the first. -/
theorem existsUnique_shown_iff {c : Component} {first : Fields × Nat} {rest : List (Fields × Nat)}
    (h : tabsOf c = first :: rest) :
    (∃! tab, tab ∈ tabsOf c ∧ ShownAtFirst c tab) ↔ ∀ tab ∈ rest, ¬Clash first tab := by
  have hpositions := positions_differ c
  rw [h, List.pairwise_cons] at hpositions
  simp only [shownAtFirst_iff h, h]
  constructor
  · rintro ⟨shown, -, hunique⟩ tab htab hclash
    have hfirst := hunique first ⟨List.mem_cons_self, rfl⟩
    have hpos := hpositions.1 tab htab
    have hsecond := hunique tab ⟨List.mem_cons_of_mem _ htab, (tabKey_eq_iff hpos).2 hclash⟩
    exact hpos (by rw [hfirst, hsecond])
  · intro hapart
    refine ⟨first, ⟨List.mem_cons_self, rfl⟩, ?_⟩
    rintro tab ⟨hmem, hkey⟩
    rcases List.mem_cons.1 hmem with rfl | htab
    · rfl
    · exact absurd ((tabKey_eq_iff (hpositions.1 tab htab)).1 hkey) (hapart tab htab)

/-- A panel refers to its tabs by their keys only, and starts with the key of the first. The keys
are all different exactly if no two tabs clash, and exactly one pane is shown at first if and only
if no other tab clashes with the first. -/
theorem tabs_told_apart_iff {c : Component} {first : Fields × Nat} {rest : List (Fields × Nat)}
    (h : tabsOf c = first :: rest) :
    let active := c.prop "bind" "active_tab"
    let quoted (key : String) : String := "'" ++ key ++ "'"
    (∃ tags, Woven tags (tabbedPanel.render c).toList ∧
      attrValues "v-if" tags = (tabKeys c).map (fun key => active ++ " === " ++ quoted key) ∧
      attrValues "@click" tags = (tabKeys c).map (fun key => active ++ " = " ++ quoted key) ∧
      attrValues ":class" tags =
        (tabKeys c).map fun key => "\x7b active: " ++ active ++ " === " ++ quoted key ++ " \x7d") ∧
    ShownAtFirst c first ∧
    ((tabKeys c).Nodup ↔ (tabsOf c).Pairwise fun a b => ¬Clash a b) ∧
    ((∃! tab, tab ∈ tabsOf c ∧ ShownAtFirst c tab) ↔ ∀ tab ∈ rest, ¬Clash first tab) := by
  intro active quoted
  refine ⟨⟨blockTags (tabbedMarkup c), ?_, ?_, ?_, ?_⟩, (shownAtFirst_iff h).2 rfl,
    nodup_tabKeys_iff c, existsUnique_shown_iff h⟩
  · have hfits : BlocksOk False (tabbedMarkup c) := fits_tabbedMarkup nofun
    exact woven_layOut hfits
  · refine attrValues_of_panes (by decide) c (fun tab n => ?_) (fun tab n => ?_)
    · rw [tabButton, attrValues_leaf]
      rfl
    · rw [tabPane, attrValues_leaf]
      show [active ++ " === '" ++ tabKey tab n ++ "'"] =
        [active ++ " === " ++ quoted (tabKey tab n)]
      rw [show " === '" = " === " ++ "'" by decide]
      simp only [quoted, String.append_assoc]
  · refine attrValues_of_buttons (by decide) c (fun tab n => ?_) (fun tab n => ?_)
    · rw [tabButton, attrValues_leaf]
      rfl
    · rw [tabPane, attrValues_leaf]
      rfl
  · refine attrValues_of_buttons (by decide) c (fun tab n => ?_) (fun tab n => ?_)
    · rw [tabButton, attrValues_leaf]
      rfl
    · rw [tabPane, attrValues_leaf]
      rfl

/-- A panel of two tabs that are only names. -/
def twoTabs (first second : String) : Component :=
  ⟨"panel", some "tabbed_panel", [("tabs", .list [.text first, .text second])], "", "ui_components",
    1⟩

/-- Two names that differ in a hyphen, and a name that another tab has by its position: two panes
are shown at first. -/
theorem tabs_told_apart_iff_hyphen :
    (¬(tabKeys (twoTabs "A B" "A-B")).Nodup ∧
      ¬∃! tab, tab ∈ tabsOf (twoTabs "A B" "A-B") ∧ ShownAtFirst (twoTabs "A B" "A-B") tab) ∧
    (¬(tabKeys (twoTabs "Tab 2" "!")).Nodup ∧
      ¬∃! tab, tab ∈ tabsOf (twoTabs "Tab 2" "!") ∧ ShownAtFirst (twoTabs "Tab 2" "!") tab) := by
  constructor
  · have htabs : tabsOf (twoTabs "A B" "A-B") =
        [([("text", .text "A B")], 1), ([("text", .text "A-B")], 2)] := rfl
    obtain ⟨-, -, hnodup, hone⟩ := tabs_told_apart_iff htabs
    have hclash : Clash ([("text", .text "A B")], 1) ([("text", .text "A-B")], 2) :=
      .names (by decide +kernel) (by decide +kernel)
    exact ⟨fun h => (List.pairwise_cons.1 (hnodup.1 h)).1 _ (List.mem_singleton_self _) hclash,
      fun h => hone.1 h _ (List.mem_singleton_self _) hclash⟩
  · have htabs : tabsOf (twoTabs "Tab 2" "!") =
        [([("text", .text "Tab 2")], 1), ([("text", .text "!")], 2)] := rfl
    obtain ⟨-, -, hnodup, hone⟩ := tabs_told_apart_iff htabs
    have hclash : Clash ([("text", .text "Tab 2")], 1) ([("text", .text "!")], 2) :=
      .secondPosition (by decide +kernel) (by decide +kernel)
    exact ⟨fun h => (List.pairwise_cons.1 (hnodup.1 h)).1 _ (List.mem_singleton_self _) hclash,
      fun h => hone.1 h _ (List.mem_singleton_self _) hclash⟩

end PageCompiler.Pattern
