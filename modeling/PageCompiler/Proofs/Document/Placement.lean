import PageCompiler.Proofs.Document.Reading

/-!
# `PageCompiler.Proofs.Document.Placement`: where components stand in their text

Every component of a document is a run of lines of the text, and it says where: `line` is the number
of the first of them, and `lastLine` follows from the number of line feeds in its text. Runs of
different components have no line in common, and the components of a section stand in the order of
their lines, also when a later heading opens the section again.

`Document.PlacedIn` collects these facts. A line outside of blocks adds no component, and a block
adds one that stands behind all others, so `ReadTo.placed` is an induction with two cases.
`document_represents_text` adds that sections and components are found under their own names.
-/

set_option autoImplicit false

namespace PageCompiler

open Text

/-- The number of the last line of a component. -/
def Component.lastLine (c : Component) : Nat :=
  c.line + countFeeds c.rawText.toList

/-- Without the white space at its ends, the line starts with the name, a colon and an opening
brace. White space may stand between them. -/
def OpensBlock (name : String) (line : List Char) : Prop :=
  ∃ gap gap' rest, trim line = name.toList ++ (gap ++ ':' :: (gap' ++ '\x7b' :: rest)) ∧
    (∀ c ∈ gap, isBlank c = true) ∧ ∀ c ∈ gap', isBlank c = true

/-- A component is a run of lines: its text is the run, the run begins at its line, and the first
line of it opens a block of its name. -/
structure Component.StandsIn (c : Component) (ls : List (List Char)) : Prop where
  text_ne : c.rawText ≠ ""
  run : ∃ before first more after, ls = before ++ (first :: more ++ after) ∧
    c.rawText.toList = join ['\n'] (first :: more) ∧ c.line = before.length + 1 ∧
    c.lastLine = c.line + more.length ∧ OpensBlock c.name first

/-- The pattern of a component is its declared type without the white space at its ends. There is
none if the type is no text or is blank. -/
def Component.DeclaresPattern (c : Component) : Prop :=
  ∀ p, c.patternName = some p ↔ p ≠ "" ∧ trimmed p = p ∧
    ∃ t, Assoc.get? c.properties "type" = some (.text t) ∧ p = trimmed t

/-- A component stands in some section of the document. -/
def Document.Has (d : Document) (c : Component) : Prop :=
  ∃ s ∈ d.sections, c ∈ s.components

/-- How the components of a document stand in lines. -/
structure Document.PlacedIn (d : Document) (ls : List (List Char)) : Prop where
  stands : ∀ c, d.Has c → c.StandsIn ls
  declares : ∀ c, d.Has c → c.DeclaresPattern
  /-- The lines of one component end before those of the other begin. -/
  apart : ∀ c c', d.Has c → d.Has c' → c ≠ c' → c.lastLine < c'.line ∨ c'.lastLine < c.line
  ascending : ∀ s ∈ d.sections, s.components.Pairwise fun a b => a.line < b.line

/-- A document that stands in lines, and finds its sections and components under their names. -/
structure Document.Represents (d : Document) (ls : List (List Char)) : Prop
    extends d.PlacedIn ls where
  sections : ∀ s ∈ d.sections, d.section? s.name = some s
  components : ∀ s ∈ d.sections, ∀ c ∈ s.components,
    c.inSection = s.name ∧ s.component? c.name = some c

/-! ### One component -/

/-- A line that is taken for one opens a block. -/
theorem Reader.opensBlock_of_classify {line : List Char} {name : String}
    (h : classify (trim line) = .opening name) : OpensBlock name line := by
  obtain ⟨rest, hkey⟩ := key?_of_classify_opening h
  unfold key? at hkey
  split at hkey
  next found behind hname =>
    split at hkey
    next value hcolon =>
      obtain ⟨rfl, hbrace⟩ := Prod.mk.inj (Option.some.inj hkey)
      refine ⟨behind.takeWhile isBlank, value.takeWhile isBlank, rest, ?_,
        fun c hc => List.mem_takeWhile_imp hc, fun c hc => List.mem_takeWhile_imp hc⟩
      rw [← hbrace, List.takeWhile_append_dropWhile, ← hcolon, List.takeWhile_append_dropWhile,
        String.toList_ofList, append_of_name? hname]
    next => cases hkey
  next => cases hkey

/-- The declared type is the text under `type` without blanks, if any is left. -/
theorem patternName?_eq_some_iff {fields : Fields} {p : String} :
    Reader.patternName? fields = some p ↔ p ≠ "" ∧ trimmed p = p ∧
      ∃ t, Assoc.get? fields "type" = some (.text t) ∧ p = trimmed t := by
  have hidem : ∀ t : String, trimmed (trimmed t) = trimmed t := by
    intro t
    rw [trimmed, trimmed, String.toList_ofList, trim_trim]
  have hblank : ∀ t : String, trimmed t = "" ↔ allBlank t.toList = true := by
    intro t
    rw [← trim_eq_nil_iff, trimmed, ← String.toList_inj, String.toList_ofList]
    rfl
  unfold Reader.patternName? titleText?
  constructor
  · intro h
    split at h
    next t htype =>
      split at h
      next => cases h
      next hfull =>
        obtain rfl := Option.some.inj h
        exact ⟨fun hempty => hfull ((hblank t).1 hempty), hidem t, t, htype, rfl⟩
    next => cases h
  · rintro ⟨hne, -, t, htype, rfl⟩
    rw [htype]
    exact if_neg fun hall => hne ((hblank t).2 hall)

namespace Component.StandsIn

variable {c : Component} {ls : List (List Char)}

theorem lastLine_le (h : c.StandsIn ls) : c.lastLine ≤ ls.length := by
  obtain ⟨before, first, more, after, rfl, -, hline, hlast, -⟩ := h.run
  rw [hlast, hline]
  simp only [List.length_append, List.length_cons]
  omega

/-- Further lines do not move a component. -/
theorem append (h : c.StandsIn ls) (further : List (List Char)) : c.StandsIn (ls ++ further) := by
  refine ⟨h.text_ne, ?_⟩
  obtain ⟨before, first, more, after, rfl, hrun⟩ := h.run
  refine ⟨before, first, more, after ++ further, ?_, hrun⟩
  simp only [List.append_assoc]

end Component.StandsIn

/-- The component of a block stands where its lines stand. -/
theorem Reader.standsIn_component {before more : List (List Char)} {first : List Char}
    {home name : String} {c : Component}
    (hc : component home name (before.length + 1) (first :: more) = .ok c)
    (hopening : classify (trim first) = .opening name) (hown : ∀ l ∈ first :: more, OneLine l) :
    c.StandsIn (before ++ first :: more) ∧ c.DeclaresPattern ∧ c.line = before.length + 1 := by
  have hne := rawText_ne_empty hc
  obtain ⟨properties, -, rfl⟩ := component_ok hc
  refine ⟨⟨hne, before, first, more, [], by simp, String.toList_ofList, rfl, ?_,
    opensBlock_of_classify hopening⟩, fun p => patternName?_eq_some_iff, rfl⟩
  show before.length + 1 + countFeeds (String.toList (String.ofList _)) = _
  rw [String.toList_ofList, countFeeds_join hown]

/-! ### All components -/

namespace Document

variable {d : Document} {ls : List (List Char)} {name : String} {f : Section → Section}

theorem sectionOrEmpty_cases (d : Document) (name : String) :
    d.sectionOrEmpty name ∈ d.sections ∨ d.sectionOrEmpty name = Section.empty name := by
  rw [sectionOrEmpty]
  cases hfind : d.section? name with
  | none => exact .inr rfl
  | some s => exact .inl (List.mem_of_find?_eq_some hfind)

theorem has_of_mem_sectionOrEmpty {c : Component} (h : c ∈ (d.sectionOrEmpty name).components) :
    d.Has c := by
  rcases d.sectionOrEmpty_cases name with hmem | hempty
  · exact ⟨_, hmem, h⟩
  · rw [hempty] at h
    cases h

/-- A component behind a change was there before, or the changed section has it. -/
theorem Has.of_modifySection {c : Component} (h : (d.modifySection name f).Has c) :
    d.Has c ∨ c ∈ (f (d.sectionOrEmpty name)).components := by
  obtain ⟨s, hs, hc⟩ := h
  rcases mem_modifySectionIn hs with hs | rfl
  · exact .inl ⟨s, hs, hc⟩
  · exact .inr hc

theorem PlacedIn.ascending_sectionOrEmpty (h : d.PlacedIn ls) (name : String) :
    (d.sectionOrEmpty name).components.Pairwise fun a b => a.line < b.line := by
  rcases d.sectionOrEmpty_cases name with hmem | hempty
  · exact h.ascending _ hmem
  · rw [hempty]
    exact List.Pairwise.nil

theorem PlacedIn.append (h : d.PlacedIn ls) (further : List (List Char)) :
    d.PlacedIn (ls ++ further) :=
  ⟨fun c hc => (h.stands c hc).append further, h.declares, h.apart, h.ascending⟩

/-- A change that keeps the components of a section. -/
theorem PlacedIn.modifySection (h : d.PlacedIn ls) (hf : ∀ s, (f s).components = s.components) :
    (d.modifySection name f).PlacedIn ls := by
  have hold : ∀ c, (d.modifySection name f).Has c → d.Has c := by
    intro c hc
    rcases hc.of_modifySection with hc | hc
    · exact hc
    · rw [hf] at hc
      exact has_of_mem_sectionOrEmpty hc
  refine ⟨fun c hc => h.stands c (hold c hc), fun c hc => h.declares c (hold c hc),
    fun c c' hc hc' => h.apart c c' (hold c hc) (hold c' hc'), ?_⟩
  intro s hs
  rcases mem_modifySectionIn hs with hs | rfl
  · exact h.ascending s hs
  · rw [hf]
    exact h.ascending_sectionOrEmpty name

/-- A new component that stands behind all others. -/
theorem PlacedIn.put {c : Component} (h : d.PlacedIn ls) (hc : c.StandsIn ls)
    (hdeclares : c.DeclaresPattern) (hbehind : ∀ x, d.Has x → x.lastLine < c.line)
    (hnew : c.name ∉ (d.sectionOrEmpty name).components.map Component.name) :
    (d.modifySection name (·.put c)).PlacedIn ls := by
  have hput : ((d.sectionOrEmpty name).put c).components =
      (d.sectionOrEmpty name).components ++ [c] := placeComponent_of_not_mem hnew
  have hcases : ∀ x, (d.modifySection name (·.put c)).Has x → d.Has x ∨ x = c := by
    intro x hx
    rcases hx.of_modifySection with hx | hx
    · exact .inl hx
    · rw [hput] at hx
      rcases List.mem_append.1 hx with hx | hx
      · exact .inl (has_of_mem_sectionOrEmpty hx)
      · exact .inr (List.mem_singleton.1 hx)
  refine ⟨?_, ?_, ?_, ?_⟩
  · intro x hx
    rcases hcases x hx with hx | rfl
    · exact h.stands x hx
    · exact hc
  · intro x hx
    rcases hcases x hx with hx | rfl
    · exact h.declares x hx
    · exact hdeclares
  · intro x x' hx hx' hne
    rcases hcases x hx with hold | heq
    · rcases hcases x' hx' with hold' | heq'
      · exact h.apart x x' hold hold' hne
      · rw [heq']
        exact .inl (hbehind x hold)
    · rcases hcases x' hx' with hold' | heq'
      · rw [heq]
        exact .inr (hbehind x' hold')
      · exact absurd (heq.trans heq'.symm) hne
  · intro s hs
    rcases mem_modifySectionIn hs with hs | hs
    · exact h.ascending s hs
    · -- The new component goes to the end of its section.
      have hs : s.components = (d.sectionOrEmpty name).components ++ [c] := by
        rw [hs]
        exact hput
      rw [hs, List.pairwise_append]
      refine ⟨h.ascending_sectionOrEmpty name, List.pairwise_singleton _ _, ?_⟩
      intro a ha b hb
      rw [List.mem_singleton.1 hb]
      have hlast := hbehind a (has_of_mem_sectionOrEmpty ha)
      rw [Component.lastLine] at hlast
      omega

end Document

/-- What was read stands in the lines that were read. -/
theorem Reader.ReadTo.placed {done : List (List Char)} {st : State} (h : ReadTo done st) :
    st.document.PlacedIn done := by
  induction h with
  | start =>
    have hnone : ∀ c, ¬State.start.document.Has c := by
      rintro c ⟨s, hs, -⟩
      cases hs
    exact ⟨fun c hc => absurd hc (hnone c), fun c hc => absurd hc (hnone c),
      fun c c' hc => absurd hc (hnone c), fun s hs => nomatch hs⟩
  | @line done st st' line h hsaid heffect ih =>
    have ih := ih.append [line]
    generalize classify (trim line) = said at hsaid heffect
    cases heffect with
    | blank hst | comment hst | freeText hst =>
      subst hst
      exact ih
    | heading hst =>
      subst hst
      exact ih.modifySection fun s => rfl
    | opening hsettle => exact absurd rfl (hsaid _)
    | assignment hread hst =>
      subst hst
      unfold State.assign
      split
      · exact ⟨ih.stands, ih.declares, ih.apart, ih.ascending⟩
      · exact ih.modifySection fun s => rfl
  | @block done more st st' first name h hopening hown hclose ih =>
    obtain ⟨c, hc, hnew, rfl⟩ := close_ok hclose
    obtain ⟨hstands, hdeclares, hline⟩ := standsIn_component hc hopening hown.oneLine
    have hname : c.name = name := by
      obtain ⟨properties, -, rfl⟩ := component_ok hc
      rfl
    have hhome : (st.document.ensureSection (st.current.getD preambleSection)).PlacedIn done :=
      ih.modifySection fun s => rfl
    refine (hhome.append (first :: more)).put hstands hdeclares ?_ (hname ▸ hnew)
    intro x hx
    have hlast := (hhome.stands x hx).lastLine_le
    omega

/-- A look-up by name finds each member of a list in which no name comes twice. -/
theorem find?_name_of_nodup {α : Type} {name : α → String} {l : List α} (h : (l.map name).Nodup)
    {a : α} (ha : a ∈ l) : (l.find? fun x => name x == name a) = some a := by
  induction l with
  | nil => cases ha
  | cons first rest ih =>
    obtain ⟨hfirst, hrest⟩ := List.nodup_cons.1 h
    rw [List.find?_cons]
    rcases List.mem_cons.1 ha with rfl | ha
    · rw [beq_self_eq_true]
    · have hne : name first ≠ name a := by
        intro heq
        exact hfirst (heq ▸ List.mem_map_of_mem ha)
      rw [beq_eq_false_iff_ne.2 hne]
      exact ih hrest ha

/-- Every document that was read represents the lines of its text. Its sections and components are
stored under their own names. Each component is a run of lines from its line on that opens with its
name, the runs of different components have no line in common, and line numbers increase along every
section. -/
theorem document_represents_text {text : String} {d : Document} (h : Document.read text = .ok d) :
    d.Represents (lines text.toList) := by
  have hformed := Document.wellFormed_of_read h
  obtain ⟨st, hread, rfl⟩ := Document.read_ok_iff.1 h
  refine ⟨hread.placed, ?_, ?_⟩
  · intro s hs
    exact find?_name_of_nodup hformed.names_nodup hs
  · intro s hs c hc
    have hsection := hformed.sections s hs
    exact ⟨hsection.inSection c hc, find?_name_of_nodup hsection.names_nodup hc⟩

/-- A document with a block in front of its headings, a section that is opened twice, and two
components of one name. -/
def scatteredBlocks : String :=
  "card : \x7b\x7d\n## UI Components\n  card: \x7b\r\n  type: \" tab \"\n\x7d\n" ++
    "## Styling\na: \x7b\x7d\n## UI Components\nb: \x7b c: \x7b\x7d\n\x7d\n"

/-- Where the sections and components of this document stand. -/
theorem document_represents_text_scattered :
    ∃ d, Document.read scatteredBlocks = .ok d ∧
      (d.sections.map fun s => (s.name, s.components.map fun c => (c.name, c.line, c.lastLine))) =
        [("preamble", [("card", 1, 1)]), ("ui_components", [("card", 3, 5), ("b", 9, 10)]),
         ("styling", [("a", 7, 7)])] ∧
      d.Represents (lines scatteredBlocks.toList) := by
  obtain ⟨d, hread, hplaces⟩ := Failure.exists_ok (x := Document.read scatteredBlocks)
    (fun d => (d.sections.map fun s =>
        (s.name, s.components.map fun c => (c.name, c.line, c.lastLine))) ==
      [("preamble", [("card", 1, 1)]), ("ui_components", [("card", 3, 5), ("b", 9, 10)]),
       ("styling", [("a", 7, 7)])]) (by decide +kernel)
  exact ⟨d, hread, beq_iff_eq.1 hplaces, document_represents_text hread⟩

end PageCompiler
