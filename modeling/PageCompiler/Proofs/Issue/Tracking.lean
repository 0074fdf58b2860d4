import PageCompiler.Proofs.Compile.Containment
import PageCompiler.Proofs.Document.Line
import PageCompiler.Proofs.Document.Visits
import PageCompiler.Proofs.Text.Scan

/-!
# `PageCompiler.Proofs.Issue.Tracking`: the check of a text and the reader, line by line

The check of a text and the reader both go over the lines of the text, but each keeps its own idea
of where it stands. For headings the check has no idea of blocks at all: `clean_has_components_iff`
says that a text without defects has the required section exactly if one of its headings stands
outside of blocks. For declared types it keeps a depth of its own (`Tracker`), which it takes from
the braces of all lines. `InStep` says that the two stand at the same place, and `InStep.next` which
lines keep them there. `stray_types_are_stored_iff` is what follows for a whole text.
-/

set_option autoImplicit false

namespace PageCompiler

open Text Reader

namespace Issue

/-! ### Headings -/

/-- The check and the reader name the same lines headings. -/
theorem classify_eq_heading_iff {s : List Char} {name : String} :
    classify s = .heading name ↔ heading? s = some name := by
  unfold heading?
  split
  next rest => simp [classify]
  next hother =>
    unfold classify
    split
    · simp
    next rest => exact absurd rfl (hother rest)
    · simp
    · simp
    · split <;> simp

/-- A heading outside of blocks is a heading to the reader. -/
theorem meaning_heading_iff {v : Visit} {name : String} :
    v.meaning = some (.heading name) ↔
      heading? (trim v.line) = some name ∧ v.before.block = none := by
  unfold Visit.meaning
  cases v.before.block with
  | some b => simp
  | none => simp [classify_eq_heading_iff]

/-- The defects of a text that can be read. -/
theorem detect_of_read {text : String} {d : Document} (h : Document.read text = .ok d) :
    detect text =
      .ok (if allBlank text.toList then [.emptyInput]
        else missingSections (lines text.toList) ++ strayTypes none none 0 1 (lines text.toList) ++
          unevenLines (lines text.toList)) := by
  unfold detect
  split
  · rfl
  · simp [malformedBlocks, h]

/-- Some heading names each required section. -/
theorem mem_of_missingSections_nil {ls : List (List Char)} (h : missingSections ls = []) :
    ∀ name ∈ requiredSections, ∃ line ∈ ls, heading? (trim line) = some name := by
  intro name hname
  unfold missingSections at h
  have hpresent := List.filter_eq_nil_iff.1 (List.map_eq_nil_iff.1 h) name hname
  simpa using hpresent

/-- A text without defects can be read and has a heading for the required section, but the heading
may stand inside of a block, where the reader sees none. The document has the section exactly if
one such heading stands outside of blocks. -/
theorem clean_has_components_iff {text : String} (h : detect text = .ok []) :
    ∃ d, Document.read text = .ok d ∧
      (∃ v ∈ Document.visits text, heading? (trim v.line) = some componentSection) ∧
      ((d.section? componentSection).isSome = true ↔
        ∃ v ∈ Document.visits text,
          heading? (trim v.line) = some componentSection ∧ v.before.block = none) := by
  obtain ⟨d, hread⟩ := read_of_detect_nil h
  refine ⟨d, hread, ?_, ?_⟩
  · rw [detect_of_read hread] at h
    have hnil := Except.ok.inj h
    split at hnil
    · cases hnil
    have hmissing := (List.append_eq_nil_iff.1 (List.append_eq_nil_iff.1 hnil).1).1
    obtain ⟨line, hline, hheading⟩ :=
      mem_of_missingSections_nil hmissing componentSection (by decide)
    obtain ⟨st, hrun, -⟩ := Document.read_ok hread
    rw [← map_line_visits hrun] at hline
    obtain ⟨v, hv, rfl⟩ := List.mem_map.1 hline
    exact ⟨v, hv, hheading⟩
  · rw [Document.section?_isSome_iff hread (by decide)]
    simp only [meaning_heading_iff]

/-- A text whose only heading stands in a list inside of a block. -/
def sunkenHeading : String :=
  "card: \x7b\n  items: [\n## UI Components\n  ]\n\x7d\n"

/-- The text is without defects, and its document has no section for components. -/
theorem clean_has_components_iff_sunken :
    detect sunkenHeading = .ok [] ∧
      ∃ d, Document.read sunkenHeading = .ok d ∧ (d.section? componentSection).isSome = false := by
  have hclean : detect sunkenHeading = .ok [] := by decide +kernel
  obtain ⟨d, hread, -, hiff⟩ := clean_has_components_iff hclean
  have hinside : ¬∃ v ∈ Document.visits sunkenHeading,
      heading? (trim v.line) = some componentSection ∧ v.before.block = none := by
    decide +kernel
  exact ⟨hclean, d, hread, Bool.eq_false_iff.2 (mt hiff.1 hinside)⟩

/-! ### Declared types -/

/-- A section that takes declarations, so that a type may stand in it outside of blocks. -/
def declares (inSection : Option String) : Bool :=
  inSection.any declarationSections.contains

/-- Where the check of declared types stands. -/
structure Tracker where
  inSection : Option String
  depth : Int

/-- The line is reported as a type outside of blocks. -/
def Tracker.reports (t : Tracker) (line : List Char) : Bool :=
  t.depth == 0 && isTypeLine (trim line) && !declares t.inSection

/-- Where the check stands behind a line. A line that is reported does not count. -/
def Tracker.next (t : Tracker) (line : List Char) : Tracker :=
  match (if t.depth == 0 then heading? (trim line) else none) with
  | some name => { t with inSection := some name }
  | none =>
    if t.reports line then t else { t with depth := max (t.depth + Braces.delta (trim line)) 0 }

/-- A line that declares a type has the key of that name. -/
theorem isTypeLine_iff_key? {s : List Char} :
    isTypeLine s = true ↔ ∃ value, key? s = some ("type", value) := by
  unfold isTypeLine
  constructor
  · intro h
    split at h
    next rest hrest =>
      have hs := after?_eq_some.1 hrest
      obtain ⟨value, hvalue⟩ : ∃ value, rest.dropWhile isBlank = ':' :: value := by
        obtain ⟨value, hvalue⟩ := Option.isSome_iff_exists.1 h
        exact ⟨value, after?_eq_some.1 hvalue⟩
      -- Neither a blank nor the colon continues a name.
      cases rest with
      | nil => cases hvalue
      | cons c more =>
        have hc : isNameChar c = false := by
          cases hblank : isBlank c with
          | true =>
            rw [isNameChar, isWord_of_isBlank hblank, Bool.false_or, beq_eq_false_iff_ne]
            rintro rfl
            exact absurd hblank (by decide)
          | false =>
            rw [dropWhile_of_head hblank] at hvalue
            rw [(List.cons.inj hvalue).1]
            decide
        refine ⟨value.dropWhile isBlank, ?_⟩
        rw [key?, hs, name?_append (by decide) hc]
        simp [hvalue]
    next => cases h
  · rintro ⟨value, h⟩
    unfold key? at h
    split at h
    next name rest hname =>
      split at h
      next v hcolon =>
        obtain ⟨htype, -⟩ := Prod.mk.inj (Option.some.inj h)
        have hs : s = "type".toList ++ rest := by
          rw [← append_of_name? hname, ← htype, String.toList_ofList]
        rw [after?_eq_some.2 hs]
        simp only [hcolon]
        rfl
      next => cases h
    next => cases h

/-- A line that declares a type opens a block of that name or assigns to it. -/
theorem isTypeLine_iff {s : List Char} :
    isTypeLine s = true ↔
      classify s = .opening "type" ∨ ∃ value, classify s = .assignment "type" value := by
  rw [isTypeLine_iff_key?]
  constructor
  · rintro ⟨value, hkey⟩
    rw [classify_of_key? hkey]
    split
    · exact .inl rfl
    · exact .inr ⟨value, rfl⟩
  · rintro (h | ⟨value, h⟩)
    · obtain ⟨rest, hkey⟩ := key?_of_classify_opening h
      exact ⟨_, hkey⟩
    · exact ⟨value, key?_of_classify_assignment h⟩

/-- A line that is reported is no heading. -/
theorem heading?_of_reports {t : Tracker} {line : List Char} (h : t.reports line = true) :
    heading? (trim line) = none := by
  obtain ⟨h, -⟩ := Bool.and_eq_true_iff.1 h
  have htype := isTypeLine_iff.1 (Bool.and_eq_true_iff.1 h).2
  rw [Option.eq_none_iff_forall_ne_some]
  intro name hname
  rw [classify_eq_heading_iff.2 hname] at htype
  simp at htype

/-- The check of declared types goes from line to line. -/
theorem strayTypes_cons (t : Tracker) (number : Nat) (line : List Char) (rest : List (List Char)) :
    strayTypes none t.inSection t.depth number (line :: rest) =
      (if t.reports line then [.strayType number t.inSection] else []) ++
        strayTypes none (t.next line).inSection (t.next line).depth (number + 1) rest := by
  cases hheading : (if t.depth == 0 then heading? (trim line) else none) with
  | some name =>
    have hreports : t.reports line = false := by
      rw [Bool.eq_false_iff]
      intro hreports
      rw [heading?_of_reports hreports] at hheading
      simp at hheading
    rw [strayTypes.eq_def, Tracker.next]
    simp only [hheading, hreports]
    rfl
  | none =>
    rw [strayTypes.eq_def, Tracker.next]
    simp only [hheading]
    obtain ⟨_ | name, depth⟩ := t
    all_goals
      show (if Tracker.reports _ line = true then _ else _) = _
      cases Tracker.reports _ line <;> rfl

end Issue

namespace Reader

/-- The line is stored as a type that stands in no block of a section for components. -/
def Visit.storesType (v : Visit) : Bool :=
  match v.meaning with
  | some (.assignment key _) => key == "type" && !Issue.declares v.before.current
  | _ => false

/-- The line opens a block that is named like the key of types. -/
def Visit.opensType (v : Visit) : Bool :=
  match v.meaning with
  | some (.opening name) => name == "type" && !Issue.declares v.before.current
  | _ => false

/-- The braces of a line mean the same to the check as to the reader. Inside of blocks the check
does not see the white space around a line, which may stand in front of a quote. Outside of blocks
it also counts the braces of lines that open no block. -/
def Visit.Counted (v : Visit) : Prop :=
  match v.meaning with
  | none => Braces.delta (trim v.line) = Braces.delta v.line
  | some (.heading _) | some (.opening _) => True
  | some _ => v.storesType = true ∨ Braces.delta (trim v.line) ≤ 0

instance (v : Visit) : Decidable v.Counted := by
  unfold Visit.Counted
  split <;> infer_instance

end Reader

namespace Issue

/-- The check and the reader stand at the same place. -/
structure InStep (t : Tracker) (st : State) : Prop where
  depth : t.depth = (st.block.map OpenBlock.depth).getD 0
  unclosed : ∀ b, st.block = some b → 0 < b.depth
  home : declares t.inSection = declares st.current

/-- Outside of blocks, a line that is no heading counts unless it is reported. -/
theorem Tracker.next_outside {t : Tracker} {line : List Char} (hdepth : t.depth = 0)
    (hno : ∀ name, classify (trim line) ≠ .heading name) :
    t.next line =
      if t.reports line then t else { t with depth := max (Braces.delta (trim line)) 0 } := by
  have hnone : heading? (trim line) = none := by
    rw [Option.eq_none_iff_forall_ne_some]
    exact fun name hname => hno name (classify_eq_heading_iff.2 hname)
  simp [Tracker.next, hdepth, hnone]

/-- Outside of blocks, a line that is reported or opens no brace changes nothing. -/
theorem Tracker.next_eq_self {t : Tracker} {line : List Char} (hdepth : t.depth = 0)
    (hno : ∀ name, classify (trim line) ≠ .heading name)
    (hflat : t.reports line = true ∨ Braces.delta (trim line) ≤ 0) : t.next line = t := by
  rw [Tracker.next_outside hdepth hno]
  rcases hflat with hreported | hflat
  · rw [if_pos hreported]
  · have hmax : max (Braces.delta (trim line)) 0 = t.depth := by omega
    rw [hmax, ite_self]

/-- Inside of a block the check reports nothing and sees no heading. -/
theorem InStep.next_inside {t : Tracker} {st : State} {b : OpenBlock} (h : InStep t st)
    (hblock : st.block = some b) (line : List Char) :
    t.reports line = false ∧
      t.next line = { t with depth := max (b.depth + Braces.delta (trim line)) 0 } := by
  have hdepth : t.depth = b.depth := by
    rw [h.depth, hblock]
    rfl
  have hpos := h.unclosed b hblock
  have hzero : (t.depth == 0) = false := by
    rw [beq_eq_false_iff_ne]
    omega
  have hreports : t.reports line = false := by
    rw [Tracker.reports, hzero]
    rfl
  refine ⟨hreports, ?_⟩
  rw [Tracker.next, hzero, hreports, hdepth]
  rfl

/-- Outside of blocks the check stands at depth zero. -/
theorem InStep.depth_outside {t : Tracker} {st : State} (h : InStep t st)
    (hblock : st.block = none) : t.depth = 0 := by
  rw [h.depth, hblock]
  rfl

/-- In step, the check reports the types that are stored, and the blocks that are named like
them. -/
theorem InStep.reports_eq {t : Tracker} {st : State} (h : InStep t st) (number : Nat)
    (line : List Char) :
    t.reports line =
      (Visit.storesType { before := st, number, line } ||
        Visit.opensType { before := st, number, line }) := by
  unfold Visit.storesType Visit.opensType Visit.meaning
  cases hblock : st.block with
  | some b => exact (h.next_inside hblock line).1
  | none =>
    have htype := isTypeLine_iff (s := trim line)
    rw [Tracker.reports, h.depth_outside hblock, h.home]
    simp only [beq_self_eq_true, Bool.true_and]
    generalize classify (trim line) = said at htype ⊢
    cases said with
    | opening name =>
      have hname : isTypeLine (trim line) = (name == "type") := by
        rw [Bool.eq_iff_iff, htype]
        simp
      simp [hname]
    | assignment key value =>
      have hkey : isTypeLine (trim line) = (key == "type") := by
        rw [Bool.eq_iff_iff, htype]
        simp
      simp [hkey]
    | blank | comment | heading name | closing | freeText =>
      have hno : isTypeLine (trim line) = false := by
        rw [Bool.eq_false_iff]
        intro hyes
        simpa using htype.1 hyes
      simp [hno]

/-- A block that goes on or is complete, seen from outside. -/
theorem inStep_settle {t : Tracker} {st st' : State} {b : OpenBlock} {number : Nat}
    (hhome : declares t.inSection = declares st.current) (hsettle : st.settle b number = .ok st') :
    InStep { t with depth := max b.depth 0 } st' := by
  rcases settle_ok hsettle with ⟨hpos, rfl⟩ | ⟨hzero, hclose⟩
  · refine ⟨?_, ?_, hhome⟩
    · show max b.depth 0 = b.depth
      omega
    · rintro b' hb'
      cases hb'
      exact hpos
  · obtain ⟨c, -, -, rfl⟩ := close_ok hclose
    refine ⟨?_, (fun b' hb' => nomatch hb'), ?_⟩
    · show max b.depth 0 = 0
      omega
    · rw [hhome]
      -- A block in front of all sections makes the preamble the current one.
      cases st.current with
      | none => rfl
      | some home => rfl

/-- A line whose braces mean the same to both keeps the check and the reader in step, unless it
opens a block that is named like the key of types. -/
theorem InStep.next {t : Tracker} {st st' : State} {number : Nat} {line : List Char}
    (h : InStep t st) (hstep : step st number line = .ok st')
    (hcounted : Visit.Counted { before := st, number, line })
    (hopens : Visit.opensType { before := st, number, line } = false) :
    InStep (t.next line) st' := by
  have hreports := h.reports_eq number line
  rw [hopens, Bool.or_false] at hreports
  rcases step_ok hstep with ⟨b, hblock, hsettle⟩ | ⟨hblock, heffect⟩
  · have hdelta : Braces.delta (trim line) = Braces.delta line := by
      simpa [Visit.Counted, Visit.meaning, hblock] using hcounted
    rw [(h.next_inside hblock line).2, hdelta]
    exact inStep_settle h.home hsettle
  · have hdepth := h.depth_outside hblock
    have hmeaning : Visit.meaning { before := st, number, line } = some (classify (trim line)) := by
      rw [Visit.meaning, hblock]
    have hheading : ∀ name, classify (trim line) = .heading name ↔
        heading? (trim line) = some name :=
      fun name => classify_eq_heading_iff
    have houtside := @Tracker.next_outside t line hdepth
    have hself := @Tracker.next_eq_self t line hdepth
    unfold Visit.Counted Visit.storesType at hcounted
    unfold Visit.opensType at hopens
    unfold Visit.storesType at hreports
    rw [hmeaning] at hcounted hopens hreports
    generalize classify (trim line) = said
      at heffect hcounted hopens hreports hheading houtside hself
    cases heffect with
    | blank hst | comment hst | freeText hst =>
      subst hst
      rw [hself (by simp) (.inr (by simpa using hcounted))]
      exact ⟨h.depth, h.unclosed, h.home⟩
    | @heading name hst =>
      subst hst
      have hnext : t.next line = { t with inSection := some name } := by
        simp [Tracker.next, hdepth, (hheading name).1 rfl]
      rw [hnext]
      exact ⟨h.depth, h.unclosed, rfl⟩
    | @opening name hsettle =>
      rw [houtside (by simp), hreports]
      exact inStep_settle h.home hsettle
    | @assignment key value v hread hst =>
      subst hst
      rw [hself (by simp) (by simpa [hreports] using hcounted)]
      obtain ⟨hassign, hcurrent⟩ := block_assign st key v
      refine ⟨?_, ?_, ?_⟩
      · rw [hassign]
        exact h.depth
      · rw [hassign]
        exact h.unclosed
      · rw [hcurrent]
        exact h.home

/-- The line of a defect, if it is a type outside of blocks. -/
def strayLine? : Issue → Option Nat
  | .strayType line _ => some line
  | _ => none

/-- In step from the start, the check reports exactly the types that are stored, as long as no block
is named like the key of types. -/
theorem strayTypes_eq_stored_iff {t : Tracker} {st st' : State} {number : Nat}
    {ls : List (List Char)} (hrun : run st number ls = .ok st') (h : InStep t st)
    (hcounted : ∀ v ∈ visits st number ls, v.Counted) :
    (strayTypes none t.inSection t.depth number ls).filterMap strayLine? =
        ((visits st number ls).filter Visit.storesType).map Visit.number ↔
      ∀ v ∈ visits st number ls, v.opensType = false := by
  induction ls generalizing t st number with
  | nil => simp [strayTypes, visits]
  | cons line rest ih =>
    obtain ⟨st₁, hfirst, hrest⟩ := run_cons_ok hrun
    have hreports := h.reports_eq number line
    rw [visits_cons hfirst] at hcounted ⊢
    obtain ⟨hhere, hlater⟩ := List.forall_mem_cons.1 hcounted
    rw [strayTypes_cons, List.forall_mem_cons, List.filterMap_append, hreports]
    cases hopens : Visit.opensType { before := st, number, line } with
    | true =>
      -- The line is reported and not stored, and no later line has its number.
      have hstores : Visit.storesType { before := st, number, line } = false := by
        unfold Visit.opensType at hopens
        unfold Visit.storesType
        split at hopens
        next hmeaning => simp [hmeaning]
        next => cases hopens
      have hne : ∀ v ∈ visits st₁ (number + 1) rest, v.number ≠ number := by
        intro v hv
        have hle := le_number_of_mem_visits v hv
        omega
      simp only [hstores, Bool.or_true, if_true, List.filter_cons, Bool.false_eq_true, if_false,
        reduceCtorEq, false_and, iff_false]
      intro heq
      have hmem : number ∈ ((visits st₁ (number + 1) rest).filter Visit.storesType).map
          Visit.number := by
        rw [← heq]
        exact List.mem_cons_self
      obtain ⟨v, hv, hnumber⟩ := List.mem_map.1 hmem
      exact hne v (List.mem_of_mem_filter hv) hnumber
    | false =>
      have hih := ih hrest (h.next hfirst hhere hopens) hlater
      cases hstores : Visit.storesType { before := st, number, line } with
      | true => simpa [hstores, strayLine?] using hih
      | false => simpa [hstores] using hih

/-- The lines of a blank text say nothing. -/
theorem meaning_of_allBlank {text : String} {d : Document} (hread : Document.read text = .ok d)
    (hblank : allBlank text.toList = true) :
    ∀ v ∈ Document.visits text, v.storesType = false ∧ v.opensType = false := by
  intro v hv
  obtain ⟨st, hrun, -⟩ := Document.read_ok hread
  have hline : v.line ∈ lines text.toList := by
    rw [← map_line_visits hrun]
    exact List.mem_map_of_mem hv
  have htrim : trim v.line = [] :=
    trim_of_allBlank fun c hc => List.all_eq_true.1 hblank c (mem_of_mem_lines v.line hline c hc)
  have hmeaning : v.meaning = none ∨ v.meaning = some .blank := by
    rw [Visit.meaning, htrim]
    cases v.before.block with
    | none => exact .inr rfl
    | some b => exact .inl rfl
  unfold Visit.storesType Visit.opensType
  rcases hmeaning with hmeaning | hmeaning <;> simp [hmeaning]

theorem strayLine?_missingSections (ls : List (List Char)) :
    (missingSections ls).filterMap strayLine? = [] := by
  simp [missingSections, List.filterMap_map, List.filterMap_eq_nil_iff, strayLine?]

theorem strayLine?_unevenLines (ls : List (List Char)) :
    (unevenLines ls).filterMap strayLine? = [] := by
  unfold unevenLines
  simp only
  split
  · rfl
  · split <;> rfl

/-- For a text that can be read and whose lines mean the same to the check and to the reader, the
check reports exactly the types that are stored outside of blocks, unless a block is named like the
key of types: such a block is reported as well. -/
theorem stray_types_are_stored_iff {text : String} {d : Document}
    (hread : Document.read text = .ok d) (hcounted : ∀ v ∈ Document.visits text, v.Counted) :
    ∃ issues, detect text = .ok issues ∧
      (issues.filterMap strayLine? =
          ((Document.visits text).filter Visit.storesType).map Visit.number ↔
        ∀ v ∈ Document.visits text, v.opensType = false) := by
  refine ⟨_, detect_of_read hread, ?_⟩
  split
  next hblank =>
    have hmeaning := meaning_of_allBlank hread hblank
    have hnone : (Document.visits text).filter Visit.storesType = [] :=
      List.filter_eq_nil_iff.2 fun v hv => Bool.eq_false_iff.1 (hmeaning v hv).1
    rw [hnone]
    exact iff_of_true rfl fun v hv => (hmeaning v hv).2
  next =>
    obtain ⟨st, hrun, -⟩ := Document.read_ok hread
    have hstart : InStep { inSection := none, depth := 0 } .start :=
      ⟨rfl, (fun b hb => nomatch hb), rfl⟩
    rw [List.filterMap_append, List.filterMap_append, strayLine?_missingSections,
      strayLine?_unevenLines, List.nil_append, List.append_nil]
    exact strayTypes_eq_stored_iff hrun hstart hcounted

/-- A text with a type outside of blocks, a type in a block and one among declarations. -/
def scatteredTypes : String :=
  "## UI Components\ntype: mystery\ncard: \x7b\n  type: panel\n  note: \"\x7b\"\n\x7d\n" ++
    "## Data Model\ntype: text\n"

/-- Only the first of the types is reported. -/
theorem stray_types_are_stored_iff_scattered :
    ∃ issues, detect scatteredTypes = .ok issues ∧ issues.filterMap strayLine? = [2] := by
  have hcounted : ∀ v ∈ Document.visits scatteredTypes, v.Counted := by decide +kernel
  have hopens : ∀ v ∈ Document.visits scatteredTypes, v.opensType = false := by decide +kernel
  have hstored :
      ((Document.visits scatteredTypes).filter Visit.storesType).map Visit.number = [2] := by
    decide +kernel
  obtain ⟨d, hread, -⟩ := Failure.exists_ok (x := Document.read scatteredTypes) (fun _ => true)
    (by decide +kernel)
  obtain ⟨issues, hdetect, hiff⟩ := stray_types_are_stored_iff hread hcounted
  exact ⟨issues, hdetect, (hiff.2 hopens).trans hstored⟩

end Issue

end PageCompiler
