import PageCompiler.Proofs.Block.RoundTrip
import PageCompiler.Proofs.Document.Line

/-!
# `PageCompiler.Proofs.Document.RoundTrip`: reading back a block from a document

A block that spans lines is cut out of its document by the count of braces, and only then read. The
count has to reach zero at the last line of the block and nowhere before, or a part of the block is
read as the whole. `run_inside` follows the lines of an open block to the brace that closes it, and
`run_block` adds the line that opens it. `read_written` puts this together with the reader of
values.
-/

set_option autoImplicit false

namespace PageCompiler

open Text

namespace Reader

/-! ### Steps -/

theorem step_inside {st : State} {b : OpenBlock} (h : st.block = some b) (number : Nat)
    (line : List Char) :
    step st number line =
      st.settle { b with lines := b.lines ++ [line], depth := b.depth + Braces.delta line }
        number := by
  rw [step, h]

theorem settle_closed {b : OpenBlock} (h : b.depth = 0) (st : State) (number : Nat) :
    st.settle b number = st.close b.name b.start b.lines := by
  rw [State.settle, h]
  rfl

theorem settle_open {b : OpenBlock} (h : 0 < b.depth) (st : State) (number : Nat) :
    st.settle b number = .ok { st with block := some b } := by
  rw [State.settle, if_neg (by omega), if_neg (by simp only [beq_iff_eq]; omega)]

theorem run_singleton (st : State) (number : Nat) (line : List Char) :
    run st number [line] = step st number line := by
  rw [run]
  cases step st number line with
  | error e => rfl
  | ok st => rfl

theorem run_cons {st st' : State} {number : Nat} {line : List Char} {rest : List (List Char)}
    (h : step st number line = .ok st') :
    run st number (line :: rest) = run st' (number + 1) rest := by
  rw [run, h]

/-! ### The lines of a block -/

/-- A line feed is met outside of quotes, and puts the scan at the start of a line. -/
theorem scan_feed {p p' : Braces.Place} {s : List Char} (h : p.scan ('\n' :: s) = some p') :
    Braces.Place.scan ⟨.outside ' ', p.depth⟩ s = some p' := by
  obtain ⟨q, d⟩ := p
  cases q with
  | outside x => exact h
  | inside x => cases h
  | escaped x => cases h

/-- The closing brace of a block, and what stands behind it. -/
theorem balance_closing {trail : List Char} (h : ∀ c ∈ trail, Block.isInlineGap c = true)
    (x : Char) : Braces.balance (.outside x) ('\x7d' :: trail) = -1 := by
  have hblank : ∀ c ∈ trail, isBlank c = true := fun c hc => Block.isBlank_of_inlineGap (h c hc)
  show -1 + Braces.balance (.outside '\x7d') trail = -1
  rw [Braces.balance_blank hblank]
  rfl

/-- An open block takes all lines up to its closing brace, if the scan of its inside does not give
up. -/
theorem run_inside {inner trail : List Char} {st : State} {b : OpenBlock} {d : Nat} {x : Char}
    {number : Nat} (hfed : LineFed inner) (htrail : ∀ c ∈ trail, Block.isInlineGap c = true)
    (hblock : st.block = some b) (hdepth : b.depth = d + 1)
    (hscan : Braces.Place.scan ⟨.outside ' ', d⟩ inner = some ⟨.outside x, 0⟩) :
    run st number (lines (inner ++ '\x7d' :: trail)) =
      st.close b.name b.start (b.lines ++ lines (inner ++ '\x7d' :: trail)) := by
  induction inner, hfed using LineFed.induction generalizing st b d number with
  | one line hline =>
    have hquiet : Braces.StartsQuietly ('\x7d' :: trail) :=
      Braces.startsQuietly_cons (by decide) (by decide)
    have hclosed : b.depth + Braces.delta (line ++ '\x7d' :: trail) = 0 := by
      rw [Braces.delta_of_scan hscan hline hquiet, balance_closing htrail, hdepth]
      show (d : Int) + 1 + (0 - d + -1) = 0
      omega
    have hlast : OneLine (line ++ '\x7d' :: trail) :=
      oneLine_append.2 ⟨hline, oneLine_cons.2 ⟨by decide, oneLine_of_inlineGap htrail⟩⟩
    rw [lines_of_oneLine hlast (by simp), run_singleton, step_inside hblock, settle_closed hclosed]
  | feed line s hline hs ih =>
    obtain ⟨p, hfirst, hrest⟩ := Braces.Place.scan_split hscan
    have hdelta : Braces.delta line = p.depth - d := by
      have h := Braces.delta_of_scan (t := []) hfirst hline (by intro c hc; cases hc)
      rw [List.append_nil, Braces.balance] at h
      omega
    -- The scan is at least zero levels deep inside of the block, so the block is not closed here.
    have hopen : 0 < b.depth + Braces.delta line := by omega
    rw [List.append_assoc, List.cons_append, lines_append_feed hline,
      run_cons ((step_inside hblock number line).trans (settle_open hopen st number)),
      ih rfl (by show b.depth + Braces.delta line = p.depth + 1; omega) (scan_feed hrest)]
    show st.close b.name b.start ((b.lines ++ [line]) ++ _) = _
    rw [List.append_assoc]
    rfl

/-- The line that opens a block. -/
theorem step_opening {st : State} {name gap rest : List Char} {number : Nat}
    (hblock : st.block = none) (hname : Bundle.isName name = true)
    (hgap : ∀ c ∈ gap, Block.isInlineGap c = true) :
    step st number (name ++ ':' :: (gap ++ '\x7b' :: rest)) =
      st.settle { name := String.ofList name, start := number,
                  lines := [name ++ ':' :: (gap ++ '\x7b' :: rest)],
                  depth := 1 + Braces.balance (.outside '\x7b') rest } number := by
  have hblank : ∀ c ∈ gap, isBlank c = true := fun c hc => Block.isBlank_of_inlineGap (hgap c hc)
  rw [step, hblock, delta_opening hname hgap, trim_opening hname, classify_opening hname hblank]

/-- A block takes all lines up to its closing brace. -/
theorem run_block {st : State} {name gap inner trail : List Char} {number : Nat} {x : Char}
    (hblock : st.block = none) (hname : Bundle.isName name = true)
    (hgap : ∀ c ∈ gap, Block.isInlineGap c = true) (hfed : LineFed inner)
    (htrail : ∀ c ∈ trail, Block.isInlineGap c = true)
    (hscan : Braces.Place.scan ⟨.outside '\x7b', 0⟩ inner = some ⟨.outside x, 0⟩) :
    run st number (lines (name ++ ':' :: (gap ++ '\x7b' :: (inner ++ '\x7d' :: trail)))) =
      st.close (String.ofList name) number
        (lines (name ++ ':' :: (gap ++ '\x7b' :: (inner ++ '\x7d' :: trail)))) := by
  have hfront : ∀ {s : List Char}, OneLine s → OneLine (name ++ ':' :: (gap ++ '\x7b' :: s)) :=
    fun hs => oneLine_append.2 ⟨oneLine_of_isName hname, oneLine_cons.2 ⟨by decide,
      oneLine_append.2 ⟨oneLine_of_inlineGap hgap, oneLine_cons.2 ⟨by decide, hs⟩⟩⟩⟩
  induction inner, hfed using LineFed.induction with
  | one line hline =>
    have hclosed : 1 + Braces.balance (.outside '\x7b') (line ++ '\x7d' :: trail) = 0 := by
      rw [Braces.balance_of_scan hscan hline, balance_closing htrail]
      rfl
    have hlast : OneLine (line ++ '\x7d' :: trail) :=
      oneLine_append.2 ⟨hline, oneLine_cons.2 ⟨by decide, oneLine_of_inlineGap htrail⟩⟩
    rw [lines_of_oneLine (hfront hlast) (by simp), run_singleton, step_opening hblock hname hgap,
      settle_closed hclosed]
  | feed line s hline hs _ =>
    obtain ⟨p, hfirst, hrest⟩ := Braces.Place.scan_split hscan
    have hbalance : Braces.balance (.outside '\x7b') line = p.depth := by
      have h := Braces.balance_of_scan hfirst hline []
      rw [List.append_nil, Braces.balance] at h
      rw [h]
      show (p.depth : Int) - 0 + 0 = p.depth
      omega
    have hopen : 0 < 1 + Braces.balance (.outside '\x7b') line := by omega
    have hlines : lines (name ++ ':' :: (gap ++ '\x7b' :: (line ++ '\n' :: s ++ '\x7d' :: trail))) =
        (name ++ ':' :: (gap ++ '\x7b' :: line)) :: lines (s ++ '\x7d' :: trail) := by
      rw [← lines_append_feed (hfront hline)]
      simp only [List.append_assoc, List.cons_append]
    rw [hlines, run_cons ((step_opening hblock hname hgap).trans (settle_open hopen st number)),
      run_inside hs htrail rfl
        (by show 1 + Braces.balance (.outside '\x7b') line = p.depth + 1; omega) (scan_feed hrest)]
    rfl

/-- A written map takes all lines up to its closing brace. -/
theorem run_written {st : State} {name gap s trail : List Char} {number : Nat} {fields : Fields}
    (hblock : st.block = none) (hname : Bundle.isName name = true)
    (hgap : ∀ c ∈ gap, Block.isInlineGap c = true) (h : Written (.value (.map fields)) s)
    (hp : (Value.map fields).isPlain = true) (hfed : LineFed s)
    (htrail : ∀ c ∈ trail, Block.isInlineGap c = true) :
    run st number (lines (name ++ ':' :: (gap ++ (s ++ trail)))) =
      st.close (String.ofList name) number (lines (name ++ ':' :: (gap ++ (s ++ trail)))) := by
  obtain ⟨inner, x, rfl, hinner, hscan⟩ := Braces.scan_inside h hp hfed
  rw [List.cons_append, List.append_assoc, List.singleton_append]
  exact run_block hblock hname hgap hinner htrail hscan

/-! ### The component of a block -/

/-- The body of a block starts at its brace. -/
theorem blockBody_append {name gap rest : List Char} (hname : Bundle.isName name = true)
    (hgap : ∀ c ∈ gap, Block.isInlineGap c = true) :
    blockBody (name ++ ':' :: (gap ++ '\x7b' :: rest)) = '\x7b' :: rest := by
  have hcolon : ∀ c ∈ name, (c != ':') = true := by
    intro c hc
    rw [bne_iff_ne]
    rintro rfl
    exact absurd (isNameChar_of_mem_name hname hc) (by decide)
  have hbrace : ∀ c ∈ ':' :: gap, (c != '\x7b') = true := by
    intro c hc
    rw [bne_iff_ne]
    rintro rfl
    rcases List.mem_cons.1 hc with hc | hc
    · exact absurd hc (by decide)
    · exact absurd (hgap _ hc) (by decide)
  rw [blockBody, List.dropWhile_append_of_pos hcolon, dropWhile_of_head (by decide),
    ← List.cons_append, List.dropWhile_append_of_pos hbrace, dropWhile_of_head (by decide)]

/-- The component of a written map. -/
theorem component_written {home : String} {name gap s trail : List Char} {fields : Fields}
    {number : Nat} {ls : List (List Char)} (hname : Bundle.isName name = true)
    (hgap : ∀ c ∈ gap, Block.isInlineGap c = true) (h : Written (.value (.map fields)) s)
    (hp : (Value.map fields).isPlain = true) (hfed : LineFed s)
    (htrail : ∀ c ∈ trail, Block.isInlineGap c = true)
    (hraw : join ['\n'] ls = name ++ ':' :: (gap ++ (s ++ trail))) :
    component home (String.ofList name) number ls =
      .ok { name := String.ofList name, patternName := patternName? fields, properties := fields,
            rawText := String.ofList (join ['\n'] ls), inSection := home, line := number } := by
  have hbody : blockBody (join ['\n'] ls) = s ++ trail := by
    cases h with
    | map hs hgap' =>
      rw [hraw, List.cons_append, blockBody_append hname hgap]
  unfold component
  simp only [hbody, Block.readBlock_written h hp hfed htrail]

/-- The first component of a section goes there alone. -/
theorem close_fresh {st : State} {home name : String} {start : Nat} {ls : List (List Char)}
    {c : Component} (hdoc : st.document = { metadata := [], sections := [Section.empty home] })
    (hcurrent : st.current = some home) (hc : component home name start ls = .ok c) :
    st.close name start ls =
      .ok { st with
        document := { metadata := [],
                      sections := [{ name := home, components := [c], properties := [] }] }
        block := none } := by
  have hensure : st.document.ensureSection home = st.document := by
    rw [hdoc, Document.ensureSection, Document.modifySection, modifySectionIn]
    simp [Section.empty]
  have hput : st.document.modifySection home (·.put c) =
      { metadata := [], sections := [{ name := home, components := [c], properties := [] }] } := by
    rw [hdoc, Document.modifySection, modifySectionIn]
    simp [Section.empty, Section.put, placeComponent]
  have hnone : ((st.document.section? home).bind fun s => s.component? name) = none := by
    rw [hdoc, Document.section?]
    simp [Section.empty, Section.component?]
  unfold State.close
  simp only [hcurrent, Option.getD_some, hensure, hnone, hc, hput]

end Reader

/-! ### Documents -/

/-- What ends a line: a single break, or a carriage return with its line feed. -/
def IsBreak (s : List Char) : Prop :=
  s = ['\r', '\n'] ∨ ∃ c, isLineBreak c = true ∧ s = [c]

theorem lines_append_isBreak {line brk s : List Char} (hline : OneLine line) (hbrk : IsBreak brk)
    (hs : s.head? ≠ some '\n') : lines (line ++ (brk ++ s)) = line :: lines s := by
  rcases hbrk with rfl | ⟨c, hc, rfl⟩
  · have hunify : unifyBreaks (line ++ (['\r', '\n'] ++ s)) = line ++ '\n' :: unifyBreaks s :=
      unifyBreaks_append hline
    rw [← lines_unifyBreaks, hunify, lines_append_feed hline, lines_unifyBreaks]
  · exact lines_append_break hline hc (fun _ => hs)

/-- A heading opens its section. -/
theorem Reader.step_heading {header t : List Char} (h : trim header = '#' :: '#' :: t) :
    step .start 1 header =
      .ok { State.start with
        document := { metadata := [],
                      sections := [Section.empty (sectionName (t.dropWhile (· == '#')))] }
        current := some (sectionName (t.dropWhile (· == '#'))) } := by
  rw [step, h]
  rfl

theorem head?_name_append {name s : List Char} (h : Bundle.isName name = true) :
    (name ++ s).head? ≠ some '\n' := by
  cases name with
  | nil => cases h
  | cons c more =>
    obtain ⟨hc, _⟩ := Bool.and_eq_true_iff.1 h
    rw [List.cons_append, List.head?_cons, ne_eq, Option.some.injEq]
    rintro rfl
    exact absurd hc (by decide)

/-- A written value with blanks and tabs behind it ends in no break. -/
theorem isLineBreak_last {v : Value} {a s trail : List Char} (h : Written (.value v) s)
    (htrail : ∀ c ∈ trail, Block.isInlineGap c = true) :
    ∀ c, (a ++ (s ++ trail)).getLast? = some c → isLineBreak c = false := by
  have hs : s ≠ [] := by
    obtain ⟨c, t, rfl, _⟩ := h.head
    simp
  have hends : ∀ c ∈ valueEnds, isLineBreak c = false := by decide
  intro c hc
  rw [getLast?_append_of_ne_nil (by simp [hs]), List.getLast?_append] at hc
  cases hlast : trail.getLast? with
  | none => exact hends c (h.last c (by simpa [hlast] using hc))
  | some d =>
    have hd : d = c := by simpa [hlast] using hc
    exact oneLine_of_inlineGap htrail c (hd ▸ List.mem_of_getLast? hlast)

/-- A block under a heading is read back, and nothing else is read. -/
theorem Document.read_written {header brk name gap s trail t : List Char} {fields : Fields}
    (hheader : OneLine header) (hmark : trim header = '#' :: '#' :: t) (hbrk : IsBreak brk)
    (hname : Bundle.isName name = true) (hgap : ∀ c ∈ gap, Block.isInlineGap c = true)
    (h : Written (.value (.map fields)) s) (hp : (Value.map fields).isPlain = true)
    (htrail : ∀ c ∈ trail, Block.isInlineGap c = true) :
    Document.read (String.ofList (header ++ (brk ++ (name ++ ':' :: (gap ++ (s ++ trail)))))) =
      .ok { metadata := [],
            sections := [{ name := sectionName (t.dropWhile (· == '#')),
                           components := [{ name := String.ofList name,
                                            patternName := Reader.patternName? fields,
                                            properties := fields,
                                            rawText := String.ofList
                                              (name ++ ':' :: (gap ++ (unifyBreaks s ++ trail))),
                                            inSection := sectionName (t.dropWhile (· == '#')),
                                            line := 2 }],
                           properties := [] }] } := by
  have hunify : unifyBreaks (name ++ ':' :: (gap ++ (s ++ trail))) =
      name ++ ':' :: (gap ++ (unifyBreaks s ++ trail)) := by
    rw [unifyBreaks_append (oneLine_of_isName hname), unifyBreaks_cons (by decide),
      unifyBreaks_append (oneLine_of_inlineGap hgap), h.unifyBreaks_append,
      unifyBreaks_of_oneLine (oneLine_of_inlineGap htrail)]
  have hraw : join ['\n'] (lines (name ++ ':' :: (gap ++ (unifyBreaks s ++ trail)))) =
      name ++ ':' :: (gap ++ (unifyBreaks s ++ trail)) := by
    have hlast := isLineBreak_last (a := name ++ ':' :: gap) h htrail
    rw [List.append_assoc, List.cons_append] at hlast
    rw [← hunify, lines_unifyBreaks, join_lines hlast]
  have hlines : lines (header ++ (brk ++ (name ++ ':' :: (gap ++ (s ++ trail))))) =
      header :: lines (name ++ ':' :: (gap ++ (unifyBreaks s ++ trail))) := by
    rw [lines_append_isBreak hheader hbrk (head?_name_append hname), ← hunify, lines_unifyBreaks]
  -- From here on all breaks of the block are line feeds.
  have hw : Written (.value (.map fields)) (unifyBreaks s) := h.unifyBreaks hp
  have hfed := lineFed_unifyBreaks s
  have hcomponent := @Reader.component_written (sectionName (t.dropWhile (· == '#'))) name gap
    (unifyBreaks s) trail fields 2 _ hname hgap hw hp hfed htrail hraw
  rw [hraw] at hcomponent
  rw [Document.read, Document.readAll, String.toList_ofList, hlines,
    Reader.run_cons (Reader.step_heading hmark),
    Reader.run_written rfl hname hgap hw hp hfed htrail, Reader.close_fresh rfl rfl hcomponent]
  rfl

/-- Reading undoes writing. A written value on one line is read back from an assignment. A written
map, over any lines, is read back as the one block under its heading. -/
theorem written_reads_back (v : Value) (hv : v.isPlain = true) :
    (∃ s, Written (.value v) s ∧ OneLine s) ∧
    (∀ s lead trail, Written (.value v) s → OneLine s →
      (∀ c ∈ lead, Block.isInlineGap c = true) → (∀ c ∈ trail, Block.isInlineGap c = true) →
      Block.readInline (lead ++ (s ++ trail)) = .ok v) ∧
    (∀ fields, v = .map fields → ∀ s header brk name lead trail t, Written (.value v) s →
      OneLine header → trim header = '#' :: '#' :: t → IsBreak brk → Bundle.isName name = true →
      (∀ c ∈ lead, Block.isInlineGap c = true) → (∀ c ∈ trail, Block.isInlineGap c = true) →
      ∃ c, Document.read (String.ofList
          (header ++ (brk ++ (name ++ ':' :: ' ' :: (lead ++ (s ++ trail)))))) =
        .ok { metadata := [],
              sections := [{ name := sectionName (t.dropWhile (· == '#')), components := [c],
                             properties := [] }] } ∧
        c.name = String.ofList name ∧ c.properties = fields ∧
        c.inSection = sectionName (t.dropWhile (· == '#')) ∧ c.line = 2) := by
  refine ⟨⟨v.write, v.written_write hv, v.oneLine_write hv⟩, ?_, ?_⟩
  · intro s lead trail h hone hlead htrail
    exact Block.readInline_written h hv hone hlead htrail
  · rintro fields rfl s header brk name lead trail t h hheader hmark hbrk hname hlead htrail
    have hgap : ∀ c ∈ ' ' :: lead, Block.isInlineGap c = true :=
      List.forall_mem_cons.2 ⟨rfl, hlead⟩
    have hread := Document.read_written hheader hmark hbrk hname hgap h hv htrail
    rw [List.cons_append] at hread
    exact ⟨_, hread, rfl, rfl, rfl, rfl⟩

/-- A key with a brace and a quote, a text with a comment sign and a backslash, on two lines. -/
theorem written_reads_back_nested :
    (Value.map [("a\"\x7d", .list [.int (-7), .text "# \\"]), ("b", .bool true)]).isPlain = true ∧
    ∃ c, Document.read "## UI\nCard: \x7b\"a\\\"\x7d\": [-7, \"# \\\\\"]\n\"b\": true\x7d" =
        .ok { metadata := [],
              sections := [{ name := "ui", components := [c], properties := [] }] } ∧
      c.name = "Card" ∧
      c.properties = [("a\"\x7d", .list [.int (-7), .text "# \\"]), ("b", .bool true)] := by
  have hplain : (Value.map [("a\"\x7d", .list [.int (-7), .text "# \\"]),
      ("b", .bool true)]).isPlain = true := by decide
  have hcomma : Gap true [',', ' '] := gap_comma true
  have hfeed : Gap true ['\n'] := ⟨by decide, fun _ => ⟨'\n', by decide, by decide⟩⟩
  have hlist : Written (.value (.list [.int (-7), .text "# \\"])) _ :=
    .list (.item gap_nil (.int (-7)) (.item hcomma (.text "# \\") (.noItem true))) gap_nil
  have hsecond : Written (.members true [("b", .bool true)]) _ :=
    @Written.member true "b" _ _ _ [] [' '] _ _ hfeed (by simp) (by decide) (.bool true)
      (.noMember true)
  have hfirst := @Written.member false "a\"\x7d" _ _ _ [] [' '] _ _ gap_nil (by simp) (by decide)
    hlist hsecond
  obtain ⟨c, hread, hname, hfields, _⟩ := (written_reads_back _ hplain).2.2 _ rfl _ "## UI".toList
    ['\n'] "Card".toList [] [] [' ', 'U', 'I'] (.map hfirst gap_nil) (by unfold OneLine; decide)
    (by decide) (.inr ⟨'\n', rfl, rfl⟩) (by decide) (by simp) (by simp)
  exact ⟨hplain, c, hread, hname, hfields⟩

end PageCompiler
