import PageCompiler.Proofs.Document.Placement

/-!
# `PageCompiler.Proofs.Document.Insertion`: blank lines and comments between blocks

A blank line or a comment that is put in between blocks says nothing, but it moves the lines behind
it. Line numbers are all that can show this: those of components, those of free text, and the one in
a failure.

`moved k` is the effect on what has been read when a line is put in behind the first `k` lines. A
step of the reader commutes with it (`step_moved`), as long as the step itself and the block that is
open lie behind the insertion, and so does a whole run (`run_moved`). A failure of a block is
counted from the line that opens the block, which is why an insertion inside of a block is left out.
What was read in front of the insertion does not move (`ReadTo.moved_eq`).
-/

set_option autoImplicit false

namespace PageCompiler

open Text

/-- A line that is blank, or a comment: without the white space at its ends it starts with a single
number sign. -/
def InertLine (line : List Char) : Prop :=
  allBlank line = true ∨ ∃ rest, trim line = '#' :: rest ∧ rest.head? ≠ some '#'

/-- The number of line `n` once a line is put in behind the first `k`. -/
def movedLine (k n : Nat) : Nat :=
  if k < n then n + 1 else n

theorem movedLine_of_lt {k n : Nat} (h : k < n) : movedLine k n = n + 1 :=
  if_pos h

theorem movedLine_of_le {k n : Nat} (h : n ≤ k) : movedLine k n = n :=
  if_neg (Nat.not_lt.2 h)

/-- A component whose line number is moved. -/
def Component.moved (k : Nat) (c : Component) : Component :=
  { c with line := movedLine k c.line }

/-- A section whose components are moved. -/
def Section.moved (k : Nat) (s : Section) : Section :=
  { s with components := s.components.map (Component.moved k) }

/-- A document whose components are moved. -/
def Document.moved (k : Nat) (d : Document) : Document :=
  { d with sections := d.sections.map (Section.moved k) }

/-- A failure one line further down. -/
def ParseError.moved (e : ParseError) : ParseError :=
  { e with line := e.line.map (· + 1) }

/-- A failure one line further down. A number with too many digits is reported without a line. -/
def ReadError.moved : ReadError → ReadError
  | .malformed e => .malformed e.moved
  | .numeral e => .numeral e

/-- The outcome of reading, with its line numbers moved. -/
def movedOutcome {α : Type} (move : α → α) : Except ReadError α → Except ReadError α
  | .ok a => .ok (move a)
  | .error e => .error e.moved

/-! ### Look-ups and changes -/

theorem Document.section?_moved (k : Nat) (d : Document) (name : String) :
    (d.moved k).section? name = (d.section? name).map (Section.moved k) :=
  List.find?_map

theorem Section.component?_moved (k : Nat) (s : Section) (name : String) :
    (s.moved k).component? name = (s.component? name).map (Component.moved k) :=
  List.find?_map

/-- Sections are changed in the same way further down. -/
theorem modifySectionIn_moved {k : Nat} {name : String} {f g : Section → Section}
    (h : ∀ s, (f s).moved k = g (s.moved k)) (l : List Section) :
    (modifySectionIn name f l).map (Section.moved k) =
      modifySectionIn name g (l.map (Section.moved k)) := by
  induction l with
  | nil =>
    show [(f (Section.empty name)).moved k] = [g (Section.empty name)]
    rw [h]
    rfl
  | cons s rest ih =>
    have hname : (s.moved k).name = s.name := rfl
    rw [modifySectionIn, List.map_cons, modifySectionIn, hname]
    split
    · rw [List.map_cons, h]
    · rw [List.map_cons, ih]

/-- A change of a section may be made before or after moving. -/
theorem Document.modifySection_moved {k : Nat} {d : Document} {name : String}
    {f g : Section → Section} (h : ∀ s, (f s).moved k = g (s.moved k)) :
    (d.modifySection name f).moved k = (d.moved k).modifySection name g := by
  rw [modifySection, modifySection, moved, moved, modifySectionIn_moved h]

theorem Document.ensureSection_moved (k : Nat) (d : Document) (name : String) :
    (d.ensureSection name).moved k = (d.moved k).ensureSection name :=
  modifySection_moved fun _ => rfl

/-- Components are placed in the same way further down. -/
theorem placeComponent_moved (k : Nat) (c : Component) (l : List Component) :
    (placeComponent c l).map (Component.moved k) =
      placeComponent (c.moved k) (l.map (Component.moved k)) := by
  induction l with
  | nil => rfl
  | cons first rest ih =>
    have hname : ∀ x : Component, (x.moved k).name = x.name := fun _ => rfl
    rw [placeComponent, List.map_cons, placeComponent, hname, hname]
    split
    · rfl
    · rw [List.map_cons, ih]

theorem Section.put_moved (k : Nat) (s : Section) (c : Component) :
    (s.put c).moved k = (s.moved k).put (c.moved k) := by
  simp only [Section.put, Section.moved, placeComponent_moved]

namespace Reader

/-! ### The reader -/

/-- What has been read, with its line numbers moved. -/
def State.moved (k : Nat) (st : State) : State :=
  { document := st.document.moved k
    current := st.current
    block := st.block.map fun b => { b with start := movedLine k b.start }
    freeText := st.freeText.map (movedLine k) }

/-- A block that is open was opened behind the first `k` lines. -/
def State.OpensBehind (k : Nat) (st : State) : Prop :=
  ∀ b, st.block = some b → k < b.start

section

variable {k start number : Nat} {st : State}

/-- The lines of a block give the same component one line further down, or the same failure. -/
theorem component_moved (h : k < start) (home name : String) (ls : List (List Char)) :
    component home name (start + 1) ls =
      movedOutcome (Component.moved k) (component home name start ls) := by
  simp only [component]
  cases Block.readBlock (blockBody (join ['\n'] ls)) with
  | ok properties => simp only [movedOutcome, Component.moved, movedLine_of_lt h]
  | error e =>
    cases e with
    | numeral e => rfl
    | broken reason rest =>
      -- The line is counted from the start of the block, so it moves along with it.
      have hline : ((start + 1 : Nat) : Int) + (countFeeds (join ['\n'] ls) - countFeeds rest) =
          start + (countFeeds (join ['\n'] ls) - countFeeds rest) + 1 := by omega
      simp only [movedOutcome, ReadError.moved, ParseError.moved, Option.map_some, hline]

/-- A block further down is closed in the same way, further down. -/
theorem close_moved (h : k < start) (name : String) (ls : List (List Char)) :
    (st.moved k).close name (start + 1) ls =
      movedOutcome (State.moved k) (st.close name start ls) := by
  have hcurrent : (st.moved k).current = st.current := rfl
  simp only [State.close, hcurrent]
  generalize st.current.getD preambleSection = home
  have hensure : (st.moved k).document.ensureSection home =
      (st.document.ensureSection home).moved k :=
    (Document.ensureSection_moved k st.document home).symm
  rw [hensure]
  generalize st.document.ensureSection home = d
  have hfound : (((d.moved k).section? home).bind fun s => s.component? name) =
      ((d.section? home).bind fun s => s.component? name).map (Component.moved k) := by
    rw [Document.section?_moved]
    cases d.section? home with
    | none => rfl
    | some s => exact Section.component?_moved k s name
  rw [hfound, component_moved h]
  cases (d.section? home).bind fun s => s.component? name with
  | some c => rfl
  | none =>
    cases component home name start ls with
    | error e => rfl
    | ok c =>
      have hput : (d.modifySection home (·.put c)).moved k =
          (d.moved k).modifySection home (·.put (c.moved k)) :=
        Document.modifySection_moved fun s => Section.put_moved k s c
      simp only [Option.map_none, movedOutcome, State.moved, hput]

/-- A block comes to the same, whether it stays open, is complete or fails. -/
theorem settle_moved {b : OpenBlock} (hstart : k < b.start) :
    (st.moved k).settle { b with start := b.start + 1 } (number + 1) =
      movedOutcome (State.moved k) (st.settle b number) := by
  unfold State.settle
  split
  · rfl
  · split
    · exact close_moved hstart b.name b.lines
    · simp only [movedOutcome, State.moved, Option.map_some, movedLine_of_lt hstart]

/-- Assignments do not depend on their line. -/
theorem assign_moved (key : String) (v : Value) :
    (st.moved k).assign key v = (st.assign key v).moved k := by
  unfold State.assign
  have hcurrent : (st.moved k).current = st.current := rfl
  rw [hcurrent]
  cases st.current with
  | none => rfl
  | some home =>
    have hproperties : (st.document.modifySection home fun s =>
        { s with properties := Assoc.insert s.properties key v }).moved k =
          (st.document.moved k).modifySection home fun s =>
            { s with properties := Assoc.insert s.properties key v } :=
      Document.modifySection_moved fun s => rfl
    simp only [State.moved, hproperties]

/-- A line behind the insertion has the same effect one line further down. -/
theorem step_moved (hnumber : k < number) (hst : st.OpensBehind k) (line : List Char) :
    step (st.moved k) (number + 1) line = movedOutcome (State.moved k) (step st number line) := by
  unfold step
  cases hblock : st.block with
  | some b =>
    have hstart := hst b hblock
    have hmoved : (st.moved k).block = some { b with start := b.start + 1 } := by
      rw [State.moved, hblock, Option.map_some, movedLine_of_lt hstart]
    simp only [hmoved]
    exact settle_moved (b := { b with lines := _, depth := _ }) hstart
  | none =>
    have hmoved : (st.moved k).block = none := by rw [State.moved, hblock, Option.map_none]
    simp only [hmoved]
    cases classify (trim line) with
    | blank | comment | closing => rfl
    | heading name =>
      simp only [movedOutcome, State.moved, Document.ensureSection_moved, Option.map_none]
    | opening name =>
      exact settle_moved (b := { name, start := number, lines := _, depth := _ }) hnumber
    | assignment key value =>
      simp only
      cases Block.readInline value with
      | ok v => simp only [movedOutcome, assign_moved]
      | error e => rfl
    | freeText =>
      simp only [movedOutcome, State.moved, List.map_append, List.map_singleton,
        movedLine_of_lt hnumber, Option.map_none]

/-- A line leaves the open block where it was opened, or opens one itself. -/
theorem opensBehind_step {st' : State} {line : List Char} (h : step st number line = .ok st')
    (hnumber : k < number) (hst : st.OpensBehind k) : st'.OpensBehind k := by
  have hsettle : ∀ {b : OpenBlock}, st.settle b number = .ok st' → k < b.start →
      st'.OpensBehind k := by
    intro b hb hstart
    rcases settle_ok hb with ⟨-, rfl⟩ | ⟨-, hclose⟩
    · intro b' hb'
      cases hb'
      exact hstart
    · obtain ⟨c, -, -, rfl⟩ := close_ok hclose
      exact fun b' hb' => nomatch hb'
  rcases step_ok h with ⟨b, hblock, hb⟩ | ⟨hblock, heffect⟩
  · exact hsettle hb (hst b hblock)
  · generalize classify (trim line) = said at heffect
    cases heffect with
    | blank hst' | comment hst' | heading hst' | freeText hst' =>
      subst hst'
      exact hst
    | opening hb => exact hsettle hb hnumber
    | assignment hread hst' =>
      subst hst'
      intro b hb
      rw [(block_assign st _ _).1] at hb
      exact hst b hb

/-- All lines behind the insertion have the same effect one line further down. -/
theorem run_moved (hnumber : k < number) (hst : st.OpensBehind k) (ls : List (List Char)) :
    run (st.moved k) (number + 1) ls = movedOutcome (State.moved k) (run st number ls) := by
  induction ls generalizing st number with
  | nil => rfl
  | cons line rest ih =>
    rw [run, run, step_moved hnumber hst]
    cases hstep : step st number line with
    | error e => rfl
    | ok st₁ => exact ih (Nat.lt_succ_of_lt hnumber) (opensBehind_step hstep hnumber hst)

theorem opensBehind_run {st' : State} {ls : List (List Char)} (h : run st number ls = .ok st')
    (hnumber : k < number) (hst : st.OpensBehind k) : st'.OpensBehind k := by
  induction ls generalizing st number with
  | nil =>
    cases h
    exact hst
  | cons line rest ih =>
    obtain ⟨st₁, hfirst, hrest⟩ := run_cons_ok h
    exact ih hrest (Nat.lt_succ_of_lt hnumber) (opensBehind_step hfirst hnumber hst)

/-- So is the end of the text. -/
theorem finish_moved (hst : st.OpensBehind k) :
    (st.moved k).finish = movedOutcome (State.moved k) st.finish := by
  unfold State.finish
  cases hblock : st.block with
  | none =>
    have hmoved : (st.moved k).block = none := by rw [State.moved, hblock, Option.map_none]
    simp only [hmoved, movedOutcome]
  | some b =>
    have hmoved : (st.moved k).block = some { b with start := b.start + 1 } := by
      rw [State.moved, hblock, Option.map_some, movedLine_of_lt (hst b hblock)]
    simp only [hmoved]
    rfl

/-- The lines behind the insertion up to the end of the text. -/
theorem finish_run_moved (hnumber : k < number) (hst : st.OpensBehind k) (ls : List (List Char)) :
    (run (st.moved k) (number + 1) ls).bind State.finish =
      movedOutcome (State.moved k) ((run st number ls).bind State.finish) := by
  rw [run_moved hnumber hst]
  cases hrun : run st number ls with
  | error e => rfl
  | ok st' => exact finish_moved (opensBehind_run hrun hnumber hst)

end

/-! ### In front of the insertion -/

/-- Free text stands in lines that were read. -/
theorem ReadTo.freeText_le {done : List (List Char)} {st : State} (h : ReadTo done st) :
    ∀ n ∈ st.freeText, n ≤ done.length := by
  induction h with
  | start => simp [State.start]
  | @line done st st' line h hsaid heffect ih =>
    have hold : ∀ n ∈ st.freeText, n ≤ (done ++ [line]).length := by
      intro n hn
      rw [List.length_append]
      exact Nat.le_add_right_of_le (ih n hn)
    generalize classify (trim line) = said at hsaid heffect
    cases heffect with
    | blank hst | comment hst | heading hst =>
      subst hst
      exact hold
    | opening hsettle => exact absurd rfl (hsaid _)
    | assignment hread hst =>
      subst hst
      unfold State.assign
      split
      · exact hold
      · exact hold
    | freeText hst =>
      subst hst
      refine List.forall_mem_append.2 ⟨hold, ?_⟩
      simp
  | block h hopening hown hclose ih =>
    obtain ⟨c, -, -, rfl⟩ := close_ok hclose
    intro n hn
    rw [List.length_append]
    exact Nat.le_add_right_of_le (ih n hn)

/-- What was read in front of the insertion stays where it is. -/
theorem ReadTo.moved_eq {done : List (List Char)} {st : State} (h : ReadTo done st) :
    st.moved done.length = st := by
  have hcomponent : ∀ s ∈ st.document.sections, ∀ c ∈ s.components,
      c.moved done.length = c := by
    intro s hs c hc
    have hlast := (h.placed.stands c ⟨s, hs, hc⟩).lastLine_le
    rw [Component.lastLine] at hlast
    rw [Component.moved, movedLine_of_le (by omega)]
  have hsection : ∀ s ∈ st.document.sections, s.moved done.length = s := by
    intro s hs
    rw [Section.moved, List.map_congr_left (hcomponent s hs), List.map_id']
  have hdocument : st.document.moved done.length = st.document := by
    rw [Document.moved, List.map_congr_left hsection, List.map_id']
  have hfree : st.freeText.map (movedLine done.length) = st.freeText := by
    rw [List.map_congr_left fun n hn => movedLine_of_le (h.freeText_le n hn), List.map_id']
  rw [State.moved, hdocument, hfree, h.block_eq_none, Option.map_none, ← h.block_eq_none]

/-- A blank line or a comment outside of blocks leaves everything as it is. -/
theorem step_inert {st : State} {line : List Char} (hline : InertLine line)
    (hblock : st.block = none) (number : Nat) : step st number line = .ok st := by
  have hsaid : classify (trim line) = .blank ∨ classify (trim line) = .comment := by
    rcases hline with hblank | ⟨rest, htrim, hsingle⟩
    · rw [trim_eq_nil_iff.2 hblank]
      exact .inl rfl
    · rw [htrim]
      unfold classify
      split
      · exact .inl rfl
      next heq =>
        cases heq
        exact absurd rfl hsingle
      · exact .inr rfl
      next heq => cases heq
      next hcomment _ => exact absurd rfl (hcomment rest)
  rw [step, hblock]
  rcases hsaid with hsaid | hsaid
  · rw [hsaid]
  · rw [hsaid]

end Reader

/-- Reading as one run over the lines of the text and a look at its end. -/
theorem Document.read_eq (text : String) :
    Document.read text = ((Reader.run .start 1 (lines text.toList)).bind Reader.State.finish).map
      Reader.State.document := by
  rw [Document.read, Document.readAll]
  cases Reader.run .start 1 (lines text.toList) with
  | error e => rfl
  | ok st =>
    show (st.finish.map _).map _ = st.finish.map _
    cases st.finish with
    | error e => rfl
    | ok st' => rfl

/-- A blank line or a comment behind lines that were read moves what the lines behind it give. -/
theorem Reader.ReadTo.finish_inert {before : List (List Char)} {st : State} (h : ReadTo before st)
    {line : List Char} (hline : InertLine line) (after : List (List Char)) :
    (Reader.run .start 1 (before ++ line :: after)).bind State.finish =
      movedOutcome (State.moved before.length)
        ((Reader.run .start 1 (before ++ after)).bind State.finish) := by
  have hbehind : st.OpensBehind before.length := by
    intro b hb
    rw [h.block_eq_none] at hb
    cases hb
  have hrun : ∀ ls, Reader.run .start 1 (before ++ ls) = Reader.run st (1 + before.length) ls := by
    intro ls
    rw [run_append, h.run]
    rfl
  have hnumber : before.length < 1 + before.length := by omega
  calc (Reader.run .start 1 (before ++ line :: after)).bind State.finish
      = (Reader.run st (1 + before.length + 1) after).bind State.finish := by
        rw [hrun, Reader.run, step_inert hline h.block_eq_none]
    _ = (Reader.run (st.moved before.length) (1 + before.length + 1) after).bind State.finish := by
        rw [h.moved_eq]
    _ = _ := by rw [finish_run_moved hnumber hbehind, hrun]

/-- Blank lines and comments between blocks are inert. Take a text that can be read, so that no
block is open at its end, a text that goes on from there, and one that goes on in the same way
behind one more line, which is blank or a comment. The last is read like the second, with every
component that starts behind the new line one line further down. Where the second cannot be read,
the last cannot either, for the same reason in the same section and one line further down. -/
theorem inert_line_moves_lines {front text text' : String} {d : Document} {line : List Char}
    {after : List (List Char)} (hfront : Document.read front = .ok d)
    (htext : lines text.toList = lines front.toList ++ after)
    (htext' : lines text'.toList = lines front.toList ++ line :: after) (hline : InertLine line) :
    Document.read text' =
      movedOutcome (Document.moved (lines front.toList).length) (Document.read text) := by
  obtain ⟨st, hread, -⟩ := Document.read_ok_iff.1 hfront
  rw [Document.read_eq, Document.read_eq, htext', htext, hread.finish_inert hline]
  cases (Reader.run .start 1 (lines front.toList ++ after)).bind Reader.State.finish with
  | error e => rfl
  | ok st' => rfl

/-- A property, a heading and a block. -/
def closedFront : String :=
  "title: A\r## UI Components\na: \x7b \x7d\n"

/-- A comment behind a block. The block behind it can be read in the first text, and lacks a colon
in the second. -/
theorem inert_line_moves_lines_comment :
    (∃ d, Document.read (closedFront ++ "\t# b: \x7d\nb: \x7b\n  x: 1\n\x7d") = .ok d ∧
      (d.sections.map fun s => s.components.map fun c => (c.name, c.line)) =
        [[("a", 3), ("b", 5)]]) ∧
    Document.read (closedFront ++ "\t# b: \x7d\nb: \x7b\n  x\n\x7d") =
      .error (.malformed ⟨.expectedColon, some 6, some "ui_components"⟩) := by
  obtain ⟨front, hfront, -⟩ := Failure.exists_ok (x := Document.read closedFront)
    (fun _ => true) (by decide +kernel)
  have hline : InertLine "\t# b: \x7d".toList :=
    .inr ⟨" b: \x7d".toList, by decide +kernel, by decide⟩
  constructor
  · let block := ["b: \x7b".toList, "  x: 1".toList, "\x7d".toList]
    have htext : lines (closedFront ++ "b: \x7b\n  x: 1\n\x7d").toList =
        lines closedFront.toList ++ block := by decide +kernel
    obtain ⟨d, hread, hd⟩ := Failure.exists_ok
      (x := Document.read (closedFront ++ "b: \x7b\n  x: 1\n\x7d"))
      (fun d => (d.moved 3).sections.map (fun s => s.components.map fun c => (c.name, c.line)) ==
        [[("a", 3), ("b", 5)]]) (by decide +kernel)
    refine ⟨d.moved 3, ?_, beq_iff_eq.1 hd⟩
    rw [inert_line_moves_lines hfront htext (by decide +kernel) hline, hread]
    rfl
  · let block := ["b: \x7b".toList, "  x".toList, "\x7d".toList]
    have htext : lines (closedFront ++ "b: \x7b\n  x\n\x7d").toList =
        lines closedFront.toList ++ block := by decide +kernel
    obtain ⟨e, hread, he⟩ := Failure.exists_error
      (x := Document.read (closedFront ++ "b: \x7b\n  x\n\x7d"))
      (fun e => e == .malformed ⟨.expectedColon, some 5, some "ui_components"⟩) (by decide +kernel)
    rw [inert_line_moves_lines hfront htext (by decide +kernel) hline, hread, beq_iff_eq.1 he]
    rfl

end PageCompiler
