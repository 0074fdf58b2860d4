import PageCompiler.Proofs.Block.Leftover
import PageCompiler.Proofs.Document.Reading

/-!
# `PageCompiler.Proofs.Document.Fault`: where a text stops being a document

A text that cannot be read fails at a line of it. `Fault e ls before first` says how this line lies
in the lines `ls`: everything in front of the line `first` was read with no block open, and the
failure `e` is at `first` or behind it. Either `first` opens the block that fails, or it closes a
block where none is open and is itself the line that fails.

The lines behind a failure are never looked at. So more lines change nothing, unless the failure is
that the text ended inside of a block.
-/

set_option autoImplicit false

namespace PageCompiler

open Text

/-- The failure is at one of the lines from `first` to `last`. -/
def ParseError.Within (e : ParseError) (first last : Nat) : Prop :=
  ∃ n : Nat, e.line = some (n : Int) ∧ first ≤ n ∧ n ≤ last

namespace Reader

/-- How a failure lies in lines. -/
structure Fault (e : ParseError) (ls before : List (List Char)) (first : List Char) : Prop where
  cut : ∃ after, ls = before ++ first :: after
  read : ∃ st, ReadTo before st
  within : e.Within (before.length + 1) ls.length
  said : (∃ name, classify (trim first) = .opening name) ∨
    classify (trim first) = .closing ∧ e.line = some ((before.length + 1 : Nat) : Int)

/-! ### Failures inside of a block -/

/-- A block that cannot be read fails at one of its lines. -/
theorem within_of_component {home name : String} {start : Nat} {first : List Char}
    {more : List (List Char)} {e : ParseError} (hown : ∀ l ∈ first :: more, OneLine l)
    (h : component home name start (first :: more) = .error (.malformed e)) :
    e.Within start (start + more.length) := by
  simp only [component] at h
  split at h
  · cases h
  · cases h
  next reason rest hread =>
    obtain rfl := ReadError.malformed.inj (Except.error.inj h)
    -- The text at which reading stopped is an end of the block, so it has at most as many feeds.
    have hrest : rest <:+ join ['\n'] (first :: more) :=
      (Block.suffix_of_broken_readBlock hread).trans
        ((List.dropWhile_suffix _).trans (List.dropWhile_suffix _))
    have hfeeds : countFeeds rest ≤ countFeeds (join ['\n'] (first :: more)) :=
      hrest.sublist.count_le '\n'
    have hall := countFeeds_join hown
    refine ⟨start + (countFeeds (join ['\n'] (first :: more)) - countFeeds rest), ?_, ?_, ?_⟩
    · show some _ = some _
      congr 1
      omega
    · omega
    · omega

/-- An error in a block is located in one of its lines. -/
theorem within_of_close {st : State} {name : String} {start : Nat} {first : List Char}
    {more : List (List Char)} {e : ParseError} (hown : ∀ l ∈ first :: more, OneLine l)
    (h : st.close name start (first :: more) = .error (.malformed e)) :
    e.Within start (start + more.length) := by
  unfold State.close at h
  simp only at h
  split at h
  · cases h
    exact ⟨start, rfl, Nat.le_refl start, Nat.le_add_right start more.length⟩
  · split at h
    next hcomponent =>
      cases h
      exact within_of_component hown hcomponent
    · cases h

/-- A block fails at one of its lines, whether a brace too many is closed or it cannot be read. -/
theorem within_of_settle {st : State} {name : String} {start : Nat} {first : List Char}
    {more : List (List Char)} {e : ParseError} (hown : ∀ l ∈ first :: more, OneLine l)
    (h : st.settle (.ofLines name start (first :: more)) (start + more.length) =
      .error (.malformed e)) : e.Within start (start + more.length) := by
  unfold State.settle at h
  split at h
  · cases h
    exact ⟨start + more.length, rfl, Nat.le_add_right start more.length, Nat.le_refl _⟩
  · split at h
    · exact within_of_close hown h
    · cases h

/-! ### Failures of a run -/

/-- A block that fails, fails behind lines that can be read. -/
theorem fault_of_settle {before more : List (List Char)} {st : State} {first : List Char}
    {name : String} {e : ParseError} (hread : ReadTo before st)
    (hopening : classify (trim first) = .opening name) (hown : ∀ l ∈ first :: more, OneLine l)
    (h : st.settle (.ofLines name (before.length + 1) (first :: more))
      (before.length + 1 + more.length) = .error (.malformed e)) :
    Fault e (before ++ first :: more) before first := by
  refine ⟨⟨more, rfl⟩, ⟨st, hread⟩, ?_, .inl ⟨name, hopening⟩⟩
  have hlength : (before ++ first :: more).length = before.length + 1 + more.length := by
    rw [List.length_append, List.length_cons]
    omega
  rw [hlength]
  exact within_of_settle hown h

/-- The line at which reading fails. -/
theorem fault_of_step {done : List (List Char)} {st : State} {line : List Char} {e : ParseError}
    (hst : Progress done st) (hline : OneLine line)
    (h : step st (done.length + 1) line = .error (.malformed e)) :
    ∃ before first, Fault e (done ++ [line]) before first := by
  cases hst with
  | outside hread =>
    refine ⟨done, line, ?_⟩
    cases hsaid : classify (trim line) with
    | opening name =>
      rw [step_first hread.block_eq_none hsaid] at h
      exact fault_of_settle hread hsaid (by simpa using hline) h
    | closing =>
      rw [step, hread.block_eq_none] at h
      simp only [hsaid] at h
      cases h
      refine ⟨⟨[], rfl⟩, ⟨st, hread⟩, ⟨done.length + 1, rfl, Nat.le_refl _, ?_⟩, .inr ⟨hsaid, rfl⟩⟩
      rw [List.length_append, List.length_singleton]
    | assignment key value =>
      -- A value that cannot be read is a number with too many digits, which is no such failure.
      rw [step, hread.block_eq_none] at h
      simp only [hsaid] at h
      split at h
      · cases h
      · cases h
    | blank | comment | heading | freeText =>
      rw [step, hread.block_eq_none] at h
      simp only [hsaid] at h
      cases h
  | @inside before more st₀ first name hread hopening hown hdone hst =>
    subst hdone
    subst hst
    refine ⟨before, first, ?_⟩
    rw [step_next] at h
    have hnumber : (before ++ first :: more).length + 1 =
        before.length + 1 + (more ++ [line]).length := by
      simp only [List.length_append, List.length_cons, List.length_nil]
      omega
    rw [hnumber] at h
    rw [List.append_assoc]
    refine fault_of_settle hread hopening ?_ h
    intro l hl
    rcases List.mem_append.1 (show l ∈ first :: more ++ [line] from hl) with hl | hl
    · exact hown.oneLine l hl
    · rw [List.mem_singleton.1 hl]
      exact hline

/-- Further lines do not move a failure. -/
theorem Fault.append {e : ParseError} {ls before : List (List Char)} {first : List Char}
    (h : Fault e ls before first) (further : List (List Char)) :
    Fault e (ls ++ further) before first := by
  obtain ⟨after, hcut⟩ := h.cut
  obtain ⟨n, hn, hfrom, hto⟩ := h.within
  refine ⟨⟨after ++ further, ?_⟩, h.read, ⟨n, hn, hfrom, ?_⟩, h.said⟩
  · rw [hcut, List.append_assoc]
    rfl
  · rw [List.length_append]
    omega

/-- A run that fails has read lines in full and fails at or behind the next. -/
theorem fault_of_run {done ls : List (List Char)} {st : State} {e : ParseError}
    (hst : Progress done st) (hls : ∀ l ∈ ls, OneLine l)
    (h : run st (done.length + 1) ls = .error (.malformed e)) :
    ∃ before first, Fault e (done ++ ls) before first := by
  induction ls generalizing done st with
  | nil => cases h
  | cons line rest ih =>
    obtain ⟨hline, hrest⟩ := List.forall_mem_cons.1 hls
    rw [← List.singleton_append, ← List.append_assoc]
    rw [run] at h
    split at h
    next e' hstep =>
      cases h
      obtain ⟨before, first, hfault⟩ := fault_of_step hst hline hstep
      exact ⟨before, first, hfault.append rest⟩
    next st₁ hstep =>
      have hnumber : done.length + 1 + 1 = (done ++ [line]).length + 1 := by simp
      rw [hnumber] at h
      exact ih (progress_step hst hline hstep) hrest h

end Reader

/-- A text that is no document fails at a line of it. Either the failure comes up while the lines
are read, or the text ends inside of a block. -/
theorem Document.fault_of_read {text : String} {e : ParseError}
    (h : Document.read text = .error (.malformed e)) :
    (∃ before first, Reader.Fault e (lines text.toList) before first) ∧
      (Reader.run .start 1 (lines text.toList) = .error (.malformed e) ∨
        e.reason = .unterminatedBlock) := by
  have hall := Failure.map_error h
  rw [Document.readAll] at hall
  have hlines : ∀ l ∈ lines text.toList, OneLine l := oneLine_of_mem_lines
  cases hrun : Reader.run .start 1 (lines text.toList) with
  | error e' =>
    rw [hrun] at hall
    cases hall
    exact ⟨Reader.fault_of_run (.outside .start) hlines hrun, .inl rfl⟩
  | ok st =>
    rw [hrun] at hall
    have hend : st.finish = .error (.malformed e) := Failure.map_error hall
    cases Reader.progress_run hrun hlines (.outside .start) with
    | outside hread =>
      rw [Reader.State.finish, hread.block_eq_none] at hend
      cases hend
    | @inside before more st₀ first name hread hopening hown hdone hst =>
      subst hst
      cases hend
      rw [List.nil_append] at hdone
      refine ⟨⟨before, first, ⟨more, hdone⟩, ⟨st₀, hread⟩, ⟨_, rfl, Nat.le_refl _, ?_⟩,
        .inl ⟨name, hopening⟩⟩, .inr rfl⟩
      show before.length + 1 ≤ _
      rw [hdone, List.length_append, List.length_cons]
      omega

/-! ### The lines in front of a failure -/

/-- An empty line at the end does not matter. -/
theorem Reader.ReadTo.of_concat_nil {ls : List (List Char)} {st : State}
    (h : ReadTo (ls ++ [[]]) st) : ReadTo ls st := by
  generalize hdone : ls ++ [[]] = done at h
  cases h with
  | start => exact absurd hdone (by simp)
  | @line done st st' line h hsaid heffect =>
    obtain ⟨rfl, hline⟩ := List.append_inj' hdone rfl
    cases hline
    have hblank : Effect st (ls.length + 1) [] _ .blank := heffect
    cases hblank with
    | blank hst =>
      rw [hst]
      exact h
  | @block done more st st' first name h hopening hown hclose =>
    cases more using List.reverseRecOn with
    | nil =>
      obtain ⟨rfl, hfirst⟩ := List.append_inj' hdone rfl
      cases hfirst
      cases hopening
    | append_singleton more line =>
      -- An empty line leaves the depth as it is, and so never completes a block.
      rw [← List.cons_append, ← List.append_assoc] at hdone
      obtain ⟨-, hline⟩ := List.append_inj' hdone rfl
      cases hline
      have hown : Gathered ((first :: more) ++ [[]]) := hown
      have hpos := hown.unclosed.positive (first :: more) (List.prefix_refl _) (by simp)
      have hzero := hown.balanced
      rw [Braces.total_append, Braces.total_singleton] at hzero
      have hdelta : Braces.delta [] = 0 := rfl
      omega

/-- Lines that were read make up a document. -/
theorem Reader.ReadTo.read_join {ls : List (List Char)} {st : State} (h : ReadTo ls st)
    (hls : ∀ l ∈ ls, OneLine l) :
    Document.read (String.ofList (join ['\n'] ls)) = .ok st.document := by
  refine Document.read_ok_iff.2 ⟨st, ?_, rfl⟩
  rw [String.toList_ofList]
  cases ls using List.reverseRecOn with
  | nil => exact h
  | append_singleton ls last =>
    have hfront : ∀ l ∈ ls, OneLine l := fun l hl => hls l (List.mem_append_left _ hl)
    rw [lines_join_concat hfront]
    by_cases hlast : last = []
    · subst hlast
      show ReadTo (ls ++ []) st
      rw [List.append_nil]
      exact h.of_concat_nil
    · rw [lines_of_oneLine (hls last (by simp)) hlast]
      exact h

/-- A text that is no document fails at a line `n` of it. There is a line `o`, not behind `n`, such
that the lines in front of `o` make up a document: `o` opens the block that fails, or it closes a
block where none is open and is `n` itself. Unless the failure is a block that does not end, it is
the same whatever further lines the text gets. -/
theorem parse_error_located_and_stable {text : String} {e : ParseError}
    (h : Document.read text = .error (.malformed e)) :
    (∃ n o : Nat, ∃ line, e.line = some (n : Int) ∧ 1 ≤ o ∧ o ≤ n ∧ n ≤ (lines text.toList).length ∧
      (lines text.toList)[o - 1]? = some line ∧
      ((∃ name, Reader.classify (trim line) = .opening name) ∨
        Reader.classify (trim line) = .closing ∧ o = n) ∧
      ∃ d, Document.read (String.ofList (join ['\n'] ((lines text.toList).take (o - 1)))) = .ok d) ∧
    (e.reason ≠ .unterminatedBlock →
      ∀ s : String, Document.read (text ++ "\n" ++ s) = .error (.malformed e)) := by
  obtain ⟨⟨before, first, hfault⟩, hwhen⟩ := Document.fault_of_read h
  constructor
  · obtain ⟨after, hcut⟩ := hfault.cut
    obtain ⟨st, hread⟩ := hfault.read
    obtain ⟨n, hn, hfrom, hto⟩ := hfault.within
    refine ⟨n, before.length + 1, first, hn, by omega, hfrom, hto, ?_, ?_, st.document, ?_⟩
    · rw [hcut]
      simp
    · refine hfault.said.imp_right fun hclosing => ⟨hclosing.1, ?_⟩
      have hline := hclosing.2
      rw [hn, Option.some.injEq] at hline
      omega
    · have htake : (lines text.toList).take (before.length + 1 - 1) = before := by
        rw [hcut]
        simp
      rw [htake]
      have hlines : ∀ l ∈ lines text.toList, OneLine l := oneLine_of_mem_lines
      rw [hcut] at hlines
      exact hread.read_join fun l hl => hlines l (List.mem_append_left _ hl)
  · intro hreason s
    have hrun := hwhen.resolve_right hreason
    obtain ⟨further, hfurther⟩ := lines_prefix_append text.toList s.toList
    have hlines : lines (text ++ "\n" ++ s).toList = lines text.toList ++ further := by
      rw [hfurther]
      congr 1
      simp
    rw [Document.read, Document.readAll, hlines, Reader.run_append, hrun]
    rfl

/-- A block on lines 4 to 6 whose list has not ended where the block does. -/
def brokenList : String :=
  "# a page\r\n## UI Components\n\ncard: \x7b\n  items: [1,\n\x7d"

/-- The failure is at the last line of the block, and stays there. -/
theorem parse_error_located_and_stable_list :
    ∃ e : ParseError, Document.read brokenList = .error (.malformed e) ∧ e.line = some 6 ∧
      (∃ o ≤ 6, ∃ d, Document.read
        (String.ofList (join ['\n'] ((lines brokenList.toList).take (o - 1)))) = .ok d) ∧
      ∀ s : String, Document.read (brokenList ++ "\n" ++ s) = .error (.malformed e) := by
  obtain ⟨e, hread, he⟩ := Failure.exists_error (x := Document.read brokenList)
    (fun e => e == .malformed ⟨.expectedValue, some 6, some "ui_components"⟩) (by decide +kernel)
  obtain rfl := beq_iff_eq.1 he
  obtain ⟨⟨n, o, line, hn, -, ho, -, -, -, hfront⟩, hstable⟩ := parse_error_located_and_stable hread
  refine ⟨_, hread, rfl, ⟨o, ?_, hfront⟩, hstable (by decide)⟩
  have hsix : (6 : Int) = n := Option.some.inj hn
  omega

end PageCompiler
