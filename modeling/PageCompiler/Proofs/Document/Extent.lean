import Mathlib.Algebra.Ring.Int.Defs
import PageCompiler.Proofs.Block.Leftover
import PageCompiler.Proofs.Failure
import PageCompiler.Proofs.Document.Visits

/-!
# `PageCompiler.Proofs.Document.Extent`: how far a block reaches

The extent of a block is decided twice. The lines are gathered until their braces balance, line by
line, and then the reader of blocks reads the members up to a closing brace. `Gathered` says what
holds of the lines of every component that was read: their braces balance behind the last line, and
behind none before it. From this, `block_read_in_full_iff` tells when the reader of blocks comes as
far as the last line.
-/

set_option autoImplicit false

namespace PageCompiler

open Text

namespace Braces

/-- What lines add to the depth together. -/
def total (ls : List (List Char)) : Int :=
  (ls.map delta).sum

@[simp] theorem total_nil : total [] = 0 :=
  rfl

@[simp] theorem total_append (p q : List (List Char)) : total (p ++ q) = total p + total q := by
  simp [total]

@[simp] theorem total_singleton (line : List Char) : total [line] = delta line := by
  simp [total]

/-- The depth at the end of a text. -/
def depthAfter (s : List Char) : Int :=
  total (lines s)

/-- The depth behind lines is the sum of what each adds. -/
theorem depthAfter_join {ls : List (List Char)} (h : ∀ l ∈ ls, OneLine l) :
    depthAfter (join ['\n'] ls) = total ls := by
  induction ls with
  | nil => rfl
  | cons line rest ih =>
    obtain ⟨hline, hrest⟩ := List.forall_mem_cons.1 h
    cases rest with
    | nil =>
      cases line with
      | nil => rfl
      | cons c line => rw [join, depthAfter, lines_of_oneLine hline (by simp)]
    | cons next more =>
      rw [join_cons (by simp), List.append_assoc, List.singleton_append, depthAfter,
        lines_append_feed hline, ← List.singleton_append, total_append, ← depthAfter, ih hrest,
        ← total_append, List.singleton_append]

/-- White space in front of a character that is no quote means nothing. -/
theorem balance_blank_append {lead s : List Char} {c : Char} (hlead : ∀ d ∈ lead, isBlank d = true)
    (hc : Scalar.isQuote c = false) (x y : Char) :
    balance (.outside x) (lead ++ c :: s) = balance (.outside y) (c :: s) := by
  induction lead generalizing x with
  | nil => simp [balance, weight, Quoting.next, hc]
  | cons d lead ih =>
    obtain ⟨hd, hlead⟩ := List.forall_mem_cons.1 hlead
    have hquote : Scalar.isQuote d = false := by
      rw [Bool.eq_false_iff]
      intro hquote
      rcases (by simpa [Scalar.isQuote] using hquote : d = '"' ∨ d = '\x27') with rfl | rfl
      · exact absurd hd (by decide)
      · exact absurd hd (by decide)
    have hweight : balance (.outside x) [d] = 0 := balance_blank (by simp [hd]) _
    rw [List.cons_append, balance, Quoting.next, hquote, Bool.false_and, if_neg (by decide),
      ih hlead d]
    rw [balance, balance] at hweight
    omega

/-- The white space around a line does not count, if neither a quote nor a comment comes first. -/
theorem delta_trim {line rest : List Char} {c : Char} (htrim : trim line = c :: rest)
    (hquote : Scalar.isQuote c = false) (hquiet : c ≠ '#' ∧ c ≠ '/') (hc : isBlank c = false) :
    delta (trim line) = delta line := by
  obtain ⟨lead, trail, hline, hlead, htrail⟩ := exists_trim_append line
  have hstarts : StartsQuietly line := by
    intro d hd
    rw [hline, List.dropWhile_append_of_pos hlead, htrim, List.cons_append, dropWhile_of_head hc,
      List.head?_cons, Option.some.injEq] at hd
    exact hd ▸ hquiet
  have hcomment : isCommentLine (trim line) = false := by
    rw [htrim]
    exact isCommentLine_of_startsQuietly (startsQuietly_cons hquiet hc)
  rw [delta, delta, hcomment, isCommentLine_of_startsQuietly hstarts, if_neg (by decide),
    if_neg (by decide)]
  calc balance (.outside ' ') (trim line)
      = balance (.outside ' ') (trim line ++ trail) := (balance_append_blank htrail _ _).symm
    _ = balance (.outside ' ') (lead ++ (trim line ++ trail)) := by
      rw [htrim, List.cons_append, balance_blank_append hlead hquote]
    _ = balance (.outside ' ') line := by rw [← hline]

end Braces

namespace Reader

/-- The line that opens a block counts as it stands. -/
theorem delta_trim_of_opening {line : List Char} {name : String}
    (h : classify (trim line) = .opening name) : Braces.delta (trim line) = Braces.delta line := by
  obtain ⟨rest, hkey⟩ := key?_of_classify_opening h
  obtain ⟨c, more, htrim, hc⟩ := exists_cons_of_key? hkey
  -- Quotes and the signs of comments come before all letters.
  have hcode := toNat_of_isNameStart hc
  refine Braces.delta_trim htrim ?_ ⟨?_, ?_⟩ (isBlank_of_isNameStart hc)
  · rw [Scalar.isQuote, Bool.or_eq_false_iff, beq_eq_false_iff_ne, beq_eq_false_iff_ne]
    constructor
    · rintro rfl
      exact absurd hcode (by decide)
    · rintro rfl
      exact absurd hcode (by decide)
  · rintro rfl
    exact absurd hcode (by decide)
  · rintro rfl
    exact absurd hcode (by decide)

/-- The lines of a block that is not complete: behind each of them a brace is open. -/
structure Unclosed (ls : List (List Char)) : Prop where
  oneLine : ∀ l ∈ ls, OneLine l
  positive : ∀ p, p <+: ls → p ≠ [] → 0 < Braces.total p

/-- The lines of a block that is complete: the braces balance behind the last line, and behind none
before it. -/
structure Gathered (ls : List (List Char)) : Prop where
  oneLine : ∀ l ∈ ls, OneLine l
  balanced : Braces.total ls = 0
  positive : ∀ p, p <+: ls → p ≠ [] → p ≠ ls → 0 < Braces.total p

theorem Unclosed.nil : Unclosed [] :=
  ⟨by simp, fun p hp hne => absurd (List.prefix_nil.1 hp) hne⟩

/-- One more line leaves the block open, if its depth stays positive. -/
theorem Unclosed.concat {ls : List (List Char)} {line : List Char} (h : Unclosed ls)
    (hline : OneLine line) (hpos : 0 < Braces.total (ls ++ [line])) : Unclosed (ls ++ [line]) := by
  refine ⟨?_, ?_⟩
  · intro l hl
    rcases List.mem_append.1 hl with hl | hl
    · exact h.oneLine l hl
    · rw [List.mem_singleton.1 hl]
      exact hline
  · intro p hp hne
    rcases List.prefix_concat_iff.1 hp with rfl | hp
    · exact hpos
    · exact h.positive p hp hne

/-- One more line completes the block, if its depth comes to zero. -/
theorem Unclosed.gathered {ls : List (List Char)} {line : List Char} (h : Unclosed ls)
    (hline : OneLine line) (hzero : Braces.total (ls ++ [line]) = 0) : Gathered (ls ++ [line]) := by
  refine ⟨?_, hzero, ?_⟩
  · intro l hl
    rcases List.mem_append.1 hl with hl | hl
    · exact h.oneLine l hl
    · rw [List.mem_singleton.1 hl]
      exact hline
  · intro p hp hne hall
    rcases List.prefix_concat_iff.1 hp with rfl | hp
    · exact absurd rfl hall
    · exact h.positive p hp hne

/-- The text of a component holds gathered lines, and its properties were read from it. -/
def Enclosed (c : Component) : Prop :=
  ∃ ls fields, c.rawText.toList = join ['\n'] ls ∧ Gathered ls ∧
    Block.readBlock (blockBody c.rawText.toList) = .ok fields

/-- What has been read: an open block is unclosed, and every component is enclosed. -/
structure State.Enclosing (st : State) : Prop where
  block : ∀ b, st.block = some b → Unclosed b.lines ∧ b.depth = Braces.total b.lines
  components : ∀ s ∈ st.document.sections, ∀ c ∈ s.components, Enclosed c

/-- Placing a component adds only this one. -/
theorem mem_placeComponent {c x : Component} {l : List Component} (h : x ∈ placeComponent c l) :
    x = c ∨ x ∈ l := by
  induction l with
  | nil => exact .inl (List.mem_singleton.1 h)
  | cons first rest ih =>
    rw [placeComponent] at h
    split at h
    · exact (List.mem_cons.1 h).imp_right (List.mem_cons_of_mem _)
    · rcases List.mem_cons.1 h with rfl | h
      · exact .inr List.mem_cons_self
      · exact (ih h).imp_right (List.mem_cons_of_mem _)

/-- A change to one section keeps what is said of all components, if it does so there. -/
theorem components_modifySection {d : Document} {P : Component → Prop} {name : String}
    {f : Section → Section} (h : ∀ s ∈ d.sections, ∀ c ∈ s.components, P c)
    (hf : ∀ s, (∀ c ∈ s.components, P c) → ∀ c ∈ (f s).components, P c) :
    ∀ s ∈ (d.modifySection name f).sections, ∀ c ∈ s.components, P c := by
  intro s hs
  rcases mem_modifySectionIn hs with hs | rfl
  · exact h s hs
  · apply hf
    cases hfind : d.sections.find? fun s => s.name == name with
    | none =>
      intro c hc
      cases hc
    | some s => exact h s (List.mem_of_find?_eq_some hfind)

/-- A block that is complete is enclosed. -/
theorem enclosing_close {st st' : State} {name : String} {start : Nat} {ls : List (List Char)}
    (h : st.close name start ls = .ok st') (hst : st.Enclosing) (hls : Gathered ls) :
    st'.Enclosing := by
  obtain ⟨c, hc, -, rfl⟩ := close_ok h
  obtain ⟨properties, hread, rfl⟩ := component_ok hc
  refine ⟨(fun b hb => nomatch hb), components_modifySection ?_ ?_⟩
  · exact components_modifySection hst.components fun s hs => hs
  · intro s hs x hx
    rcases mem_placeComponent hx with rfl | hx
    · exact ⟨ls, properties, String.toList_ofList, hls, by rwa [String.toList_ofList]⟩
    · exact hs x hx

/-- A line that was added to an open block leaves it open or completes it. -/
theorem enclosing_settle {st st' : State} {ls : List (List Char)} {line : List Char} {name : String}
    {start number : Nat} {depth : Int} (hst : st.Enclosing) (hls : Unclosed ls)
    (hline : OneLine line) (hdepth : depth = Braces.total (ls ++ [line]))
    (h : st.settle { name, start, lines := ls ++ [line], depth } number = .ok st') :
    st'.Enclosing := by
  rcases settle_ok h with ⟨hpos, rfl⟩ | ⟨hzero, hclose⟩
  · refine ⟨?_, hst.components⟩
    intro b hb
    cases hb
    exact ⟨hls.concat hline (hdepth ▸ hpos), hdepth⟩
  · exact enclosing_close hclose hst (hls.gathered hline (hdepth ▸ hzero))

/-- One line keeps the blocks read so far enclosed. -/
theorem enclosing_step {st st' : State} {number : Nat} {line : List Char}
    (h : step st number line = .ok st') (hline : OneLine line) (hst : st.Enclosing) :
    st'.Enclosing := by
  rcases step_ok h with ⟨b, hblock, hsettle⟩ | ⟨hblock, heffect⟩
  · obtain ⟨hunclosed, hdepth⟩ := hst.block b hblock
    refine enclosing_settle hst hunclosed hline ?_ hsettle
    rw [Braces.total_append, Braces.total_singleton, hdepth]
  · have hopening := fun name => @delta_trim_of_opening line name
    generalize classify (trim line) = said at heffect hopening
    cases heffect with
    | blank hst' | comment hst' | freeText hst' =>
      subst hst'
      exact ⟨hst.block, hst.components⟩
    | heading hst' =>
      subst hst'
      exact ⟨hst.block, components_modifySection hst.components fun s hs => hs⟩
    | opening hsettle =>
      refine enclosing_settle hst Unclosed.nil hline ?_ hsettle
      simpa using hopening _ rfl
    | @assignment key value v _ hst' =>
      subst hst'
      refine ⟨?_, ?_⟩
      · rw [(block_assign st key v).1]
        exact hst.block
      · unfold State.assign
        split
        · exact hst.components
        · exact components_modifySection hst.components fun s hs => hs

/-- So do any number of lines. -/
theorem enclosing_run {st st' : State} {number : Nat} {ls : List (List Char)}
    (h : run st number ls = .ok st') (hls : ∀ l ∈ ls, OneLine l) (hst : st.Enclosing) :
    st'.Enclosing := by
  induction ls generalizing st number with
  | nil =>
    cases h
    exact hst
  | cons line rest ih =>
    obtain ⟨hline, hrest⟩ := List.forall_mem_cons.1 hls
    obtain ⟨st₁, hfirst, hlater⟩ := run_cons_ok h
    exact ih hlater hrest (enclosing_step hfirst hline hst)

end Reader

/-- Every component of a document is enclosed. -/
theorem Document.enclosed_of_read {text : String} {d : Document} (h : Document.read text = .ok d) :
    ∀ s ∈ d.sections, ∀ c ∈ s.components, Reader.Enclosed c := by
  obtain ⟨st, hrun, -, rfl⟩ := Document.read_ok h
  have hstart : Reader.State.start.Enclosing :=
    ⟨(fun b hb => nomatch hb), by simp [Reader.State.start, Document.empty]⟩
  exact (Reader.enclosing_run hrun oneLine_of_mem_lines hstart).components

/-- A place in gathered lines that is not on the last line cuts them in two. Behind its line a brace
is open. -/
theorem Reader.Gathered.cut {ls : List (List Char)} (h : Gathered ls) {front rest : List Char}
    (hjoin : join ['\n'] ls = front ++ rest) (hfeed : '\n' ∈ rest) :
    ∃ p q, ls = p ++ q ∧ join ['\n'] q <:+ rest ∧ 0 < Braces.total p ∧
      Braces.depthAfter (front ++ rest.takeWhile (· != '\n')) = Braces.total p := by
  obtain ⟨here, more, rfl, hhere⟩ := List.eq_append_cons_of_mem hfeed
  have hline : (here ++ '\n' :: more).takeWhile (· != '\n') = here := by
    rw [List.takeWhile_append_of_pos]
    · simp
    · intro c hc
      rw [bne_iff_ne]
      rintro rfl
      exact hhere hc
  rw [← List.append_assoc] at hjoin
  obtain ⟨p, q, rfl, hp, hq, hfront, hmore⟩ := join_eq_append h.oneLine hjoin
  refine ⟨p, q, rfl, ?_, ?_, ?_⟩
  · rw [hmore]
    exact (List.suffix_cons _ _).trans (List.suffix_append _ _)
  · refine h.positive p (List.prefix_append p q) hp fun heq => hq ?_
    simpa using heq
  · rw [hline, ← hfront]
    exact Braces.depthAfter_join fun l hl => h.oneLine l (List.mem_append_left _ hl)

/-- Gathered lines that are read to the last line are read to where their braces balance. -/
theorem Reader.Gathered.depthAfter_eq_zero {ls : List (List Char)} (h : Gathered ls)
    {front rest : List Char} (hjoin : join ['\n'] ls = front ++ rest) (hfeed : '\n' ∉ rest) :
    Braces.depthAfter (front ++ rest.takeWhile (· != '\n')) = 0 := by
  have hall : rest.takeWhile (· != '\n') = rest := by
    rw [List.takeWhile_eq_self_iff]
    intro c hc
    rw [bne_iff_ne]
    rintro rfl
    exact hfeed hc
  rw [hall, ← hjoin, Braces.depthAfter_join h.oneLine, h.balanced]

namespace Block

/-- Separators behind a block. -/
def isTrailer (c : Char) : Bool :=
  isBlank c || c == ',' || c == ';'

/-- Behind a block stand separators only, or a number sign comes first. -/
theorem endsCleanly_cases {rest : List Char} (h : endsCleanly rest = true) :
    (∀ c ∈ rest, isTrailer c = true) ∨
      ∃ lead more, rest = lead ++ '#' :: more ∧ ∀ c ∈ lead, isTrailer c = true := by
  have hblank : ∀ {c : Char}, isBlank c = true → isTrailer c = true := by
    intro c hc
    simp [isTrailer, hc]
  unfold endsCleanly at h
  -- White space, separators, white space again, and then what is checked.
  obtain ⟨lead, trail, hrest, hlead, htrail⟩ := exists_trim_append rest
  generalize trim rest = body at hrest h
  have hbody := List.takeWhile_append_dropWhile (p := fun c => c == ',' || c == ';') (l := body)
  have hseparators : ∀ c ∈ body.takeWhile fun c => c == ',' || c == ';', isTrailer c = true := by
    intro c hc
    have hsign := List.mem_takeWhile_imp hc
    rw [isTrailer, Bool.or_assoc, hsign, Bool.or_true]
  generalize body.takeWhile (fun c => c == ',' || c == ';') = separators at hbody hseparators
  generalize body.dropWhile (fun c => c == ',' || c == ';') = inner at hbody h
  obtain ⟨lead', trail', hinner, hlead', htrail'⟩ := exists_trim_append inner
  generalize trim inner = checked at hinner h
  subst hinner
  subst hbody
  have hfront : ∀ c ∈ lead ++ separators ++ lead', isTrailer c = true := by
    intro c hc
    rcases List.mem_append.1 hc with hc | hc
    · rcases List.mem_append.1 hc with hc | hc
      · exact hblank (hlead c hc)
      · exact hseparators c hc
    · exact hblank (hlead' c hc)
  cases checked with
  | nil =>
    refine .inl fun c hc => ?_
    rw [hrest, List.nil_append, ← List.append_assoc, ← List.append_assoc, ← List.append_assoc] at hc
    rcases List.mem_append.1 hc with hc | hc
    · rcases List.mem_append.1 hc with hc | hc
      · exact hfront c hc
      · exact hblank (htrail' c hc)
    · exact hblank (htrail c hc)
  | cons d more =>
    obtain rfl := beq_iff_eq.1 h
    refine .inr ⟨lead ++ separators ++ lead', more ++ trail' ++ trail, ?_, hfront⟩
    rw [hrest]
    simp

end Block

/-- Lines of separators do not count. -/
theorem Braces.total_eq_zero_of_trailers {ls : List (List Char)}
    (h : ∀ l ∈ ls, ∀ c ∈ l, Block.isTrailer c = true) : Braces.total ls = 0 := by
  induction ls with
  | nil => rfl
  | cons line rest ih =>
    obtain ⟨hline, hrest⟩ := List.forall_mem_cons.1 h
    have hdelta : delta line = 0 := by
      unfold delta
      split
      · rfl
      · refine balance_of_braceless (fun c hc => ⟨?_, ?_⟩) _
        · rintro rfl
          exact absurd (hline _ hc) (by decide)
        · rintro rfl
          exact absurd (hline _ hc) (by decide)
    rw [← List.singleton_append, total_append, total_singleton, hdelta, ih hrest]
    rfl

/-- Every component of a document ends with the closing brace at which its block was read, and with
what was left behind it. The brace is on the last line exactly if the braces of the lines up to it
balance, line by line. Otherwise the lines behind it are not read, and the first sign there is a
number sign. -/
theorem block_read_in_full_iff {text : String} {d : Document} (h : Document.read text = .ok d)
    {s : Section} (hs : s ∈ d.sections) {c : Component} (hc : c ∈ s.components) :
    ∃ front rest, c.rawText.toList = front ++ '\x7d' :: rest ∧
      Block.leftover (Reader.blockBody c.rawText.toList) = some rest ∧
      ('\n' ∉ rest ↔ Braces.depthAfter (front ++ '\x7d' :: rest.takeWhile (· != '\n')) = 0) ∧
      ('\n' ∈ rest → ∃ lead more, rest = lead ++ '#' :: more ∧
        ∀ c ∈ lead, Block.isTrailer c = true) := by
  obtain ⟨ls, fields, hraw, hgathered, hread⟩ := Document.enclosed_of_read h s hs c hc
  obtain ⟨rest, hleftover, hsuffix, hclean⟩ := Block.readBlock_ok hread
  obtain ⟨front, hfront⟩ : '\x7d' :: rest <:+ c.rawText.toList :=
    hsuffix.trans ((List.dropWhile_suffix _).trans (List.dropWhile_suffix _))
  have hjoin : join ['\n'] ls = (front ++ ['\x7d']) ++ rest := by
    rw [← hraw, ← hfront]
    simp
  have hassoc : front ++ '\x7d' :: rest.takeWhile (· != '\n') =
      (front ++ ['\x7d']) ++ rest.takeWhile (· != '\n') := by
    simp
  refine ⟨front, rest, hfront.symm, hleftover, ?_, ?_⟩
  · rw [hassoc]
    refine ⟨hgathered.depthAfter_eq_zero hjoin, fun hzero hfeed => ?_⟩
    obtain ⟨p, q, -, -, hpos, hdepth⟩ := hgathered.cut hjoin hfeed
    omega
  · intro hfeed
    rcases Block.endsCleanly_cases hclean with htrailers | hsign
    · -- Separators alone would leave the brace open that is open behind the line.
      obtain ⟨p, q, rfl, hq, hpos, -⟩ := hgathered.cut hjoin hfeed
      have hflat : Braces.total q = 0 := by
        refine Braces.total_eq_zero_of_trailers fun l hl c hc => htrailers c (hq.subset ?_)
        exact mem_join hl hc
      have hbalanced := hgathered.balanced
      rw [Braces.total_append] at hbalanced
      omega
    · exact hsign

/-- A block whose reader meets the closing brace three lines before the last. -/
def hiddenLines : String :=
  "## UI Components\ncard: \x7b\n  label: x\x7b\n\x7d\n# more\nb: 1\n\x7d\n"

/-- The lines behind the brace are not read. -/
theorem block_read_in_full_iff_hidden :
    ∃ d, Document.read hiddenLines = .ok d ∧ ∃ s ∈ d.sections, ∃ c ∈ s.components, ∃ front rest,
      c.rawText.toList = front ++ '\x7d' :: rest ∧
        Block.leftover (Reader.blockBody c.rawText.toList) = some rest ∧ '\n' ∈ rest ∧
          ∃ lead more, rest = lead ++ '#' :: more ∧ ∀ c ∈ lead, Block.isTrailer c = true := by
  obtain ⟨d, hread, hfound⟩ := Failure.exists_ok (x := Document.read hiddenLines)
    (fun d => d.sections.any fun s => s.components.any fun c =>
      (Block.leftover (Reader.blockBody c.rawText.toList)).any (·.contains '\n'))
    (by decide +kernel)
  obtain ⟨s, hs, hfound⟩ := List.any_eq_true.1 hfound
  obtain ⟨c, hc, hfound⟩ := List.any_eq_true.1 hfound
  obtain ⟨front, rest, hraw, hleftover, -, hsign⟩ := block_read_in_full_iff hread hs hc
  have hfeed : '\n' ∈ rest := by simpa [hleftover] using hfound
  exact ⟨d, hread, s, hs, c, hc, front, rest, hraw, hleftover, hfeed, hsign hfeed⟩

end PageCompiler
