import PageCompiler.Proofs.Document.Line
import PageCompiler.Proofs.Text.Blank
import PageCompiler.Proofs.Text.Delimiter
import PageCompiler.Proofs.Text.Lines

/-!
# `PageCompiler.Proofs.Fallback.RoundTrip`: an answer is read as it was written

`Bundle.answerText` writes an answer: the markers, the fragments as a request shows them, and the
methods and the style behind them. `read_answerText` says that `Bundle.read` takes it apart again.

Markers and tags start with a bracket and hold no other, so none of them starts within the text in
front of it. Three searches follow from that. The block lies between the first opening marker and
the last closing one (`body?_marked`), whatever markers its markup holds. A walk over the block
finds the fragments and nothing else (`scanFrom_fragments`), so tags of methods and style within the
markup are taken out with it. What is left are line feeds and the parts (`partText_fed`).

Line feeds around a text do not matter, neither to the check of a fragment nor to `dedent`
(`dedent_feeds`), so a text that `dedent` leaves as it is comes back as it is.
-/

set_option autoImplicit false

namespace PageCompiler

open Text

namespace Bundle

/-! ### Line feeds around a text -/

theorem trimFeeds_within (lead s trail : List Char) (hlead : ∀ c ∈ lead, c = '\n')
    (htrail : ∀ c ∈ trail, c = '\n') : trimFeeds (lead ++ (s ++ trail)) = trimFeeds s :=
  dropEnds_within (fun c hc => beq_iff_eq.2 (hlead c hc)) fun c hc => beq_iff_eq.2 (htrail c hc)

theorem trimFeeds_trimFeeds (s : List Char) : trimFeeds (trimFeeds s) = trimFeeds s :=
  dropEnds_dropEnds (· == '\n') s

/-- A text that `dedent` leaves as it is has no line feeds at its ends. -/
theorem trimFeeds_of_dedent {s : String} (h : dedent s.toList = s) :
    trimFeeds s.toList = s.toList := by
  rw [← h, dedent, String.toList_ofList, trimFeeds_trimFeeds]

/-- Lines moved to the left by their common indentation. -/
def dedentLines (ls : List (List Char)) : List Char :=
  trimFeeds (join ['\n'] (ls.map fun l => trimRight (l.drop (commonIndent ls))))

theorem commonIndent_nil_cons (ls : List (List Char)) :
    commonIndent ([] :: ls) = commonIndent ls := rfl

theorem commonIndent_concat_nil (ls : List (List Char)) :
    commonIndent (ls ++ [[]]) = commonIndent ls := by
  rw [commonIndent, List.filter_append]
  simp [commonIndent, allBlank]

/-- Nothing is left of an empty line but itself. -/
theorem trimRight_drop_nil (n : Nat) : trimRight (([] : List Char).drop n) = [] := by
  rw [List.drop_nil]
  rfl

theorem dedentLines_nil_cons (ls : List (List Char)) : dedentLines ([] :: ls) = dedentLines ls := by
  unfold dedentLines
  rw [commonIndent_nil_cons, List.map_cons, trimRight_drop_nil]
  cases ls with
  | nil => rfl
  | cons l ls =>
    -- An empty line in front is one line feed in front of the joined lines.
    rw [join_cons (by simp), List.nil_append, ← List.append_nil (join _ _)]
    rw [trimFeeds_within ['\n'] _ [] (by simp) (by simp), List.append_nil]

theorem join_concat_nil {ls : List (List Char)} (h : ls ≠ []) :
    join ['\n'] (ls ++ [[]]) = join ['\n'] ls ++ ['\n'] := by
  induction ls with
  | nil => exact absurd rfl h
  | cons l ls ih =>
    cases ls with
    | nil => simp [join]
    | cons l' ls =>
      rw [List.cons_append, join_cons (by simp), join_cons (by simp), ih (by simp)]
      simp

theorem dedentLines_concat_nil (ls : List (List Char)) :
    dedentLines (ls ++ [[]]) = dedentLines ls := by
  unfold dedentLines
  rw [commonIndent_concat_nil, List.map_append]
  cases ls with
  | nil => rfl
  | cons l ls =>
    rw [List.map_singleton, trimRight_drop_nil, join_concat_nil (by simp)]
    exact trimFeeds_within [] _ ['\n'] (by simp) (by simp)

theorem dedent_feed_cons (s : List Char) : dedent ('\n' :: s) = dedent s :=
  congrArg String.ofList (dedentLines_nil_cons (lines s))

/-- A line feed at the end does not matter. -/
theorem dedent_concat_feed (s : List Char) : dedent (s ++ ['\n']) = dedent s := by
  refine congrArg String.ofList ?_
  show dedentLines (lines (s ++ ['\n'])) = dedentLines (lines s)
  obtain h | h := lines_append_feed_cases s []
  · rw [h]
    simp [lines]
  · rw [h]
    exact dedentLines_concat_nil (lines s)

/-- Line feeds around a text do not matter to `dedent`. -/
theorem dedent_feeds (n : Nat) (s : List Char) :
    dedent (List.replicate n '\n' ++ (s ++ List.replicate n '\n')) = dedent s := by
  induction n generalizing s with
  | zero => simp
  | succ n ih =>
    calc dedent (List.replicate (n + 1) '\n' ++ (s ++ List.replicate (n + 1) '\n'))
        = dedent (List.replicate n '\n' ++ (s ++ List.replicate n '\n' ++ ['\n'])) := by
          rw [List.replicate_succ, List.cons_append, dedent_feed_cons, ← List.replicate_succ,
            List.replicate_succ', List.append_assoc]
      _ = dedent s := by rw [← List.append_assoc, dedent_concat_feed, ih]

/-! ### Markers and tags -/

theorem beforeLast?_eq_none {stop s : List Char} (h : ¬stop <:+: s) :
    beforeLast? stop s = none := by
  induction s with
  | nil => rfl
  | cons c s ih =>
    have hrest : ¬stop <:+: s := fun hs => h (List.infix_cons hs)
    have hhere : ¬startsWith stop (c :: s) = true := by
      rw [startsWith, ← prefix_iff_after?]
      exact fun hstart => h hstart.isInfix
    rw [beforeLast?, ih hrest]
    exact if_neg hhere

/-- The last place of a delimiter is where it was put in front of a text without it. -/
theorem beforeLast?_delimiter {d : Char} {q t : List Char} (hd : d ∉ q) (ht : ¬d :: q <:+: t)
    (x : List Char) : beforeLast? (d :: q) (x ++ (d :: q ++ t)) = some x := by
  induction x with
  | nil =>
    -- The rest of the marker holds no bracket, so no later place starts within it.
    have hrest : ¬d :: q <:+: q ++ t := fun h => ht ((infix_append_iff_of_not_mem hd).1 h)
    have hhere : startsWith (d :: q) (d :: (q ++ t)) = true := by
      rw [startsWith, ← prefix_iff_after?]
      exact List.prefix_append (d :: q) t
    rw [List.nil_append, List.cons_append, beforeLast?, beforeLast?_eq_none hrest]
    exact if_pos hhere
  | cons c x ih => rw [List.cons_append, beforeLast?, ih]

/-- The marked block, whatever stands in it. -/
theorem body?_marked {before after : List Char} (inner : List Char)
    (hbefore : ¬Fallback.artifactOpen.toList <:+: before)
    (hafter : ¬Fallback.artifactClose.toList <:+: after) :
    body? (before ++ (Fallback.artifactOpen.toList ++ (inner ++
      (Fallback.artifactClose.toList ++ after)))) = some inner := by
  have hopen : Fallback.artifactOpen.toList = '<' :: "apml-artifact>".toList := rfl
  have hclose : Fallback.artifactClose.toList = '<' :: "/apml-artifact>".toList := rfl
  rw [hopen] at hbefore ⊢
  rw [hclose] at hafter ⊢
  unfold body?
  rw [hopen, hclose, upTo?_delimiter (by decide) hbefore]
  exact beforeLast?_delimiter (by decide) hafter inner

theorem tag?_eq_none {start : String} {s : List Char} (h : after? start.toList s = none) :
    tag? start s = none := by
  rw [tag?, h]
  rfl

theorem tag?_append (start : String) (s : List Char) :
    tag? start (start.toList ++ '>' :: s) = some s := by
  rw [tag?, after?_append]
  show after? ['>'] (('>' :: s).dropWhile isBlank) = some s
  rw [dropWhile_of_head (by decide)]
  exact after?_append ['>'] s

/-- A text without a tag reaches up to that tag. -/
theorem untilMatch?_tag {start : String} {q x : List Char} (hstart : start.toList = '<' :: q)
    (hq : '<' ∉ q) (hx : ¬start.toList <:+: x) (s : List Char) :
    untilMatch? (tag? start) (x ++ (start.toList ++ '>' :: s)) = some (x, s) := by
  have hsplit : start.toList ++ '>' :: s = (start.toList ++ ['>']) ++ s := by simp
  rw [hsplit]
  refine untilMatch?_append (by simp) ?_ ?_
  · rintro a c b rfl
    rw [← hsplit]
    refine tag?_eq_none ?_
    rw [hstart] at hx ⊢
    exact after?_delimiter_eq_none hq hx _
  · rw [← hsplit]
    exact tag?_append start s

/-! ### Fragments -/

theorem fragment_eq_none {before : Option Char} {s : List Char}
    (h : after? "<fragment".toList s = none) : fragment before s = none := by
  rw [fragment, h]
  rfl

/-- The pieces of a written fragment, in the order in which they are read. -/
theorem toList_fragmentText_append (name markup : String) (s : List Char) :
    (Fallback.fragmentText name markup).toList ++ s =
      "<fragment".toList ++ ([' '] ++ ("component".toList ++ (['='] ++ (['"'] ++ (name.toList ++
        (['"'] ++ (['>'] ++ ('\n' :: (markup.toList ++ ['\n']) ++
          ("</fragment".toList ++ '>' :: s))))))))) := by
  have hlist : ∀ a b c : String, (a ++ name ++ b ++ markup ++ c).toList =
      a.toList ++ (name.toList ++ (b.toList ++ (markup.toList ++ c.toList))) := by
    intro a b c
    simp only [String.toList_append, List.append_assoc]
  have hopen : "<fragment component=\"".toList =
      "<fragment".toList ++ [' '] ++ "component".toList ++ ['='] ++ ['"'] := rfl
  have hmiddle : "\">\n".toList = ['"'] ++ ['>'] ++ ['\n'] := rfl
  have hclose : "\n</fragment>".toList = ['\n'] ++ "</fragment".toList ++ ['>'] := rfl
  have htext : (Fallback.fragmentText name markup).toList = _ := hlist _ _ _
  rw [htext, hopen, hmiddle, hclose]
  simp only [List.append_assoc, List.cons_append, List.nil_append]

/-- A written fragment is recognised, with the line feeds around its markup. -/
theorem fragment_fragmentText {name markup : String} (hname : '"' ∉ name.toList)
    (hmarkup : ¬"</fragment".toList <:+: markup.toList) (before : Option Char) (s : List Char) :
    fragment before ((Fallback.fragmentText name markup).toList ++ s) =
      some ((name.toList, '\n' :: (markup.toList ++ ['\n'])), s) := by
  have hinner : ¬"</fragment".toList <:+: '\n' :: (markup.toList ++ ['\n']) := by
    rw [infix_cons_iff_of_not_mem (by decide) (by decide),
      infix_append_cons_iff (by decide) (by decide), not_or]
    exact ⟨hmarkup, by decide⟩
  have hmarkup : untilMatch? (tag? "</fragment") _ = _ :=
    untilMatch?_tag rfl (show '<' ∉ "/fragment".toList by decide) hinner s
  have hspace : ∀ t, span1? isBlank ([' '] ++ ("component".toList ++ t)) =
      some ([' '], "component".toList ++ t) :=
    fun t => span1?_append (by decide) (by decide) rfl
  have hsign : ∀ c t, isBlank c = false → ([c] ++ t).dropWhile isBlank = [c] ++ t :=
    fun c t hc => dropWhile_of_head hc
  have hquote : ∀ c ∈ name.toList, (c != '"') = true := by
    intro c hc
    rw [bne_iff_ne]
    rintro rfl
    exact hname hc
  have htake : ∀ t, (name.toList ++ (['"'] ++ t)).takeWhile (· != '"') = name.toList :=
    fun t => takeWhile_run hquote rfl
  have hdrop : ∀ t, (name.toList ++ (['"'] ++ t)).dropWhile (· != '"') = ['"'] ++ t :=
    fun t => dropWhile_run hquote rfl
  -- Each step reads one of the pieces and leaves the next ones.
  rw [toList_fragmentText_append, fragment]
  simp only [after?_append, Option.bind_eq_bind, Option.bind_some, hspace,
    hsign '=' _ (by decide), hsign '"' _ (by decide), hsign '>' _ (by decide), htake, hdrop,
    hmarkup]

/-- Lines, each with a line feed behind it. -/
def fed (ls : List String) : List Char :=
  ls.flatMap fun l => l.toList ++ ['\n']

theorem fed_append (ls ls' : List String) : fed (ls ++ ls') = fed ls ++ fed ls' :=
  List.flatMap_append

theorem toList_intercalate_feed {ls : List String} (h : ls ≠ []) :
    ("\n".intercalate ls).toList ++ ['\n'] = fed ls := by
  induction ls with
  | nil => exact absurd rfl h
  | cons l ls ih =>
    cases ls with
    | nil => simp [fed]
    | cons l' ls =>
      have ih := ih (by simp)
      rw [String.intercalate_cons_of_ne_nil (by simp), String.toList_append, String.toList_append,
        List.append_assoc, ih]
      simp [fed]

/-- A text of lines ends with its last line. -/
theorem toList_intercalate_concat (ls : List String) (last : String) :
    ("\n".intercalate (ls ++ [last])).toList = fed ls ++ last.toList := by
  have h := toList_intercalate_feed (show ls ++ [last] ≠ [] by simp)
  rw [fed_append, show fed [last] = last.toList ++ ['\n'] by simp [fed], ← List.append_assoc] at h
  exact List.append_cancel_right h

/-- What cannot go beyond a line feed stands in one of the lines. -/
theorem infix_fed_iff {y : List Char} (hne : y ≠ []) (hfeed : '\n' ∉ y) {ls : List String} :
    y <:+: fed ls ↔ ∃ l ∈ ls, y <:+: l.toList := by
  induction ls with
  | nil => simp [fed, hne]
  | cons l ls ih =>
    have hcons : fed (l :: ls) = l.toList ++ '\n' :: fed ls := by simp [fed]
    rw [hcons, infix_append_cons_iff hne hfeed, ih]
    simp

/-- The fragment that an answer has for a component. -/
def given (entry : String × String) : Fragment :=
  { component := entry.1, markup := entry.2, source := .fallback, patternId := none, state := [] }

/-- A component and its markup, as an answer can hold them. -/
structure FragmentFits (name markup : String) : Prop where
  isName : isName name.toList = true
  not_blank : allBlank markup.toList = false
  dedent : dedent markup.toList = markup
  not_closed : ¬"</fragment".toList <:+: markup.toList
  not_forbidden : find? forbidden markup.toList = none

theorem isBlank_of_isNameChar {c : Char} (h : isNameChar c = true) : isBlank c = false := by
  rw [← Bool.not_eq_true]
  intro hblank
  rw [isNameChar, isWord_of_isBlank hblank, Bool.false_or, beq_iff_eq] at h
  subst h
  exact absurd hblank (by decide)

theorem trim_name {name : List Char} (h : isName name = true) : trim name = name := by
  have hchars : ∀ c ∈ name, isBlank c = false :=
    fun c hc => isBlank_of_isNameChar (isNameChar_of_mem_name h hc)
  cases name with
  | nil => rfl
  | cons c name =>
    have htrim := @trim_around [] name [] c (by simp) (by simp) (hchars c List.mem_cons_self)
      fun d hd => hchars d (List.mem_of_getLast? hd)
    rwa [List.nil_append, List.append_nil] at htrim

section

variable {name markup : String} (h : FragmentFits name markup)
include h

theorem FragmentFits.quote_not_mem : '"' ∉ name.toList :=
  fun hmem => absurd (isNameChar_of_mem_name h.isName hmem) (by decide)

/-- A fragment that fits passes the check. -/
theorem FragmentFits.check {seen : List String} (hseen : name ∉ seen) :
    check seen name.toList ('\n' :: (markup.toList ++ ['\n'])) = .ok (given (name, markup)) := by
  have hname := trim_name h.isName
  have hmarkup : trimFeeds ('\n' :: (markup.toList ++ ['\n'])) = markup.toList :=
    (trimFeeds_within ['\n'] _ ['\n'] (by simp) (by simp)).trans (trimFeeds_of_dedent h.dedent)
  have hnew : seen.contains name = false := by simpa using hseen
  -- None of the four refusals applies.
  unfold Bundle.check
  simp only [hname, hmarkup, String.ofList_toList, h.isName, hnew, h.not_forbidden, h.not_blank,
    h.dedent, Bool.not_true, Bool.false_eq_true, if_false, Option.isSome_none]
  rfl

end

/-- Fragments that fit pass the checks, if no name comes twice. -/
theorem checkAll_fits {entries : Assoc String} (h : ∀ e ∈ entries, FragmentFits e.1 e.2)
    (hnodup : (Assoc.keys entries).Nodup) (seen : List String)
    (hseen : ∀ name ∈ Assoc.keys entries, name ∉ seen) :
    checkAll seen (entries.map fun e => (e.1.toList, '\n' :: (e.2.toList ++ ['\n']))) =
      .ok (entries.map given) := by
  induction entries generalizing seen with
  | nil => rfl
  | cons e entries ih =>
    obtain ⟨hfirst, hrest⟩ := List.forall_mem_cons.1 h
    obtain ⟨hnew, hnodup⟩ := List.nodup_cons.1 hnodup
    obtain ⟨hseenFirst, hseenRest⟩ := List.forall_mem_cons.1 hseen
    have hmore : ∀ name ∈ Assoc.keys entries, name ∉ e.1 :: seen := by
      intro name hname hmem
      obtain rfl | hmem := List.mem_cons.1 hmem
      · exact hnew hname
      · exact hseenRest name hname hmem
    rw [List.map_cons, checkAll, hfirst.check hseenFirst]
    show (checkAll (e.1 :: seen) _ >>= fun fs => .ok (given e :: fs)) = _
    rw [ih hrest hnodup _ hmore]
    rfl

/-- A walk over written fragments and a rest finds the fragments, and nothing in between. -/
theorem scanFrom_fragments {β : Type} {g : Piece (List Char × List Char) → List β}
    {entries : Assoc String} (h : ∀ e ∈ entries, FragmentFits e.1 e.2) {rest : List Char}
    (hrest : ¬"<fragment".toList <:+: rest) (before : Option Char) :
    scanFrom fragment g before
        (fed (entries.map fun e => Fallback.fragmentText e.1 e.2) ++ rest) =
      entries.flatMap (fun e =>
        g (.found (e.1.toList, '\n' :: (e.2.toList ++ ['\n']))) ++ g (.plain '\n')) ++
      rest.flatMap fun c => g (.plain c) := by
  induction entries generalizing before with
  | nil =>
    have hdull := dull_of_absent (r := fragment) (fun _ _ => fragment_eq_none) hrest before
    have hscan := scanFrom_dull (g := g) hdull
    rw [List.append_nil, scanFrom_nil rfl, List.append_nil] at hscan
    exact hscan
  | cons e entries ih =>
    obtain ⟨hfirst, hmore⟩ := List.forall_mem_cons.1 h
    have hfound := fragment_fragmentText hfirst.quote_not_mem hfirst.not_closed before
    have hne : (Fallback.fragmentText e.1 e.2).toList ≠ [] := by
      intro hnil
      have htext := hfound []
      rw [hnil] at htext
      cases htext
    have hcons : fed ((e :: entries).map fun e => Fallback.fragmentText e.1 e.2) ++ rest =
        (Fallback.fragmentText e.1 e.2).toList ++
          '\n' :: (fed (entries.map fun e => Fallback.fragmentText e.1 e.2) ++ rest) := by
      simp [fed]
    -- The walk goes on behind the fragment, and the line feed there opens no other.
    rw [hcons, scanFrom_found hne (hfound _), scanFrom_plain (fragment_eq_none rfl), ih hmore]
    simp only [List.flatMap_cons, List.append_assoc]

/-! ### Methods and style -/

/-- A part of an answer as it is written, with line feeds between its tags and its text. -/
def partBlock (feeds : Nat) (name text : String) : String :=
  let margin := String.ofList (List.replicate feeds '\n')
  "<" ++ name ++ ">" ++ margin ++ text ++ margin ++ "</" ++ name ++ ">"

/-- What stands between the tags of a part. -/
def padded (feeds : Nat) (text : String) : List Char :=
  List.replicate feeds '\n' ++ (text.toList ++ List.replicate feeds '\n')

theorem toList_partBlock (feeds : Nat) (name text : String) :
    (partBlock feeds name text).toList =
      ("<" ++ name).toList ++ '>' :: (padded feeds text ++ (("</" ++ name).toList ++ ['>'])) := by
  simp [partBlock, padded]

/-- What starts with a bracket is not made by line feeds around a text. -/
theorem infix_padded_iff {q : List Char} (hfeed : '\n' ∉ q) (feeds : Nat) (text : String) :
    '<' :: q <:+: padded feeds text ↔ '<' :: q <:+: text.toList := by
  have hfree : ∀ n, '<' ∉ List.replicate n '\n' := by
    intro n hmem
    exact absurd (List.eq_of_mem_replicate hmem) (by decide)
  rw [padded, infix_append_iff_of_not_mem (hfree feeds)]
  cases feeds with
  | zero => rw [List.replicate_zero, List.append_nil]
  | succ n =>
    rw [List.replicate_succ, infix_append_cons_iff (List.cons_ne_nil _ q) (by simp [hfeed])]
    exact or_iff_left (not_infix_of_not_mem (hfree n))

/-- A tag is in a part only if it is one of the tags of the part or in its text. -/
theorem not_infix_partBlock {q : List Char} (hbracket : '<' ∉ q) (hend : '>' ∉ q)
    (hfeed : '\n' ∉ q) (feeds : Nat) {name text : String}
    (hopen : ¬ '<' :: q <:+: ("<" ++ name).toList)
    (hclose : ¬ '<' :: q <:+: ("</" ++ name).toList) (htext : ¬ '<' :: q <:+: text.toList) :
    ¬ '<' :: q <:+: (partBlock feeds name text).toList := by
  have hne : '<' :: q ≠ [] := List.cons_ne_nil _ q
  have hend : '>' ∉ '<' :: q := by simp [hend]
  have htag : ("</" ++ name).toList = '<' :: '/' :: name.toList := by simp
  rw [toList_partBlock, infix_append_cons_iff hne hend, htag, List.cons_append,
    infix_append_delimiter_iff hbracket, ← List.cons_append, ← htag,
    infix_append_cons_iff hne hend, infix_padded_iff hfeed]
  rintro (h | h | h | h)
  · exact hopen h
  · exact htext h
  · exact hclose h
  · exact hne (List.eq_nil_of_infix_nil h)

/-- A text that can be told from the tags around it and from the other parts. -/
structure PartFits (name other text : String) : Prop where
  dedent : dedent text.toList = text
  not_closed : ¬("</" ++ name).toList <:+: text.toList
  not_fragment : ¬"<fragment".toList <:+: text.toList
  not_other : ¬("<" ++ other).toList <:+: text.toList

section Part

variable {name : String} (hbracket : '<' ∉ name.toList)

theorem part_eq_none {before : Option Char} {s : List Char}
    (h : after? ("<" ++ name).toList s = none) : part name before s = none := by
  rw [part, tag?_eq_none h]
  rfl

include hbracket

/-- A written part is recognised, with the line feeds around its text. -/
theorem part_partBlock {text : String} (hfeed : '\n' ∉ name.toList)
    (htext : ¬("</" ++ name).toList <:+: text.toList) (feeds : Nat) (before : Option Char)
    (s : List Char) :
    part name before ((partBlock feeds name text).toList ++ s) = some (padded feeds text, s) := by
  have hclose : ("</" ++ name).toList = '<' :: '/' :: name.toList := by simp
  have hinner : ¬("</" ++ name).toList <:+: padded feeds text := by
    rw [hclose] at htext ⊢
    rwa [infix_padded_iff (by simp [hfeed])]
  have huntil := untilMatch?_tag hclose (by simp [hbracket]) hinner s
  have hsplit : (partBlock feeds name text).toList ++ s =
      ("<" ++ name).toList ++
        '>' :: (padded feeds text ++ (("</" ++ name).toList ++ '>' :: s)) := by
    rw [toList_partBlock]
    simp only [List.append_assoc, List.cons_append, List.nil_append]
  rw [hsplit, part, tag?_append]
  exact huntil

/-- The text of a part is found among lines that do not open such a part. -/
theorem partText_fed {other : String} (hfeed : '\n' ∉ name.toList) {text? : Option String}
    (htext : ∀ text ∈ text?, PartFits name other text) (feeds : Nat) {lead : List Char}
    (hlead : '<' ∉ lead) (front back : List String)
    (hfront : ∀ l ∈ front, ¬("<" ++ name).toList <:+: l.toList)
    (hback : ∀ l ∈ back, ¬("<" ++ name).toList <:+: l.toList) :
    partText name
        (lead ++ (fed front ++ (fed (text?.toList.map (partBlock feeds name)) ++ fed back))) =
      text?.getD "" := by
  have hopen : ("<" ++ name).toList = '<' :: name.toList := by simp
  have hlines : ∀ ls : List String, (∀ l ∈ ls, ¬("<" ++ name).toList <:+: l.toList) →
      ¬("<" ++ name).toList <:+: lead ++ fed ls := by
    intro ls hls
    rw [hopen] at hls ⊢
    rw [infix_append_iff_of_not_mem hlead, infix_fed_iff (List.cons_ne_nil _ _) (by simp [hfeed])]
    rintro ⟨l, hl, hinfix⟩
    exact hls l hl hinfix
  unfold partText
  cases text? with
  | none =>
    have hall := hlines (front ++ back) (List.forall_mem_append.2 ⟨hfront, hback⟩)
    have hdull := dull_of_absent (r := part name) (fun _ _ => part_eq_none) hall none
    have htext : lead ++ (fed front ++ (fed (Option.toList none |>.map (partBlock feeds name)) ++
        fed back)) = lead ++ fed (front ++ back) := by
      rw [fed_append]
      rfl
    rw [htext, find?_eq_none_of_dull hdull (part_eq_none (by rw [hopen]; rfl))]
    rfl
  | some text =>
    have hfits := htext text rfl
    have hsplit : lead ++ (fed front ++ (fed ((some text).toList.map (partBlock feeds name)) ++
        fed back)) = (lead ++ fed front) ++
          ((partBlock feeds name text).toList ++ '\n' :: fed back) := by
      simp [fed]
    have hstart : ∃ s, (partBlock feeds name text).toList ++ '\n' :: fed back = '<' :: s := by
      rw [toList_partBlock, hopen]
      exact ⟨_, rfl⟩
    obtain ⟨s, hs⟩ := hstart
    -- The part starts with a bracket, so no tag goes from the lines in front over into it.
    have hdull : Dull (part name) none (lead ++ fed front)
        ((partBlock feeds name text).toList ++ '\n' :: fed back) := by
      rw [hs]
      have hfree := hlines front hfront
      rw [hopen] at hfree
      refine dull_of_delimiter hbracket (fun before t h => part_eq_none ?_) hfree none s
      rw [hopen]
      exact h
    have hfound := find?_of_found hdull (by rw [toList_partBlock, hopen]; simp)
      (part_partBlock hbracket hfeed hfits.not_closed feeds _ _)
    rw [hsplit, hfound]
    show Bundle.dedent (padded feeds text) = text
    rw [padded, dedent_feeds, hfits.dedent]

end Part

/-! ### The answer as a whole -/

/-- The lines behind the fragments: the methods and the style, if there are any. -/
def partLines (feeds feeds' : Nat) (methods style : Option String) : List String :=
  methods.toList.map (partBlock feeds "methods") ++ style.toList.map (partBlock feeds' "style")

/-- A marked block with fragments, and with methods and style if there are any. The tags of methods
and style stand a number of line feeds away from the text between them. -/
def answerText (feeds feeds' : Nat) (entries : Assoc String) (methods style : Option String) :
    String :=
  "\n".intercalate
    (Fallback.artifactOpen :: Fallback.fragmentsText entries ::
      partLines feeds feeds' methods style ++ [Fallback.artifactClose])

/-- What stands between the markers of an answer. -/
def answerBody (feeds feeds' : Nat) (entries : Assoc String) (methods style : Option String) :
    List Char :=
  '\n' :: (fed (entries.map fun e => Fallback.fragmentText e.1 e.2) ++
    fed (partLines feeds feeds' methods style))

section Answer

variable (feeds feeds' : Nat) {entries : Assoc String} {methods style : Option String}

/-- A written answer: its body between the two tags. -/
theorem toList_answerText (hne : entries ≠ []) :
    (answerText feeds feeds' entries methods style).toList =
      Fallback.artifactOpen.toList ++ (answerBody feeds feeds' entries methods style ++
        Fallback.artifactClose.toList) := by
  have hfragments : (Fallback.fragmentsText entries).toList ++ ['\n'] =
      fed (entries.map fun e => Fallback.fragmentText e.1 e.2) :=
    toList_intercalate_feed (by simpa using hne)
  have hcons : ∀ (l : String) (ls : List String), fed (l :: ls) = (l.toList ++ ['\n']) ++ fed ls :=
    fun l ls => List.flatMap_cons
  rw [answerText, toList_intercalate_concat, hcons, hcons, hfragments, answerBody]
  simp only [List.append_assoc, List.cons_append, List.nil_append]

/-- The body is found between other texts. -/
theorem body?_answerText (methods style : Option String) {before after : String}
    (hne : entries ≠ [])
    (hbefore : ¬Fallback.artifactOpen.toList <:+: before.toList)
    (hafter : ¬Fallback.artifactClose.toList <:+: after.toList) :
    body? (before ++ answerText feeds feeds' entries methods style ++ after).toList =
      some (answerBody feeds feeds' entries methods style) := by
  rw [String.toList_append, String.toList_append, toList_answerText feeds feeds' hne]
  simp only [List.append_assoc]
  exact body?_marked _ hbefore hafter

/-- What no text of a part opens, no line of it opens. -/
theorem not_infix_partLine {q : List Char} (hbracket : '<' ∉ q) (hend : '>' ∉ q)
    (hfeed : '\n' ∉ q) {name : String} (hopen : ¬ '<' :: q <:+: ("<" ++ name).toList)
    (hclose : ¬ '<' :: q <:+: ("</" ++ name).toList) {text? : Option String}
    (htext : ∀ text ∈ text?, ¬ '<' :: q <:+: text.toList) :
    ∀ l ∈ text?.toList.map (partBlock feeds name), ¬ '<' :: q <:+: l.toList := by
  intro l hl
  obtain ⟨text, hmem, rfl⟩ := List.mem_map.1 hl
  exact not_infix_partBlock hbracket hend hfeed feeds hopen hclose
    (htext text (Option.mem_toList.1 hmem))

variable (hmethods : ∀ text ∈ methods, PartFits "methods" "style" text)
  (hstyle : ∀ text ∈ style, PartFits "style" "methods" text)

include hmethods in
/-- Methods do not open a style. -/
theorem not_infix_style :
    ∀ l ∈ methods.toList.map (partBlock feeds "methods"), ¬("<" ++ "style").toList <:+: l.toList :=
  not_infix_partLine feeds (by decide) (by decide) (by decide) (by decide) (by decide)
    fun text h => (hmethods text h).not_other

include hstyle in
/-- A style does not open methods. -/
theorem not_infix_methods :
    ∀ l ∈ style.toList.map (partBlock feeds' "style"), ¬("<" ++ "methods").toList <:+: l.toList :=
  not_infix_partLine feeds' (by decide) (by decide) (by decide) (by decide) (by decide)
    fun text h => (hstyle text h).not_other

include hmethods hstyle

/-- Neither methods nor style open a fragment. -/
theorem not_infix_partLines :
    ¬"<fragment".toList <:+: fed (partLines feeds feeds' methods style) := by
  rw [infix_fed_iff (by decide) (by decide)]
  rintro ⟨l, hl, hinfix⟩
  obtain hl | hl := List.mem_append.1 hl
  · exact not_infix_partLine feeds (by decide) (by decide) (by decide) (by decide) (by decide)
      (fun text h => (hmethods text h).not_fragment) l hl hinfix
  · exact not_infix_partLine feeds' (by decide) (by decide) (by decide) (by decide) (by decide)
      (fun text h => (hstyle text h).not_fragment) l hl hinfix

variable (hfits : ∀ e ∈ entries, FragmentFits e.1 e.2)
include hfits

/-- The fragments that are found are those that were written. -/
theorem findAll_fragment_answerBody :
    findAll fragment (answerBody feeds feeds' entries methods style) =
      entries.map fun e => (e.1.toList, '\n' :: (e.2.toList ++ ['\n'])) := by
  have hrest := not_infix_partLines feeds feeds' hmethods hstyle
  rw [findAll_eq, answerBody, scanFrom_plain (fragment_eq_none rfl), scanFrom_fragments hfits hrest,
    flatMap_keepFound, List.append_nil]
  exact List.map_eq_flatMap.symm

/-- Without its fragments an answer is line feeds, and then methods and style. -/
theorem replaceAll_fragment_answerBody :
    ∃ lead, '<' ∉ lead ∧
      replaceAll fragment (fun _ => []) (answerBody feeds feeds' entries methods style) =
        lead ++ fed (partLines feeds feeds' methods style) := by
  have hrest := not_infix_partLines feeds feeds' hmethods hstyle
  refine ⟨'\n' :: entries.flatMap fun _ => ['\n'], by simp, ?_⟩
  rw [replaceAll_eq, answerBody, scanFrom_plain (fragment_eq_none rfl),
    scanFrom_fragments hfits hrest, flatMap_putFound]
  rfl

end Answer

end Bundle

/-- An answer is read as it was written. Take fragments with different names whose markup fits, and
methods and style that fit, if there are any. Then the answer with these, whatever stands around its
markers, is accepted, and gives back the fragments in order, the methods and the style. The markup
may hold markers and the tags of methods and style. -/
theorem read_answerText (feeds feeds' : Nat) {entries : Assoc String}
    {methods style : Option String} {before after : String} (hne : entries ≠ [])
    (hnodup : (Assoc.keys entries).Nodup) (hfits : ∀ e ∈ entries, Bundle.FragmentFits e.1 e.2)
    (hmethods : ∀ text ∈ methods, Bundle.PartFits "methods" "style" text)
    (hstyle : ∀ text ∈ style, Bundle.PartFits "style" "methods" text)
    (hbefore : ¬Fallback.artifactOpen.toList <:+: before.toList)
    (hafter : ¬Fallback.artifactClose.toList <:+: after.toList) :
    Bundle.read (before ++ Bundle.answerText feeds feeds' entries methods style ++ after) =
      .ok { fragments := entries.map Bundle.given, methods := methods.getD "",
            style := style.getD "" } := by
  have hbody := Bundle.body?_answerText feeds feeds' methods style hne hbefore hafter
  have hfound := Bundle.findAll_fragment_answerBody feeds feeds' hmethods hstyle hfits
  have hcheck := Bundle.checkAll_fits hfits hnodup [] (by simp)
  obtain ⟨lead, hlead, hremainder⟩ :=
    Bundle.replaceAll_fragment_answerBody feeds feeds' hmethods hstyle hfits
  -- The methods are looked for in front of the style, and the style behind the methods.
  have hmethodsText := Bundle.partText_fed (by decide) (by decide) hmethods feeds hlead []
    (style.toList.map (Bundle.partBlock feeds' "style")) (by simp)
    (Bundle.not_infix_methods feeds' hstyle)
  have hstyleText := Bundle.partText_fed (by decide) (by decide) hstyle feeds' hlead
    (methods.toList.map (Bundle.partBlock feeds "methods")) []
    (Bundle.not_infix_style feeds hmethods) (by simp)
  have hempty : (entries.map Bundle.given).isEmpty = false := by simpa using hne
  rw [show Bundle.fed [] = [] from rfl, List.nil_append, ← Bundle.fed_append] at hmethodsText
  rw [show Bundle.fed [] = [] from rfl, List.append_nil, ← Bundle.fed_append] at hstyleText
  unfold Bundle.read
  rw [hbody]
  simp only [hfound, hcheck, hremainder, Bundle.partLines, hmethodsText, hstyleText]
  show (if (entries.map Bundle.given).isEmpty = true then _ else _) = _
  rw [hempty]
  rfl

/-- An answer whose first fragment holds a closing marker and the tags of methods and style, with
lines further in and an empty one. Other markers stand around it. -/
theorem read_answerText_markers :
    let entries := [("page-1",
      "<p></apml-artifact></p>\n\n  <style>p \x7b\x7d</style>\n<methods>go</methods>"), ("_b", "x")]
    let methods := some "go() \x7b\n  \"</style>\"\n\x7d,"
    let style := some "p::after \x7b content: \"</methods>\" \x7d"
    Bundle.read ("a </apml-artifact> <apml" ++ Bundle.answerText 1 0 entries methods style ++
        "artifact> <apml-artifact>") =
      .ok { fragments := entries.map Bundle.given, methods := methods.getD "",
            style := style.getD "" } := by
  intro entries methods style
  refine read_answerText 1 0 (by decide) (by decide) ?_ ?_ ?_ (by decide) (by decide)
  · rw [List.forall_mem_cons, List.forall_mem_singleton]
    exact ⟨⟨by decide +kernel, by decide +kernel, by decide +kernel, by decide +kernel,
      by decide +kernel⟩, by decide +kernel, by decide +kernel, by decide +kernel,
      by decide +kernel, by decide +kernel⟩
  · intro text htext
    obtain rfl := Option.some.inj htext
    exact ⟨by decide +kernel, by decide +kernel, by decide +kernel, by decide +kernel⟩
  · intro text htext
    obtain rfl := Option.some.inj htext
    exact ⟨by decide +kernel, by decide +kernel, by decide +kernel, by decide +kernel⟩

end PageCompiler
