import PageCompiler.Proofs.Artifact.Wrappers
import PageCompiler.Proofs.Fallback.Bundle
import PageCompiler.Proofs.Fallback.RoundTrip
import PageCompiler.Proofs.Keyword
import PageCompiler.Proofs.Markup.Display
import PageCompiler.Proofs.Text.Fields

/-!
# `PageCompiler.Proofs.Fallback.Accepted`: what an accepted answer lets through

No fragment of an answer may hold an element of a whole document, such as a script. The check looks
at the markup as the service wrote it. Behind the check the markup is cut into lines, moved to the
left and joined again, and the page sets it further in. `HoldsElement` says what is looked for: a
bracket and the name of such an element, with any white space between them. So it only depends on
the fields of a text (`holdsElement_iff_fields`), and neither `dedent` nor the layout of a page
changes these (`fields_dedent`, `flatMap_fields_indentLines`).

`Fragment.Accepted` collects this with the shape that `dedent` gives to a markup.
-/

set_option autoImplicit false

namespace PageCompiler

open Text

namespace Bundle

/-! ### Elements of a whole document -/

/-- The elements that no fragment may hold. -/
def elementNames : List String := ["script", "html", "body"]

/-- A word is the name of such an element, in letters of any case. -/
def NamesElement (word : List Char) : Prop :=
  ∃ name ∈ elementNames, word.map Keyword.folded = name.toList

/-- A text starts with the name of such an element, and the name ends there. -/
def StartsElement (s : List Char) : Prop :=
  ∃ word rest, s = word ++ rest ∧ NamesElement word ∧ followedBy isWord rest = false

/-- A text holds the start of such an element: a bracket and a name, with any white space between
them. -/
def HoldsElement (s : List Char) : Prop :=
  ∃ x gap rest, s = x ++ '<' :: (gap ++ rest) ∧ (∀ c ∈ gap, isBlank c = true) ∧ StartsElement rest

/-- A letter or digit is no white space. -/
theorem isBlank_of_isTokenChar {c : Char} (h : Keyword.isTokenChar c = true) :
    isBlank c = false := by
  by_cases hc : c.toNat < 128
  · have hascii : ∀ n < 128, Keyword.isTokenChar (Char.ofNat n) = true →
        isBlank (Char.ofNat n) = false := by decide +kernel
    have hchar := hascii c.toNat hc
    rw [Char.ofNat_toNat] at hchar
    exact hchar h
  · have hlookalikes : ∀ e ∈ Keyword.lookalikes, isBlank e.1 = false := by decide +kernel
    rcases Keyword.foldCase_cases (Nat.le_of_not_lt hc) with hmem | hhigh
    · have hblank := hlookalikes (c, foldCase c) hmem
      exact hblank
    · rw [Keyword.isTokenChar_eq_false hhigh] at h
      cases h

/-- The names are made of small letters. -/
theorem isLower_of_mem_elementNames {name : String} (h : name ∈ elementNames) :
    ∀ k ∈ name.toList, (k.isLower || k.isDigit) = true := by
  have hall : ∀ name ∈ elementNames, ∀ k ∈ name.toList, (k.isLower || k.isDigit) = true := by decide
  exact hall name h

/-- What counts as a small letter or a digit is a letter or a digit. -/
theorem isTokenChar_of_folded {c : Char}
    (h : ((Keyword.folded c).isLower || (Keyword.folded c).isDigit) = true) :
    Keyword.isTokenChar c = true := by
  cases htoken : Keyword.isTokenChar c with
  | true => rfl
  | false =>
    -- All other characters stand for themselves, so this one is a small letter after all.
    have hself : Keyword.folded c = c := by
      rw [Keyword.folded, Keyword.letter?_eq, htoken]
      rfl
    rw [hself] at h
    rw [(Keyword.foldCase_of_keyword h).1] at htoken
    cases htoken

namespace NamesElement

variable {word : List Char}

theorem isTokenChar (h : NamesElement word) : ∀ c ∈ word, Keyword.isTokenChar c = true := by
  obtain ⟨name, hname, hword⟩ := h
  intro c hc
  have hmem : Keyword.folded c ∈ name.toList := hword ▸ List.mem_map_of_mem hc
  exact isTokenChar_of_folded (isLower_of_mem_elementNames hname _ hmem)

theorem not_blank (h : NamesElement word) : ∀ c ∈ word, isBlank c = false :=
  fun c hc => isBlank_of_isTokenChar (h.isTokenChar c hc)

theorem ne_nil (h : NamesElement word) : word ≠ [] := by
  obtain ⟨name, hname, hword⟩ := h
  have hall : ∀ name ∈ elementNames, name.toList ≠ [] := by decide
  rintro rfl
  exact hall name hname hword.symm

/-- The search compares words with the names up to case. -/
theorem iff_foldCase : NamesElement word ↔
    ∃ name ∈ elementNames, word.map foldCase = name.toList.map foldCase := by
  constructor
  · intro h
    obtain ⟨name, hname, hword⟩ := id h
    exact ⟨name, hname,
      (Keyword.map_foldCase_eq_iff (isLower_of_mem_elementNames hname)).2 ⟨h.isTokenChar, hword⟩⟩
  · rintro ⟨name, hname, hword⟩
    exact ⟨name, hname,
      ((Keyword.map_foldCase_eq_iff (isLower_of_mem_elementNames hname)).1 hword).2⟩

end NamesElement

/-- A text that starts with a name starts with no white space. -/
theorem StartsElement.exists_cons {s : List Char} (h : StartsElement s) :
    ∃ c t, s = c :: t ∧ isBlank c = false := by
  obtain ⟨word, rest, rfl, hword, -⟩ := h
  cases word with
  | nil => exact absurd rfl hword.ne_nil
  | cons c word => exact ⟨c, word ++ rest, rfl, hword.not_blank c List.mem_cons_self⟩

/-- What the search accepts at a place, and where it goes on. -/
theorem forbidden_eq_some {before : Option Char} {s rest : List Char} {a : Unit}
    (h : forbidden before s = some (a, rest)) :
    ∃ gap word, s = '<' :: (gap ++ (word ++ rest)) ∧ (∀ c ∈ gap, isBlank c = true) ∧
      NamesElement word ∧ followedBy isWord rest = false := by
  unfold forbidden at h
  obtain ⟨behind, hbehind, h⟩ := Option.bind_eq_some_iff.1 h
  obtain ⟨name, hname, h⟩ := List.exists_of_findSome?_eq_some h
  obtain ⟨rest', hrest, h⟩ := Option.bind_eq_some_iff.1 h
  split at h
  next => cases h
  next hend =>
    cases h
    obtain ⟨word, hword, hfold⟩ := Keyword.afterFolded?_eq_some.1 hrest
    refine ⟨behind.takeWhile isBlank, word, ?_, fun c hc => List.mem_takeWhile_imp hc,
      NamesElement.iff_foldCase.2 ⟨name, hname, hfold⟩, Bool.eq_false_iff.2 hend⟩
    rw [← hword, List.takeWhile_append_dropWhile]
    exact after?_eq_some.1 hbehind

/-- A forbidden element is a bracket, white space and one of the names. -/
theorem forbidden_isSome_iff {before : Option Char} {s : List Char} :
    (forbidden before s).isSome = true ↔
      ∃ gap rest, s = '<' :: (gap ++ rest) ∧ (∀ c ∈ gap, isBlank c = true) ∧
        StartsElement rest := by
  constructor
  · intro h
    obtain ⟨⟨a, rest⟩, hfound⟩ := Option.isSome_iff_exists.1 h
    obtain ⟨gap, word, hs, hgap, hword, hend⟩ := forbidden_eq_some hfound
    exact ⟨gap, word ++ rest, hs, hgap, word, rest, rfl, hword, hend⟩
  · rintro ⟨gap, rest, rfl, hgap, hstarts⟩
    obtain ⟨c, t, hc, hblank⟩ := hstarts.exists_cons
    have hdrop : (gap ++ rest).dropWhile isBlank = rest := by
      rw [List.dropWhile_append_of_pos hgap, hc, dropWhile_of_head hblank]
    obtain ⟨word, rest', hword, hnames, hend⟩ := hstarts
    obtain ⟨name, hname, hfold⟩ := NamesElement.iff_foldCase.1 hnames
    have hafter : Keyword.afterFolded? name.toList rest = some rest' :=
      Keyword.afterFolded?_eq_some.2 ⟨word, hword, hfold⟩
    have hbracket : after? ['<'] ('<' :: (gap ++ rest)) = some (gap ++ rest) :=
      after?_append ['<'] (gap ++ rest)
    rw [forbidden, hbracket]
    show (List.findSome? _ _).isSome = true
    rw [hdrop, List.findSome?_isSome_iff]
    refine ⟨name, hname, ?_⟩
    rw [hafter]
    show (if followedBy isWord rest' = true then none else some ((), rest')).isSome = true
    rw [hend]
    rfl

/-- The check finds an element exactly if the text holds one. -/
theorem find?_forbidden_isSome_iff {s : List Char} :
    (find? forbidden s).isSome = true ↔ HoldsElement s := by
  have hnil : ∀ before, forbidden before [] = none := fun before => rfl
  have hmove : ∀ {before x a rest}, forbidden before x = some (a, rest) →
      ∃ m, m ≠ [] ∧ x = m ++ rest := by
    intro before x a rest hfound
    obtain ⟨gap, word, rfl, -, -, -⟩ := forbidden_eq_some hfound
    exact ⟨'<' :: (gap ++ word), by simp, by simp⟩
  rw [find?_isSome_iff hnil hmove]
  constructor
  · rintro ⟨x, t, rfl, hfound⟩
    obtain ⟨gap, rest, rfl, hgap, hstarts⟩ := forbidden_isSome_iff.1 hfound
    exact ⟨x, gap, rest, rfl, hgap, hstarts⟩
  · rintro ⟨x, gap, rest, rfl, hgap, hstarts⟩
    exact ⟨x, _, rfl, forbidden_isSome_iff.2 ⟨gap, rest, rfl, hgap, hstarts⟩⟩

/-! ### Only the fields of a text matter -/

/-- White space behind a text does not change the name that it starts with. -/
theorem StartsElement.append {s rest : List Char} (h : StartsElement s)
    (hrest : ∀ c, rest.head? = some c → isBlank c = true) : StartsElement (s ++ rest) := by
  obtain ⟨word, after, rfl, hword, hend⟩ := h
  refine ⟨word, after ++ rest, List.append_assoc _ _ _, hword, ?_⟩
  cases after with
  | cons c after => exact hend
  | nil =>
    cases rest with
    | nil => rfl
    | cons c rest => exact isWord_of_isBlank (hrest c rfl)

/-- What follows a name matters up to the next white space only. -/
theorem StartsElement.takeWhile {s : List Char} (h : StartsElement s) :
    StartsElement (s.takeWhile (!isBlank ·)) := by
  obtain ⟨word, rest, rfl, hword, hend⟩ := h
  have hkept : ∀ c ∈ word, (!isBlank c) = true := by
    intro c hc
    rw [hword.not_blank c hc]
    rfl
  refine ⟨word, rest.takeWhile (!isBlank ·), List.takeWhile_append_of_pos hkept, hword, ?_⟩
  cases rest with
  | nil => rfl
  | cons c rest =>
    rw [List.takeWhile_cons]
    split
    · exact hend
    · rfl

/-- A bracket stands in a field, and the name of an element right behind it or, where the bracket
ends its field, at the start of the next one. -/
def FieldsHoldElement (fs : List (List Char)) : Prop :=
  ∃ pre a b post, fs = pre ++ (a ++ '<' :: b) :: post ∧
    (StartsElement b ∨ b = [] ∧ ∃ field more, post = field :: more ∧ StartsElement field)

/-- Whether a text holds an element depends on its fields only. -/
theorem holdsElement_iff_fields {s : List Char} :
    HoldsElement s ↔ FieldsHoldElement (fields s) := by
  constructor
  · rintro ⟨x, gap, rest, rfl, hgap, hstarts⟩
    have hbracket : isBlank '<' = false := by decide
    obtain ⟨pre, a, hfields⟩ := exists_fields_append_cons hbracket x (gap ++ rest)
    refine ⟨pre, a, _, _, hfields, ?_⟩
    cases gap with
    | nil => exact .inl hstarts.takeWhile
    | cons d gap =>
      -- White space ends the field of the bracket, and the name starts the next one.
      have hd : (!isBlank d) = false := by
        rw [hgap d List.mem_cons_self]
        rfl
      obtain ⟨c, t, rfl, hblank⟩ := hstarts.exists_cons
      have hnext : fields ((d :: gap ++ c :: t).dropWhile (!isBlank ·)) =
          (c :: t).takeWhile (!isBlank ·) :: fields (t.dropWhile (!isBlank ·)) := by
        rw [List.cons_append, dropWhile_of_head hd, ← List.cons_append, fields_blank_append hgap,
          fields_cons hblank]
        simp [hblank]
      exact .inr ⟨by simp [hd], _, _, hnext, hstarts.takeWhile⟩
  · rintro ⟨pre, a, b, post, hfields, hstarts⟩
    obtain ⟨x, rest, rfl, hrest, hpost⟩ := exists_of_fields_eq_append hfields
    rcases hstarts with hstarts | ⟨rfl, field, more, rfl, hstarts⟩
    · exact ⟨x ++ a, [], b ++ rest, by simp, by simp, hstarts.append hrest⟩
    · obtain ⟨lead, rest', rfl, hlead, hrest', -⟩ := exists_of_fields_eq_cons hpost
      exact ⟨x ++ a, lead, field ++ rest', by simp, hlead, hstarts.append hrest'⟩

/-- An element in fields one behind the other is in one of the two, unless the second starts with a
name. -/
theorem FieldsHoldElement.of_append {fs gs : List (List Char)} (h : FieldsHoldElement (fs ++ gs)) :
    FieldsHoldElement fs ∨ FieldsHoldElement gs ∨
      ∃ field more, gs = field :: more ∧ StartsElement field := by
  obtain ⟨pre, a, b, post, hfields, hstarts⟩ := h
  rcases List.append_eq_append_iff.1 hfields with ⟨pre', rfl, hgs⟩ | ⟨post', rfl, hgs⟩
  · exact .inr (.inl ⟨pre', a, b, post, hgs, hstarts⟩)
  · cases post' with
    | nil => exact .inr (.inl ⟨[], a, b, post, hgs.symm, hstarts⟩)
    | cons first post' =>
      obtain ⟨rfl, rfl⟩ := List.cons.inj hgs
      rcases hstarts with hstarts | ⟨rfl, field, more, hpost, hstarts⟩
      · exact .inl ⟨pre, a, b, post', rfl, .inl hstarts⟩
      · -- The bracket ends its field, and the next one is in either part.
        cases post' with
        | nil => exact .inr (.inr ⟨field, more, hpost, hstarts⟩)
        | cons first post' =>
          obtain ⟨rfl, -⟩ := List.cons.inj hpost
          exact .inl ⟨pre, a, [], _, rfl, .inr ⟨rfl, first, post', rfl, hstarts⟩⟩

/-! ### A text without its margin -/

theorem fields_trimFeeds (s : List Char) : fields (trimFeeds s) = fields s := by
  have hfeed : ∀ {t : List Char}, (∀ c ∈ t, (c == '\n') = true) → ∀ c ∈ t, isBlank c = true := by
    intro t ht c hc
    rw [eq_of_beq (ht c hc)]
    decide
  obtain ⟨lead, trail, hs, hlead, htrail⟩ := exists_dropEnds_append (· == '\n') s
  calc fields (trimFeeds s) = fields (lead ++ (trimFeeds s ++ trail)) := by
        rw [fields_blank_append (hfeed hlead), fields_append_blank (hfeed htrail)]
    _ = fields s := by rw [trimFeeds, ← dropEnds, ← hs]

theorem fields_trimRight (s : List Char) : fields (trimRight s) = fields s := by
  obtain ⟨trail, hs, htrail⟩ := exists_dropRightWhile_append isBlank s
  rw [trimRight]
  conv_rhs => rw [hs, fields_append_blank htrail]

/-- The common indentation is that of some line, and no line that is not blank has less. -/
theorem commonIndent_spec {ls : List (List Char)} (h : ∃ l ∈ ls, allBlank l = false) :
    (∃ l ∈ ls, allBlank l = false ∧ (l.takeWhile isBlank).length = commonIndent ls) ∧
      ∀ l ∈ ls, allBlank l = false → commonIndent ls ≤ (l.takeWhile isBlank).length := by
  have hmem : ∀ l, l ∈ ls.filter (fun l => !allBlank l) ↔ l ∈ ls ∧ allBlank l = false := by
    simp [List.mem_filter]
  unfold commonIndent
  cases hmin :
    ((ls.filter fun l => !allBlank l).map fun l => (l.takeWhile isBlank).length).min? with
  | none =>
    obtain ⟨l, hl, hblank⟩ := h
    rw [List.min?_eq_none_iff, List.map_eq_nil_iff] at hmin
    have hl := (hmem l).2 ⟨hl, hblank⟩
    rw [hmin] at hl
    cases hl
  | some n =>
    obtain ⟨hn, hleast⟩ := List.min?_eq_some_iff.1 hmin
    obtain ⟨l, hl, hlength⟩ := List.mem_map.1 hn
    obtain ⟨hl, hblank⟩ := (hmem l).1 hl
    refine ⟨⟨l, hl, hblank, hlength⟩, ?_⟩
    intro l' hl' hblank'
    exact hleast _ (List.mem_map_of_mem ((hmem l').2 ⟨hl', hblank'⟩))

/-- Moving a line to the left takes white space from it only. -/
theorem fields_drop_commonIndent {ls : List (List Char)} {l : List Char} (h : l ∈ ls) :
    fields (l.drop (commonIndent ls)) = fields l := by
  cases hblank : allBlank l with
  | true =>
    have hall : ∀ c ∈ l, isBlank c = true := List.all_eq_true.1 hblank
    rw [fields_of_allBlank hall, fields_of_allBlank fun c hc => hall c (List.mem_of_mem_drop hc)]
  | false =>
    have hle := (commonIndent_spec ⟨l, h, hblank⟩).2 l h hblank
    have htake : ∀ c ∈ l.take (commonIndent ls), isBlank c = true := by
      intro c hc
      rw [← List.takeWhile_append_dropWhile (p := isBlank) (l := l),
        List.take_append_of_le_length hle] at hc
      exact List.mem_takeWhile_imp (List.mem_of_mem_take hc)
    calc fields (l.drop (commonIndent ls))
        = fields (l.take (commonIndent ls) ++ l.drop (commonIndent ls)) :=
          (fields_blank_append htake _).symm
      _ = fields l := by rw [List.take_append_drop]

/-- The lines of a text moved to the left, without white space at their ends. -/
def cutLines (s : List Char) : List (List Char) :=
  (lines s).map fun l => trimRight (l.drop (commonIndent (lines s)))

theorem toList_dedent (s : List Char) :
    (dedent s).toList = trimFeeds (join ['\n'] (cutLines s)) :=
  String.toList_ofList

/-- `dedent` changes white space only. -/
theorem fields_dedent (s : List Char) : fields (dedent s).toList = fields s := by
  rw [toList_dedent, fields_trimFeeds, fields_join, cutLines, List.flatMap_map,
    ← flatMap_fields_lines s]
  refine List.flatMap_congr fun l hl => ?_
  rw [fields_trimRight, fields_drop_commonIndent hl]

/-! ### The lines that are left -/

/-- Line feeds around a text make empty lines only. -/
theorem mem_lines_feeds {lead s trail l : List Char} (hlead : ∀ c ∈ lead, c = '\n')
    (htrail : ∀ c ∈ trail, c = '\n') (hl : l ≠ []) :
    l ∈ lines (lead ++ (s ++ trail)) ↔ l ∈ lines s := by
  induction lead with
  | cons c lead ih =>
    obtain ⟨rfl, hfeeds⟩ := List.forall_mem_cons.1 hlead
    have hline : lines ('\n' :: (lead ++ (s ++ trail))) = [] :: lines (lead ++ (s ++ trail)) := rfl
    rw [List.cons_append, hline, List.mem_cons, or_iff_right hl]
    exact ih hfeeds
  | nil =>
    rw [List.nil_append]
    induction trail using List.reverseRecOn with
    | nil => rw [List.append_nil]
    | append_singleton trail c ih =>
      obtain ⟨hfeeds, hlast⟩ := List.forall_mem_append.1 htrail
      obtain rfl := hlast c (List.mem_singleton_self c)
      rw [← List.append_assoc, ← ih hfeeds]
      rcases lines_append_feed_cases (s ++ trail) [] with h | h
      · rw [h]
        simp [lines]
      · rw [h]
        simp [lines, hl]

theorem mem_lines_join {ls : List (List Char)} (h : ∀ l ∈ ls, OneLine l) {l : List Char}
    (hl : l ≠ []) : l ∈ lines (join ['\n'] ls) ↔ l ∈ ls := by
  cases ls using List.reverseRecOn with
  | nil => simp [join, lines]
  | append_singleton ls last =>
    obtain ⟨hls, hlast⟩ := List.forall_mem_append.1 h
    rw [lines_join_concat hls, List.mem_append, List.mem_append]
    refine or_congr_right ?_
    by_cases hempty : last = []
    · subst hempty
      simp [lines, hl]
    · rw [lines_of_oneLine (hlast last (List.mem_singleton_self last)) hempty]

theorem oneLine_cutLines (s : List Char) : ∀ l ∈ cutLines s, OneLine l := by
  intro l hl
  obtain ⟨l', hl', rfl⟩ := List.mem_map.1 hl
  intro c hc
  obtain ⟨trail, htrail, -⟩ :=
    exists_dropRightWhile_append isBlank (l'.drop (commonIndent (lines s)))
  refine oneLine_of_mem_lines l' hl' c (List.mem_of_mem_drop (i := commonIndent (lines s)) ?_)
  rw [htrail]
  exact List.mem_append_left _ hc

/-- Apart from empty lines, the lines that `dedent` leaves are those of the text, moved to the
left. -/
theorem mem_lines_dedent {s l : List Char} (hl : l ≠ []) :
    l ∈ lines (dedent s).toList ↔ l ∈ cutLines s := by
  obtain ⟨lead, trail, hs, hlead, htrail⟩ :=
    exists_dropEnds_append (· == '\n') (join ['\n'] (cutLines s))
  rw [toList_dedent, ← mem_lines_join (oneLine_cutLines s) hl]
  conv_rhs => rw [hs]
  exact (mem_lines_feeds (fun c hc => eq_of_beq (hlead c hc)) (fun c hc => eq_of_beq (htrail c hc))
    hl).symm

theorem head?_trimFeeds (s : List Char) : (trimFeeds s).head? ≠ some '\n' := by
  intro h
  obtain ⟨trail, htrail, -⟩ := exists_dropRightWhile_append (· == '\n') (s.dropWhile (· == '\n'))
  have hstart : (s.dropWhile (· == '\n')).head? = some '\n' := by
    rw [htrail, List.head?_append_of_ne_nil]
    · exact h
    · rintro hnil
      rw [trimFeeds, hnil] at h
      cases h
  have hhead := List.head?_dropWhile_not (· == '\n') s
  rw [hstart] at hhead
  cases hhead

theorem getLast?_trimFeeds (s : List Char) : (trimFeeds s).getLast? ≠ some '\n' := by
  intro h
  have hhead := List.head?_dropWhile_not (· == '\n') (s.dropWhile (· == '\n')).reverse
  rw [trimFeeds, dropRightWhile, List.getLast?_reverse] at h
  rw [h] at hhead
  cases hhead

theorem getLast?_trimRight {s : List Char} {c : Char} (h : (trimRight s).getLast? = some c) :
    isBlank c = false := by
  have hhead := List.head?_dropWhile_not isBlank s.reverse
  rw [trimRight, dropRightWhile, List.getLast?_reverse] at h
  rw [h] at hhead
  exact hhead

/-- Some line that is left starts with no white space, unless the text is blank. -/
theorem exists_flush_line {s : List Char} (h : allBlank s = false) :
    ∃ l ∈ lines (dedent s).toList, ∃ c rest, l = c :: rest ∧ isBlank c = false := by
  have hsome : ∃ l ∈ lines s, allBlank l = false := by
    by_contra hnone
    have hall : ∀ l ∈ lines s, fields l = [] := by
      intro l hl
      rw [fields_eq_nil_iff]
      by_contra hblank
      exact hnone ⟨l, hl, Bool.eq_false_iff.2 hblank⟩
    have hfields : fields s = [] := by
      rw [← flatMap_fields_lines, List.flatMap_eq_nil_iff]
      exact hall
    rw [fields_eq_nil_iff, h] at hfields
    cases hfields
  obtain ⟨⟨l, hl, hblank, hlength⟩, -⟩ := commonIndent_spec hsome
  -- The line with the least indentation is cut exactly up to its first character.
  have hcut : l.drop (commonIndent (lines s)) = l.dropWhile isBlank := by
    conv_lhs => rw [← List.takeWhile_append_dropWhile (p := isBlank) (l := l), ← hlength]
    exact List.drop_left
  obtain ⟨c, t, hc⟩ : ∃ c t, l.dropWhile isBlank = c :: t := by
    cases hdrop : l.dropWhile isBlank with
    | nil =>
      have hall := List.dropWhile_eq_nil_iff.1 hdrop
      rw [allBlank, List.all_eq_true.2 hall] at hblank
      cases hblank
    | cons c t => exact ⟨c, t, rfl⟩
  have hink : isBlank c = false := by
    have hhead := List.head?_dropWhile_not isBlank l
    rw [hc] at hhead
    exact hhead
  have htrim : trimRight (c :: t) = c :: dropRightWhile isBlank t := by
    have happend := dropRightWhile_append_cons (a := []) (s := t) hink
    exact happend
  refine ⟨c :: dropRightWhile isBlank t, ?_, c, _, rfl, hink⟩
  rw [mem_lines_dedent (by simp)]
  refine List.mem_map.2 ⟨l, hl, ?_⟩
  rw [hcut, hc, htrim]

/-- The lines of a moved text end in line feeds only. -/
theorem lineFed_dedent (s : List Char) : LineFed (dedent s).toList := by
  have hjoin : ∀ ls : List (List Char), (∀ l ∈ ls, OneLine l) → LineFed (join ['\n'] ls) := by
    intro ls hls
    induction ls with
    | nil => exact fun c hc => nomatch hc
    | cons l ls ih =>
      obtain ⟨hl, hrest⟩ := List.forall_mem_cons.1 hls
      cases ls with
      | nil => exact hl.lineFed
      | cons next more =>
        rw [join_cons (by simp), List.append_assoc, List.singleton_append]
        exact .append_feed hl (ih hrest)
  obtain ⟨lead, trail, hs, -, -⟩ :=
    exists_dropEnds_append (· == '\n') (join ['\n'] (cutLines s))
  intro c hc
  refine hjoin _ (oneLine_cutLines s) c ?_
  rw [hs]
  rw [toList_dedent] at hc
  exact List.mem_append_right _ (List.mem_append_left _ hc)

/-! ### The lines of a page -/

/-- The names start with one of three letters. -/
theorem StartsElement.folded_head {c : Char} {s : List Char} (h : StartsElement (c :: s)) :
    Keyword.folded c ∈ ['s', 'h', 'b'] := by
  obtain ⟨word, rest, hs, hword, -⟩ := h
  have hheads : ∀ name ∈ elementNames,
      followedBy (['s', 'h', 'b'].contains ·) name.toList = true := by decide
  cases word with
  | nil => exact absurd rfl hword.ne_nil
  | cons d word =>
    obtain ⟨rfl, -⟩ := List.cons.inj hs
    obtain ⟨name, hname, hfold⟩ := hword
    have hhead := hheads name hname
    rw [← hfold, List.map_cons, followedBy_cons] at hhead
    exact List.contains_iff_mem.1 hhead

/-- A text without brackets in front adds nothing. -/
theorem HoldsElement.of_append {x s : List Char} (hx : '<' ∉ x) (h : HoldsElement (x ++ s)) :
    HoldsElement s := by
  obtain ⟨y, gap, rest, hs, hgap, hstarts⟩ := h
  rcases List.append_eq_append_iff.1 hs with ⟨y', rfl, hy⟩ | ⟨z, rfl, hz⟩
  · exact ⟨y', gap, rest, hy, hgap, hstarts⟩
  · cases z with
    | nil => exact ⟨[], gap, rest, hz.symm, hgap, hstarts⟩
    | cons c z =>
      obtain ⟨rfl, -⟩ := List.cons.inj hz
      exact absurd (by simp) hx

/-- A bracket in front of another name adds nothing. -/
theorem HoldsElement.of_tag {c : Char} {s : List Char} (hc : isBlank c = false)
    (hname : Keyword.folded c ∉ ['s', 'h', 'b']) (h : HoldsElement ('<' :: c :: s)) :
    HoldsElement (c :: s) := by
  obtain ⟨y, gap, rest, hs, hgap, hstarts⟩ := h
  cases y with
  | cons d y => exact ⟨y, gap, rest, (List.cons.inj hs).2, hgap, hstarts⟩
  | nil =>
    have hs : c :: s = gap ++ rest := (List.cons.inj hs).2
    cases gap with
    | nil =>
      rw [List.nil_append] at hs
      rw [← hs] at hstarts
      exact absurd hstarts.folded_head hname
    | cons d gap =>
      obtain ⟨rfl, -⟩ := List.cons.inj hs
      rw [hgap c List.mem_cons_self] at hc
      cases hc

/-- The lines of a text at a margin have the fields of the text. -/
theorem flatMap_fields_indentLines {margin : String}
    (hmargin : ∀ c ∈ margin.toList, isBlank c = true) (s : String) :
    (Assembly.indentLines margin s).flatMap (fun l => fields l.toList) = fields s.toList := by
  have hlines : Assembly.indentLines margin s = (lines (trimFeeds s.toList)).map fun l =>
      if allBlank l then "" else margin ++ String.ofList l := rfl
  rw [hlines, List.flatMap_map, ← fields_trimFeeds, ← flatMap_fields_lines]
  refine List.flatMap_congr fun l _ => ?_
  split
  next hblank => exact (fields_eq_nil_iff.2 hblank).symm
  next => rw [String.toList_append, String.toList_ofList, fields_blank_append hmargin]

/-- The line that opens the place of a fragment has one bracket, in front of the name of the
place. -/
theorem bracket_not_mem_wrapperRest (f : Fragment) : '<' ∉ (Assembly.wrapperRest f).toList := by
  have hname : '<' ∉ (Markup.escape f.component).toList :=
    fun hmem => (Markup.plain_escape f.component '<' hmem).1 rfl
  have hsource :
      '<' ∉ (if f.source == .fallback then " data-source=\"fallback\"" else "").toList := by
    split
    · decide
    · decide
  simp only [Assembly.wrapperRest, String.toList_append, List.mem_append, not_or]
  exact ⟨hname, by decide, hname, by decide, hsource, by decide⟩

/-- The lines of a fragment in a page hold no element that its markup does not hold. -/
theorem not_holdsElement_fragmentLines {f : Fragment} (h : ¬HoldsElement f.markup.toList) :
    ¬HoldsElement (unlines (Assembly.fragmentLines f)).toList := by
  intro hholds
  let body := Assembly.indentLines "      " f.markup ++ ["    </div>"]
  have htext : (unlines (Assembly.fragmentLines f)).toList = "    ".toList ++ '<' :: 'd' ::
      ("iv class=\"component ".toList ++ (Assembly.wrapperRest f).toList ++ ['\n'] ++
        (unlines body).toList) := by
    rw [Assembly.fragmentLines_eq, unlines, String.intercalate_cons_of_ne_nil (by simp)]
    simp [Assembly.wrapperStart, unlines, body]
  -- The first line opens a `div` and holds no other bracket.
  have hquiet : '<' ∉ 'd' :: ("iv class=\"component ".toList ++ (Assembly.wrapperRest f).toList ++
      ['\n']) := by
    have hrest := bracket_not_mem_wrapperRest f
    simp only [List.mem_cons, List.mem_append, not_or]
    exact ⟨by decide, ⟨by decide, hrest⟩, by decide⟩
  rw [htext] at hholds
  have htag := (hholds.of_append (by decide)).of_tag (by decide) (by decide +kernel)
  have hbody : HoldsElement (unlines body).toList := htag.of_append hquiet
  -- The other lines have the fields of the markup and a closing tag behind them.
  have hfields : fields (unlines body).toList = fields f.markup.toList ++ ["</div>".toList] := by
    rw [fields_unlines, List.flatMap_append, flatMap_fields_indentLines (by decide)]
    rfl
  rw [holdsElement_iff_fields, hfields] at hbody
  rcases hbody.of_append with hmarkup | hclose | ⟨field, more, hfield, hstarts⟩
  · exact h (holdsElement_iff_fields.2 hmarkup)
  · have hclosed : (find? forbidden "</div>".toList).isSome = false := by decide +kernel
    have hdiv : fields "</div>".toList = ["</div>".toList] := by decide
    rw [← hdiv, ← holdsElement_iff_fields, ← find?_forbidden_isSome_iff, hclosed] at hclose
    cases hclose
  · obtain ⟨rfl, -⟩ := List.cons.inj hfield
    exact absurd hstarts.folded_head (by decide +kernel)

/-! ### What the check lets through -/

/-- A fragment that was checked has the text of some markup that is not blank and holds no element,
without its margin. -/
theorem check_markup {seen : List String} {name markup : List Char} {f : Fragment}
    (h : check seen name markup = .ok f) :
    ∃ raw, f.markup = dedent raw ∧ allBlank raw = false ∧ ¬HoldsElement raw := by
  simp only [check] at h
  split at h
  · cases h
  · split at h
    · cases h
    · split at h
      · cases h
      next hforbidden =>
        split at h
        · cases h
        next hblank =>
          cases h
          refine ⟨trimFeeds markup, rfl, Bool.eq_false_iff.2 hblank, ?_⟩
          rwa [← find?_forbidden_isSome_iff]

/-- An accepted fragment was not blank and held no forbidden element. -/
theorem checkAll_markup {seen : List String} {entries : List (List Char × List Char)}
    {fs : List Fragment} (h : checkAll seen entries = .ok fs) :
    ∀ f ∈ fs, ∃ raw, f.markup = dedent raw ∧ allBlank raw = false ∧ ¬HoldsElement raw := by
  induction entries generalizing seen fs with
  | nil =>
    cases h
    exact fun f hf => nomatch hf
  | cons entry entries ih =>
    obtain ⟨name, markup⟩ := entry
    obtain ⟨f, hcheck, h⟩ := Failure.bind_ok h
    obtain ⟨rest, hrest, h⟩ := Failure.bind_ok h
    cases h
    exact List.forall_mem_cons.2 ⟨check_markup hcheck, ih hrest⟩

/-- An answer has fragments, and all were checked. -/
theorem fragments_of_read {response : String} {b : Bundle} (h : read response = .ok b) :
    b.fragments ≠ [] ∧ ∃ entries, checkAll [] entries = .ok b.fragments := by
  unfold read at h
  split at h
  · cases h
  next body _ =>
    obtain ⟨fs, hcheck, h⟩ := Failure.bind_ok h
    split at h
    · cases h
    next hempty =>
      cases h
      exact ⟨by simpa using hempty, _, hcheck⟩

end Bundle

/-- The shape of a fragment that was let through. -/
structure Fragment.Accepted (f : Fragment) : Prop where
  isName : Bundle.isName f.component.toList = true
  not_blank : allBlank f.markup.toList = false
  /-- The markup neither starts nor ends with a line feed, and has no other line breaks. -/
  no_feed_ahead : f.markup.toList.head? ≠ some '\n'
  no_feed_behind : f.markup.toList.getLast? ≠ some '\n'
  lineFed : LineFed f.markup.toList
  no_space_behind : ∀ l ∈ lines f.markup.toList, ∀ c, l.getLast? = some c → isBlank c = false
  /-- Some line has no indentation. -/
  flush : ∃ l ∈ lines f.markup.toList, ∃ c rest, l = c :: rest ∧ isBlank c = false
  harmless : ¬Bundle.HoldsElement f.markup.toList
  /-- Nor do the lines of the fragment in a page, one behind the other. -/
  harmless_in_page : ¬Bundle.HoldsElement (unlines (Assembly.fragmentLines f)).toList

/-- What is let through of an answer is harmless and well shaped: at least one fragment, no two for
one component, and each of them accepted. -/
theorem answer_let_through {response : String} {b : Bundle} (h : Bundle.read response = .ok b) :
    b.fragments ≠ [] ∧ (b.fragments.map Fragment.component).Nodup ∧
      ∀ f ∈ b.fragments, f.Accepted := by
  obtain ⟨hne, entries, hcheck⟩ := Bundle.fragments_of_read h
  obtain ⟨hnodup, hnames⟩ := Bundle.checkAll_ok hcheck
  refine ⟨hne, hnodup, fun f hf => ?_⟩
  obtain ⟨raw, hmarkup, hblank, hharmless⟩ := Bundle.checkAll_markup hcheck f hf
  have hfields : fields f.markup.toList = fields raw := by rw [hmarkup, Bundle.fields_dedent]
  have hsafe : ¬Bundle.HoldsElement f.markup.toList := by
    rwa [Bundle.holdsElement_iff_fields, hfields, ← Bundle.holdsElement_iff_fields]
  refine ⟨(hnames f hf).1, ?_, ?_, ?_, ?_, ?_, ?_, hsafe,
    Bundle.not_holdsElement_fragmentLines hsafe⟩
  · rw [← Bool.not_eq_true, ← fields_eq_nil_iff, hfields, fields_eq_nil_iff, hblank]
    decide
  · rw [hmarkup, Bundle.toList_dedent]
    exact Bundle.head?_trimFeeds _
  · rw [hmarkup, Bundle.toList_dedent]
    exact Bundle.getLast?_trimFeeds _
  · rw [hmarkup]
    exact Bundle.lineFed_dedent raw
  · intro l hl c hc
    have hl' : l ≠ [] := by
      rintro rfl
      cases hc
    rw [hmarkup, Bundle.mem_lines_dedent hl'] at hl
    obtain ⟨l', -, rfl⟩ := List.mem_map.1 hl
    exact Bundle.getLast?_trimRight hc
  · rw [hmarkup]
    exact Bundle.exists_flush_line hblank

/-- An answer with one fragment, whose lines end in different ways and stand at different margins.
Two brackets in it are followed by words that only start like a name, or stand on the next line. -/
def indentedAnswer : String :=
  "Here: <apml-artifact><fragment component=\" card_1\n\">\n" ++
    "    <p>\u2028      <scripted>  \x0b\n      bodies <\r\n    \thtml5</p>\n\n" ++
    "</fragment></apml-artifact>"

/-- The fragment is accepted and moved to the left. -/
theorem answer_let_through_indented :
    ∃ b, Bundle.read indentedAnswer = .ok b ∧
      (b.fragments.map fun f => (f.component, f.markup)) =
        [("card_1", "<p>\n  <scripted>\n\n  bodies <\n\thtml5</p>")] ∧
      ∀ f ∈ b.fragments, f.Accepted := by
  obtain ⟨b, hread, hfragments⟩ := Failure.exists_ok (x := Bundle.read indentedAnswer)
    (fun b => (b.fragments.map fun f => (f.component, f.markup)) ==
      [("card_1", "<p>\n  <scripted>\n\n  bodies <\n\thtml5</p>")]) (by decide +kernel)
  exact ⟨b, hread, beq_iff_eq.1 hfragments, (answer_let_through hread).2.2⟩

end PageCompiler
