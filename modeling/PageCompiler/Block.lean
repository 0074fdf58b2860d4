import PageCompiler.Scalar
import PageCompiler.Text.Word

/-!
# `PageCompiler.Block`: braced blocks and bracketed lists

A block is `{ key: value ... }`, a list is `[ value ... ]`. Members and items are separated by
commas, white space or nothing at all, and comments may stand between them. A bare scalar runs up
to a comma, a line feed or a closing bracket.

Every reader takes the unread text and gives back what it leaves unread. The rest is shorter than
what it was given, and that is part of its type, so the readers end on every text. A reader that
stops reports the text it stopped at. The line of an error is then the number of line feeds before
that text. They follow the nesting of the text as far as it goes: that a machine limits the depth of
its calls, and stops at a text that is nested too deeply, is not modelled.

* `readValue` reads one value.
* `readMembers` reads the members of a block up to its closing brace.
* `readItems` reads the items of a list up to its closing bracket.
-/

set_option autoImplicit false

namespace PageCompiler

open Text

/-- Why a document is not well formed. -/
inductive Reason where
  | unexpectedClose
  | unterminatedBlock
  | unterminatedList
  | unterminatedString
  | expectedOpenBrace
  | expectedOpenBracket
  | expectedKey
  | expectedColon
  | expectedValue
  | unexpectedContent
  | duplicateComponent
  /-- A reason that a compiler from outside reports under its own code. -/
  | other (code : String)
  deriving DecidableEq, Repr

/-- The code under which a reason is reported. -/
def Reason.code : Reason → String
  | .unexpectedClose => "unexpected_close"
  | .unterminatedBlock => "unterminated_block"
  | .unterminatedList => "unterminated_list"
  | .unterminatedString => "unterminated_string"
  | .expectedOpenBrace => "expected_open_brace"
  | .expectedOpenBracket => "expected_open_bracket"
  | .expectedKey => "expected_key"
  | .expectedColon => "expected_colon"
  | .expectedValue => "expected_value"
  | .unexpectedContent => "unexpected_content"
  | .duplicateComponent => "duplicate_component"
  | .other code => code

namespace Block

/-- Why a reader stops. -/
inductive Stop where
  /-- The text is not well formed from `rest` on. -/
  | broken (reason : Reason) (rest : List Char)
  | numeral (e : NumeralTooLong)
  deriving DecidableEq, Repr

/-- What a reader leaves of `s`: a shorter text. -/
abbrev Rest (s : List Char) := { r : List Char // r.length < s.length }

/-- The outcome of a reader on `s`. -/
abbrev Outcome (α : Type) (s : List Char) := Except Stop (α × Rest s)

/-- White space in front of a value. -/
def isGap (c : Char) : Bool :=
  c == ' ' || c == '\t' || c == '\r' || c == '\n'

/-- White space around the colon of a member. -/
def isInlineGap (c : Char) : Bool :=
  c == ' ' || c == '\t'

/-- Characters that end a bare scalar. -/
def endsBare (c : Char) : Bool :=
  c == ',' || c == '\n' || c == '}' || c == ']'

/-- A comment starts here: two slashes, or a number sign before a gap or the end. -/
def atComment : List Char → Bool
  | '/' :: '/' :: _ => true
  | ['#'] => true
  | '#' :: c :: _ => c == ' ' || c == '\t' || c == '\n'
  | _ => false

/-- The text without the separators and comments at its start. `inComment` says that a comment is
being skipped. -/
def skip (inComment : Bool) : List Char → List Char
  | [] => []
  | c :: rest =>
    if inComment then
      if c == '\n' then skip false rest else skip true rest
    else if isGap c || c == ',' then skip false rest
    else if atComment (c :: rest) then skip true rest
    else c :: rest

/-- The text without the separators and comments at its start. -/
def skipSeparators (s : List Char) : List Char :=
  skip false s

theorem length_dropWhile_le {α : Type} (p : α → Bool) (s : List α) :
    (s.dropWhile p).length ≤ s.length :=
  (List.dropWhile_suffix p).length_le

theorem skip_suffix (inComment : Bool) (s : List Char) : skip inComment s <:+ s := by
  induction s generalizing inComment with
  | nil => exact List.suffix_refl []
  | cons c rest ih =>
    have hlater : ∀ inComment, skip inComment rest <:+ c :: rest := fun inComment =>
      (ih inComment).trans (List.suffix_cons c rest)
    rw [skip]
    split
    · split
      · exact hlater false
      · exact hlater true
    · split
      · exact hlater false
      · split
        · exact hlater true
        · exact List.suffix_refl _

theorem length_skipSeparators_le (s : List Char) : (skipSeparators s).length ≤ s.length :=
  (skip_suffix false s).length_le

/-- The inside of a quoted text up to its closing quote, and what follows the quote. A backslash
protects the character after it. A line feed that is not protected ends the search. -/
def scanQuoted (quote : Char) : List Char → Option (List Char × List Char)
  | [] => none
  | '\\' :: c :: rest => (scanQuoted quote rest).map fun (inner, r) => ('\\' :: c :: inner, r)
  | c :: rest =>
    if c == '\\' then none
    else if c == quote then some ([], rest)
    else if c == '\n' then none
    else (scanQuoted quote rest).map fun (inner, r) => (c :: inner, r)

/-- Behind a quoted text stands its closing quote. -/
theorem suffix_of_scanQuoted {quote : Char} {s inner rest : List Char}
    (h : scanQuoted quote s = some (inner, rest)) : quote :: rest <:+ s := by
  fun_induction scanQuoted quote s generalizing inner with
  | case1 => cases h
  | case2 c s ih =>
    obtain ⟨⟨i, r⟩, hs, he⟩ := Option.map_eq_some_iff.1 h
    obtain ⟨-, rfl⟩ := Prod.mk.inj he
    exact (ih hs).trans ((List.suffix_cons c s).trans (List.suffix_cons _ _))
  | case3 => cases h
  | case4 c s _ _ hquote =>
    obtain ⟨-, rfl⟩ := Prod.mk.inj (Option.some.inj h)
    obtain rfl := beq_iff_eq.1 hquote
    exact List.suffix_refl _
  | case5 => cases h
  | case6 c s _ _ _ _ ih =>
    obtain ⟨⟨i, r⟩, hs, he⟩ := Option.map_eq_some_iff.1 h
    obtain ⟨-, rfl⟩ := Prod.mk.inj he
    exact (ih hs).trans (List.suffix_cons c s)

/-- Reads a quoted text whose opening quote has been taken off. -/
def readQuoted (quote : Char) (s : List Char) : Outcome String (quote :: s) :=
  match h : scanQuoted quote s with
  | some (inner, rest) =>
    .ok (String.ofList (Scalar.unescape quote inner),
      ⟨rest, Nat.lt_succ_of_lt (suffix_of_scanQuoted h).length_le⟩)
  | none => .error (.broken .unterminatedString (quote :: s))

/-- Reads the key of a member: a quoted text or a name. -/
def readKey (s : List Char) : Outcome String s :=
  match s with
  | [] => .error (.broken .expectedKey [])
  | c :: rest =>
    if Scalar.isQuote c then readQuoted c rest
    else if isNameStart c then
      .ok (String.ofList (c :: rest.takeWhile isNameChar),
        ⟨rest.dropWhile isNameChar, Nat.lt_succ_of_le (length_dropWhile_le _ _)⟩)
    else .error (.broken .expectedKey (c :: rest))

/-- Reads a bare scalar. -/
def readBare (s : List Char) : Outcome Value s :=
  match s with
  | [] => .error (.broken .expectedValue [])
  | c :: rest =>
    let token := (c :: rest).takeWhile (!endsBare ·)
    if endsBare c || allBlank token then
      .error (.broken .expectedValue ((c :: rest).dropWhile (!endsBare ·)))
    else
      match Scalar.read token with
      | .error e => .error (.numeral e)
      | .ok v =>
        .ok (v, ⟨rest.dropWhile (!endsBare ·), Nat.lt_succ_of_le (length_dropWhile_le _ _)⟩)

mutual

/-- Reads one value (`read_value`). White space may stand in front of it. -/
def readValue (s : List Char) : Outcome Value s :=
  have hs := length_dropWhile_le isGap s
  match h : s.dropWhile isGap with
  | [] => .error (.broken .expectedValue [])
  | c :: rest =>
    if c == '\x7b' then
      match readMembers [] rest with
      | .error e => .error e
      | .ok (fields, ⟨r, hr⟩) => .ok (.map fields, ⟨r, by simp [h] at hs; omega⟩)
    else if c == '[' then
      match readItems [] rest with
      | .error e => .error e
      | .ok (items, ⟨r, hr⟩) => .ok (.list items, ⟨r, by simp [h] at hs; omega⟩)
    else if Scalar.isQuote c then
      match readQuoted c rest with
      | .error e => .error e
      | .ok (t, ⟨r, hr⟩) => .ok (.text t, ⟨r, by simp [h] at hs hr; omega⟩)
    else
      match readBare (c :: rest) with
      | .error e => .error e
      | .ok (v, ⟨r, hr⟩) => .ok (v, ⟨r, by simp [h] at hs hr; omega⟩)
termination_by 2 * s.length
decreasing_by
  all_goals simp [h] at hs; omega

/-- Reads members up to the closing brace of their block. `done` holds the members read so far. -/
def readMembers (done : Fields) (s : List Char) : Outcome Fields s :=
  have hs := length_skipSeparators_le s
  match h : skipSeparators s with
  | [] => .error (.broken .unterminatedBlock [])
  | c :: rest =>
    if c == '\x7d' then .ok (done, ⟨rest, by simp [h] at hs; omega⟩)
    else
      match readKey (c :: rest) with
      | .error e => .error e
      | .ok (key, ⟨r, hr⟩) =>
        have hg := length_dropWhile_le isInlineGap r
        match hc : r.dropWhile isInlineGap with
        | ':' :: t =>
          have ht := length_dropWhile_le isInlineGap t
          match readValue (t.dropWhile isInlineGap) with
          | .error e => .error e
          | .ok (v, ⟨u, hu⟩) =>
            match readMembers (Assoc.insert done key v) u with
            | .error e => .error e
            | .ok (fields, ⟨w, hw⟩) =>
              .ok (fields, ⟨w, by simp [h] at hs hr; simp [hc] at hg; omega⟩)
        | stopped => .error (.broken .expectedColon stopped)
termination_by 2 * s.length + 1
decreasing_by
  · simp [h] at hs hr; simp [hc] at hg; omega
  · simp [h] at hs hr; simp [hc] at hg; omega

/-- Reads items up to the closing bracket of their list. `done` holds the items read so far. -/
def readItems (done : List Value) (s : List Char) : Outcome (List Value) s :=
  have hs := length_skipSeparators_le s
  match h : skipSeparators s with
  | [] => .error (.broken .unterminatedList [])
  | c :: rest =>
    if c == ']' then .ok (done, ⟨rest, by simp [h] at hs; omega⟩)
    else
      match readValue (c :: rest) with
      | .error e => .error e
      | .ok (v, ⟨r, hr⟩) =>
        match readItems (done ++ [v]) r with
        | .error e => .error e
        | .ok (items, ⟨w, hw⟩) => .ok (items, ⟨w, by simp [h] at hs hr; omega⟩)
termination_by 2 * s.length + 1
decreasing_by
  · simp [h] at hs ⊢; omega
  · simp [h] at hs hr; omega

end

/-- What may follow a value that should be the last: white space, commas and semicolons, then
nothing or something that starts with a number sign. -/
def endsCleanly (rest : List Char) : Bool :=
  match trim ((trim rest).dropWhile fun c => c == ',' || c == ';') with
  | [] => true
  | c :: _ => c == '#'

/-- Reads a block that takes a whole text, from its opening brace on. -/
def readBlock (s : List Char) : Except Stop Fields :=
  match s with
  | '\x7b' :: rest =>
    match readMembers [] rest with
    | .error e => .error e
    | .ok (fields, ⟨r, _⟩) =>
      if endsCleanly r then .ok fields else .error (.broken .unexpectedContent r)
  | _ => .error (.broken .unterminatedBlock s)

/-- Reads the value behind the colon of an assignment. A text that opens a bracket and is no
well-formed value stands for itself. -/
def readInline (s : List Char) : Except NumeralTooLong Value :=
  let body := trim (dropRightWhile (· == ',') (trim s))
  match body with
  | [] => Scalar.read []
  | c :: _ =>
    if c == '[' || c == '\x7b' then
      match readValue body with
      | .error (.numeral e) => .error e
      | .error (.broken _ _) => .ok (.text (String.ofList body))
      | .ok (v, ⟨r, _⟩) => if endsCleanly r then .ok v else .ok (.text (String.ofList body))
    else Scalar.read body

end Block

end PageCompiler
