import PageCompiler.Markup.Display
import PageCompiler.Proofs.Policy.AliasWords

/-!
# `PageCompiler.Proofs.Policy.Escaping`: renaming in escaped code

Code stands in attribute values in its escaped form. There the plain quotes have become entities, so
that renaming does not see them: comments and template literals are found as before, but literals in
plain quotes are not. `runBare` renames in code as if its plain quotes opened no literals, and this
is what renaming does to escaped code (`run_escape`). Where plain quotes are all that opens a
literal, this is escaping the renamed code exactly if no alias stands in a literal
(`run_escape_iff_aliasWords`).
-/

set_option autoImplicit false

namespace PageCompiler

open Text Markup

namespace Rename

/-- Quotes that are escaped. -/
def isPlainQuote (c : Char) : Bool :=
  c == '\x27' || c == '"'

/-- A template literal or a comment, and what follows. -/
def bareQuiet? (s : List Char) : Option (List Char × List Char) :=
  if followedBy isPlainQuote s then none else quiet? s

/-- A template literal, a comment or one of some names. -/
def bareToken (names : List String) : Recogniser Token := fun before s =>
  if followedBy isPlainQuote s then none else token names before s

/-- Code with aliases replaced, also where they stand in literals in plain quotes. -/
def runBare (aliases : Assoc String) (code : List Char) : List Char :=
  replaceAll (bareToken (longestFirst aliases.keys)) (put aliases) code

/-! ### Entities -/

/-- Characters that are written as entities. -/
def escapedChars : List Char :=
  ['&', '<', '>', '"', '\x27']

/-- What stands between the ampersand and the semicolon of an entity. -/
def entityNames : List String :=
  ["amp", "lt", "gt", "quot", "#x27"]

/-- A character stands for itself or is written as an entity. -/
theorem escapeChar_kinds (c : Char) :
    (escapeChar c = [c] ∧ c ∉ escapedChars) ∨
      (c ∈ escapedChars ∧ ∃ name ∈ entityNames, escapeChar c = '&' :: (name.toList ++ [';'])) := by
  by_cases hc : c ∈ escapedChars
  · have hall : ∀ c ∈ escapedChars, ∃ name ∈ entityNames,
        escapeChar c = '&' :: (name.toList ++ [';']) := by decide
    exact .inr ⟨hc, hall c hc⟩
  · refine .inl ⟨?_, hc⟩
    simp only [escapedChars, List.mem_cons, List.not_mem_nil, or_false, not_or] at hc
    simp [escapeChar, hc]

/-- Escaped characters are in no word, and of those that open literals they are the plain quotes. -/
theorem of_mem_escapedChars {c : Char} (h : c ∈ escapedChars) :
    isIdentChar c = false ∧ (isPlainQuote c = true ∨ isQuietStart c = false) ∧ c ≠ '*' := by
  have hall : ∀ c ∈ escapedChars, isIdentChar c = false ∧
      (isPlainQuote c = true ∨ isQuietStart c = false) ∧ c ≠ '*' := by decide
  exact hall c h

theorem isPlainQuote_of_not_mem {c : Char} (h : c ∉ escapedChars) : isPlainQuote c = false := by
  rw [← Bool.not_eq_true, isPlainQuote, Bool.or_eq_true, beq_iff_eq, beq_iff_eq]
  rintro (rfl | rfl)
  · exact h (by decide)
  · exact h (by decide)

/-- The characters of an entity mean nothing in code. -/
theorem of_mem_entity {name : String} (hname : name ∈ entityNames) {d : Char}
    (hd : d ∈ '&' :: (name.toList ++ [';'])) :
    isQuietStart d = false ∧ d ≠ '\n' ∧ d ≠ '\\' ∧ d ≠ '*' := by
  have hall : ∀ name ∈ entityNames, ∀ d ∈ '&' :: (name.toList ++ [';']),
      isQuietStart d = false ∧ d ≠ '\n' ∧ d ≠ '\\' ∧ d ≠ '*' := by decide
  exact hall name hname d hd

theorem isQuietStart_of_not_isPlainQuote {c : Char} (hc : c ≠ '/' ∧ c ≠ '\x60')
    (hplain : isPlainQuote c = false) : isQuietStart c = false := by
  rw [isPlainQuote] at hplain
  simp [isQuietStart, isLiteralQuote, hplain, hc]

/-- Without slashes and backticks nothing opens a literal or a comment in escaped code. -/
theorem isQuietStart_escape {s : List Char} (hs : ∀ c ∈ s, c ≠ '/' ∧ c ≠ '\x60') :
    ∀ d ∈ s.flatMap escapeChar, isQuietStart d = false := by
  intro d hd
  obtain ⟨c, hc, hd⟩ := List.mem_flatMap.1 hd
  rcases escapeChar_kinds c with ⟨hself, hmem⟩ | ⟨-, name, hname, hentity⟩
  · rw [hself, List.mem_singleton] at hd
    rw [hd]
    exact isQuietStart_of_not_isPlainQuote (hs c hc) (isPlainQuote_of_not_mem hmem)
  · rw [hentity] at hd
    exact (of_mem_entity hname hd).1

theorem escapeChar_of_isIdentChar {c : Char} (h : isIdentChar c = true) : escapeChar c = [c] := by
  rcases escapeChar_kinds c with ⟨hc, -⟩ | ⟨hmem, -⟩
  · exact hc
  · rw [(of_mem_escapedChars hmem).1] at h
    cases h

/-- Escaping keeps words. -/
theorem escape_word {w : List Char} (h : ∀ c ∈ w, isIdentChar c = true) :
    w.flatMap escapeChar = w := by
  induction w with
  | nil => rfl
  | cons c w ih =>
    obtain ⟨hc, hw⟩ := List.forall_mem_cons.1 h
    rw [List.flatMap_cons, escapeChar_of_isIdentChar hc, ih hw]
    rfl

/-- A word goes on in the escaped text where it goes on in the text. -/
theorem followedBy_escape (s : List Char) :
    followedBy isIdentChar (s.flatMap escapeChar) = followedBy isIdentChar s := by
  cases s with
  | nil => rfl
  | cons c s =>
    rw [List.flatMap_cons]
    rcases escapeChar_kinds c with ⟨hc, -⟩ | ⟨hmem, name, -, hc⟩
    · rw [hc]
      rfl
    · rw [hc, followedBy_cons, (of_mem_escapedChars hmem).1]
      rfl

/-- Escaping keeps whether a word goes on. -/
theorem precededBy_escape {before before' : Option Char}
    (h : precededBy isIdentChar before' = precededBy isIdentChar before) (x : List Char) :
    precededBy isIdentChar (behind before' (x.flatMap escapeChar)) =
      precededBy isIdentChar (behind before x) := by
  induction x generalizing before before' with
  | nil => exact h
  | cons c x ih =>
    rw [List.flatMap_cons, behind_append, behind_cons]
    refine ih ?_
    rcases escapeChar_kinds c with ⟨hc, -⟩ | ⟨hmem, name, -, hc⟩
    · rw [hc]
      rfl
    · rw [hc, behind_cons, behind_append, behind_cons, behind_nil, precededBy, precededBy,
        (of_mem_escapedChars hmem).1]
      decide

/-- Each character is told from the others by the start of its escaped form. -/
theorem escapeChar_append_inj {c d : Char} {s t : List Char}
    (h : escapeChar c ++ s = escapeChar d ++ t) : c = d ∧ s = t := by
  have hamp : '&' ∈ escapedChars := by decide
  have hsemicolon : ∀ name ∈ entityNames, ';' ∉ name.toList := by decide
  have hapart : ∀ c ∈ escapedChars, ∀ d ∈ escapedChars, escapeChar c = escapeChar d → c = d := by
    decide
  rcases escapeChar_kinds c with ⟨hc, hcmem⟩ | ⟨hcmem, name, hname, hc⟩ <;>
    rcases escapeChar_kinds d with ⟨hd, hdmem⟩ | ⟨hdmem, name', hname', hd⟩ <;>
    rw [hc, hd] at h
  · exact List.cons.inj h
  · exact absurd hamp ((List.cons.inj h).1 ▸ hcmem)
  · exact absurd hamp ((List.cons.inj h).1 ▸ hdmem)
  · -- Both entities end at their first semicolon.
    rw [List.cons_append, List.cons_append, List.append_assoc, List.append_assoc] at h
    have hbody := (List.cons.inj h).2
    obtain ⟨heq, hrest⟩ := append_cons_inj (hsemicolon name hname) (hsemicolon name' hname') hbody
    exact ⟨hapart c hcmem d hdmem (by rw [hc, hd, heq]), hrest⟩

/-- Escaping loses nothing. -/
theorem escape_injective : Function.Injective fun s : List Char => s.flatMap escapeChar := by
  intro s t h
  simp only at h
  induction s generalizing t with
  | nil =>
    cases t with
    | nil => rfl
    | cons d t =>
      rw [List.flatMap_nil, List.flatMap_cons] at h
      rcases escapeChar_kinds d with ⟨hd, -⟩ | ⟨-, name, -, hd⟩ <;> simp [hd] at h
  | cons c s ih =>
    cases t with
    | nil =>
      rw [List.flatMap_nil, List.flatMap_cons] at h
      rcases escapeChar_kinds c with ⟨hc, -⟩ | ⟨-, name, -, hc⟩ <;> simp [hc] at h
    | cons d t =>
      rw [List.flatMap_cons, List.flatMap_cons] at h
      obtain ⟨rfl, hrest⟩ := escapeChar_append_inj h
      rw [ih hrest]

/-! ### What is found in escaped code -/

/-- A fixed text is found in the escaped text where it is found in the text. -/
theorem after?_escape {pattern : List Char} (hpattern : ∀ p ∈ pattern, escapeChar p = [p])
    (s : List Char) :
    after? pattern (s.flatMap escapeChar) = (after? pattern s).map (·.flatMap escapeChar) := by
  induction pattern generalizing s with
  | nil => rfl
  | cons p pattern ih =>
    obtain ⟨hp, hpattern⟩ := List.forall_mem_cons.1 hpattern
    cases s with
    | nil => rfl
    | cons c s =>
      rw [List.flatMap_cons]
      rcases escapeChar_kinds c with ⟨hc, -⟩ | ⟨-, name, -, hc⟩
      · rw [hc, List.singleton_append, after?, after?, ih hpattern]
        split
        · rfl
        · rfl
      · have hpc : c ≠ p := by
          rintro rfl
          rw [hc] at hp
          simp at hp
        have hpamp : '&' ≠ p := by
          rintro rfl
          exact absurd hp (by decide)
        rw [hc, List.cons_append, after?_cons_ne _ _ hpamp, after?_cons_ne _ _ hpc]
        rfl

/-- A name is found in the escaped text where it is found in the text. -/
theorem firstName?_escape {names : List String} (hnames : ∀ n ∈ names, IsIdent n.toList)
    (s : List Char) :
    firstName? names (s.flatMap escapeChar) =
      (firstName? names s).map fun (name, rest) => (name, rest.flatMap escapeChar) := by
  induction names with
  | nil => rfl
  | cons n names ih =>
    obtain ⟨hn, hnames⟩ := List.forall_mem_cons.1 hnames
    have ih := ih hnames
    unfold firstName? at ih ⊢
    rw [List.findSome?_cons, List.findSome?_cons, ih,
      after?_escape fun c hc => escapeChar_of_isIdentChar (hn.chars c hc)]
    cases after? n.toList s with
    | none => rfl
    | some rest =>
      simp only [Option.map_some, followedBy_escape]
      split
      next h =>
        split at h
        · cases h
        next hend =>
          cases h
          rw [if_neg hend]
          rfl
      next h =>
        split at h
        next hend => rw [if_pos hend]
        next => cases h

/-- Characters that neither close a template literal nor protect the next character. -/
theorem literalRest?_run {x : List Char} (hx : ∀ d ∈ x, d ≠ '\\' ∧ d ≠ '\x60') (s : List Char) :
    literalRest? '\x60' (x ++ s) =
      (literalRest? '\x60' s).map fun (inner, rest) => (x ++ inner, rest) := by
  induction x with
  | nil => simp
  | cons d x ih =>
    obtain ⟨⟨hslash, hquote⟩, hx⟩ := List.forall_mem_cons.1 hx
    rw [List.cons_append, literalRest?, ih hx]
    · simp [hslash, hquote, Function.comp_def]
    · simp [hslash]

/-- A template literal ends at the same place when its text is escaped. -/
theorem literalRest?_escape (s : List Char) :
    literalRest? '\x60' (s.flatMap escapeChar) =
      (literalRest? '\x60' s).map fun (inner, rest) =>
        (inner.flatMap escapeChar, rest.flatMap escapeChar) := by
  have hentity : ∀ {name : String}, name ∈ entityNames → ∀ d ∈ '&' :: (name.toList ++ [';']),
      d ≠ '\\' ∧ d ≠ '\x60' := by
    intro name hname d hd
    obtain ⟨hstart, -, hslash, -⟩ := of_mem_entity hname hd
    refine ⟨hslash, ?_⟩
    rintro rfl
    exact absurd hstart (by decide)
  fun_induction literalRest? '\x60' s with
  | case1 => rfl
  | case2 c s ih =>
    have hstep : ∀ d x, literalRest? '\x60' ('\\' :: d :: x) =
        (literalRest? '\x60' x).map fun (inner, rest) => ('\\' :: d :: inner, rest) := by
      intro d x
      rw [literalRest?]
    rw [List.flatMap_cons, List.flatMap_cons, show escapeChar '\\' = ['\\'] by decide]
    rcases escapeChar_kinds c with ⟨hc, -⟩ | ⟨-, name, hname, hc⟩
    · rw [hc, List.singleton_append, List.singleton_append, hstep, ih]
      simp [Function.comp_def, hc, show escapeChar '\\' = ['\\'] by decide]
    · -- The backslash protects the ampersand, and the rest of the entity means nothing.
      have hrest := (List.forall_mem_cons.1 (hentity hname)).2
      rw [hc, List.singleton_append, List.cons_append, hstep, literalRest?_run hrest, ih]
      simp [Function.comp_def, hc, show escapeChar '\\' = ['\\'] by decide]
  | case3 c s hs hc =>
    obtain rfl := eq_of_beq hc
    cases s with
    | nil => rfl
    | cons d s => exact absurd rfl (hs d s rfl)
  | case4 c s _ _ hquote =>
    obtain rfl := eq_of_beq hquote
    rfl
  | case5 c s _ _ _ hline => simp at hline
  | case6 c s _ hslash hquote hline ih =>
    have hchars : ∀ d ∈ escapeChar c, d ≠ '\\' ∧ d ≠ '\x60' := by
      rcases escapeChar_kinds c with ⟨hc, -⟩ | ⟨-, name, hname, hc⟩
      · rw [hc]
        simpa using And.intro hslash hquote
      · rw [hc]
        exact hentity hname
    rw [List.flatMap_cons, literalRest?_run hchars, ih]
    simp [Function.comp_def]

/-- The end of a comment is found in the escaped text where it is found in the text. -/
theorem upTo?_escape (s : List Char) :
    upTo? ['*', '/'] (s.flatMap escapeChar) =
      (upTo? ['*', '/'] s).map fun (inner, rest) =>
        (inner.flatMap escapeChar, rest.flatMap escapeChar) := by
  have hentity : ∀ {x : List Char}, (∀ d ∈ x, d ≠ '*') → ∀ t, upTo? ['*', '/'] (x ++ t) =
      (upTo? ['*', '/'] t).map fun (inner, rest) => (x ++ inner, rest) := by
    intro x hx t
    induction x with
    | nil => simp
    | cons d x ih =>
      obtain ⟨hd, hx⟩ := List.forall_mem_cons.1 hx
      rw [List.cons_append, upTo?, after?_cons_ne _ _ hd, ih hx]
      simp [Function.comp_def]
  induction s with
  | nil => rfl
  | cons c s ih =>
    rw [List.flatMap_cons]
    rcases escapeChar_kinds c with ⟨hc, -⟩ | ⟨hmem, name, hname, hc⟩
    · have hafter := @after?_escape ['*', '/'] (by decide) (c :: s)
      rw [List.flatMap_cons, hc, List.singleton_append] at hafter
      rw [hc, List.singleton_append, upTo?, upTo?, hafter]
      cases after? ['*', '/'] (c :: s) with
      | some rest => rfl
      | none =>
        rw [Option.map_none, ih]
        simp [Function.comp_def, hc]
    · have hchars : ∀ d ∈ escapeChar c, d ≠ '*' := by
        intro d hd
        rw [hc] at hd
        exact (of_mem_entity hname hd).2.2.2
      rw [hentity hchars, ih, upTo?, after?_cons_ne _ _ (of_mem_escapedChars hmem).2.2]
      simp [Function.comp_def]

/-- A line ends in the escaped text where it ends in the text. -/
theorem line_escape (s : List Char) :
    (s.flatMap escapeChar).takeWhile (· != '\n') =
        (s.takeWhile (· != '\n')).flatMap escapeChar ∧
      (s.flatMap escapeChar).dropWhile (· != '\n') =
        (s.dropWhile (· != '\n')).flatMap escapeChar := by
  obtain ⟨line, rest, rfl, hline, hrest⟩ := exists_run (· != '\n') s
  have hline' : ∀ d ∈ line.flatMap escapeChar, (d != '\n') = true := by
    intro d hd
    obtain ⟨c, hc, hd⟩ := List.mem_flatMap.1 hd
    rcases escapeChar_kinds c with ⟨hself, -⟩ | ⟨-, name, hname, hentity⟩
    · rw [hself, List.mem_singleton] at hd
      rw [hd]
      exact hline c hc
    · rw [hentity] at hd
      simpa using (of_mem_entity hname hd).2.1
  have hrest' : followedBy (· != '\n') (rest.flatMap escapeChar) = false := by
    cases rest with
    | nil => rfl
    | cons c rest =>
      obtain rfl : c = '\n' := by simpa using hrest
      rfl
  rw [List.flatMap_append, takeWhile_run hline' hrest', dropWhile_run hline' hrest',
    takeWhile_run hline hrest, dropWhile_run hline hrest]
  exact ⟨rfl, rfl⟩

/-- In escaped code the literals and comments are those that start with no plain quote. -/
theorem quiet?_escape (s : List Char) :
    quiet? (s.flatMap escapeChar) =
      (bareQuiet? s).map fun (text, rest) =>
        (text.flatMap escapeChar, rest.flatMap escapeChar) := by
  have hslash : escapeChar '/' = ['/'] := by decide
  have hstar : escapeChar '*' = ['*'] := by decide
  have hamp : ∀ t, quiet? ('&' :: t) = none := fun t => quiet?_of_not_isQuietStart (by decide)
  unfold bareQuiet?
  fun_cases quiet? s with
  | case1 => rfl
  | case2 s =>
    obtain ⟨htake, hdrop⟩ := line_escape s
    rw [List.flatMap_cons, List.flatMap_cons, hslash, List.singleton_append, List.singleton_append,
      quiet?, htake, hdrop]
    rfl
  | case3 s =>
    rw [List.flatMap_cons, List.flatMap_cons, hslash, hstar, List.singleton_append,
      List.singleton_append, quiet?, upTo?_escape]
    simp [Function.comp_def, isPlainQuote, hslash, hstar]
  | case4 c s hcomment hblock hquote =>
    rw [List.flatMap_cons]
    rcases escapeChar_kinds c with ⟨hc, hmem⟩ | ⟨hmem, name, hname, hc⟩
    · obtain rfl : c = '\x60' := by
        have hplain := isPlainQuote_of_not_mem hmem
        rw [isPlainQuote, Bool.or_eq_false_iff] at hplain
        simpa [isLiteralQuote, hplain.1, hplain.2] using hquote
      rw [hc, List.singleton_append, quiet?, if_pos hquote, literalRest?_escape]
      · simp [Function.comp_def, isPlainQuote, hc]
      · simp
      · simp
    · have hplain : isPlainQuote c = true := by
        rcases (of_mem_escapedChars hmem).2.1 with hplain | hstart
        · exact hplain
        · simp [isQuietStart, hquote] at hstart
      rw [followedBy_cons, hplain, if_pos rfl, hc, List.cons_append, hamp]
      rfl
  | case5 c s hcomment hblock hquote =>
    rw [List.flatMap_cons, ite_self, Option.map_none]
    rcases escapeChar_kinds c with ⟨hc, -⟩ | ⟨-, name, -, hc⟩
    · rw [hc, List.singleton_append]
      by_cases hcslash : c = '/'
      · subst hcslash
        cases s with
        | nil => rfl
        | cons d s =>
          rw [List.flatMap_cons]
          rcases escapeChar_kinds d with ⟨hd, -⟩ | ⟨-, name, -, hd⟩
          · rw [hd]
            refine quiet?_slash ?_ ?_ _
            · rintro rfl
              exact hcomment s rfl rfl
            · rintro rfl
              exact hblock s rfl rfl
          · rw [hd]
            exact quiet?_slash (by decide) (by decide) _
      · refine quiet?_of_not_isQuietStart ?_
        simpa [isQuietStart, hcslash] using hquote
    · rw [hc, List.cons_append, hamp]

/-- A token as it stands in escaped code. -/
def Token.escaped : Token → Token
  | .quiet text => .quiet (text.flatMap escapeChar)
  | .word name => .word name

/-- In escaped code the tokens are those of code whose plain quotes open no literals. -/
theorem token_escape {names : List String} (hnames : ∀ n ∈ names, IsIdent n.toList)
    {before before' : Option Char}
    (hbefore : precededBy isIdentChar before' = precededBy isIdentChar before) (s : List Char) :
    token names before' (s.flatMap escapeChar) =
      (bareToken names before s).map fun (tok, rest) => (tok.escaped, rest.flatMap escapeChar) := by
  rw [token, bareToken, quiet?_escape, bareQuiet?, firstName?_escape hnames, hbefore]
  by_cases hplain : followedBy isPlainQuote s = true
  · -- No name starts with a quote.
    have hfirst : firstName? names s = none := by
      cases s with
      | nil => cases hplain
      | cons c s =>
        refine firstName?_mark hnames ?_ s
        rw [followedBy_cons, isPlainQuote, Bool.or_eq_true, beq_iff_eq, beq_iff_eq] at hplain
        rcases hplain with rfl | rfl
        · decide
        · decide
    simp [hplain, hfirst]
  · rw [if_neg hplain, if_neg hplain, token]
    cases quiet? s with
    | some found => rfl
    | none =>
      simp only [Option.map_none]
      split
      · rfl
      · simp [Function.comp_def, Token.escaped]

/-- A token takes something, and the name of a word is one of the names. -/
theorem bareToken_eq_some {names : List String} (hnames : ∀ n ∈ names, IsIdent n.toList)
    {before : Option Char} {s rest : List Char} {tok : Token}
    (h : bareToken names before s = some (tok, rest)) :
    (∃ m, m ≠ [] ∧ s = m ++ rest) ∧ ∀ name, tok = .word name → name ∈ names := by
  unfold bareToken token at h
  split at h
  · cases h
  · split at h
    next text rest' hquiet =>
      cases h
      obtain ⟨hs, hstart, -⟩ := quiet?_eq_some hquiet
      refine ⟨⟨text, ?_, hs⟩, by simp⟩
      rintro rfl
      cases hstart
    next =>
      split at h
      · cases h
      · rw [Option.map_eq_some_iff] at h
        obtain ⟨⟨name, rest'⟩, hfirst, heq⟩ := h
        obtain ⟨rfl, rfl⟩ := Prod.mk.inj heq
        obtain ⟨n, hn, hname⟩ := List.exists_of_findSome?_eq_some hfirst
        split at hname
        next rest'' hafter =>
          split at hname
          · cases hname
          · cases hname
            refine ⟨⟨name.toList, (hnames name hn).ne_nil, after?_eq_some.1 hafter⟩, ?_⟩
            intro name' heq
            cases heq
            exact hn
        next => cases hname

/-! ### Renaming in escaped code -/

section Renaming

variable {aliases : Assoc String} (h : Regular aliases)
  (htargets : ∀ e ∈ aliases, Assoc.has aliases e.2 = false)
  (hentities : ∀ name ∈ entityNames, aliasWords aliases [] name.toList = 0)

include h htargets

/-- Code without aliases stays as it is. -/
theorem run_of_aliasWords {s : List Char} (hs : aliasWords aliases [] s = 0) :
    run aliases s = s := by
  have hedited := @Policy.edited_run aliases h s none fun hb => absurd hb Bool.false_ne_true
  obtain ⟨hle, heq⟩ := aliasWords_renamed h htargets hedited (w := []) fun _ => rfl
  exact heq (Nat.le_antisymm hle (hs ▸ Nat.zero_le _))

include hentities

/-- Renaming passes an entity. -/
theorem run_entity {name : String} (hname : name ∈ entityNames) (s : List Char) :
    run aliases ('&' :: (name.toList ++ [';']) ++ s) =
      '&' :: (name.toList ++ [';']) ++ run aliases s := by
  have hquiet : ∀ d ∈ '&' :: (name.toList ++ [';']), isQuietStart d = false :=
    fun d hd => (of_mem_entity hname hd).1
  have hbody : ∀ d ∈ name.toList, isQuietStart d = false := fun d hd => hquiet d (by simp [hd])
  have hmark : ∀ d t, isIdentChar d = false → d ∈ '&' :: (name.toList ++ [';']) →
      run aliases (d :: t) = d :: run aliases t := fun d t hd hmem =>
    run_mark h hd (quiet?_of_not_isQuietStart (hquiet d hmem))
  rw [List.cons_append, List.append_assoc, List.singleton_append,
    hmark '&' _ (by decide) (by simp), closed_of_plain h hbody (';' :: s) rfl,
    hmark ';' _ (by decide) (by simp), run_of_aliasWords h htargets (hentities name hname)]
  simp

/-- Renaming in escaped code goes along with renaming in code whose plain quotes open no
literals. -/
theorem walk_escape (s : List Char) {before before' : Option Char}
    (hbefore : precededBy isIdentChar before' = precededBy isIdentChar before) :
    walk aliases before' (s.flatMap escapeChar) =
      (scanFrom (bareToken (longestFirst aliases.keys)) (putFound (put aliases)) before s).flatMap
        escapeChar := by
  induction hn : s.length using Nat.strongRecOn generalizing s before before' with
  | ind n ih =>
    subst hn
    have htoken := token_escape h.names hbefore s
    cases hbare : bareToken (longestFirst aliases.keys) before s with
    | some found =>
      obtain ⟨tok, rest⟩ := found
      obtain ⟨⟨m, hm, rfl⟩, hword⟩ := bareToken_eq_some h.names hbare
      have hm' : m.flatMap escapeChar ≠ [] := by
        intro hnil
        exact hm (escape_injective (hnil.trans List.flatMap_nil.symm))
      have hput : put aliases tok.escaped = (put aliases tok).flatMap escapeChar := by
        cases tok with
        | quiet text => rfl
        | word name =>
          obtain ⟨target, htarget⟩ :=
            Option.isSome_iff_exists.1 (mem_longestFirst.1 (hword name rfl))
          have hchars := (h _ (Assoc.mem_of_get? htarget)).2.chars
          rw [Token.escaped, put, htarget, Option.getD_some, escape_word hchars]
      rw [hbare, Option.map_some, List.flatMap_append] at htoken
      rw [List.flatMap_append, walk, scanFrom_found hm' htoken, scanFrom_found hm hbare,
        List.flatMap_append]
      refine congrArg₂ (· ++ ·) hput ?_
      refine ih _ ?_ rest (precededBy_escape hbefore m) rfl
      rw [List.length_append]
      have hpos := List.length_pos_iff.2 hm
      omega
    | none =>
      cases s with
      | nil => rw [List.flatMap_nil, walk_nil h, scanFrom_nil hbare, List.flatMap_nil]
      | cons c s =>
        have hrest := fun {b b' : Option Char}
            (hb : precededBy isIdentChar b' = precededBy isIdentChar b) =>
          ih s.length (by simp) s hb rfl
        rw [hbare, Option.map_none, List.flatMap_cons] at htoken
        rw [scanFrom_plain hbare, List.flatMap_cons, List.flatMap_append]
        rcases escapeChar_kinds c with ⟨hc, -⟩ | ⟨hmem, name, hname, hc⟩
        · rw [hc, List.singleton_append] at htoken ⊢
          rw [walk, scanFrom_plain htoken]
          refine congrArg₂ (· ++ ·) ?_ (hrest rfl)
          simp [putFound, hc]
        · have hident := (of_mem_escapedChars hmem).1
          have hbehind : precededBy isIdentChar none = precededBy isIdentChar (some c) :=
            hident.symm
          rw [hc, walk_behind h _ fun _ => rfl, ← run_eq_walk h,
            run_entity h htargets hentities hname, run_eq_walk h, hrest hbehind]
          simp [putFound, hc]

/-- Renaming escaped code is escaping code that is renamed as if plain quotes opened no literals. -/
theorem run_escape (s : List Char) :
    run aliases (s.flatMap escapeChar) = (runBare aliases s).flatMap escapeChar := by
  rw [run_eq_walk h, walk_escape h htargets hentities s rfl, runBare, replaceAll_eq]

omit h htargets in
/-- Entities bring in no aliases. -/
theorem aliasWords_escape (w s : List Char) :
    aliasWords aliases w (s.flatMap escapeChar) = aliasWords aliases w s := by
  induction s generalizing w with
  | nil => rfl
  | cons c s ih =>
    rw [List.flatMap_cons]
    rcases escapeChar_kinds c with ⟨hc, -⟩ | ⟨hmem, name, hname, hc⟩
    · rw [hc, List.singleton_append, aliasWords, aliasWords, ih, ih]
    · have hamp : isIdentChar '&' = false := by decide
      have hsemicolon : isIdentChar ';' = false := by decide
      have hident := (of_mem_escapedChars hmem).1
      rw [hc, List.cons_append, List.append_assoc, List.singleton_append, aliasWords, aliasWords,
        hamp, hident, if_neg Bool.false_ne_true, if_neg Bool.false_ne_true,
        aliasWords_append_cons hsemicolon, hentities name hname, ih, Nat.zero_add]

end Renaming

/-! ### Aliases that are left -/

section Left

variable {aliases : Assoc String} (h : Regular aliases)
  (htargets : ∀ e ∈ aliases, Assoc.has aliases e.2 = false)

include h

theorem aliasWords_mark {c : Char} (hc : isIdentChar c = false) (s : List Char) :
    aliasWords aliases [] (c :: s) = aliasWords aliases [] s := by
  rw [aliasWords, hc, has_eq_false h fun hident => hident.ne_nil rfl]
  simp

include htargets

/-- A word in its canonical form is no alias. -/
theorem aliasWords_canonical {w s : List Char} (hw : ∀ c ∈ w, isIdentChar c = true)
    (hs : followedBy isIdentChar s = false) :
    aliasWords aliases [] (canonical aliases w ++ s) = aliasWords aliases [] s := by
  rw [aliasWords_word (canonical_chars h hw), List.nil_append, aliasWords_flush h hs,
    has_canonical htargets, Bool.toNat_false, Nat.zero_add]

/-- Where no literal or comment starts, no alias is left. -/
theorem aliasWords_run_of_plain {s : List Char} (hs : ∀ d ∈ s, isQuietStart d = false) :
    aliasWords aliases [] (run aliases s) = 0 := by
  induction s using code_induction with
  | nil =>
    rw [run_nil h, aliasWords, has_eq_false h fun hident => hident.ne_nil rfl]
    rfl
  | quiet text s hquiet ih =>
    obtain ⟨-, hstart, -⟩ := quiet?_eq_some hquiet
    cases text with
    | nil => cases hstart
    | cons d text =>
      rw [followedBy_cons, hs d (by simp)] at hstart
      cases hstart
  | word w s hne hw hend ih =>
    rw [run_word h hne hw hend, aliasWords_canonical h htargets hw (ends_run h hend)]
    exact ih fun d hd => hs d (List.mem_append_right w hd)
  | mark c s hc hquiet ih =>
    rw [run_mark h hc hquiet, aliasWords_mark h hc]
    exact ih fun d hd => hs d (List.mem_cons_of_mem c hd)

omit h htargets in
/-- A literal in plain quotes ends in a plain quote. -/
theorem exists_closing {text s : List Char} (hquiet : quiet? (text ++ s) = some (text, s))
    (hplain : followedBy isPlainQuote text = true) :
    ∃ x q, text = x ++ [q] ∧ isPlainQuote q = true := by
  cases text with
  | nil => cases hplain
  | cons c text =>
    rw [followedBy_cons] at hplain
    have hquote : isLiteralQuote c = true := by
      rw [isPlainQuote] at hplain
      rw [isLiteralQuote, hplain, Bool.true_or]
    have hne : c ≠ '/' := by
      rintro rfl
      exact absurd hplain (by decide)
    rw [List.cons_append, quiet?, if_pos hquote, Option.map_eq_some_iff] at hquiet
    · obtain ⟨⟨inner, rest⟩, hrest, heq⟩ := hquiet
      obtain ⟨hinner, -⟩ := Prod.mk.inj heq
      obtain ⟨-, rfl⟩ := List.cons.inj hinner
      obtain ⟨-, hbehind⟩ := literalRest?_eq_some hrest
      rcases List.eq_nil_or_concat inner with rfl | ⟨x, q, rfl⟩
      · exact absurd (hbehind none) (by simp)
      · obtain rfl : q = c := by simpa using hbehind none
        exact ⟨q :: x, q, by simp, hplain⟩
    · simp [hne]
    · simp [hne]

variable (hentities : ∀ name ∈ entityNames, aliasWords aliases [] name.toList = 0)

include hentities

/-- If renaming leaves no alias, it renames in escaped code as in the code. -/
theorem run_escape_of_aliasWords {s : List Char} (hs : ∀ c ∈ s, c ≠ '/' ∧ c ≠ '\x60')
    (hleft : aliasWords aliases [] (run aliases s) = 0) :
    run aliases (s.flatMap escapeChar) = (run aliases s).flatMap escapeChar := by
  -- The only literals are in plain quotes, which escaping opens up. No alias stands in them.
  have hentity : ∀ c, c ∈ escapedChars → ∀ t,
      run aliases (escapeChar c ++ t) = escapeChar c ++ run aliases t := by
    intro c hc t
    rcases escapeChar_kinds c with ⟨-, hmem⟩ | ⟨-, name, hname, hname'⟩
    · exact absurd hc hmem
    · rw [hname', run_entity h htargets hentities hname]
  induction s using code_induction with
  | nil => rw [List.flatMap_nil, run_nil h, List.flatMap_nil]
  | quiet text s hquiet ih =>
    have hplain : followedBy isPlainQuote text = true := by
      obtain ⟨-, htext, -⟩ := quiet?_eq_some hquiet
      cases text with
      | nil => cases htext
      | cons c text =>
        by_contra hplain
        rw [followedBy_cons, Bool.not_eq_true] at hplain
        rw [followedBy_cons, isQuietStart_of_not_isPlainQuote (hs c (by simp)) hplain] at htext
        cases htext
    obtain ⟨x, q, rfl, hq⟩ := exists_closing hquiet hplain
    have hqmem : q ∈ escapedChars := by
      by_contra hmem
      rw [isPlainQuote_of_not_mem hmem] at hq
      cases hq
    have hqident := (of_mem_escapedChars hqmem).1
    rw [run_quiet h hquiet, List.append_assoc, List.singleton_append,
      aliasWords_append_cons hqident] at hleft
    have hx : aliasWords aliases [] (x.flatMap escapeChar) = 0 := by
      rw [aliasWords_escape hentities]
      omega
    have hbare := isQuietStart_escape fun c (hc : c ∈ x) => hs c (by simp [hc])
    have hfollow : followedBy isIdentChar (escapeChar q ++ s.flatMap escapeChar) = false := by
      have hfollow := followedBy_escape (q :: s)
      rwa [List.flatMap_cons, followedBy_cons, hqident] at hfollow
    have hsplit : ∀ t : List Char, (x ++ [q] ++ t).flatMap escapeChar =
        x.flatMap escapeChar ++ (escapeChar q ++ t.flatMap escapeChar) := by simp
    rw [run_quiet h hquiet, hsplit, hsplit, closed_of_plain h hbare _ hfollow,
      run_of_aliasWords h htargets hx, hentity q hqmem,
      ih (fun c hc => hs c (List.mem_append_right _ hc)) (by omega)]
  | word w s hne hw hend ih =>
    rw [run_word h hne hw hend, aliasWords_canonical h htargets hw (ends_run h hend)] at hleft
    have hend' : followedBy isIdentChar (s.flatMap escapeChar) = false := by
      rwa [followedBy_escape]
    rw [run_word h hne hw hend, List.flatMap_append, List.flatMap_append, escape_word hw,
      escape_word (canonical_chars h hw), run_word h hne hw hend',
      ih (fun c hc => hs c (List.mem_append_right _ hc)) hleft]
  | mark c s hc hquiet ih =>
    rw [run_mark h hc hquiet, aliasWords_mark h hc] at hleft
    obtain ⟨hcs, hs⟩ := List.forall_mem_cons.1 hs
    rw [run_mark h hc hquiet, List.flatMap_cons, List.flatMap_cons, ← ih hs hleft]
    rcases escapeChar_kinds c with ⟨hself, hmem⟩ | ⟨hmem, -⟩
    · have hbare := isQuietStart_of_not_isPlainQuote hcs (isPlainQuote_of_not_mem hmem)
      rw [hself]
      exact run_mark h hc (quiet?_of_not_isQuietStart hbare)
    · exact hentity c hmem _

/-- In code whose literals are all in plain quotes, renaming goes along with escaping exactly if it
leaves no alias in a literal. -/
theorem run_escape_iff_aliasWords {s : List Char} (hs : ∀ c ∈ s, c ≠ '/' ∧ c ≠ '\x60') :
    run aliases (s.flatMap escapeChar) = (run aliases s).flatMap escapeChar ↔
      aliasWords aliases [] (run aliases s) = 0 := by
  refine ⟨fun heq => ?_, run_escape_of_aliasWords h htargets hentities hs⟩
  rw [← aliasWords_escape hentities, ← heq]
  exact aliasWords_run_of_plain h htargets (isQuietStart_escape hs)

end Left

/-- Without plain quotes nothing is lost by not looking at them. -/
theorem runBare_of_not_isPlainQuote {aliases : Assoc String} (h : Regular aliases) {s : List Char}
    (hs : ∀ c ∈ s, isPlainQuote c = false) : runBare aliases s = run aliases s := by
  have hpieces : ∀ (s : List Char), (∀ c ∈ s, isPlainQuote c = false) → ∀ before skip,
      piecesFrom (bareToken (longestFirst aliases.keys)) before skip s =
        piecesFrom (token (longestFirst aliases.keys)) before skip s := by
    intro s hs
    induction s with
    | nil => exact fun _ _ => rfl
    | cons c s ih =>
      intro before skip
      have htoken : bareToken (longestFirst aliases.keys) before (c :: s) =
          token (longestFirst aliases.keys) before (c :: s) := by
        rw [bareToken, followedBy_cons, hs c (by simp), if_neg Bool.false_ne_true]
      have ih := ih fun d hd => hs d (List.mem_cons_of_mem c hd)
      cases skip with
      | zero => simp only [piecesFrom, htoken, ih]
      | succ k => exact ih (some c) k
  rw [run_eq_walk h, runBare, replaceAll_eq, walk, scanFrom, scanFrom, hpieces s hs]

/-- Renaming the escaped text is escaping the renamed text. -/
def Commutes (aliases : Assoc String) (e : String) : Prop :=
  run aliases (escape e).toList = (escape (String.ofList (run aliases e.toList))).toList

/-- Renaming an escaped text is escaping the text renamed as if its plain quotes opened no literals.
So it is escaping the renamed text exactly if these literals make no difference to renaming, as they
never do in a text without plain quotes. Where a text has no other literals and no comments, they
make a difference exactly if an alias stands in one of them. -/
theorem renaming_escaped_iff (e : String) :
    run Policy.default.identifierAliases (escape e).toList =
        (escape (String.ofList (runBare Policy.default.identifierAliases e.toList))).toList ∧
      (Commutes Policy.default.identifierAliases e ↔
        runBare Policy.default.identifierAliases e.toList =
          run Policy.default.identifierAliases e.toList) ∧
      ((∀ c ∈ e.toList, isPlainQuote c = false) → Commutes Policy.default.identifierAliases e) ∧
      ((∀ c ∈ e.toList, c ≠ '/' ∧ c ≠ '\x60') →
        (Commutes Policy.default.identifierAliases e ↔
          aliasWords Policy.default.identifierAliases []
            (run Policy.default.identifierAliases e.toList) = 0)) := by
  have hregular := Markup.regular_default
  have htargets : ∀ entry ∈ Policy.default.identifierAliases,
      Assoc.has Policy.default.identifierAliases entry.2 = false := by decide
  have hentities : ∀ name ∈ entityNames,
      aliasWords Policy.default.identifierAliases [] name.toList = 0 := by decide
  have hrun := run_escape hregular htargets hentities e.toList
  simp only [Commutes, escape, String.toList_ofList]
  have hiff : run Policy.default.identifierAliases (e.toList.flatMap escapeChar) =
      (run Policy.default.identifierAliases e.toList).flatMap escapeChar ↔
        runBare Policy.default.identifierAliases e.toList =
          run Policy.default.identifierAliases e.toList := by
    rw [hrun]
    exact escape_injective.eq_iff
  exact ⟨hrun, hiff, fun hs => hiff.2 (runBare_of_not_isPlainQuote hregular hs),
    run_escape_iff_aliasWords hregular htargets hentities⟩

/-- An alias in a literal that a condition compares with. -/
theorem renaming_escaped_iff_goNext :
    run Policy.default.identifierAliases (escape "step === 'goNext'").toList =
        "step === &#x27;nextStep&#x27;".toList ∧
      run Policy.default.identifierAliases "step === 'goNext'".toList = "step === 'goNext'".toList ∧
      ¬ Commutes Policy.default.identifierAliases "step === 'goNext'" := by
  refine ⟨by decide +kernel, by decide +kernel, ?_⟩
  rw [(renaming_escaped_iff "step === 'goNext'").2.2.2 (by decide)]
  decide +kernel

end Rename

end PageCompiler
