import PageCompiler.Proofs.Policy.Edits
import PageCompiler.Proofs.Text.Delimiter

/-!
# `PageCompiler.Proofs.Policy.Lexemes`: renaming is a map over lexemes

`lex` cuts code from the left into lexemes: literals and comments, words as long as they go, and
single characters. Renaming walks through code in another way, for it looks for aliases only and
passes everything else character by character. Still it does what a map over the lexemes does: a
word takes its canonical form, and all else stays as it is (`run_eq_flatMap_lex`).

The renamed code is cut at the same places (`lex_run`). Words are the only thing that changes, and
no character of a word opens or closes a literal or a comment. So a quote that nothing closes still
has nothing to close it (`closes_renamed`), and an open comment stays open (`comment_renamed`).
-/

set_option autoImplicit false

namespace PageCompiler.Rename

open Text

/-! ### Lexemes -/

/-- A lexeme of code. -/
inductive Lexeme where
  /-- A string literal or a comment. -/
  | quiet (text : List Char)
  /-- Characters of names, as many as there are. -/
  | word (w : List Char)
  /-- Any other character. -/
  | mark (c : Char)
  deriving DecidableEq, Repr

/-- What a lexeme is written as. -/
def Lexeme.text : Lexeme → List Char
  | .quiet text => text
  | .word w => w
  | .mark c => [c]

/-- A lexeme with its alias replaced, if it is a word that is one. -/
def Lexeme.rename (aliases : Assoc String) : Lexeme → Lexeme
  | .word w => .word (canonical aliases w)
  | l => l

/-- The lexeme at the start of code. -/
def lexeme : Recogniser Lexeme := fun _ s =>
  match quiet? s with
  | some (text, rest) => some (.quiet text, rest)
  | none =>
    match s with
    | [] => none
    | c :: s =>
      if isIdentChar c then
        some (.word (c :: s.takeWhile isIdentChar), s.dropWhile isIdentChar)
      else some (.mark c, s)

/-- The lexemes of code. -/
def lex (code : List Char) : List Lexeme :=
  findAll lexeme code

theorem lex_nil : lex [] = [] := rfl

/-- The first lexeme is followed by the lexemes of the rest. -/
theorem lex_append {l : Lexeme} {m s : List Char} (hm : m ≠ [])
    (h : lexeme none (m ++ s) = some (l, s)) : lex (m ++ s) = l :: lex s :=
  findAll_found (fun _ _ _ => rfl) hm h

/-- A comment or literal is one lexeme. -/
theorem lex_quiet {text s : List Char} (hquiet : quiet? (text ++ s) = some (text, s)) :
    lex (text ++ s) = .quiet text :: lex s := by
  obtain ⟨-, hstart, -⟩ := quiet?_eq_some hquiet
  have hne : text ≠ [] := by
    rintro rfl
    cases hstart
  refine lex_append hne ?_
  unfold lexeme
  rw [hquiet]

/-- A whole word is one lexeme. -/
theorem lex_word {w s : List Char} (hne : w ≠ []) (hw : ∀ c ∈ w, isIdentChar c = true)
    (hs : followedBy isIdentChar s = false) : lex (w ++ s) = .word w :: lex s := by
  refine lex_append hne ?_
  obtain ⟨c, x, rfl⟩ := List.exists_cons_of_ne_nil hne
  obtain ⟨hc, hx⟩ := List.forall_mem_cons.1 hw
  have hquiet : quiet? (c :: (x ++ s)) = none := quiet?_of_isIdentChar hc
  rw [List.cons_append, lexeme, hquiet]
  simp only [hc, if_true, takeWhile_run hx hs, dropWhile_run hx hs]

theorem lex_mark {c : Char} {s : List Char} (hc : isIdentChar c = false)
    (hquiet : quiet? (c :: s) = none) : lex (c :: s) = .mark c :: lex s := by
  refine @lex_append (.mark c) [c] s (List.cons_ne_nil c []) ?_
  rw [List.singleton_append, lexeme, hquiet]
  simp [hc]

/-- Nothing of the code is lost. -/
theorem flatMap_text_lex (code : List Char) : (lex code).flatMap Lexeme.text = code := by
  induction code using code_induction with
  | nil => rfl
  | quiet text s hquiet ih => rw [lex_quiet hquiet, List.flatMap_cons, ih, Lexeme.text]
  | word w s hne hw hs ih => rw [lex_word hne hw hs, List.flatMap_cons, ih, Lexeme.text]
  | mark c s hc hquiet ih =>
    rw [lex_mark hc hquiet, List.flatMap_cons, ih, Lexeme.text, List.singleton_append]

/-- Renaming replaces the words that are aliases and keeps all other lexemes. -/
theorem run_eq_flatMap_lex {aliases : Assoc String} (h : Regular aliases) (code : List Char) :
    run aliases code = (lex code).flatMap fun l => (l.rename aliases).text := by
  induction code using code_induction with
  | nil => rw [run_nil h, lex_nil, List.flatMap_nil]
  | quiet text s hquiet ih =>
    rw [run_quiet h hquiet, lex_quiet hquiet, List.flatMap_cons, ← ih]
    rfl
  | word w s hne hw hs ih =>
    rw [run_word h hne hw hs, lex_word hne hw hs, List.flatMap_cons, ← ih]
    rfl
  | mark c s hc hquiet ih =>
    rw [run_mark h hc hquiet, lex_mark hc hquiet, List.flatMap_cons, ← ih]
    rfl

/-! ### What opens and closes literals and comments -/

/-- A literal is closed later on. `shielded` says that a backslash protects the next character. -/
def closes (quote : Char) : (shielded : Bool) → List Char → Bool
  | _, [] => false
  | true, _ :: s => closes quote false s
  | false, c :: s =>
    if c == '\\' then closes quote true s
    else if c == quote then true
    else if c == '\n' && quote != '\x60' then false
    else closes quote false s

/-- A literal is read exactly if its quote is closed. -/
theorem isSome_literalRest? (quote : Char) (s : List Char) :
    (literalRest? quote s).isSome = closes quote false s := by
  fun_induction literalRest? quote s with
  | case1 => rfl
  | case2 c s ih => simpa [closes] using ih
  | case3 c s hs hc =>
    -- The backslash is the last character.
    obtain rfl := eq_of_beq hc
    cases s with
    | nil => rfl
    | cons d s => exact absurd rfl (hs d s rfl)
  | case4 c s hs hc hquote => simp [closes, hc, hquote]
  | case5 c s hs hc hquote hline => simp [closes, hc, hquote, hline]
  | case6 c s hs hc hquote hline ih => simpa [closes, hc, hquote, hline] using ih

/-- Words neither close a literal nor protect what follows. -/
theorem closes_word {quote : Char} (hquote : isLiteralQuote quote = true) {w : List Char}
    (hne : w ≠ []) (hw : ∀ c ∈ w, isIdentChar c = true) (shielded : Bool) (s : List Char) :
    closes quote shielded (w ++ s) = closes quote false s := by
  have hbare : ∀ c, isIdentChar c = true → c ≠ '\\' ∧ c ≠ quote ∧ c ≠ '\n' := by
    intro c hc
    have hstart : isQuietStart quote = true := by simp [isQuietStart, hquote]
    refine ⟨?_, ?_, ?_⟩
    · rintro rfl
      exact absurd hc (by decide)
    · rintro rfl
      rw [isIdentChar_of_isQuietStart hstart] at hc
      cases hc
    · rintro rfl
      exact absurd hc (by decide)
  induction w generalizing shielded with
  | nil => exact absurd rfl hne
  | cons c w ih =>
    obtain ⟨hc, hw⟩ := List.forall_mem_cons.1 hw
    obtain ⟨hslash, hother, hline⟩ := hbare c hc
    -- The first character may be protected, those behind it are not.
    have hfirst : closes quote shielded (c :: (w ++ s)) = closes quote false (w ++ s) := by
      cases shielded with
      | true => rfl
      | false => simp [closes, hslash, hother, hline]
    rw [List.cons_append, hfirst]
    cases w with
    | nil => rfl
    | cons d w => exact ih (List.cons_ne_nil d w) hw false

/-- A character that protects nothing closes a literal, breaks it off or belongs to it. -/
theorem literalRest?_cons {quote c : Char} (hc : ¬(c == '\\') = true) (s : List Char) :
    literalRest? quote (c :: s) =
      if c == quote then some ([c], s)
      else if c == '\n' && quote != '\x60' then none
      else (literalRest? quote s).map fun (inner, rest) => (c :: inner, rest) := by
  rw [literalRest?, if_neg hc]
  intro d rest hslash
  rw [hslash] at hc
  exact absurd rfl hc

/-- Where a literal ends does not depend on what follows it. -/
theorem literalRest?_of_some {quote : Char} {s inner rest : List Char}
    (h : literalRest? quote s = some (inner, rest)) (t : List Char) :
    literalRest? quote (inner ++ t) = some (inner, t) := by
  fun_induction literalRest? quote s generalizing inner with
  | case1 => cases h
  | case2 c s ih =>
    rw [Option.map_eq_some_iff] at h
    obtain ⟨⟨inner', rest'⟩, hrest, heq⟩ := h
    obtain ⟨rfl, rfl⟩ := Prod.mk.inj heq
    rw [List.cons_append, List.cons_append, literalRest?, ih hrest]
    rfl
  | case3 => cases h
  | case4 c s hs hc hquote =>
    cases h
    rw [List.singleton_append, literalRest?_cons hc, if_pos hquote]
  | case5 => cases h
  | case6 c s hs hc hquote hline ih =>
    rw [Option.map_eq_some_iff] at h
    obtain ⟨⟨inner', rest'⟩, hrest, heq⟩ := h
    obtain ⟨rfl, rfl⟩ := Prod.mk.inj heq
    rw [List.cons_append, literalRest?_cons hc, if_neg hquote, if_neg hline, ih hrest]
    rfl

/-- Where a literal quote stands, a literal is looked for. -/
theorem quiet?_literal {c : Char} (hc : isLiteralQuote c = true) (s : List Char) :
    quiet? (c :: s) = (literalRest? c s).map fun (inner, rest) => (c :: inner, rest) := by
  have hslash : c ≠ '/' := by
    rintro rfl
    exact absurd hc (by decide)
  rw [quiet?, if_pos hc]
  · simp [hslash]
  · simp [hslash]

/-- A literal or a comment stays what it is in front of another text. A comment up to the end of a
line needs the line to end there. -/
theorem quiet?_of_some {s text rest t : List Char} (h : quiet? s = some (text, rest))
    (ht : followedBy (· != '\n') rest = false → followedBy (· != '\n') t = false) :
    quiet? (text ++ t) = some (text, t) := by
  unfold quiet? at h
  split at h
  next => cases h
  next s =>
    obtain ⟨line, rest', rfl, hline, hrest⟩ := exists_run (· != '\n') s
    rw [takeWhile_run hline hrest, dropWhile_run hline hrest] at h
    cases h
    rw [List.cons_append, List.cons_append, quiet?, takeWhile_run hline (ht hrest),
      dropWhile_run hline (ht hrest)]
  next s =>
    rw [Option.map_eq_some_iff] at h
    obtain ⟨⟨inner, rest'⟩, hrest, heq⟩ := h
    obtain ⟨rfl, rfl⟩ := Prod.mk.inj heq
    -- The comment ends at the first place where it can.
    have hend := upTo?_delimiter (by decide) (not_infix_of_upTo? (by simp) hrest) t
    have hsplit : '/' :: '*' :: inner ++ ['*', '/'] ++ t =
        '/' :: '*' :: (inner ++ (['*', '/'] ++ t)) := by
      simp
    rw [hsplit, quiet?, hend]
    rfl
  next c s _ _ =>
    split at h
    next hquote =>
      rw [Option.map_eq_some_iff] at h
      obtain ⟨⟨inner, rest'⟩, hrest, heq⟩ := h
      obtain ⟨rfl, rfl⟩ := Prod.mk.inj heq
      rw [List.cons_append, quiet?_literal hquote, literalRest?_of_some hrest]
      rfl
    next => cases h

section Renamed

variable {aliases : Assoc String} (h : Regular aliases)

include h

/-- What renaming takes and puts in are words. -/
theorem words_of_renamed {before : Option Char} {old new rest : List Char}
    (hold : Policy.renamed aliases before old new rest) : IsIdent old ∧ IsIdent new := by
  obtain ⟨target, hget, rfl, -⟩ := hold
  obtain ⟨hident, hident'⟩ := h _ (Assoc.mem_of_get? hget)
  rw [String.toList_ofList] at hident
  exact ⟨hident, hident'⟩

/-- A literal is closed in renamed code exactly if it was closed before. -/
theorem closes_renamed {quote : Char} (hquote : isLiteralQuote quote = true)
    {before : Option Char} {s t : List Char} (hedited : Edited (Policy.renamed aliases) before s t)
    (shielded : Bool) : closes quote shielded t = closes quote shielded s := by
  induction hedited generalizing shielded with
  | nil => rfl
  | keep before c hedited ih =>
    cases shielded with
    | true => exact ih false
    | false => rw [closes, closes, ih, ih]
  | swap before hold hedited ih =>
    obtain ⟨hident, hident'⟩ := words_of_renamed h hold
    rw [closes_word hquote hident.ne_nil hident.chars,
      closes_word hquote hident'.ne_nil hident'.chars, ih]

/-- A comment ends in renamed code exactly if it ended before. -/
theorem comment_renamed {before : Option Char} {s t : List Char}
    (hedited : Edited (Policy.renamed aliases) before s t) :
    upTo? ['*', '/'] t = none ↔ upTo? ['*', '/'] s = none := by
  have hsign : ∀ {c : Char}, isIdentChar c = false → ∀ {name : List Char}, IsIdent name →
      c ∉ name := by
    intro c hc name hname hmem
    rw [hname.chars c hmem] at hc
    cases hc
  rw [upTo?_eq_none_iff (by simp), upTo?_eq_none_iff (by simp)]
  refine not_congr (hedited.infix_iff ?_ ?_).symm
  · intro before old new rest hold
    obtain ⟨hident, hident'⟩ := words_of_renamed h hold
    exact ⟨hsign (by decide) hident, hsign (by decide) hident'⟩
  · -- No word starts with the slash.
    intro a b hab hb old new rest hold u v
    obtain ⟨hident, hident'⟩ := words_of_renamed h hold
    have hslash : b = ['/'] := by
      rcases List.append_eq_singleton_iff.1 hab.symm with ⟨-, hb'⟩ | ⟨-, hb'⟩
      · exact hb'
      · exact absurd hb' hb
    have hstart : ∀ {name : List Char}, IsIdent name → name ++ u ≠ b ++ v := by
      intro name hname heq
      obtain ⟨c, x, rfl⟩ := List.exists_cons_of_ne_nil hname.ne_nil
      rw [hslash] at heq
      obtain ⟨rfl, -⟩ := List.cons.inj heq
      exact hsign (by decide) hname List.mem_cons_self
    exact ⟨hstart hident, hstart hident'⟩

/-- Where no literal or comment starts, none does once the code behind is renamed. -/
theorem quiet?_cons_run {c : Char} {s : List Char} (hquiet : quiet? (c :: s) = none) :
    quiet? (c :: run aliases s) = none := by
  have hedited : ∀ x, Edited (Policy.renamed aliases) none x (run aliases x) := fun x =>
    Policy.edited_run h x fun hb => absurd hb Bool.false_ne_true
  by_cases hquote : isLiteralQuote c = true
  · rw [quiet?_literal hquote, Option.map_eq_none_iff, ← Option.not_isSome_iff_eq_none,
      isSome_literalRest?] at hquiet ⊢
    rwa [closes_renamed h hquote (hedited s)]
  by_cases hslash : c = '/'
  · subst hslash
    have hhead : ∀ d, isIdentChar d = false →
        followedBy (· == d) (run aliases s) = followedBy (· == d) s := by
      intro d hd
      refine followedBy_run h (fun a b ha hb => ?_) s
      have hother : ∀ e, isIdentChar e = true → (e == d) = false := by
        intro e he
        rw [beq_eq_false_iff_ne]
        rintro rfl
        rw [hd] at he
        cases he
      rw [hother a ha, hother b hb]
    have hcomment : followedBy (· == '/') s = false := by
      rw [← Bool.not_eq_true]
      intro hfollowed
      cases s with
      | nil => cases hfollowed
      | cons d s =>
        obtain rfl := eq_of_beq hfollowed
        cases hquiet
    by_cases hstar : followedBy (· == '*') s = true
    · cases s with
      | nil => cases hstar
      | cons d s =>
        obtain rfl := eq_of_beq hstar
        rw [run_mark h (by decide) (quiet?_of_not_isQuietStart (by decide)), quiet?,
          Option.map_eq_none_iff, comment_renamed h (hedited s)]
        rwa [quiet?, Option.map_eq_none_iff] at hquiet
    · -- Neither sign follows the slash, before or after.
      rw [Bool.not_eq_true] at hstar
      rw [← hhead '/' (by decide)] at hcomment
      rw [← hhead '*' (by decide)] at hstar
      cases hrun : run aliases s with
      | nil => rfl
      | cons d t =>
        rw [hrun, followedBy_cons, beq_eq_false_iff_ne] at hcomment hstar
        exact quiet?_slash hcomment hstar t
  · refine quiet?_of_not_isQuietStart ?_
    simpa [isQuietStart, hslash] using hquote

/-- Renamed code is cut at the same places. -/
theorem lex_run (code : List Char) :
    lex (run aliases code) = (lex code).map (Lexeme.rename aliases) := by
  induction code using code_induction with
  | nil => rw [run_nil h, lex_nil, List.map_nil]
  | quiet text s hquiet ih =>
    have hline : followedBy (· != '\n') (run aliases s) = followedBy (· != '\n') s := by
      refine followedBy_run h (fun c d hc hd => ?_) s
      have hother : ∀ e, isIdentChar e = true → (e != '\n') = true := by
        intro e he
        rw [bne_iff_ne]
        rintro rfl
        exact absurd he (by decide)
      rw [hother c hc, hother d hd]
    rw [run_quiet h hquiet, lex_quiet hquiet,
      lex_quiet (quiet?_of_some hquiet fun hrest => hline.trans hrest), ih]
    rfl
  | word w s hne hw hs ih =>
    rw [run_word h hne hw hs, lex_word hne hw hs,
      lex_word (canonical_ne_nil h hne) (canonical_chars h hw) (ends_run h hs), ih]
    rfl
  | mark c s hc hquiet ih =>
    rw [run_mark h hc hquiet, lex_mark hc hquiet, lex_mark hc (quiet?_cons_run h hquiet), ih]
    rfl

end Renamed

/-! ### Renaming lexeme by lexeme -/

/-- Replacing aliases again changes no lexeme, if no canonical name is an alias. -/
theorem Lexeme.rename_rename {aliases : Assoc String}
    (htargets : ∀ e ∈ aliases, Assoc.has aliases e.2 = false) (l : Lexeme) :
    (l.rename aliases).rename aliases = l.rename aliases := by
  cases l with
  | quiet text => rfl
  | word w =>
    have hnone := Assoc.get?_eq_none_iff.2 (has_canonical htargets w)
    rw [Lexeme.rename, Lexeme.rename, canonical_of_none hnone]
  | mark c => rfl

/-- No alias stands in code as a word. It may stand in a literal or a comment. -/
def Unaliased (aliases : Assoc String) (code : List Char) : Prop :=
  ∀ w, Lexeme.word w ∈ lex code → Assoc.has aliases (String.ofList w) = false

/-- A word that is an alias. -/
def Lexeme.isAlias (aliases : Assoc String) : Lexeme → Bool
  | .word w => Assoc.has aliases (String.ofList w)
  | _ => false

instance (aliases : Assoc String) (code : List Char) : Decidable (Unaliased aliases code) :=
  decidable_of_iff (∀ l ∈ lex code, l.isAlias aliases = false)
    ⟨fun h w hw => h _ hw, fun h l hl => by
      cases l with
      | word w => exact h w hl
      | quiet text => rfl
      | mark c => rfl⟩

/-- Renamed code is free of aliases, if no canonical name is one. -/
theorem unaliased_run {aliases : Assoc String} (hregular : Regular aliases)
    (htargets : ∀ e ∈ aliases, Assoc.has aliases e.2 = false) (code : List Char) :
    Unaliased aliases (run aliases code) := by
  intro w hw
  rw [lex_run hregular] at hw
  obtain ⟨l, -, hl⟩ := List.mem_map.1 hw
  cases l with
  | quiet text => cases hl
  | word w' =>
    cases hl
    exact has_canonical htargets w'
  | mark c => cases hl

/-- Code is left as it is exactly if no alias stands in it as a word. -/
theorem run_eq_self_iff {aliases : Assoc String} (hregular : Regular aliases)
    (htargets : ∀ e ∈ aliases, Assoc.has aliases e.2 = false) {code : List Char} :
    run aliases code = code ↔ Unaliased aliases code := by
  refine ⟨fun h => h ▸ unaliased_run hregular htargets code, fun h => ?_⟩
  have hsame : ∀ l ∈ lex code, (l.rename aliases).text = l.text := by
    intro l hl
    cases l with
    | quiet text => rfl
    | word w => exact canonical_of_none (Assoc.get?_eq_none_iff.2 (h w hl))
    | mark c => rfl
  rw [run_eq_flatMap_lex hregular, List.flatMap_congr hsame, flatMap_text_lex]

/-- Renaming is a map over the lexemes of code: a word that is an alias is replaced, and every other
lexeme stays. What comes out are the lexemes of the renamed code. So the order of the aliases plays
no part, no alias is left as a word, and renaming again changes nothing. -/
theorem run_lexemewise (aliases : Assoc String) (hregular : Regular aliases)
    (htargets : ∀ e ∈ aliases, Assoc.has aliases e.2 = false) (code : List Char) :
    (lex code).flatMap Lexeme.text = code ∧
      run aliases code = (lex code).flatMap (fun l => (l.rename aliases).text) ∧
      lex (run aliases code) = (lex code).map (Lexeme.rename aliases) ∧
      (aliases.keys.Nodup → ∀ aliases' : Assoc String, aliases'.Perm aliases →
        run aliases' code = run aliases code) ∧
      (∀ w, Lexeme.word w ∈ lex (run aliases code) →
        Assoc.has aliases (String.ofList w) = false) ∧
      run aliases (run aliases code) = run aliases code := by
  have hrun := run_eq_flatMap_lex hregular code
  have hlex := lex_run hregular code
  refine ⟨flatMap_text_lex code, hrun, hlex, ?_, unaliased_run hregular htargets code, ?_⟩
  · intro hnodup aliases' hperm
    have hregular' : Regular aliases' := fun e he => hregular e (hperm.mem_iff.1 he)
    have hcanonical : canonical aliases' = canonical aliases := by
      funext w
      rw [canonical, canonical, Assoc.get?_perm hperm hnodup]
    have hrename : Lexeme.rename aliases' = Lexeme.rename aliases := by
      funext l
      cases l with
      | quiet text => rfl
      | word w => rw [Lexeme.rename, Lexeme.rename, hcanonical]
      | mark c => rfl
    rw [hrun, run_eq_flatMap_lex hregular' code, hrename]
  · have hagain : (fun l => (Lexeme.rename aliases (Lexeme.rename aliases l)).text) =
        fun l => (l.rename aliases).text := by
      funext l
      rw [Lexeme.rename_rename htargets]
    rw [run_eq_flatMap_lex hregular (run aliases code), hlex, List.flatMap_map, hagain, ← hrun]

/-- Aliases of which one is the start of another. -/
def nestedAliases : Assoc String :=
  [("go", "run"), ("goNext", "nextStep")]

/-- Code with aliases as words, in literals and comments, next to a dollar sign, and behind a quote
that nothing closes. -/
def nestedCode : List Char :=
  "go(goNext, $go, 'go' + \"it's go\"); // go\n'go \\'goNext".toList

/-- Words are renamed, and what is in literals and comments stays. -/
theorem run_lexemewise_nested :
    run nestedAliases nestedCode =
        "run(nextStep, $go, 'go' + \"it's go\"); // go\n'run \\'nextStep".toList ∧
      run nestedAliases.reverse nestedCode = run nestedAliases nestedCode ∧
      run nestedAliases (run nestedAliases nestedCode) = run nestedAliases nestedCode := by
  have hregular : Regular nestedAliases := by decide
  have htargets : ∀ e ∈ nestedAliases, Assoc.has nestedAliases e.2 = false := by decide
  obtain ⟨-, -, -, horder, -, hagain⟩ := run_lexemewise nestedAliases hregular htargets nestedCode
  exact ⟨by decide +kernel, horder (by decide) _ (List.reverse_perm _), hagain⟩

end PageCompiler.Rename
