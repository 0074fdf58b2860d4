import PageCompiler.Json.Text
import PageCompiler.Proofs.Decimal
import PageCompiler.Proofs.Policy.Renaming

/-!
# `PageCompiler.Proofs.Json.Literal`: data in code

A value is written into a script as a literal. Its strings are string literals of the script too,
however many quotes and backslashes the text holds (`quiet?_quote`), so the literal leaves nothing
open behind it and stays on one line (`inline_write`).
-/

set_option autoImplicit false

namespace PageCompiler

open Text Rename

namespace Json

/-! ### Quoted strings -/

/-- Characters that stand for themselves inside of quotes. -/
def isInner (c : Char) : Bool :=
  c != '\\' && c != '"' && c != '\n'

theorem literalRest?_inner {c : Char} (h : isInner c = true) (t : List Char) :
    literalRest? '"' (c :: t) = (literalRest? '"' t).map fun (inner, r) => (c :: inner, r) := by
  simp only [isInner, Bool.and_eq_true, bne_iff_ne] at h
  obtain ⟨⟨hslash, hquote⟩, hfeed⟩ := h
  rw [literalRest?]
  · simp [hslash, hquote, hfeed]
  · intro d rest heq _
    exact hslash heq

theorem literalRest?_inners {x : List Char} (h : ∀ c ∈ x, isInner c = true) (t : List Char) :
    literalRest? '"' (x ++ t) = (literalRest? '"' t).map fun (inner, r) => (x ++ inner, r) := by
  induction x with
  | nil => simp
  | cons c x ih =>
    obtain ⟨hc, hx⟩ := List.forall_mem_cons.1 h
    rw [List.cons_append, literalRest?_inner hc, ih hx, Option.map_map]
    rfl

theorem literalRest?_escaped (c : Char) (t : List Char) :
    literalRest? '"' ('\\' :: c :: t) =
      (literalRest? '"' t).map fun (inner, r) => ('\\' :: c :: inner, r) := by
  rw [literalRest?]

/-- The characters of a number in hexadecimal digits. -/
theorem exists_of_mem_hexDigits {c : Char} {width n : Nat} (h : c ∈ hexDigits width n) :
    ∃ k < 16, c = Nat.digitChar k := by
  induction width generalizing n with
  | zero => cases h
  | succ width ih =>
    rw [hexDigits, List.mem_append, List.mem_singleton] at h
    rcases h with h | rfl
    · exact ih h
    · exact ⟨n % 16, Nat.mod_lt n (by decide), rfl⟩

theorem isInner_of_mem_hexDigits {c : Char} {width n : Nat} (h : c ∈ hexDigits width n) :
    isInner c = true := by
  obtain ⟨k, hk, rfl⟩ := exists_of_mem_hexDigits h
  have hall : ∀ k < 16, isInner (Nat.digitChar k) = true := by decide
  exact hall k hk

theorem literalRest?_unitEscape (n : Nat) (t : List Char) :
    literalRest? '"' (unitEscape n ++ t) =
      (literalRest? '"' t).map fun (inner, r) => (unitEscape n ++ inner, r) := by
  rw [unitEscape, List.cons_append, List.cons_append, literalRest?_escaped,
    literalRest?_inners (fun c hc => isInner_of_mem_hexDigits hc), Option.map_map]
  rfl

/-- The characters that stand behind a backslash for others. -/
def escapeSigns : List Char :=
  ['"', '\\', 'n', 'r', 't', 'f', 'b']

/-- How a character is written inside of quotes. -/
theorem quoteChar_cases (ascii : Bool) (c : Char) :
    (∃ d ∈ escapeSigns, quoteChar ascii c = ['\\', d]) ∨ (∃ n, quoteChar ascii c = unitEscape n) ∨
      (∃ n m, quoteChar ascii c = unitEscape n ++ unitEscape m) ∨
        (quoteChar ascii c = [c] ∧ isInner c = true) := by
  unfold quoteChar
  by_cases hquote : (c == '"') = true
  · exact .inl ⟨'"', by decide, if_pos hquote⟩
  rw [if_neg hquote]
  by_cases hslash : (c == '\\') = true
  · exact .inl ⟨'\\', by decide, if_pos hslash⟩
  rw [if_neg hslash]
  by_cases hfeed : (c == '\n') = true
  · exact .inl ⟨'n', by decide, if_pos hfeed⟩
  rw [if_neg hfeed]
  by_cases hreturn : (c == '\r') = true
  · exact .inl ⟨'r', by decide, if_pos hreturn⟩
  rw [if_neg hreturn]
  by_cases htab : (c == '\t') = true
  · exact .inl ⟨'t', by decide, if_pos htab⟩
  rw [if_neg htab]
  by_cases hform : (c.toNat == 0x0c) = true
  · exact .inl ⟨'f', by decide, if_pos hform⟩
  rw [if_neg hform]
  by_cases hback : (c.toNat == 0x08) = true
  · exact .inl ⟨'b', by decide, if_pos hback⟩
  rw [if_neg hback]
  by_cases hcontrol : c.toNat < 0x20
  · exact .inr (.inl ⟨_, if_pos hcontrol⟩)
  rw [if_neg hcontrol]
  by_cases hwide : (ascii && decide (0x7e < c.toNat)) = true
  · rw [if_pos hwide]
    by_cases hpair : c.toNat < 0x10000
    · exact .inr (.inl ⟨_, if_pos hpair⟩)
    · exact .inr (.inr (.inl ⟨_, _, if_neg hpair⟩))
  · rw [if_neg hwide]
    rw [beq_iff_eq] at hquote hslash hfeed
    exact .inr (.inr (.inr ⟨rfl, by simp [isInner, hquote, hslash, hfeed]⟩))

/-- A character is read inside of quotes as it is written there. -/
theorem literalRest?_quoteChar (ascii : Bool) (c : Char) (t : List Char) :
    literalRest? '"' (quoteChar ascii c ++ t) =
      (literalRest? '"' t).map fun (inner, r) => (quoteChar ascii c ++ inner, r) := by
  rcases quoteChar_cases ascii c with ⟨d, -, hc⟩ | ⟨n, hc⟩ | ⟨n, m, hc⟩ | ⟨hc, hinner⟩
  · rw [hc]
    exact literalRest?_escaped d t
  · rw [hc]
    exact literalRest?_unitEscape n t
  · rw [hc, List.append_assoc, literalRest?_unitEscape, literalRest?_unitEscape, Option.map_map]
    simp only [Function.comp_def, List.append_assoc]
  · rw [hc]
    exact literalRest?_inner hinner t

/-- No character is written with a line feed. -/
theorem feed_not_mem_quoteChar (ascii : Bool) (c : Char) : '\n' ∉ quoteChar ascii c := by
  have hunit : ∀ n, '\n' ∉ unitEscape n := by
    intro n hmem
    simp only [unitEscape, List.mem_cons] at hmem
    rcases hmem with hmem | hmem | hmem
    · exact absurd hmem (by decide)
    · exact absurd hmem (by decide)
    · exact absurd (isInner_of_mem_hexDigits hmem) (by decide)
  rcases quoteChar_cases ascii c with ⟨d, hd, hc⟩ | ⟨n, hc⟩ | ⟨n, m, hc⟩ | ⟨hc, hinner⟩
  · have hsigns : ∀ d ∈ escapeSigns, '\n' ∉ ['\\', d] := by decide
    rw [hc]
    exact hsigns d hd
  · rw [hc]
    exact hunit n
  · rw [hc, List.mem_append, not_or]
    exact ⟨hunit n, hunit m⟩
  · rw [hc, List.mem_singleton]
    rintro rfl
    exact absurd hinner (by decide)

/-- A quoted text ends at its own quote. -/
theorem literalRest?_quoted (ascii : Bool) (s t : List Char) :
    literalRest? '"' (s.flatMap (quoteChar ascii) ++ '"' :: t) =
      some (s.flatMap (quoteChar ascii) ++ ['"'], t) := by
  induction s with
  | nil => rfl
  | cons c s ih =>
    rw [List.flatMap_cons, List.append_assoc, literalRest?_quoteChar, ih]
    simp

theorem toList_quote (ascii : Bool) (s : String) :
    (quote ascii s).toList = '"' :: (s.toList.flatMap (quoteChar ascii) ++ ['"']) := by
  simp [quote, String.toList_append]

/-- A quoted string is one string literal. -/
theorem quiet?_quote (ascii : Bool) (s : String) (t : List Char) :
    quiet? ((quote ascii s).toList ++ t) = some ((quote ascii s).toList, t) := by
  have hread := literalRest?_quoted ascii s.toList t
  have hquote : isLiteralQuote '"' = true := by decide
  rw [toList_quote, List.cons_append, List.append_assoc, List.singleton_append, quiet?]
  · rw [if_pos hquote, hread]
    rfl
  · intro rest heq _
    exact absurd heq (by decide)
  · intro rest heq _
    exact absurd heq (by decide)

theorem feed_not_mem_quote (ascii : Bool) (s : String) : '\n' ∉ (quote ascii s).toList := by
  rw [toList_quote]
  simp [feed_not_mem_quoteChar]

/-! ### Literals -/

/-- Code that leaves nothing open and stays on one line. -/
structure Inline (aliases : Assoc String) (x : List Char) : Prop where
  closed : Closed aliases x
  feed : '\n' ∉ x

section Inline

variable {aliases : Assoc String} (h : Regular aliases)

include h

theorem inline_of_plain {x : List Char} (hx : ∀ c ∈ x, isQuietStart c = false ∧ c ≠ '\n') :
    Inline aliases x :=
  ⟨closed_of_plain h fun c hc => (hx c hc).1, fun hmem => (hx _ hmem).2 rfl⟩

theorem inline_quote (ascii : Bool) (s : String) : Inline aliases (quote ascii s).toList :=
  ⟨closed_quiet h (quiet?_quote ascii s), feed_not_mem_quote ascii s⟩

theorem Inline.append_mark {x y : List Char} {c : Char} (hx : Inline aliases x)
    (hc : isIdentChar c = false ∧ isQuietStart c = false ∧ c ≠ '\n') (hy : Inline aliases y) :
    Inline aliases (x ++ c :: y) := by
  refine ⟨hx.closed.append_mark h hc.1 hc.2.1 hy.closed, ?_⟩
  rw [List.mem_append, List.mem_cons, not_or, not_or]
  exact ⟨hx.feed, Ne.symm hc.2.2, hy.feed⟩

theorem inline_nil : Inline aliases [] :=
  inline_of_plain h (by simp)

/-- Code in brackets. -/
theorem Inline.between {x : List Char} {c d : Char} (hx : Inline aliases x)
    (hc : isIdentChar c = false ∧ isQuietStart c = false ∧ c ≠ '\n')
    (hd : isIdentChar d = false ∧ isQuietStart d = false ∧ d ≠ '\n') :
    Inline aliases (c :: (x ++ [d])) :=
  (inline_nil h).append_mark h hc (hx.append_mark h hd (inline_nil h))

/-- Pieces of code with a comma and a blank between them. -/
theorem inline_intercalate {texts : List String} (htexts : ∀ t ∈ texts, Inline aliases t.toList) :
    Inline aliases (", ".intercalate texts).toList := by
  induction texts with
  | nil => exact inline_nil h
  | cons t texts ih =>
    obtain ⟨ht, htexts⟩ := List.forall_mem_cons.1 htexts
    cases texts with
    | nil => simpa using ht
    | cons u texts =>
      have hrest := (inline_nil h).append_mark h (c := ' ') (by decide) (ih htexts)
      have hall := ht.append_mark h (c := ',') (by decide) hrest
      rw [String.intercalate_cons_of_ne_nil (by simp), String.toList_append, String.toList_append]
      simpa using hall

end Inline

variable {aliases : Assoc String}

mutual

/-- A value as a literal leaves nothing open and stays on one line. -/
theorem inline_write (h : Regular aliases) (v : Value) :
    Inline aliases (write .spaced v).toList := by
  cases v with
  | null => exact inline_of_plain h (by decide)
  | bool b =>
    refine inline_of_plain h ?_
    cases b with
    | true => decide
    | false => decide
  | int n =>
    have hall : ∀ c ∈ '-' :: Decimal.asciiDigits, isQuietStart c = false ∧ c ≠ '\n' := by decide
    exact inline_of_plain h fun c hc => hall c (Decimal.mem_toString hc)
  | float x =>
    have hnumber : ∀ c ∈ Decimal.numberChars, isQuietStart c = false ∧ c ≠ '\n' := by decide
    have hinfinity : ∀ c ∈ Decimal.Layout.data.infinity.toList,
        isQuietStart c = false ∧ c ≠ '\n' := by decide
    have hnan : ∀ c ∈ Decimal.Layout.data.nan.toList, isQuietStart c = false ∧ c ≠ '\n' := by
      decide
    refine inline_of_plain h fun c hc => ?_
    rcases Decimal.mem_write _ x c hc with hc | hc | hc
    · exact hnumber c hc
    · exact hinfinity c hc
    · exact hnan c hc
  | text s => exact inline_quote h false s
  | list items =>
    have hitems := (inline_intercalate h (inline_writeItems h items)).between h (c := '[')
      (d := ']') (by decide) (by decide)
    simpa [write, String.toList_append, Style.spaced] using hitems
  | map fields =>
    have hfields := (inline_intercalate h (inline_writeFields h fields)).between h (c := '\x7b')
      (d := '\x7d') (by decide) (by decide)
    simpa [write, String.toList_append, Style.spaced] using hfields

theorem inline_writeItems (h : Regular aliases) (items : List Value) :
    ∀ t ∈ writeItems .spaced items, Inline aliases t.toList := by
  cases items with
  | nil => simp [writeItems]
  | cons v items =>
    exact List.forall_mem_cons.2 ⟨inline_write h v, inline_writeItems h items⟩

theorem inline_writeFields (h : Regular aliases) (fields : List (String × Value)) :
    ∀ t ∈ writeFields .spaced fields, Inline aliases t.toList := by
  cases fields with
  | nil => simp [writeFields]
  | cons entry fields =>
    obtain ⟨key, v⟩ := entry
    refine List.forall_mem_cons.2 ⟨?_, inline_writeFields h fields⟩
    have hvalue := (inline_nil h).append_mark h (c := ' ') (by decide) (inline_write h v)
    have hfield := (inline_quote h false key).append_mark h (c := ':') (by decide) hvalue
    simpa [String.toList_append, Style.spaced] using hfield

end

end Json

end PageCompiler
