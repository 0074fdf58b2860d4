import Mathlib.Data.List.DropRight
import PageCompiler.Proofs.Assoc
import PageCompiler.Proofs.Block.Readers
import PageCompiler.Proofs.Text.Blank
import PageCompiler.Proofs.Written

/-!
# `PageCompiler.Proofs.Block.RoundTrip`: written values are read back

Whatever way a plain value is written, the readers give the value back. The proof is one induction
over `Written`. For a value, what follows it must not look like a part of it, and a bare scalar
takes the blanks behind it along, so the rest is what follows up to blanks and tabs. For items and
members, the reader goes on behind them as if they had been read before.

`readValue_written` is the case of a value and `readInline_written` that of a whole assignment.
The only line breaks may be line feeds here. Lines are joined by line feeds before a block is read.
-/

set_option autoImplicit false

namespace PageCompiler

open Text

namespace Scalar

/-! ### Quoted texts -/

/-- A character with its backslash doubled, and with quotes as they are. -/
def doubled (c : Char) : List Char :=
  if c = '\\' then ['\\', '\\'] else [c]

theorem head?_escape_ne_quote (s : List Char) : (escape s).head? ≠ some '"' := by
  cases s with
  | nil => simp [escape]
  | cons c s =>
    rw [escape, List.flatMap_cons, escapeChar]
    split
    · simp
    · split
      · simp
      · simpa using ‹¬c = '"'›

theorem unescapeQuotes_backslash {s : List Char} (h : s.head? ≠ some '"') :
    unescapeQuotes '"' ('\\' :: s) = '\\' :: unescapeQuotes '"' s := by
  cases s with
  | nil => rfl
  | cons c s =>
    have hc : ¬(c == '"') = true := by simpa using h
    rw [unescapeQuotes, if_neg hc]

theorem unescapeQuotes_cons {c : Char} {s : List Char} (h : c ≠ '\\') :
    unescapeQuotes '"' (c :: s) = c :: unescapeQuotes '"' s := by
  rw [unescapeQuotes.eq_def]
  split
  · contradiction
  · rename_i heq
    cases heq
    exact absurd rfl h
  · rename_i heq
    cases heq
    rfl

/-- The first pass takes the backslashes off the quotes and leaves the doubled ones. -/
theorem unescapeQuotes_escape (s : List Char) :
    unescapeQuotes '"' (escape s) = s.flatMap doubled := by
  induction s with
  | nil => rfl
  | cons c s ih =>
    rw [escape, List.flatMap_cons, List.flatMap_cons, ← escape, ← ih, escapeChar, doubled]
    split
    · -- The second backslash does not stand before a quote either.
      rw [List.cons_append, List.singleton_append, unescapeQuotes_backslash (by simp),
        unescapeQuotes_backslash (head?_escape_ne_quote s)]
      rfl
    · split
      · subst c
        rfl
      · rename_i hc _
        exact unescapeQuotes_cons hc

/-- Doubled backslashes are read as single ones. -/
theorem unescapeBackslashes_doubled (s : List Char) :
    unescapeBackslashes (s.flatMap doubled) = s := by
  induction s with
  | nil => rfl
  | cons c s ih =>
    rw [List.flatMap_cons, doubled]
    split
    · subst c
      rw [List.cons_append, List.singleton_append, unescapeBackslashes, ih]
    · rename_i hc
      rw [List.singleton_append, unescapeBackslashes.eq_def]
      split
      · contradiction
      · rename_i heq
        exact absurd (List.cons.inj heq).1 hc
      · rename_i heq
        obtain ⟨rfl, rfl⟩ := List.cons.inj heq
        rw [ih]

/-- The two passes together undo the escapes. -/
theorem unescape_escape (s : List Char) : unescape '"' (escape s) = s := by
  rw [unescape, unescapeQuotes_escape, unescapeBackslashes_doubled]

/-! ### Scalars as a whole -/

theorem quoted?_enquote (t : String) : quoted? (enquote t) = some ('"', escape t.toList) := by
  rw [enquote, quoted?, if_pos (by simp [isQuote])]
  simp

theorem isBlank_of_mem_valueStarts : ∀ c ∈ valueStarts, isBlank c = false := by decide

theorem isBlank_of_mem_valueEnds : ∀ c ∈ valueEnds, isBlank c = false := by decide

/-- White space around a written value does not count. -/
theorem trim_written {v : Value} {s lead trail : List Char} (h : Written (.value v) s)
    (hlead : ∀ c ∈ lead, isBlank c = true) (htrail : ∀ c ∈ trail, isBlank c = true) :
    trim (lead ++ (s ++ trail)) = s := by
  have hlast := h.last
  obtain ⟨c, t, rfl, hc⟩ := h.head
  exact trim_around hlead htrail (isBlank_of_mem_valueStarts c hc)
    (fun d hd => isBlank_of_mem_valueEnds d (hlast d hd))

theorem trim_written_self {v : Value} {s : List Char} (h : Written (.value v) s) : trim s = s := by
  have htrim := @trim_written v s [] [] h (by simp) (by simp)
  rwa [List.append_nil, List.nil_append] at htrim

theorem read_congr {s t : List Char} (h : trim s = trim t) : read s = read t := by
  unfold read
  rw [h]

theorem read_enquote {t : String} : read (enquote t) = .ok (.text t) := by
  have htrim : trim (enquote t) = enquote t := trim_written_self (.text t)
  unfold read
  simp only [htrim, quoted?_enquote, unescape_escape, String.ofList_toList]

theorem read_bool (b : Bool) : read (toString b).toList = .ok (.bool b) := by
  cases b with
  | true => rfl
  | false => rfl

/-- A written whole number is read back. -/
theorem read_int {n : Int} (h : (Value.int n).isPlain = true) :
    read (toString n).toList = .ok (.int n) := by
  have htrim : trim (toString n).toList = (toString n).toList := trim_written_self (.int n)
  -- The first character tells a numeral from a quoted text and from a word.
  have hstart : ∀ c ∈ '-' :: Decimal.asciiDigits, isQuote c = false ∧ c ≠ 't' ∧ c ≠ 'f' := by
    decide
  obtain ⟨c, t, hs, hc⟩ := Decimal.head_toString n
  obtain ⟨hquote, htrue, hfalse⟩ := hstart c hc
  have hquoted : quoted? (toString n).toList = none := by
    rw [hs, quoted?, hquote]
    rfl
  have hne_true : ((toString n).toList == "true".toList) = false := by
    rw [hs]
    simp [htrue]
  have hne_false : ((toString n).toList == "false".toList) = false := by
    rw [hs]
    simp [hfalse]
  have hlimit : (Nat.toDigits 10 n.natAbs).length ≤ Decimal.maxIntegerDigits := of_decide_eq_true h
  have hvalue : ofLiteral (Decimal.literalOf n) = .ok (.int n) := by
    have hinteger : (Decimal.literalOf n).isInteger = true := rfl
    have hlength : (Decimal.literalOf n).whole.length ≤ Decimal.maxIntegerDigits := hlimit
    rw [ofLiteral, if_pos hinteger, if_pos hlength, Decimal.toInt_literalOf]
  unfold read
  simp only [htrim, hquoted, hne_true, hne_false, Decimal.parse?_toString, hvalue]
  rfl

end Scalar

namespace Block

/-! ### Quotes and separators -/

/-- The closing quote is found behind an escaped text. -/
theorem scanQuoted_escape {s rest : List Char} (h : OneLine s) :
    scanQuoted '"' (escape s ++ '"' :: rest) = some (escape s, rest) := by
  induction s with
  | nil => rfl
  | cons c s ih =>
    obtain ⟨hc, hs⟩ := oneLine_cons.1 h
    rw [escape, List.flatMap_cons, ← escape, escapeChar]
    split
    · rw [List.cons_append, List.singleton_append, List.cons_append, List.cons_append, scanQuoted,
        ih hs]
      rfl
    · split
      · rw [List.cons_append, List.singleton_append, List.cons_append, List.cons_append,
          scanQuoted, ih hs]
        rfl
      · rename_i hbackslash hquote
        have hfeed : c ≠ '\n' := by
          rintro rfl
          exact absurd hc (by decide)
        rw [List.singleton_append, List.cons_append, scanQuoted.eq_def]
        split
        · contradiction
        · rename_i heq
          exact absurd (List.cons.inj heq).1 hbackslash
        · rename_i d tail _ heq
          obtain ⟨rfl, rfl⟩ := List.cons.inj heq
          rw [if_neg (by simpa using hbackslash), if_neg (by simpa using hquote),
            if_neg (by simpa using hfeed), ih hs]
          rfl

/-- A quoted text is read back. -/
theorem readQuoted_enquote {t : String} {rest : List Char} (h : OneLine t.toList) :
    forget (readQuoted '"' (escape t.toList ++ '"' :: rest)) = .ok (t, rest) := by
  rw [forget_readQuoted, scanQuoted_escape h]
  simp only [Scalar.unescape_escape, String.ofList_toList]

/-- Gaps and commas are passed over. -/
theorem skipSeparators_append {s t : List Char} (h : ∀ c ∈ s, (isGap c || c == ',') = true) :
    skipSeparators (s ++ t) = skipSeparators t := by
  induction s with
  | nil => rfl
  | cons c s ih =>
    have hc := h c (by simp)
    rw [← ih fun d hd => h d (by simp [hd]), skipSeparators, skipSeparators, List.cons_append, skip,
      if_neg (by simp), if_pos hc]

/-- The characters at which a separator can end: those that start a value or close a bracket. -/
theorem skipSeparators_cons {c : Char} {t : List Char}
    (h : c ∈ valueStarts ++ [']', '\x7d']) : skipSeparators (c :: t) = c :: t := by
  have hstart : ∀ c ∈ valueStarts ++ [']', '\x7d'],
      (isGap c || c == ',') = false ∧ c ≠ '/' ∧ c ≠ '#' := by decide
  obtain ⟨hgap, hslash, hsign⟩ := hstart c h
  have hcomment : atComment (c :: t) = false := by
    unfold atComment
    split <;> simp_all
  rw [skipSeparators, skip, if_neg (by simp), hgap, hcomment]
  rfl

theorem isGap_of_inlineGap {c : Char} (h : isInlineGap c = true) :
    (isGap c || c == ',') = true := by
  rcases eq_of_isInlineGap h with rfl | rfl <;> decide

/-- What is a gap on lines that end in line feeds is a separator. -/
theorem isGap_of_filler {c : Char} (h : isFiller c = true)
    (hfeed : isLineBreak c = true → c = '\n') : (isGap c || c == ',') = true := by
  rw [isFiller, Bool.or_eq_true, Bool.or_eq_true] at h
  rcases h with (h | h) | h
  · exact isGap_of_inlineGap h
  · rw [h, Bool.or_true]
  · rw [hfeed h]
    decide

/-- Texts that agree up to blanks and tabs agree up to separators. -/
theorem skipSeparators_congr {s t : List Char}
    (h : s.dropWhile isInlineGap = t.dropWhile isInlineGap) :
    skipSeparators s = skipSeparators t := by
  have hdrop : ∀ u : List Char, skipSeparators u = skipSeparators (u.dropWhile isInlineGap) := by
    intro u
    have hall : ∀ c ∈ u.takeWhile isInlineGap, (isGap c || c == ',') = true :=
      fun c hc => isGap_of_inlineGap (List.mem_takeWhile_imp hc)
    calc skipSeparators u
        = skipSeparators (u.takeWhile isInlineGap ++ u.dropWhile isInlineGap) := by
          rw [List.takeWhile_append_dropWhile]
      _ = skipSeparators (u.dropWhile isInlineGap) := skipSeparators_append hall
  rw [hdrop s, hdrop t, h]

/-- A gap in front of a value or of a closing bracket is passed over. -/
theorem skipSeparators_gap {behind : Bool} {gap t : List Char} {c : Char} (hgap : Gap behind gap)
    (hfed : LineFed gap) (hc : c ∈ valueStarts ++ [']', '\x7d']) :
    skipSeparators (gap ++ c :: t) = c :: t := by
  rw [skipSeparators_append fun d hd => isGap_of_filler (hgap.1 d hd) (hfed d hd)]
  exact skipSeparators_cons hc

/-! ### What follows a value -/

/-- Behind blanks and tabs, the text ends or goes on with a character that ends a bare scalar. -/
def EndsValue (s : List Char) : Prop :=
  ∀ c t, s.dropWhile isInlineGap = c :: t → endsBare c = true

theorem endsValue_nil : EndsValue [] := by
  intro c t h
  cases h

/-- A bare scalar ends where the blanks and tabs end. -/
theorem dropWhile_of_endsValue {s : List Char} (h : EndsValue s) :
    s.takeWhile (!endsBare ·) = s.takeWhile isInlineGap ∧
      s.dropWhile (!endsBare ·) = s.dropWhile isInlineGap := by
  have hbare : ∀ c, isInlineGap c = true → (!endsBare c) = true := by
    intro c hc
    rcases eq_of_isInlineGap hc with rfl | rfl <;> decide
  induction s with
  | nil => exact ⟨rfl, rfl⟩
  | cons c s ih =>
    cases hc : isInlineGap c with
    | true =>
      have hs : EndsValue s := by
        intro d t hd
        exact h d t (by rw [List.dropWhile_cons_of_pos hc]; exact hd)
      obtain ⟨htake, hdrop⟩ := ih hs
      simp only [List.takeWhile_cons, List.dropWhile_cons, hbare c hc, hc, htake, hdrop, if_true,
        and_self]
    | false =>
      have hend : endsBare c = true := h c s (by simp [hc])
      simp [hc, hend]

/-- A gap before something that ends a value ends it too. -/
theorem endsValue_append {s t : List Char} (hs : ∀ c ∈ s, isFiller c = true) (hfed : LineFed s)
    (ht : EndsValue t) : EndsValue (s ++ t) := by
  induction s with
  | nil => exact ht
  | cons c s ih =>
    obtain ⟨hc, hfed⟩ := lineFed_cons.1 hfed
    have hrest := ih (fun d hd => hs d (by simp [hd])) hfed
    intro d u hd
    cases hgap : isInlineGap c with
    | true =>
      rw [List.cons_append, List.dropWhile_cons_of_pos hgap] at hd
      exact hrest d u hd
    | false =>
      have hd : c = d := by
        rw [List.cons_append, List.dropWhile_cons_of_neg (by simp [hgap])] at hd
        exact (List.cons.inj hd).1
      subst hd
      -- The character is a comma or a line feed.
      have hfill := hs c (by simp)
      rw [isFiller, hgap, Bool.false_or, Bool.or_eq_true, beq_iff_eq] at hfill
      rcases hfill with rfl | hbreak
      · rfl
      · rw [hc hbreak]
        rfl

/-- A gap that parts two items ends the first, whatever follows it. -/
theorem endsValue_gap {gap t : List Char} (hgap : Gap true gap) (hfed : LineFed gap) :
    EndsValue (gap ++ t) := by
  obtain ⟨c, hmem, hc⟩ := hgap.2 rfl
  obtain ⟨a, b, rfl⟩ := List.append_of_mem hmem
  obtain ⟨hfeda, hfedb⟩ := lineFed_append.1 hfed
  rw [List.append_assoc]
  refine endsValue_append (fun d hd => hgap.1 d (by simp [hd])) hfeda ?_
  intro d u hd
  rw [List.cons_append, List.dropWhile_cons_of_neg (by simp [hc])] at hd
  have hfill := hgap.1 c (by simp)
  rw [isFiller, hc, Bool.false_or, Bool.or_eq_true, beq_iff_eq] at hfill
  rw [← (List.cons.inj hd).1]
  rcases hfill with rfl | hbreak
  · rfl
  · rw [(lineFed_cons.1 hfedb).1 hbreak]
    rfl

theorem endsValue_cons {c : Char} {t : List Char} (h : endsBare c = true) : EndsValue (c :: t) := by
  have hgap : ¬isInlineGap c = true := by
    intro hc
    rcases eq_of_isInlineGap hc with rfl | rfl <;> exact absurd h (by decide)
  intro d u hd
  rw [List.dropWhile_cons_of_neg hgap] at hd
  rw [← (List.cons.inj hd).1]
  exact h

/-- The items behind a value end it. -/
theorem endsValue_items {vs : List Value} {s tail : List Char} (h : Written (.items true vs) s)
    (hfed : LineFed s) (htail : EndsValue tail) : EndsValue (s ++ tail) := by
  cases h with
  | noItem => exact htail
  | item hgap hv hrest =>
    rw [List.append_assoc]
    exact endsValue_gap hgap (lineFed_append.1 hfed).1

/-- The members behind a value end it. -/
theorem endsValue_members {fields : Fields} {s tail : List Char}
    (h : Written (.members true fields) s) (hfed : LineFed s) (htail : EndsValue tail) :
    EndsValue (s ++ tail) := by
  cases h with
  | noMember => exact htail
  | member hgap hbefore hafter hv hrest =>
    rw [List.append_assoc]
    exact endsValue_gap hgap (lineFed_append.1 hfed).1

/-! ### Bare scalars -/

theorem isBlank_of_inlineGap {c : Char} (h : isInlineGap c = true) : isBlank c = true := by
  rcases eq_of_isInlineGap h with rfl | rfl <;> decide

/-- A scalar that stands bare takes the blanks and tabs behind it along. -/
theorem readBare_written {v : Value} {s tail : List Char} (h : Written (.value v) s)
    (hbare : ∀ c ∈ s, endsBare c = false) (hread : Scalar.read s = .ok v)
    (htail : EndsValue tail) :
    forget (readBare (s ++ tail)) = .ok (v, tail.dropWhile isInlineGap) := by
  obtain ⟨htake, hdrop⟩ := dropWhile_of_endsValue htail
  have hblank : ∀ c ∈ tail.takeWhile isInlineGap, isBlank c = true :=
    fun c hc => isBlank_of_inlineGap (List.mem_takeWhile_imp hc)
  have htoken : Scalar.read (s ++ tail.takeWhile isInlineGap) = .ok v := by
    rw [← hread]
    apply Scalar.read_congr
    have htrim := @Scalar.trim_written v s [] _ h (by simp) hblank
    rw [List.nil_append] at htrim
    rw [htrim, Scalar.trim_written_self h]
  have hstay : ∀ c ∈ s, (!endsBare c) = true := fun c hc => by rw [hbare c hc]; rfl
  obtain ⟨c, t, rfl, hc⟩ := h.head
  have htakeAll : (c :: (t ++ tail)).takeWhile (!endsBare ·) =
      (c :: t) ++ tail.takeWhile isInlineGap := by
    rw [← List.cons_append, List.takeWhile_append_of_pos hstay, htake]
  have hdropAll : (t ++ tail).dropWhile (!endsBare ·) = tail.dropWhile isInlineGap := by
    rw [List.dropWhile_append_of_pos fun d hd => hstay d (List.mem_cons_of_mem _ hd), hdrop]
  have hstart : (endsBare c || allBlank ((c :: t) ++ tail.takeWhile isInlineGap)) = false := by
    rw [hbare c (by simp), Bool.false_or, allBlank, List.cons_append, List.all_cons,
      Scalar.isBlank_of_mem_valueStarts c hc, Bool.false_and]
  rw [List.cons_append, readBare]
  simp only [htakeAll, hdropAll, hstart, htoken]
  rfl

/-- A value that stands bare is read back. `c` is its first character. -/
theorem readValue_bare {v : Value} {c : Char} {t tail : List Char}
    (h : Written (.value v) (c :: t)) (hc : c ∈ 't' :: 'f' :: '-' :: Decimal.asciiDigits)
    (hbare : ∀ d ∈ c :: t, endsBare d = false) (hread : Scalar.read (c :: t) = .ok v)
    (htail : EndsValue tail) :
    forget (readValue (c :: t ++ tail)) = .ok (v, tail.dropWhile isInlineGap) := by
  have hstart : ∀ c ∈ 't' :: 'f' :: '-' :: Decimal.asciiDigits,
      isGap c = false ∧ (c == '\x7b') = false ∧ (c == '[') = false ∧ Scalar.isQuote c = false := by
    decide
  obtain ⟨hgap, hbrace, hbracket, hquote⟩ := hstart c hc
  rw [forget_readValue, List.cons_append, dropWhile_of_head hgap]
  simp only [hbrace, hbracket, hquote]
  exact readBare_written h hbare hread htail

/-! ### All written forms -/

/-- The readers give back what a text writes, and go on behind it. -/
def ReadsBack : Part → List Char → Prop
  | .value v, s => ∀ tail, EndsValue tail →
      ∃ r, forget (readValue (s ++ tail)) = .ok (v, r) ∧
        r.dropWhile isInlineGap = tail.dropWhile isInlineGap
  | .items _ vs, s => ∀ done tail, EndsValue tail →
      forget (readItems done (s ++ tail)) = forget (readItems (done ++ vs) tail)
  | .members _ fields, s => ∀ done tail, EndsValue tail →
      (∀ key ∈ Assoc.keys fields, key ∉ Assoc.keys done) →
      forget (readMembers done (s ++ tail)) = forget (readMembers (done ++ fields) tail)

/-- Whole numbers are read back. -/
theorem readsBack_int {n : Int} (hp : (Value.int n).isPlain = true) :
    ReadsBack (.value (.int n)) (toString n).toList := by
  intro tail htail
  have hw : Written (.value (.int n)) (toString n).toList := .int n
  have hread := Scalar.read_int hp
  have hdull : ∀ c ∈ '-' :: Decimal.asciiDigits, endsBare c = false := by decide
  have hbare : ∀ c ∈ (toString n).toList, endsBare c = false :=
    fun c hc => hdull c (Decimal.mem_toString hc)
  obtain ⟨c, t, hs, hc⟩ := Decimal.head_toString n
  rw [hs] at hw hread hbare ⊢
  have hstart : ∀ c ∈ '-' :: Decimal.asciiDigits, c ∈ 't' :: 'f' :: '-' :: Decimal.asciiDigits := by
    decide
  exact ⟨_, readValue_bare hw (hstart c hc) hbare hread htail,
    List.dropWhile_idempotent isInlineGap tail⟩

/-- Truth values are read back. -/
theorem readsBack_bool (b : Bool) : ReadsBack (.value (.bool b)) (toString b).toList := by
  intro tail htail
  have hw : Written (.value (.bool b)) (toString b).toList := .bool b
  have hread := Scalar.read_bool b
  refine ⟨_, ?_, List.dropWhile_idempotent isInlineGap tail⟩
  cases b with
  | true => exact readValue_bare hw (by decide) (by decide) hread htail
  | false => exact readValue_bare hw (by decide) (by decide) hread htail

/-- Texts on one line are read back. -/
theorem readsBack_text {t : String} (h : OneLine t.toList) :
    ReadsBack (.value (.text t)) (enquote t) := by
  intro tail _
  refine ⟨tail, ?_, rfl⟩
  rw [enquote, List.cons_append, List.append_assoc, List.singleton_append, forget_readValue,
    dropWhile_of_head (by decide)]
  show (forget (readQuoted '"' (escape t.toList ++ '"' :: tail))).map _ = _
  rw [readQuoted_enquote h]
  rfl

/-- A list whose items are read back is read back. -/
theorem readsBack_list {vs : List Value} {s gap : List Char}
    (hs : ReadsBack (.items false vs) s) (hgap : Gap false gap) (hfed : LineFed gap) :
    ReadsBack (.value (.list vs)) ('[' :: (s ++ (gap ++ [']']))) := by
  intro tail _
  refine ⟨tail, ?_, rfl⟩
  have hclose : EndsValue (gap ++ ']' :: tail) :=
    endsValue_append hgap.1 hfed (endsValue_cons rfl)
  rw [List.cons_append, List.append_assoc, List.append_assoc, List.singleton_append,
    forget_readValue, dropWhile_of_head (by decide)]
  show (forget (readItems [] (s ++ (gap ++ ']' :: tail)))).map _ = _
  rw [hs [] _ hclose, readItems_close (skipSeparators_gap hgap hfed (by decide))]
  rfl

/-- Members that are read back, up to the brace behind them. -/
theorem readMembers_closed {fields : Fields} {s gap tail : List Char}
    (hs : ReadsBack (.members false fields) s) (hgap : Gap false gap) (hfed : LineFed gap) :
    forget (readMembers [] (s ++ (gap ++ '\x7d' :: tail))) = .ok (fields, tail) := by
  have hclose : EndsValue (gap ++ '\x7d' :: tail) :=
    endsValue_append hgap.1 hfed (endsValue_cons rfl)
  rw [hs [] _ hclose (by simp [Assoc.keys]),
    readMembers_close (skipSeparators_gap hgap hfed (by decide))]
  rfl

/-- A map whose members are read back is read back. -/
theorem readsBack_map {fields : Fields} {s gap : List Char}
    (hs : ReadsBack (.members false fields) s) (hgap : Gap false gap) (hfed : LineFed gap) :
    ReadsBack (.value (.map fields)) ('\x7b' :: (s ++ (gap ++ ['\x7d']))) := by
  intro tail _
  refine ⟨tail, ?_, rfl⟩
  rw [List.cons_append, List.append_assoc, List.append_assoc, List.singleton_append,
    forget_readValue, dropWhile_of_head (by decide)]
  show (forget (readMembers [] (s ++ (gap ++ '\x7d' :: tail)))).map _ = _
  rw [readMembers_closed hs hgap hfed]
  rfl

/-- One more item in front of items that are read back. -/
theorem readsBack_item {behind : Bool} {v : Value} {vs : List Value} {gap s rest : List Char}
    (hgap : Gap behind gap) (hfed : LineFed gap) (hw : Written (.value v) s)
    (hrest : Written (.items true vs) rest) (hfedRest : LineFed rest)
    (ihv : ReadsBack (.value v) s) (ihrest : ReadsBack (.items true vs) rest) :
    ReadsBack (.items behind (v :: vs)) (gap ++ (s ++ rest)) := by
  intro done tail htail
  obtain ⟨r, hread, hr⟩ := ihv (rest ++ tail) (endsValue_items hrest hfedRest htail)
  obtain ⟨c, t, rfl, hc⟩ := hw.head
  have hclose : ∀ c ∈ valueStarts, c ≠ ']' := by decide
  have hskip : skipSeparators (gap ++ (c :: t ++ rest) ++ tail) = c :: (t ++ (rest ++ tail)) := by
    rw [List.append_assoc, List.append_assoc, List.cons_append]
    exact skipSeparators_gap hgap hfed (List.mem_append_left _ hc)
  rw [readItems_step hskip (hclose c hc) hread, forget_readItems_congr _ (skipSeparators_congr hr),
    ihrest _ _ htail, List.append_assoc, List.singleton_append]

/-- One more member in front of members that are read back. Its key is new. -/
theorem readsBack_member {behind : Bool} {key : String} {v : Value} {fields : Fields}
    {gap before after s rest : List Char} (hgap : Gap behind gap) (hfed : LineFed gap)
    (hbefore : ∀ c ∈ before, isInlineGap c = true) (hafter : ∀ c ∈ after, isInlineGap c = true)
    (hw : Written (.value v) s) (hrest : Written (.members true fields) rest)
    (hfedRest : LineFed rest) (hkey : OneLine key.toList) (hnew : key ∉ Assoc.keys fields)
    (ihv : ReadsBack (.value v) s) (ihrest : ReadsBack (.members true fields) rest) :
    ReadsBack (.members behind ((key, v) :: fields))
      (gap ++ (enquote key ++ (before ++ ':' :: (after ++ (s ++ rest))))) := by
  intro done tail htail hkeys
  obtain ⟨r, hread, hr⟩ := ihv (rest ++ tail) (endsValue_members hrest hfedRest htail)
  have hdone : key ∉ Assoc.keys done := hkeys key (by simp [Assoc.keys])
  -- Behind the quoted key stand the colon and the value, with blanks and tabs around the colon.
  have hquoted : forget (readKey ('"' :: (escape key.toList ++ '"' ::
      (before ++ ':' :: (after ++ (s ++ (rest ++ tail))))))) =
      .ok (key, before ++ ':' :: (after ++ (s ++ (rest ++ tail)))) := readQuoted_enquote hkey
  have hcolon : (before ++ ':' :: (after ++ (s ++ (rest ++ tail)))).dropWhile isInlineGap =
      ':' :: (after ++ (s ++ (rest ++ tail))) := by
    rw [List.dropWhile_append_of_pos hbefore, dropWhile_of_head (by decide)]
  have hvalue : (after ++ (s ++ (rest ++ tail))).dropWhile isInlineGap = s ++ (rest ++ tail) := by
    obtain ⟨c, t, rfl, hc⟩ := hw.head
    have hgapless : ∀ c ∈ valueStarts, isInlineGap c = false := by decide
    rw [List.dropWhile_append_of_pos hafter, List.cons_append, dropWhile_of_head (hgapless c hc)]
  have hleft : ∀ k ∈ Assoc.keys fields, k ∉ Assoc.keys (done ++ [(key, v)]) := by
    intro k hk hmem
    rw [Assoc.keys, List.map_append, List.mem_append] at hmem
    rcases hmem with hmem | hmem
    · exact hkeys k (by simpa [Assoc.keys] using Or.inr hk) hmem
    · rw [List.map_cons, List.map_nil, List.mem_singleton] at hmem
      subst hmem
      exact hnew hk
  have hskip : skipSeparators
      (gap ++ (enquote key ++ (before ++ ':' :: (after ++ (s ++ rest)))) ++ tail) =
      '"' :: (escape key.toList ++ '"' :: (before ++ ':' :: (after ++ (s ++ (rest ++ tail))))) := by
    simp only [enquote, List.append_assoc, List.cons_append, List.nil_append]
    exact skipSeparators_gap hgap hfed (by decide)
  rw [readMembers_step hskip (by decide) hquoted hcolon hvalue hread,
    Assoc.insert_of_not_mem hdone, forget_readMembers_congr _ (skipSeparators_congr hr),
    ihrest _ _ htail hleft, List.append_assoc, List.singleton_append]

/-- Every written form of something plain is read back. -/
theorem readsBack {p : Part} {s : List Char} (h : Written p s) (hp : p.isPlain = true)
    (hfed : LineFed s) : ReadsBack p s := by
  induction h with
  | text t => exact readsBack_text (by simpa [Part.isPlain, Value.isPlain, OneLine] using hp)
  | int n => exact readsBack_int hp
  | bool b => exact readsBack_bool b
  | list hs hgap ih =>
    obtain ⟨hfeds, hfedgap⟩ := lineFed_append.1 (lineFed_cons.1 hfed).2
    exact readsBack_list (ih hp hfeds) hgap (lineFed_append.1 hfedgap).1
  | map hs hgap ih =>
    obtain ⟨hfeds, hfedgap⟩ := lineFed_append.1 (lineFed_cons.1 hfed).2
    exact readsBack_map (ih hp hfeds) hgap (lineFed_append.1 hfedgap).1
  | noItem =>
    intro done tail _
    rw [List.append_nil, List.nil_append]
  | item hgap hv hrest ihv ihrest =>
    obtain ⟨hvp, hvsp⟩ := Bool.and_eq_true_iff.1 hp
    obtain ⟨hfedgap, hfed⟩ := lineFed_append.1 hfed
    obtain ⟨hfeds, hfedrest⟩ := lineFed_append.1 hfed
    exact readsBack_item hgap hfedgap hv hrest hfedrest (ihv hvp hfeds) (ihrest hvsp hfedrest)
  | noMember =>
    intro done tail _ _
    rw [List.append_nil, List.nil_append]
  | member hgap hbefore hafter hv hrest ihv ihrest =>
    obtain ⟨hkey, hnew, hvp, hrestp⟩ := Part.isPlain_member hp
    obtain ⟨hfedgap, hfed⟩ := lineFed_append.1 hfed
    have hfed := (lineFed_append.1 (lineFed_append.1 hfed).2).2
    obtain ⟨hfeds, hfedrest⟩ := lineFed_append.1 (lineFed_append.1 (lineFed_cons.1 hfed).2).2
    exact readsBack_member hgap hfedgap hbefore hafter hv hrest hfedrest hkey hnew
      (ihv hvp hfeds) (ihrest hrestp hfedrest)

/-- A written value is read back, up to the blanks and tabs behind it. -/
theorem readValue_written {v : Value} {s tail : List Char} (h : Written (.value v) s)
    (hp : v.isPlain = true) (hfed : LineFed s) (htail : EndsValue tail) :
    ∃ r, forget (readValue (s ++ tail)) = .ok (v, r) ∧
      r.dropWhile isInlineGap = tail.dropWhile isInlineGap :=
  readsBack h hp hfed tail htail

/-- Blanks and tabs are nothing of note. -/
theorem endsCleanly_of_inlineGap {r : List Char} (h : r.dropWhile isInlineGap = []) :
    endsCleanly r = true := by
  have hblank : ∀ c ∈ r, isBlank c = true :=
    fun c hc => isBlank_of_inlineGap (List.dropWhile_eq_nil_iff.1 h c hc)
  rw [endsCleanly, trim_of_allBlank hblank]
  rfl

/-- A map is read back from a block. -/
theorem readBlock_written {fields : Fields} {s trail : List Char}
    (h : Written (.value (.map fields)) s) (hp : (Value.map fields).isPlain = true)
    (hfed : LineFed s) (htrail : ∀ c ∈ trail, isInlineGap c = true) :
    readBlock (s ++ trail) = .ok fields := by
  cases h with
  | @map _ s gap hs hgap =>
    obtain ⟨hfeds, hfedgap⟩ := lineFed_append.1 (lineFed_cons.1 hfed).2
    have hmembers := readsBack hs hp hfeds
    rw [List.cons_append, List.append_assoc, List.append_assoc, List.singleton_append]
    exact readBlock_of_members (readMembers_closed hmembers hgap (lineFed_append.1 hfedgap).1)
      (endsCleanly_of_inlineGap (List.dropWhile_eq_nil_iff.2 htrail))

/-- A value on one line is read back from an assignment. -/
theorem readInline_written {v : Value} {s lead trail : List Char} (h : Written (.value v) s)
    (hp : v.isPlain = true) (hone : OneLine s) (hlead : ∀ c ∈ lead, isInlineGap c = true)
    (htrail : ∀ c ∈ trail, isInlineGap c = true) :
    readInline (lead ++ (s ++ trail)) = .ok v := by
  -- Only the value itself is left when its ends have been trimmed.
  have hbody : trim (dropRightWhile (· == ',') (trim (lead ++ (s ++ trail)))) = s := by
    have hcomma : ∀ c ∈ valueEnds, (c == ',') = false := by decide
    rw [Scalar.trim_written h (fun c hc => isBlank_of_inlineGap (hlead c hc))
      (fun c hc => isBlank_of_inlineGap (htrail c hc)),
      dropRightWhile_of_last fun c hc => hcomma c (h.last c hc), Scalar.trim_written_self h]
  -- A bracketed value goes through the reader of values, with nothing behind it.
  have hbracket : ∀ {c : Char} {t : List Char}, s = c :: t →
      (c == '[' || c == '\x7b') = true → readInline (lead ++ (s ++ trail)) = .ok v := by
    rintro c t rfl hc
    obtain ⟨r, hread, hr⟩ := readValue_written h hp hone.lineFed endsValue_nil
    rw [List.append_nil] at hread
    exact readInline_of_value hbody hc hread (endsCleanly_of_inlineGap hr)
  cases h with
  | text t => rw [readInline_of_scalar hbody (by decide), ← enquote, Scalar.read_enquote]
  | int n =>
    obtain ⟨c, t, hs, hc⟩ := Decimal.head_toString n
    have hopen : ∀ c ∈ '-' :: Decimal.asciiDigits, (c == '[' || c == '\x7b') = false := by decide
    rw [readInline_of_scalar (hbody.trans hs) (hopen c hc), ← hs, Scalar.read_int hp]
  | bool b =>
    cases b with
    | true => exact readInline_of_scalar hbody (by decide)
    | false => exact readInline_of_scalar hbody (by decide)
  | list hs hgap => exact hbracket rfl (by decide)
  | map hs hgap => exact hbracket rfl (by decide)

end Block

end PageCompiler
