import PageCompiler.Block
import PageCompiler.Proofs.Decimal
import PageCompiler.Proofs.Text.Lines

/-!
# `PageCompiler.Proofs.Written`: the ways to write a value

`Written` relates a value to the texts that write it. Texts and keys stand in double quotes, with a
backslash before each quote and each backslash. Integers stand in decimal. Lists stand in brackets
and maps in braces. Members and items are parted by commas and line breaks, with any blanks and
tabs around them, so one value has many written forms.

A value has a written form that can be read back if it is `isPlain`: no text or key holds a line
break, no integer has more digits than the reader takes, and the keys of each map are different.
`write` is the form on one line, and `written_write` says that it is one.

`Written` is one relation over three kinds of parts, and not three mutual ones, so that a proof
about all written forms is one induction.
-/

set_option autoImplicit false

namespace PageCompiler

open Text

/-- Characters that may stand between members and items. -/
def isFiller (c : Char) : Bool :=
  Block.isInlineGap c || c == ',' || isLineBreak c

/-- What stands in front of a member or an item. Behind another one, it holds a comma or a line
break. -/
def Gap (behind : Bool) (s : List Char) : Prop :=
  (∀ c ∈ s, isFiller c = true) ∧ (behind = true → ∃ c ∈ s, Block.isInlineGap c = false)

/-- A character inside double quotes. -/
def escapeChar (c : Char) : List Char :=
  if c = '\\' then ['\\', '\\'] else if c = '"' then ['\\', '"'] else [c]

/-- The inside of a quoted text. -/
def escape (s : List Char) : List Char :=
  s.flatMap escapeChar

/-- A text in double quotes. -/
def enquote (t : String) : List Char :=
  '"' :: (escape t.toList ++ ['"'])

/-- What a text can be a written form of: a value, or the items of a list or the members of a map
without their brackets. `behind` says that another item or member stands in front. -/
inductive Part where
  | value (v : Value)
  | items (behind : Bool) (vs : List Value)
  | members (behind : Bool) (fields : Fields)

/-- A part and a text that writes it. -/
inductive Written : Part → List Char → Prop
  | text (t : String) : Written (.value (.text t)) (enquote t)
  | int (n : Int) : Written (.value (.int n)) (toString n).toList
  | bool (b : Bool) : Written (.value (.bool b)) (toString b).toList
  | list {vs : List Value} {s gap : List Char} (hs : Written (.items false vs) s)
      (hgap : Gap false gap) : Written (.value (.list vs)) ('[' :: (s ++ (gap ++ [']'])))
  | map {fields : Fields} {s gap : List Char} (hs : Written (.members false fields) s)
      (hgap : Gap false gap) :
      Written (.value (.map fields)) ('\x7b' :: (s ++ (gap ++ ['\x7d'])))
  | noItem (behind : Bool) : Written (.items behind []) []
  | item {behind : Bool} {v : Value} {vs : List Value} {gap s rest : List Char}
      (hgap : Gap behind gap) (hv : Written (.value v) s) (hrest : Written (.items true vs) rest) :
      Written (.items behind (v :: vs)) (gap ++ (s ++ rest))
  | noMember (behind : Bool) : Written (.members behind []) []
  | member {behind : Bool} {key : String} {v : Value} {fields : Fields}
      {gap before after s rest : List Char} (hgap : Gap behind gap)
      (hbefore : ∀ c ∈ before, Block.isInlineGap c = true)
      (hafter : ∀ c ∈ after, Block.isInlineGap c = true) (hv : Written (.value v) s)
      (hrest : Written (.members true fields) rest) :
      Written (.members behind ((key, v) :: fields))
        (gap ++ (enquote key ++ (before ++ ':' :: (after ++ (s ++ rest)))))

mutual

/-- A value that can be written and read back. -/
def Value.isPlain : Value → Bool
  | .text t => t.toList.all (!isLineBreak ·)
  | .int n => decide ((Nat.toDigits 10 n.natAbs).length ≤ Decimal.maxIntegerDigits)
  | .bool _ => true
  | .list vs => plainItems vs
  | .map fields => decide (Assoc.keys fields).Nodup && plainFields fields
  | .null | .float _ => false

/-- Items that can be written and read back. -/
def Value.plainItems : List Value → Bool
  | [] => true
  | v :: vs => v.isPlain && plainItems vs

/-- Fields that can be written and read back, as far as each one goes. -/
def Value.plainFields : List (String × Value) → Bool
  | [] => true
  | (key, v) :: fields => key.toList.all (!isLineBreak ·) && v.isPlain && plainFields fields

end

/-- A part that can be written and read back. -/
def Part.isPlain : Part → Bool
  | .value v => v.isPlain
  | .items _ vs => Value.plainItems vs
  | .members _ fields => decide (Assoc.keys fields).Nodup && Value.plainFields fields

/-- What is plain about the first of plain members: its key, that no other has it, and its value. -/
theorem Part.isPlain_member {behind : Bool} {key : String} {v : Value} {fields : Fields}
    (h : (Part.members behind ((key, v) :: fields)).isPlain = true) :
    OneLine key.toList ∧ key ∉ Assoc.keys fields ∧ v.isPlain = true ∧
      (Part.members true fields).isPlain = true := by
  simp only [Part.isPlain, Value.plainFields, Bool.and_eq_true, decide_eq_true_eq, Assoc.keys,
    List.map_cons, List.nodup_cons] at h
  obtain ⟨⟨hnew, hnodup⟩, ⟨hkey, hv⟩, hfields⟩ := h
  refine ⟨by simpa [OneLine] using hkey, hnew, hv, ?_⟩
  simp only [Part.isPlain, Bool.and_eq_true, decide_eq_true_eq]
  exact ⟨hnodup, hfields⟩

mutual

/-- A value on one line. -/
def Value.write : Value → List Char
  | .text t => enquote t
  | .int n => (toString n).toList
  | .bool b => (toString b).toList
  | .list vs => '[' :: (writeItems false vs ++ [']'])
  | .map fields => '\x7b' :: (writeFields false fields ++ ['\x7d'])
  | .null | .float _ => []

/-- Items on one line. Behind another one, an item stands behind a comma. -/
def Value.writeItems (behind : Bool) : List Value → List Char
  | [] => []
  | v :: vs => (if behind then [',', ' '] else []) ++ (v.write ++ writeItems true vs)

/-- Fields on one line. Behind another one, a field stands behind a comma. -/
def Value.writeFields (behind : Bool) : List (String × Value) → List Char
  | [] => []
  | (key, v) :: fields =>
    (if behind then [',', ' '] else []) ++
      (enquote key ++ ':' :: ' ' :: (v.write ++ writeFields true fields))

end

theorem gap_nil : Gap false [] :=
  ⟨by simp, by simp⟩

theorem gap_comma (behind : Bool) : Gap behind (if behind then [',', ' '] else []) := by
  cases behind with
  | false => exact gap_nil
  | true => exact ⟨by decide, fun _ => ⟨',', by decide, by decide⟩⟩

mutual

/-- The form on one line is a written form. -/
theorem Value.written_write : (v : Value) → v.isPlain = true → Written (.value v) v.write
  | .text t, _ => .text t
  | .int n, _ => .int n
  | .bool b, _ => .bool b
  | .list vs, h => .list (written_writeItems false vs h) gap_nil
  | .map fields, h =>
    .map (written_writeFields false fields (Bool.and_eq_true_iff.1 h).2) gap_nil
  | .null, h => nomatch h
  | .float _, h => nomatch h

theorem Value.written_writeItems (behind : Bool) :
    (vs : List Value) → plainItems vs = true → Written (.items behind vs) (writeItems behind vs)
  | [], _ => .noItem behind
  | v :: vs, h =>
    have h := Bool.and_eq_true_iff.1 h
    .item (gap_comma behind) (v.written_write h.1) (written_writeItems true vs h.2)

/-- Plain fields are written as the grammar says. -/
theorem Value.written_writeFields (behind : Bool) :
    (fields : List (String × Value)) → plainFields fields = true →
      Written (.members behind fields) (writeFields behind fields)
  | [], _ => .noMember behind
  | (key, v) :: fields, h => by
    rw [plainFields, Bool.and_eq_true, Bool.and_eq_true] at h
    have hrest := written_writeFields true fields h.2
    have hv := v.written_write h.1.2
    exact @Written.member behind key v fields _ [] [' '] _ _ (gap_comma behind) (by simp)
      (by decide) hv hrest

end

/-! ### How a written form starts and ends -/

/-- The characters with which a written value starts. -/
def valueStarts : List Char :=
  ['"', '[', '\x7b', '-', 't', 'f'] ++ Decimal.asciiDigits

/-- The characters with which a written value ends. -/
def valueEnds : List Char :=
  ['"', ']', '\x7d', 'e'] ++ Decimal.asciiDigits

theorem mem_valueEnds_of_digit {c : Char} (h : c ∈ Decimal.asciiDigits) : c ∈ valueEnds :=
  List.mem_append_right _ h

/-- A written value starts with one of few characters. -/
theorem Written.head {v : Value} {s : List Char} (h : Written (.value v) s) :
    ∃ c t, s = c :: t ∧ c ∈ valueStarts := by
  cases h with
  | text t => exact ⟨'"', _, rfl, by decide⟩
  | int n =>
    obtain ⟨c, t, hs, hc⟩ := Decimal.head_toString n
    have hstart : ∀ c ∈ '-' :: Decimal.asciiDigits, c ∈ valueStarts := by decide
    exact ⟨c, t, hs, hstart c hc⟩
  | bool b =>
    cases b with
    | true => exact ⟨'t', _, rfl, by decide⟩
    | false => exact ⟨'f', _, rfl, by decide⟩
  | list hs hgap => exact ⟨'[', _, rfl, by decide⟩
  | map hs hgap => exact ⟨'\x7b', _, rfl, by decide⟩

/-- Two pieces of which the second may be empty. -/
theorem getLast?_append_mem {a b : List Char} {ends : List Char}
    (ha : ∀ c, a.getLast? = some c → c ∈ ends) (hb : ∀ c, b.getLast? = some c → c ∈ ends) :
    ∀ c, (a ++ b).getLast? = some c → c ∈ ends := by
  intro c hc
  rw [List.getLast?_append] at hc
  cases hlast : b.getLast? with
  | none => exact ha c (by simpa [hlast] using hc)
  | some d => exact hb c (by simpa [hlast] using hc)

theorem getLast?_append_of_ne_nil {a b : List Char} (hb : b ≠ []) :
    (a ++ b).getLast? = b.getLast? := by
  rw [List.getLast?_append]
  cases hlast : b.getLast? with
  | none => exact absurd (List.getLast?_eq_none_iff.1 hlast) hb
  | some d => rfl

/-- A written part ends with one of few characters. -/
theorem Written.last {p : Part} {s : List Char} (h : Written p s) :
    ∀ c, s.getLast? = some c → c ∈ valueEnds := by
  induction h with
  | text t =>
    intro c hc
    rw [enquote, ← List.cons_append, List.getLast?_concat, Option.some.injEq] at hc
    subst hc
    decide
  | int n =>
    intro c hc
    -- A sign is never the last character, because there are digits behind it.
    have hlast : (toString n).toList.getLast? = (Nat.toDigits 10 n.natAbs).getLast? := by
      rw [Decimal.toList_toString]
      split
      · exact getLast?_append_of_ne_nil (a := ['-']) (Decimal.toDigits_ne_nil _)
      · rfl
    rw [hlast] at hc
    exact mem_valueEnds_of_digit
      (Decimal.mem_asciiDigits_of_mem_toDigits (List.mem_of_getLast? hc))
  | bool b =>
    intro c hc
    have hlast : (toString b).toList.getLast? = some 'e' := by
      cases b with
      | true => rfl
      | false => rfl
    rw [hlast, Option.some.injEq] at hc
    subst hc
    decide
  | list hs hgap _ =>
    intro c hc
    rw [← List.append_assoc, ← List.cons_append, List.getLast?_concat, Option.some.injEq] at hc
    subst hc
    decide
  | map hs hgap _ =>
    intro c hc
    rw [← List.append_assoc, ← List.cons_append, List.getLast?_concat, Option.some.injEq] at hc
    subst hc
    decide
  | noItem | noMember =>
    intro c hc
    cases hc
  | item hgap hv hrest ihv ihrest =>
    obtain ⟨c, t, rfl, _⟩ := hv.head
    rw [getLast?_append_of_ne_nil (by simp)]
    exact getLast?_append_mem ihv ihrest
  | member hgap hbefore hafter hv hrest ihv ihrest =>
    obtain ⟨c, t, rfl, _⟩ := hv.head
    rw [getLast?_append_of_ne_nil (by simp), getLast?_append_of_ne_nil (by simp),
      getLast?_append_of_ne_nil (by simp), ← List.singleton_append,
      getLast?_append_of_ne_nil (by simp), getLast?_append_of_ne_nil (by simp)]
    exact getLast?_append_mem ihv ihrest

/-! ### Line breaks in a written form -/

theorem oneLine_escapeChar {c : Char} (h : isLineBreak c = false) : OneLine (escapeChar c) := by
  unfold OneLine escapeChar
  split
  · decide
  · split
    · decide
    · intro d hd
      rw [List.mem_singleton.1 hd]
      exact h

theorem oneLine_enquote {t : String} (h : OneLine t.toList) : OneLine (enquote t) := by
  have hescape : OneLine (escape t.toList) := by
    intro c hc
    obtain ⟨d, hd, hc⟩ := List.mem_flatMap.1 hc
    exact oneLine_escapeChar (h d hd) c hc
  exact oneLine_cons.2 ⟨by decide, oneLine_append.2 ⟨hescape, by unfold OneLine; decide⟩⟩

theorem oneLine_toString (n : Int) : OneLine (toString n).toList := by
  have hdull : ∀ c ∈ '-' :: Decimal.asciiDigits, isLineBreak c = false := by decide
  exact fun c hc => hdull c (Decimal.mem_toString hc)

theorem oneLine_bool (b : Bool) : OneLine (toString b).toList := by
  cases b <;> (unfold OneLine; decide)

theorem Block.eq_of_isInlineGap {c : Char} (h : Block.isInlineGap c = true) :
    c = ' ' ∨ c = '\t' := by
  simpa [Block.isInlineGap] using h

theorem oneLine_of_inlineGap {s : List Char} (h : ∀ c ∈ s, Block.isInlineGap c = true) :
    OneLine s := by
  intro c hc
  rcases Block.eq_of_isInlineGap (h c hc) with rfl | rfl <;> decide

theorem oneLine_singleton {c : Char} (h : isLineBreak c = false) : OneLine [c] :=
  oneLine_cons.2 ⟨h, fun _ hd => nomatch hd⟩

theorem oneLine_comma (behind : Bool) : OneLine (if behind then [',', ' '] else []) := by
  cases behind <;> (unfold OneLine; decide)

mutual

/-- A plain value is written on one line. -/
theorem Value.oneLine_write : (v : Value) → v.isPlain = true → OneLine v.write
  | .text t, h => oneLine_enquote (by simpa [isPlain, OneLine] using h)
  | .int n, _ => oneLine_toString n
  | .bool b, _ => oneLine_bool b
  | .list vs, h =>
    oneLine_cons.2 ⟨by decide, oneLine_append.2
      ⟨oneLine_writeItems false vs h, oneLine_singleton (by decide)⟩⟩
  | .map fields, h =>
    oneLine_cons.2 ⟨by decide, oneLine_append.2
      ⟨oneLine_writeFields false fields (Bool.and_eq_true_iff.1 h).2,
        oneLine_singleton (by decide)⟩⟩
  | .null, h => nomatch h
  | .float _, h => nomatch h

theorem Value.oneLine_writeItems (behind : Bool) :
    (vs : List Value) → plainItems vs = true → OneLine (writeItems behind vs)
  | [], _ => fun _ hc => nomatch hc
  | v :: vs, h =>
    have h := Bool.and_eq_true_iff.1 h
    oneLine_append.2 ⟨oneLine_comma behind, oneLine_append.2
      ⟨v.oneLine_write h.1, oneLine_writeItems true vs h.2⟩⟩

theorem Value.oneLine_writeFields (behind : Bool) :
    (fields : List (String × Value)) → plainFields fields = true →
      OneLine (writeFields behind fields)
  | [], _ => fun _ hc => nomatch hc
  | (key, v) :: fields, h => by
    rw [plainFields, Bool.and_eq_true, Bool.and_eq_true] at h
    have hkey : OneLine key.toList := by simpa [OneLine] using h.1.1
    have hfields := oneLine_writeFields true fields h.2
    exact oneLine_append.2 ⟨oneLine_comma behind, oneLine_append.2 ⟨oneLine_enquote hkey,
      oneLine_cons.2 ⟨by decide, oneLine_cons.2 ⟨by decide, oneLine_append.2
        ⟨v.oneLine_write h.1.2, hfields⟩⟩⟩⟩⟩

end

/-- A gap stays a gap when its breaks are unified. -/
theorem Gap.unifyBreaks {behind : Bool} {s : List Char} (h : Gap behind s) :
    Gap behind (unifyBreaks s) := by
  refine ⟨?_, fun hb => ?_⟩
  · intro c hc
    rcases mem_unifyBreaks hc with rfl | hc
    · decide
    · exact h.1 c hc
  · obtain ⟨c, hc, hgap⟩ := h.2 hb
    refine ⟨_, mem_unifyBreaks_of_mem hc, ?_⟩
    split
    · decide
    · exact hgap

/-- A written value may be unified apart from what follows it. -/
theorem Written.unifyBreaks_append {p : Part} {s t : List Char} (h : Written p s) :
    unifyBreaks (s ++ t) = unifyBreaks s ++ unifyBreaks t := by
  apply unifyBreaks_append_of_cut
  intro hlast
  exact absurd (h.last _ hlast) (by decide)

/-- A gap may be unified apart from a character behind it that is no break. -/
theorem unifyBreaks_append_cons {s t : List Char} {c : Char} (hc : isLineBreak c = false) :
    unifyBreaks (s ++ c :: t) = unifyBreaks s ++ c :: unifyBreaks t := by
  rw [unifyBreaks_append_of_cut, unifyBreaks_cons hc]
  intro _ hhead
  rw [List.head?_cons, Option.some.injEq] at hhead
  rw [hhead] at hc
  exact absurd hc (by decide)

theorem isLineBreak_of_mem_valueStarts : ∀ c ∈ valueStarts, isLineBreak c = false := by decide

/-- A written form stays one when its breaks are unified. -/
theorem Written.unifyBreaks {p : Part} {s : List Char} (h : Written p s)
    (hp : p.isPlain = true) : Written p (Text.unifyBreaks s) := by
  induction h with
  | text t =>
    have ht : OneLine t.toList := by simpa [Part.isPlain, Value.isPlain, OneLine] using hp
    rw [unifyBreaks_of_oneLine (oneLine_enquote ht)]
    exact .text t
  | int n =>
    rw [unifyBreaks_of_oneLine (oneLine_toString n)]
    exact .int n
  | bool b =>
    rw [unifyBreaks_of_oneLine (oneLine_bool b)]
    exact .bool b
  | list hs hgap ih =>
    rw [unifyBreaks_cons (by decide), hs.unifyBreaks_append, unifyBreaks_append_cons (by decide)]
    exact .list (ih hp) hgap.unifyBreaks
  | map hs hgap ih =>
    rw [unifyBreaks_cons (by decide), hs.unifyBreaks_append, unifyBreaks_append_cons (by decide)]
    exact .map (ih hp) hgap.unifyBreaks
  | noItem behind => exact .noItem behind
  | @item behind v vs gap s rest hgap hv hrest ihv ihrest =>
    obtain ⟨hvp, hvsp⟩ := Bool.and_eq_true_iff.1 hp
    have hs := ihv hvp
    obtain ⟨c, t, rfl, hc⟩ := hv.head
    rw [List.cons_append, unifyBreaks_append_cons (isLineBreak_of_mem_valueStarts c hc),
      ← unifyBreaks_cons (isLineBreak_of_mem_valueStarts c hc), ← List.cons_append,
      hv.unifyBreaks_append]
    exact .item hgap.unifyBreaks hs (ihrest hvsp)
  | noMember behind => exact .noMember behind
  | @member behind key v fields gap before after s rest hgap hbefore hafter hv hrest ihv ihrest =>
    obtain ⟨hkey, _, hvp, hrestp⟩ := Part.isPlain_member hp
    rw [enquote, List.cons_append, unifyBreaks_append_cons (by decide),
      ← unifyBreaks_cons (by decide), ← List.cons_append, ← enquote,
      Text.unifyBreaks_append (oneLine_enquote hkey),
      Text.unifyBreaks_append (oneLine_of_inlineGap hbefore), unifyBreaks_cons (by decide),
      Text.unifyBreaks_append (oneLine_of_inlineGap hafter), hv.unifyBreaks_append]
    exact .member hgap.unifyBreaks hbefore hafter (ihv hvp) (ihrest hrestp)

end PageCompiler
