import PageCompiler.Proofs.Json.Literal
import PageCompiler.Proofs.Text.Stretch

/-!
# `PageCompiler.Proofs.Markup.EndTag`: where an element of raw text ends

Inside of a script or a style element markup means nothing, except for the end tag of the element.
`rawContent?` is what such an element holds: everything up to the first end tag, in letters of any
case. A text can be put into an element if it does not hold the end tag itself (`holdsEnd`,
`rawContent?_eq_some_iff`).

A string in quotes holds an end tag exactly if the string does (`holdsEnd_quote`), and a literal
does if one of its texts does (`holdsEnd_write`), since neither a quote nor an escape ends up inside
of the tag, and nothing of it is escaped.
-/

set_option autoImplicit false

namespace PageCompiler

open Text

/-! ### Cutting a text -/

/-- A text is cut at the first place where what follows satisfies a condition. -/
theorem Text.breakAt?_eq_some {p : List Char → Bool} {s a b : List Char} :
    breakAt? p s = some (a, b) ↔
      s = a ++ b ∧ p b = true ∧ ∀ u v, a = u ++ v → v ≠ [] → p (v ++ b) = false := by
  induction s generalizing a with
  | nil =>
    rw [breakAt?]
    split
    next hp =>
      constructor
      · intro h
        obtain ⟨rfl, rfl⟩ := Prod.mk.inj (Option.some.inj h)
        exact ⟨rfl, hp, fun u v huv hv => absurd (List.append_eq_nil_iff.1 huv.symm).2 hv⟩
      · rintro ⟨hs, -, -⟩
        obtain ⟨rfl, rfl⟩ := List.append_eq_nil_iff.1 hs.symm
        rfl
    next hp =>
      constructor
      · intro h
        cases h
      · rintro ⟨hs, hb, -⟩
        obtain ⟨rfl, rfl⟩ := List.append_eq_nil_iff.1 hs.symm
        exact absurd hb hp
  | cons c s ih =>
    rw [breakAt?]
    split
    next hp =>
      constructor
      · intro h
        obtain ⟨rfl, rfl⟩ := Prod.mk.inj (Option.some.inj h)
        exact ⟨rfl, hp, fun u v huv hv => absurd (List.append_eq_nil_iff.1 huv.symm).2 hv⟩
      · rintro ⟨hs, -, hfirst⟩
        cases a with
        | nil =>
          rw [List.nil_append] at hs
          rw [hs]
        | cons d a =>
          have hnot := hfirst [] (d :: a) rfl (by simp)
          rw [← hs, hp] at hnot
          cases hnot
    next hp =>
      rw [Option.map_eq_some_iff]
      constructor
      · rintro ⟨⟨a', b'⟩, h, heq⟩
        obtain ⟨rfl, rfl⟩ := Prod.mk.inj heq
        obtain ⟨rfl, hb, hfirst⟩ := ih.1 h
        refine ⟨rfl, hb, fun u v huv hv => ?_⟩
        cases u with
        | nil =>
          rw [List.nil_append] at huv
          rw [← huv]
          exact Bool.eq_false_iff.2 hp
        | cons d u => exact hfirst u v (List.cons.inj huv).2 hv
      · rintro ⟨hs, hb, hfirst⟩
        cases a with
        | nil =>
          rw [List.nil_append] at hs
          rw [← hs] at hb
          exact absurd hb hp
        | cons d a =>
          obtain ⟨rfl, rfl⟩ := List.cons.inj hs
          refine ⟨(a, b), ih.2 ⟨rfl, hb, ?_⟩, rfl⟩
          rintro u v rfl hv
          exact hfirst (c :: u) v rfl hv

/-- A text breaks where one of its ends satisfies a condition. -/
theorem Text.breakAt?_isSome_iff {p : List Char → Bool} {s : List Char} :
    (breakAt? p s).isSome = true ↔ ∃ b, b <:+ s ∧ p b = true := by
  induction s with
  | nil =>
    rw [breakAt?]
    split
    next hp => simp [hp]
    next hp => simp [hp]
  | cons c s ih =>
    rw [breakAt?]
    split
    next hp => exact iff_of_true rfl ⟨c :: s, List.suffix_refl _, hp⟩
    next hp =>
      rw [Option.isSome_map, ih]
      constructor
      · rintro ⟨b, hb, hpb⟩
        exact ⟨b, hb.trans (List.suffix_cons c s), hpb⟩
      · rintro ⟨b, hb, hpb⟩
        rcases List.suffix_cons_iff.1 hb with rfl | hb
        · exact absurd hpb hp
        · exact ⟨b, hb, hpb⟩

namespace Markup

/-! ### End tags -/

/-- An end tag of an element starts here, in letters of any case. -/
def endsHere (tag : String) (s : List Char) : Bool :=
  (s.take (tag.toList.length + 2)).map Char.toLower == '<' :: '/' :: tag.toList

/-- The text holds an end tag of the element. -/
def holdsEnd (tag : String) (s : List Char) : Bool :=
  (breakAt? (endsHere tag) s).isSome

/-- The content of an element of raw text, from behind its start tag: all up to the first end
tag. -/
def rawContent? (tag : String) (s : List Char) : Option (List Char) :=
  (breakAt? (endsHere tag) s).map Prod.fst

/-- An end tag up to the name of its element. -/
def IsEnd (tag : String) (y : List Char) : Prop :=
  y.map Char.toLower = '<' :: '/' :: tag.toList

/-- An end tag stands here exactly if the text starts with one. -/
theorem endsHere_iff {tag : String} {s : List Char} :
    endsHere tag s = true ↔ ∃ y, IsEnd tag y ∧ y <+: s := by
  rw [endsHere, beq_iff_eq]
  constructor
  · intro h
    exact ⟨_, h, List.take_prefix _ s⟩
  · rintro ⟨y, hy, v, rfl⟩
    have hlength : y.length = tag.toList.length + 2 := by
      have hlength := congrArg List.length hy
      simpa using hlength
    rw [← hlength, List.take_left]
    exact hy

/-- An end tag is held exactly if it stands somewhere. -/
theorem holdsEnd_iff {tag : String} {s : List Char} :
    holdsEnd tag s = true ↔ ∃ y, IsEnd tag y ∧ y <:+: s := by
  rw [holdsEnd, breakAt?_isSome_iff]
  constructor
  · rintro ⟨b, hb, hends⟩
    obtain ⟨y, hy, hprefix⟩ := endsHere_iff.1 hends
    exact ⟨y, hy, hprefix.isInfix.trans hb.isInfix⟩
  · rintro ⟨y, hy, u, v, huv⟩
    exact ⟨y ++ v, ⟨u, by rw [← huv, List.append_assoc]⟩,
      endsHere_iff.2 ⟨y, hy, List.prefix_append y v⟩⟩

/-- A character whose small form is not in the tag. -/
theorem IsEnd.not_mem {tag : String} {y : List Char} (h : IsEnd tag y) {c : Char}
    (hc : c.toLower ∉ '<' :: '/' :: tag.toList) : c ∉ y := by
  intro hmem
  rw [← h] at hc
  exact hc (List.mem_map_of_mem hmem)

theorem IsEnd.ne_nil {tag : String} {y : List Char} (h : IsEnd tag y) : y ≠ [] := by
  rintro rfl
  cases h

/-- The letters with a small form: the letter itself and the capital one. -/
theorem eq_of_toLower {c d : Char} (h : c.toLower = d) : c = d ∨ c = Char.ofNat (d.toNat - 32) := by
  unfold Char.toLower at h
  split at h
  next hupper =>
    right
    have hlow : 65 ≤ c.toNat := UInt32.le_iff_toNat_le.1 hupper.1
    have hhigh : c.toNat ≤ 90 := UInt32.le_iff_toNat_le.1 hupper.2
    have hd : d.toNat = c.toNat + 32 := by
      rw [← h]
      show (c.val + 32).toNat = c.val.toNat + 32
      rw [UInt32.toNat_add]
      have hval : c.val.toNat ≤ 90 := hhigh
      have h32 : (32 : UInt32).toNat = 32 := rfl
      omega
    rw [hd, Nat.add_sub_cancel, Char.ofNat_toNat]
  next => exact .inl h

/-- An end tag: bracket, slash, and the name in any case. -/
theorem IsEnd.exists_cons {tag : String} {y : List Char} (h : IsEnd tag y) :
    ∃ w, y = '<' :: '/' :: w ∧ w.map Char.toLower = tag.toList := by
  obtain ⟨c, y', rfl, hc, hy'⟩ := List.map_eq_cons_iff.1 h
  obtain ⟨d, w, rfl, hd, hw⟩ := List.map_eq_cons_iff.1 hy'
  have hc' : c = '<' := by
    rcases eq_of_toLower hc with rfl | rfl
    · rfl
    · exact absurd hc (by decide)
  have hd' : d = '/' := by
    rcases eq_of_toLower hd with rfl | rfl
    · rfl
    · exact absurd hd (by decide)
  exact ⟨w, by rw [hc', hd'], hw⟩

section Algebra

variable {tag : String} {a b s : List Char} {d : Char}

/-- An end tag lies on one side of a character that it does not hold. -/
theorem holdsEnd_append_cons (hd : d.toLower ∉ '<' :: '/' :: tag.toList) :
    holdsEnd tag (a ++ d :: b) = (holdsEnd tag a || holdsEnd tag b) := by
  rw [Bool.eq_iff_iff, Bool.or_eq_true, holdsEnd_iff, holdsEnd_iff, holdsEnd_iff]
  constructor
  · rintro ⟨y, hy, h⟩
    rcases (infix_append_cons_iff hy.ne_nil (hy.not_mem hd)).1 h with h | h
    · exact .inl ⟨y, hy, h⟩
    · exact .inr ⟨y, hy, h⟩
  · rintro (⟨y, hy, h⟩ | ⟨y, hy, h⟩)
    · exact ⟨y, hy, (infix_append_cons_iff hy.ne_nil (hy.not_mem hd)).2 (.inl h)⟩
    · exact ⟨y, hy, (infix_append_cons_iff hy.ne_nil (hy.not_mem hd)).2 (.inr h)⟩

theorem holdsEnd_of_not_mem (h : '<' ∉ s) : holdsEnd tag s = false := by
  rw [Bool.eq_false_iff]
  intro hholds
  obtain ⟨y, hy, hinfix⟩ := holdsEnd_iff.1 hholds
  obtain ⟨w, rfl, -⟩ := hy.exists_cons
  exact not_infix_of_not_mem h hinfix

/-- What holds of each end tag holds of the texts. -/
theorem holdsEnd_congr (h : ∀ y, IsEnd tag y → (y <:+: a ↔ y <:+: b)) :
    holdsEnd tag a = holdsEnd tag b := by
  rw [Bool.eq_iff_iff, holdsEnd_iff, holdsEnd_iff]
  exact exists_congr fun y => and_congr_right (h y)

/-- An end tag does not start in a text without its first character. -/
theorem holdsEnd_append_left (h : '<' ∉ a) : holdsEnd tag (a ++ b) = holdsEnd tag b := by
  refine holdsEnd_congr fun y hy => ?_
  obtain ⟨w, rfl, -⟩ := hy.exists_cons
  exact infix_append_iff_of_not_mem h

/-- The end tags of separated parts are those of the parts. -/
theorem holdsEnd_intercalate {sep : List Char} {parts : List (List Char)} (hne : sep ≠ [])
    (hsep : ∀ c ∈ sep, c.toLower ∉ '<' :: '/' :: tag.toList) :
    holdsEnd tag (sep.intercalate parts) = parts.any (holdsEnd tag) := by
  rw [Bool.eq_iff_iff, holdsEnd_iff, List.any_eq_true]
  simp only [holdsEnd_iff]
  constructor
  · rintro ⟨y, hy, h⟩
    obtain ⟨part, hpart, h⟩ :=
      (infix_intercalate_iff hy.ne_nil (fun c hc => hy.not_mem (hsep c hc)) hne).1 h
    exact ⟨part, hpart, y, hy, h⟩
  · rintro ⟨part, hpart, y, hy, h⟩
    exact ⟨y, hy,
      (infix_intercalate_iff hy.ne_nil (fun c hc => hy.not_mem (hsep c hc)) hne).2 ⟨part, hpart, h⟩⟩

end Algebra

/-- The content of an element does not hold the end tag. -/
theorem holdsEnd_of_rawContent? {tag : String} {s x : List Char} (h : rawContent? tag s = some x) :
    holdsEnd tag x = false := by
  obtain ⟨⟨front, back⟩, hbreak, rfl⟩ := Option.map_eq_some_iff.1 h
  obtain ⟨-, -, hfirst⟩ := breakAt?_eq_some.1 hbreak
  rw [Bool.eq_false_iff]
  intro hholds
  obtain ⟨y, hy, u, v, huv⟩ := holdsEnd_iff.1 hholds
  have hnot := hfirst u (y ++ v) (by rw [← List.append_assoc]; exact huv.symm) (by simp [hy.ne_nil])
  have hyes : endsHere tag (y ++ v ++ back) = true :=
    endsHere_iff.2 ⟨y, hy, by rw [List.append_assoc]; exact List.prefix_append _ _⟩
  rw [hyes] at hnot
  cases hnot

/-- A text is the content of an element exactly if it does not hold the end tag. The last character
of the text keeps it apart from the end tag that follows. -/
theorem rawContent?_eq_some_iff {tag : String} {x rest : List Char} {e : Char}
    (he : e.toLower ∉ '<' :: '/' :: tag.toList) {final : List Char} (hfinal : IsEnd tag final) :
    rawContent? tag (x ++ e :: (final ++ rest)) = some (x ++ [e]) ↔
      holdsEnd tag (x ++ [e]) = false := by
  have hsplit : x ++ e :: (final ++ rest) = (x ++ [e]) ++ (final ++ rest) := by simp
  have hends : endsHere tag (final ++ rest) = true :=
    endsHere_iff.2 ⟨final, hfinal, List.prefix_append _ _⟩
  refine ⟨holdsEnd_of_rawContent?, fun hholds => ?_⟩
  rw [Bool.eq_false_iff] at hholds
  rw [rawContent?, Option.map_eq_some_iff, hsplit]
  refine ⟨(x ++ [e], final ++ rest), breakAt?_eq_some.2 ⟨rfl, hends, fun u v huv hv => ?_⟩, rfl⟩
  rw [Bool.eq_false_iff]
  intro hhere
  apply hholds
  obtain ⟨y, hy, hprefix⟩ := endsHere_iff.1 hhere
  refine holdsEnd_iff.2 ⟨y, hy, ?_⟩
  -- The tag starts in front of the last character and does not reach it.
  rcases List.eq_nil_or_concat v with rfl | ⟨v, e', rfl⟩
  · exact absurd rfl hv
  · rw [List.concat_eq_append] at huv hprefix
    rw [← List.append_assoc] at huv
    obtain ⟨rfl, he'⟩ := List.append_inj' huv rfl
    cases he'
    rw [List.append_assoc, List.singleton_append] at hprefix
    obtain ⟨z, hz⟩ := hprefix
    rcases List.append_eq_append_iff.1 hz with ⟨t, rfl, -⟩ | ⟨t, rfl, ht⟩
    · exact ⟨u, t ++ [e], by simp⟩
    · cases t with
      | nil => exact ⟨u, [e], by simp⟩
      | cons f t =>
        obtain ⟨rfl, -⟩ := List.cons.inj ht
        exact absurd (by simp) (hy.not_mem he)

/-- The characters of the end tag of a script. -/
theorem IsEnd.mem_script {y : List Char} (h : IsEnd "script" y) :
    ∀ c ∈ y, c ∈ "</scriptSCRIPT".toList := by
  have hall : ∀ d ∈ "</script".toList, d ∈ "</scriptSCRIPT".toList ∧
      ((Char.ofNat (d.toNat - 32)).toLower ≠ d ∨
        Char.ofNat (d.toNat - 32) ∈ "</scriptSCRIPT".toList) := by decide
  intro c hc
  have hlower : c.toLower ∈ "</script".toList := by
    have hmem := List.mem_map_of_mem (f := Char.toLower) hc
    rw [h] at hmem
    exact hmem
  obtain ⟨hsmall, hcapital⟩ := hall _ hlower
  rcases eq_of_toLower (rfl : c.toLower = c.toLower) with heq | heq
  · rw [heq]
    exact hsmall
  · rw [← heq] at hcapital
    exact hcapital.resolve_left fun hne => hne rfl

end Markup

/-! ### Strings and literals -/

namespace Json

/-- A character is written as an escape or as itself. -/
theorem quoteChar_eq_or (ascii : Bool) (c : Char) :
    (∃ x, quoteChar ascii c = '\\' :: x ∧ '<' ∉ x) ∨ quoteChar ascii c = [c] := by
  have hunit : ∀ n, '<' ∉ 'u' :: hexDigits 4 n := by
    intro n hmem
    rcases List.mem_cons.1 hmem with hmem | hmem
    · exact absurd hmem (by decide)
    · obtain ⟨k, hk, hc⟩ := exists_of_mem_hexDigits hmem
      have hall : ∀ k < 16, '<' ≠ Nat.digitChar k := by decide
      exact hall k hk hc
  rcases quoteChar_cases ascii c with ⟨d, hd, hc⟩ | ⟨n, hc⟩ | ⟨n, m, hc⟩ | ⟨hc, -⟩
  · have hall : ∀ d ∈ escapeSigns, '<' ∉ [d] := by decide
    exact .inl ⟨[d], hc, hall d hd⟩
  · exact .inl ⟨_, hc, hunit n⟩
  · refine .inl ⟨_, hc, ?_⟩
    intro hmem
    rcases List.mem_append.1 hmem with hmem | hmem
    · exact hunit n hmem
    · rcases List.mem_cons.1 hmem with hmem | hmem
      · exact absurd hmem (by decide)
      · exact hunit m hmem
  · exact .inr hc

/-- What starts a quoted text without a backslash starts the text. -/
theorem prefix_of_prefix_quoted {ascii : Bool} {y s : List Char} (hy : '\\' ∉ y)
    (h : y <+: s.flatMap (quoteChar ascii)) : y <+: s := by
  induction y generalizing s with
  | nil => exact List.nil_prefix
  | cons d y ih =>
    rw [List.mem_cons, not_or] at hy
    cases s with
    | nil => exact absurd (List.prefix_nil.1 h) (by simp)
    | cons c s =>
      rw [List.flatMap_cons] at h
      rcases quoteChar_eq_or ascii c with ⟨x, hc, -⟩ | hc
      · rw [hc, List.cons_append] at h
        exact absurd (List.cons_prefix_cons.1 h).1.symm hy.1
      · rw [hc, List.singleton_append] at h
        obtain ⟨rfl, hrest⟩ := List.cons_prefix_cons.1 h
        exact List.cons_prefix_cons.2 ⟨rfl, ih hy.2 hrest⟩

/-- Stretches that start with the sign of a tag and need no escapes are the same inside of
quotes. -/
theorem infix_quoted_iff {ascii : Bool} {y s : List Char}
    (hy : ∀ c ∈ '<' :: y, quoteChar ascii c = [c]) (hslash : '\\' ∉ '<' :: y) :
    '<' :: y <:+: s.flatMap (quoteChar ascii) ↔ '<' :: y <:+: s := by
  constructor
  · intro h
    induction s with
    | nil => exact h
    | cons c s ih =>
      rw [List.flatMap_cons] at h
      rcases quoteChar_eq_or ascii c with ⟨x, hc, hx⟩ | hc
      · rw [hc, infix_append_iff_of_not_mem (by simpa using hx)] at h
        exact List.infix_cons (ih h)
      · rw [hc, List.singleton_append, List.infix_cons_iff] at h
        rcases h with h | h
        · obtain ⟨rfl, hrest⟩ := List.cons_prefix_cons.1 h
          rw [List.mem_cons, not_or] at hslash
          exact (List.cons_prefix_cons.2 ⟨rfl, prefix_of_prefix_quoted hslash.2 hrest⟩).isInfix
        · exact List.infix_cons (ih h)
  · rintro ⟨u, v, rfl⟩
    refine ⟨u.flatMap (quoteChar ascii), v.flatMap (quoteChar ascii), ?_⟩
    have hself : ∀ {z : List Char}, (∀ c ∈ z, quoteChar ascii c = [c]) →
        z.flatMap (quoteChar ascii) = z := by
      intro z hz
      induction z with
      | nil => rfl
      | cons c z ih =>
        obtain ⟨hc, hz⟩ := List.forall_mem_cons.1 hz
        rw [List.flatMap_cons, hc, ih hz]
        rfl
    rw [List.flatMap_append, List.flatMap_append, hself hy]

open Markup

/-- A quoted string holds the end tag of a script exactly if the string does. -/
theorem holdsEnd_quote (ascii : Bool) (s : String) :
    holdsEnd "script" (quote ascii s).toList = holdsEnd "script" s.toList := by
  have hnil : holdsEnd "script" [] = false := by decide
  have hquote : ('"').toLower ∉ '<' :: '/' :: "script".toList := by decide
  have hplain : ∀ c ∈ "</scriptSCRIPT".toList, ∀ ascii, quoteChar ascii c = [c] ∧ c ≠ '\\' := by
    decide
  rw [toList_quote, ← List.nil_append ('"' :: _), holdsEnd_append_cons hquote, hnil,
    Bool.false_or, holdsEnd_append_cons hquote, hnil, Bool.or_false]
  refine holdsEnd_congr fun y hy => ?_
  have hmem := hy.mem_script
  obtain ⟨w, rfl, -⟩ := hy.exists_cons
  refine infix_quoted_iff (fun c hc => (hplain c (hmem c hc) ascii).1) fun hslash => ?_
  exact (hplain _ (hmem _ hslash) ascii).2 rfl

/-- Written items or fields between brackets. -/
theorem holdsEnd_brackets {texts : List String} {c d : Char}
    (hc : c.toLower ∉ '<' :: '/' :: "script".toList)
    (hd : d.toLower ∉ '<' :: '/' :: "script".toList) :
    holdsEnd "script" (c :: ((", ".intercalate texts).toList ++ [d])) =
      texts.any fun s => holdsEnd "script" s.toList := by
  have hnil : holdsEnd "script" [] = false := by decide
  rw [← List.nil_append (c :: _), holdsEnd_append_cons hc, hnil, Bool.false_or,
    holdsEnd_append_cons hd, hnil, Bool.or_false, String.toList_intercalate,
    holdsEnd_intercalate (by decide) (by decide), List.any_map]
  rfl

mutual

/-- A literal holds the end tag of a script exactly if one of its texts or names does. -/
theorem holdsEnd_write (v : Value) :
    holdsEnd "script" (write .spaced v).toList =
      v.anyText fun s => holdsEnd "script" s.toList := by
  cases v with
  | null => exact holdsEnd_of_not_mem (by decide)
  | bool b =>
    cases b with
    | true => exact holdsEnd_of_not_mem (by decide)
    | false => exact holdsEnd_of_not_mem (by decide)
  | int n =>
    have hdigits : '<' ∉ '-' :: Decimal.asciiDigits := by decide
    exact holdsEnd_of_not_mem fun hmem => hdigits (Decimal.mem_toString hmem)
  | float x =>
    refine holdsEnd_of_not_mem fun hmem => ?_
    rcases Decimal.mem_write _ x _ hmem with hmem | hmem | hmem
    · exact absurd hmem (by decide)
    · exact absurd hmem (by decide)
    · exact absurd hmem (by decide)
  | text s => exact holdsEnd_quote false s
  | list items =>
    have hbrackets := @holdsEnd_brackets (writeItems .spaced items) '[' ']' (by decide) (by decide)
    rw [Value.anyText, ← any_holdsEnd_writeItems items, ← hbrackets]
    simp [write, String.toList_append, Style.spaced]
  | map fields =>
    have hbrackets := @holdsEnd_brackets (writeFields .spaced fields) '\x7b' '\x7d' (by decide)
      (by decide)
    rw [Value.anyText, ← any_holdsEnd_writeFields fields, ← hbrackets]
    simp [write, String.toList_append, Style.spaced]

theorem any_holdsEnd_writeItems (items : List Value) :
    (writeItems .spaced items).any (fun s => holdsEnd "script" s.toList) =
      Value.anyItemText (fun s => holdsEnd "script" s.toList) items := by
  cases items with
  | nil => rfl
  | cons v items =>
    rw [writeItems, List.any_cons, holdsEnd_write v, any_holdsEnd_writeItems items,
      Value.anyItemText]

/-- Written fields hold an end tag exactly if one of their texts does. -/
theorem any_holdsEnd_writeFields (fields : List (String × Value)) :
    (writeFields .spaced fields).any (fun s => holdsEnd "script" s.toList) =
      Value.anyFieldText (fun s => holdsEnd "script" s.toList) fields := by
  cases fields with
  | nil => rfl
  | cons entry fields =>
    obtain ⟨key, v⟩ := entry
    have hfield : (quote false key ++ Style.spaced.keySeparator ++ write .spaced v).toList =
        (quote false key).toList ++ ':' :: ([' '] ++ (write .spaced v).toList) := by
      simp [String.toList_append, Style.spaced]
    rw [writeFields, List.any_cons, any_holdsEnd_writeFields fields, hfield,
      holdsEnd_append_cons (by decide), holdsEnd_quote, holdsEnd_append_left (by decide),
      holdsEnd_write v, Value.anyFieldText]

end

end Json

end PageCompiler
