import PageCompiler.Document.Reader
import PageCompiler.Fallback.Bundle
import PageCompiler.Proofs.Document.Braces

/-!
# `PageCompiler.Proofs.Document.Line`: names and the lines that open a block

A name is a run of characters that neither end a line nor mean anything to the scanners, so a line
of a name, a colon and an opening brace opens a block of that name (`classify_opening`), and counts
one brace and what stands behind it (`delta_opening`).
-/

set_option autoImplicit false

namespace PageCompiler

open Text

/-- A name starts with an ASCII character that is no white space. -/
theorem toNat_of_isNameStart {c : Char} (h : isNameStart c = true) :
    65 ≤ c.toNat ∧ c.toNat ≤ 122 := by
  simp only [isNameStart, isAsciiLetter, Bool.or_eq_true, Bool.and_eq_true, decide_eq_true_eq,
    beq_iff_eq] at h
  rcases h with (⟨ha, hz⟩ | ⟨ha, hz⟩) | rfl
  · have ha : 97 ≤ c.toNat := ha
    have hz : c.toNat ≤ 122 := hz
    omega
  · have ha : 65 ≤ c.toNat := ha
    have hz : c.toNat ≤ 90 := hz
    omega
  · decide

theorem isNameChar_of_isNameStart {c : Char} (h : isNameStart c = true) : isNameChar c = true := by
  have hsmall : c.toNat < 128 := by
    have hn := toNat_of_isNameStart h
    omega
  simp only [isNameStart, Bool.or_eq_true] at h
  simp only [isNameChar, isWord, if_pos hsmall, Bool.or_eq_true]
  rcases h with h | h
  · exact .inl (.inl (.inl h))
  · exact .inl (.inr h)

theorem isBlank_of_isNameStart {c : Char} (h : isNameStart c = true) : isBlank c = false := by
  have hn := toNat_of_isNameStart h
  simp only [isBlank, Bool.or_eq_false_iff, Bool.and_eq_false_iff, decide_eq_false_iff_not,
    beq_eq_false_iff_ne]
  omega

/-- Every character of a name may stand inside of one. -/
theorem isNameChar_of_mem_name {name : List Char} {c : Char} (h : Bundle.isName name = true)
    (hc : c ∈ name) : isNameChar c = true := by
  cases name with
  | nil => cases hc
  | cons d rest =>
    obtain ⟨hd, hrest⟩ := Bool.and_eq_true_iff.1 h
    rcases List.mem_cons.1 hc with rfl | hc
    · exact isNameChar_of_isNameStart hd
    · exact List.all_eq_true.1 hrest c hc

/-- A name ends no line. -/
theorem oneLine_of_isName {name : List Char} (h : Bundle.isName name = true) : OneLine name := by
  have hbreaks : ∀ n ∈ [10, 11, 12, 13, 0x1c, 0x1d, 0x1e, 0x85, 0x2028, 0x2029],
      isNameChar (Char.ofNat n) = false := by decide +kernel
  intro c hc
  cases hb : isLineBreak c with
  | false => rfl
  | true =>
    have hn : c.toNat ∈ [10, 11, 12, 13, 0x1c, 0x1d, 0x1e, 0x85, 0x2028, 0x2029] := by
      simp only [isLineBreak, Bool.or_eq_true, Bool.and_eq_true, decide_eq_true_eq,
        beq_iff_eq] at hb
      simp only [List.mem_cons, List.not_mem_nil, or_false]
      omega
    have hname := hbreaks c.toNat hn
    rw [Char.ofNat_toNat, isNameChar_of_mem_name h hc] at hname
    cases hname

/-- A name means nothing to the scan of a block. -/
theorem not_mem_signs_of_isName {name : List Char} (h : Bundle.isName name = true) :
    ∀ c ∈ name, c ∉ Braces.signs := by
  intro c hc hmem
  have hsigns : ∀ c ∈ Braces.signs, isNameChar c = false := by decide
  have hname := hsigns c hmem
  rw [isNameChar_of_mem_name h hc] at hname
  cases hname

namespace Reader

/-- A name in front of a character that it cannot take. -/
theorem name?_append {name rest : List Char} {c : Char} (h : Bundle.isName name = true)
    (hc : isNameChar c = false) : name? (name ++ c :: rest) = some (name, c :: rest) := by
  cases name with
  | nil => cases h
  | cons d more =>
    obtain ⟨hd, hmore⟩ := Bool.and_eq_true_iff.1 h
    rw [List.cons_append, name?, if_pos hd, List.takeWhile_append_of_pos (List.all_eq_true.1 hmore),
      List.dropWhile_append_of_pos (List.all_eq_true.1 hmore)]
    simp [hc]

/-- A name at the start of a text is cut off from it. -/
theorem append_of_name? {s name rest : List Char} (h : name? s = some (name, rest)) :
    name ++ rest = s := by
  unfold name? at h
  split at h
  · cases h
  · split at h
    · obtain ⟨rfl, rfl⟩ := Prod.mk.inj (Option.some.inj h)
      rw [List.cons_append, List.takeWhile_append_dropWhile]
    · cases h

/-- A line with a key starts with the start of a name. -/
theorem exists_cons_of_key? {s value : List Char} {key : String}
    (h : key? s = some (key, value)) : ∃ c rest, s = c :: rest ∧ isNameStart c = true := by
  cases s with
  | nil => cases h
  | cons c rest =>
    refine ⟨c, rest, rfl, ?_⟩
    cases hc : isNameStart c with
    | true => rfl
    | false => simp [key?, name?, hc] at h

/-- A line with a key opens a block or assigns a property. -/
theorem classify_of_key? {s value : List Char} {key : String} (h : key? s = some (key, value)) :
    classify s =
      if value.head? = some '\x7b' then .opening key else .assignment key value := by
  -- The first character of a name rules out all other lines.
  obtain ⟨c, rest, hs, hc⟩ := exists_cons_of_key? h
  unfold classify
  split
  · cases hs
  · exact absurd ((List.cons.inj hs).1 ▸ hc) (by decide)
  · exact absurd ((List.cons.inj hs).1 ▸ hc) (by decide)
  · exact absurd ((List.cons.inj hs).1 ▸ hc) (by decide)
  · rw [h]
    cases value with
    | nil => rfl
    | cons c rest =>
      by_cases hc : c = '\x7b'
      · subst hc
        rfl
      · simp [hc]

/-- A line that opens a block has a key in front of the brace. -/
theorem key?_of_classify_opening {s : List Char} {key : String} (h : classify s = .opening key) :
    ∃ rest, key? s = some (key, '\x7b' :: rest) := by
  unfold classify at h
  split at h
  · cases h
  · cases h
  · cases h
  · cases h
  · split at h
    next rest hkey =>
      cases h
      exact ⟨rest, hkey⟩
    · cases h
    · cases h

/-- A line that assigns a property has a key in front of the value. -/
theorem key?_of_classify_assignment {s value : List Char} {key : String}
    (h : classify s = .assignment key value) : key? s = some (key, value) := by
  unfold classify at h
  split at h
  · cases h
  · cases h
  · cases h
  · cases h
  · split at h
    · cases h
    next hkey =>
      cases h
      exact hkey
    · cases h

/-- A name, a colon, blanks and an opening brace open a block. -/
theorem classify_opening {name gap rest : List Char} (h : Bundle.isName name = true)
    (hgap : ∀ c ∈ gap, isBlank c = true) :
    classify (name ++ ':' :: (gap ++ '\x7b' :: rest)) = .opening (String.ofList name) := by
  have hkey : key? (name ++ ':' :: (gap ++ '\x7b' :: rest)) =
      some (String.ofList name, '\x7b' :: rest) := by
    rw [key?, name?_append h (by decide)]
    simp only [dropWhile_of_head (show isBlank ':' = false by decide),
      List.dropWhile_append_of_pos hgap, dropWhile_of_head (show isBlank '\x7b' = false by decide)]
  rw [classify_of_key? hkey]
  rfl

/-- What stands in front of the colon of a line is a name. -/
theorem isName_of_key? {s value : List Char} {key : String} (h : key? s = some (key, value)) :
    Bundle.isName key.toList = true := by
  unfold key? at h
  split at h
  · rename_i name rest hname
    split at h
    · obtain ⟨rfl, _⟩ := Prod.mk.inj (Option.some.inj h)
      rw [String.toList_ofList]
      unfold name? at hname
      split at hname
      · cases hname
      · rename_i c s
        split at hname
        · rename_i hc
          obtain ⟨rfl, _⟩ := Prod.mk.inj (Option.some.inj hname)
          rw [Bundle.isName, hc, Bool.true_and]
          exact List.all_eq_true.2 fun d hd => List.mem_takeWhile_imp hd
        · cases hname
    · cases h
  · cases h

/-- A line that opens a block gives it a name. -/
theorem isName_of_classify {line : List Char} {name : String} (h : classify line = .opening name) :
    Bundle.isName name.toList = true := by
  obtain ⟨rest, hkey⟩ := key?_of_classify_opening h
  exact isName_of_key? hkey

/-- A line that assigns a property gives it a name. -/
theorem isName_of_classify_assignment {line value : List Char} {key : String}
    (h : classify line = .assignment key value) : Bundle.isName key.toList = true := by
  unfold classify at h
  split at h
  · cases h
  · cases h
  · cases h
  · cases h
  · split at h
    · cases h
    next hkey =>
      cases h
      exact isName_of_key? hkey
    · cases h

/-- The first line of a block, without the white space at its ends. -/
theorem trim_opening {name gap rest : List Char} (h : Bundle.isName name = true) :
    trim (name ++ ':' :: (gap ++ '\x7b' :: rest)) =
      name ++ ':' :: (gap ++ '\x7b' :: dropRightWhile isBlank rest) := by
  have hfront : (name ++ ':' :: (gap ++ '\x7b' :: rest)).dropWhile isBlank =
      name ++ ':' :: (gap ++ '\x7b' :: rest) := by
    cases name with
    | nil => cases h
    | cons c more =>
      exact dropWhile_of_head (isBlank_of_isNameStart (Bool.and_eq_true_iff.1 h).1)
  rw [trim, trimLeft, hfront, trimRight]
  rw [show name ++ ':' :: (gap ++ '\x7b' :: rest) = (name ++ ':' :: gap) ++ '\x7b' :: rest by simp,
    dropRightWhile_append_cons (by decide)]
  simp

/-- What the first line of a block adds to the depth. -/
theorem delta_opening {name gap rest : List Char} (h : Bundle.isName name = true)
    (hgap : ∀ c ∈ gap, Block.isInlineGap c = true) :
    Braces.delta (trim (name ++ ':' :: (gap ++ '\x7b' :: rest))) =
      1 + Braces.balance (.outside '\x7b') rest := by
  have hdull : ∀ c ∈ name ++ ':' :: gap, c ∉ Braces.signs := by
    have hgapless : ∀ c ∈ [':', ' ', '\t'], c ∉ Braces.signs := by decide
    intro c hc
    rcases List.mem_append.1 hc with hc | hc
    · exact not_mem_signs_of_isName h c hc
    · refine hgapless c ?_
      rcases List.mem_cons.1 hc with rfl | hc
      · decide
      · rcases Block.eq_of_isInlineGap (hgap c hc) with rfl | rfl <;> decide
  obtain ⟨y, hscan⟩ := Braces.scan_dull hdull ' ' 0
  have hone : OneLine (name ++ ':' :: gap) :=
    oneLine_append.2 ⟨oneLine_of_isName h, oneLine_cons.2 ⟨by decide, oneLine_of_inlineGap hgap⟩⟩
  have hquiet : Braces.StartsQuietly ('\x7b' :: dropRightWhile isBlank rest) :=
    Braces.startsQuietly_cons (by decide) (by decide)
  rw [trim_opening h]
  rw [show name ++ ':' :: (gap ++ '\x7b' :: dropRightWhile isBlank rest) =
      (name ++ ':' :: gap) ++ '\x7b' :: dropRightWhile isBlank rest by simp,
    Braces.delta_of_scan hscan hone hquiet]
  show (0 : Int) - 0 + (1 + Braces.balance (.outside '\x7b') (dropRightWhile isBlank rest)) = _
  rw [Braces.balance_dropRightWhile]
  omega

end Reader

end PageCompiler
