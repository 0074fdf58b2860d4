import PageCompiler.Proofs.Block.Readers

/-!
# `PageCompiler.Proofs.Block.Leftover`: where the readers of a block end

A reader never makes up text: what it leaves, and what it reports when it stops, is an end of what
it was given, also where it goes back to the quote that opened a text. `Ends` says this of an
outcome, and which character may stand in front of what is left. One induction over the readers
proves it for values, members and items (`ends_readValue`). So a block has one closing brace,
`readBlock_ok` says what may stand behind it, and `suffix_of_broken_readBlock` says that a failure
lies inside of it.
-/

set_option autoImplicit false

namespace PageCompiler.Block

open Text

/-- A reader of `s` stops at an end of `s`, or in front of a bare scalar of `s` that is an integer
of too many digits. -/
def Stop.LiesIn (s : List Char) : Stop → Prop
  | .broken _ rest => rest <:+ s
  | .numeral e => ∃ t, t <:+ s ∧ Scalar.read (t.takeWhile (!endsBare ·)) = .error e

/-- A reader of `s` leaves what stands behind a character of `s` that `last` allows, or stops. -/
def Ends {α : Type} (last : Char → Prop) (s : List Char) : Except Stop (α × List Char) → Prop
  | .ok (_, rest) => ∃ c, last c ∧ c :: rest <:+ s
  | .error e => e.LiesIn s

namespace Ends

variable {α β : Type} {last : Char → Prop} {s t : List Char} {o : Except Stop (α × List Char)}

/-- Where a reader ends in a text, it ends in every text with that end. -/
theorem extend (h : Ends last t o) (ht : t <:+ s) : Ends last s o := by
  cases o with
  | ok p =>
    obtain ⟨c, hc, hrest⟩ := h
    exact ⟨c, hc, hrest.trans ht⟩
  | error e =>
    cases e with
    | broken reason rest => exact List.IsSuffix.trans h ht
    | numeral e =>
      obtain ⟨u, hu, hread⟩ := h
      exact ⟨u, hu.trans ht, hread⟩

theorem any (h : Ends last s o) : Ends (fun _ => True) s o := by
  cases o with
  | ok p =>
    obtain ⟨c, -, hrest⟩ := h
    exact ⟨c, trivial, hrest⟩
  | error e => exact h

theorem map (f : α → β) (h : Ends last s o) : Ends last s (o.map fun p => (f p.1, p.2)) := by
  cases o with
  | ok p => exact h
  | error e => exact h

end Ends

theorem ends_readQuoted (quote : Char) (s : List Char) :
    Ends (· = quote) (quote :: s) (forget (readQuoted quote s)) := by
  rw [forget_readQuoted]
  split
  next hscan => exact ⟨quote, rfl, (suffix_of_scanQuoted hscan).trans (List.suffix_cons _ _)⟩
  next => exact List.suffix_refl _

/-- A reader that takes a character and all that follow it of a kind. -/
theorem ends_dropWhile {α : Type} (p : Char → Bool) (a : α) (c : Char) (s : List Char) :
    Ends (fun _ => True) (c :: s) (.ok (a, s.dropWhile p)) := by
  induction s generalizing c with
  | nil => exact ⟨c, trivial, List.suffix_refl _⟩
  | cons d s ih =>
    rw [List.dropWhile_cons]
    split
    · exact (ih d).extend (List.suffix_cons c _)
    · exact ⟨c, trivial, List.suffix_refl _⟩

/-- Reading a key takes at least one character, or fails. -/
theorem ends_readKey (s : List Char) : Ends (fun _ => True) s (forget (readKey s)) := by
  cases s with
  | nil => exact List.suffix_refl _
  | cons c s =>
    rw [readKey]
    split
    · exact (ends_readQuoted c s).any
    · split
      · exact ends_dropWhile isNameChar _ c s
      · exact List.suffix_refl _

/-- Reading a name takes at least one character, or fails inside of the text. -/
theorem ends_readLabel (s : List Char) : Ends (fun _ => True) s (readLabel s) := by
  have hkey := ends_readKey s
  unfold readLabel
  split
  next hread => rwa [hread] at hkey
  next key r hread =>
    rw [hread] at hkey
    obtain ⟨d, -, hr⟩ := hkey
    have hgap : r.dropWhile isInlineGap <:+ s :=
      (List.dropWhile_suffix _).trans ((List.suffix_cons d r).trans hr)
    split
    next t hcolon =>
      rw [hcolon] at hgap
      exact (ends_dropWhile isInlineGap key ':' t).extend hgap
    next => exact hgap

/-- Reading a bare value takes at least one character, or fails. -/
theorem ends_readBare (s : List Char) : Ends (fun _ => True) s (forget (readBare s)) := by
  cases s with
  | nil => exact List.suffix_refl _
  | cons c s =>
    simp only [readBare]
    split
    · exact List.dropWhile_suffix _
    · split
      next e hread => exact ⟨c :: s, List.suffix_refl _, hread⟩
      next => exact ends_dropWhile _ _ c s

mutual

/-- A value ends inside of the text. -/
theorem ends_readValue (s : List Char) : Ends (fun _ => True) s (forget (readValue s)) := by
  rw [forget_readValue]
  cases hs : s.dropWhile isGap with
  | nil => exact List.nil_suffix
  | cons c t =>
    have hgap : c :: t <:+ s := hs ▸ List.dropWhile_suffix isGap
    have ht : t <:+ s := (List.suffix_cons c t).trans hgap
    have hshort : t.length < s.length := hgap.length_le
    simp only
    split
    · exact ((ends_readMembers [] t).extend ht).any.map Value.map
    · split
      · exact ((ends_readItems [] t).extend ht).any.map Value.list
      · split
        · exact ((ends_readQuoted c t).extend hgap).any.map Value.text
        · exact (ends_readBare (c :: t)).extend hgap
termination_by 2 * s.length
decreasing_by
  all_goals omega

/-- Members end behind a closing brace. -/
theorem ends_readMembers (done : Fields) (s : List Char) :
    Ends (· = '\x7d') s (forget (readMembers done s)) := by
  rw [forget_readMembers]
  cases hs : skipSeparators s with
  | nil => exact List.nil_suffix
  | cons c t =>
    have hskip : c :: t <:+ s := hs ▸ skip_suffix false s
    simp only
    split
    next hc => exact ⟨c, beq_iff_eq.1 hc, hskip⟩
    next =>
      have hlabel := (ends_readLabel (c :: t)).extend hskip
      split
      next hread => rwa [hread] at hlabel
      next key r hread =>
        rw [hread] at hlabel
        obtain ⟨d, -, hr⟩ := hlabel
        -- The value starts behind the colon, so less than `s` is left for it.
        have hshort : r.length < s.length := hr.length_le
        have hvalue := (ends_readValue r).extend ((List.suffix_cons d r).trans hr)
        split
        next hread => rwa [hread] at hvalue
        next v u hread =>
          rw [hread] at hvalue
          obtain ⟨d, -, hu⟩ := hvalue
          have hless : u.length < s.length := hu.length_le
          exact (ends_readMembers _ u).extend ((List.suffix_cons d u).trans hu)
termination_by 2 * s.length + 1
decreasing_by
  all_goals omega

/-- Items end behind a closing bracket. -/
theorem ends_readItems (done : List Value) (s : List Char) :
    Ends (· = ']') s (forget (readItems done s)) := by
  rw [forget_readItems]
  cases hs : skipSeparators s with
  | nil => exact List.nil_suffix
  | cons c t =>
    have hskip : c :: t <:+ s := hs ▸ skip_suffix false s
    simp only
    split
    next hc => exact ⟨c, beq_iff_eq.1 hc, hskip⟩
    next =>
      -- A value may start with the first character of `s`, so the measure alone gets smaller.
      have hshort := hskip.length_le
      have hvalue := (ends_readValue (c :: t)).extend hskip
      split
      next hread => rwa [hread] at hvalue
      next v r hread =>
        rw [hread] at hvalue
        obtain ⟨d, -, hr⟩ := hvalue
        have hless : r.length < s.length := hr.length_le
        exact (ends_readItems _ r).extend ((List.suffix_cons d r).trans hr)
termination_by 2 * s.length + 1
decreasing_by
  all_goals omega

end

/-- What is left behind the members of a block stands behind a closing brace. -/
theorem suffix_of_readMembers {done fields : Fields} {s rest : List Char}
    (h : forget (readMembers done s) = .ok (fields, rest)) : '\x7d' :: rest <:+ s := by
  have hends := ends_readMembers done s
  rw [h] at hends
  obtain ⟨c, rfl, hrest⟩ := hends
  exact hrest

/-- What the reader of a block leaves of a text that starts with the opening brace. -/
def leftover (s : List Char) : Option (List Char) :=
  match s with
  | '\x7b' :: rest => (forget (readMembers [] rest)).toOption.map Prod.snd
  | _ => none

/-- A block that takes a whole text ends with its closing brace, and behind it only white space and
separators, unless a number sign comes first. -/
theorem readBlock_ok {s : List Char} {fields : Fields} (h : readBlock s = .ok fields) :
    ∃ rest, leftover s = some rest ∧ '\x7d' :: rest <:+ s ∧ endsCleanly rest = true := by
  unfold readBlock at h
  split at h
  next t =>
    split at h
    · cases h
    next found rest hlt hread =>
      split at h
      next hclean =>
        have hforget : forget (readMembers [] t) = .ok (found, rest) := by rw [hread]; rfl
        refine ⟨rest, ?_, (suffix_of_readMembers hforget).trans (List.suffix_cons _ _), hclean⟩
        rw [leftover, hforget]
        rfl
      next => cases h
  next => cases h

/-- A block breaks off at an end of its text. -/
theorem suffix_of_broken_readBlock {s rest : List Char} {reason : Reason}
    (h : readBlock s = .error (.broken reason rest)) : rest <:+ s := by
  unfold readBlock at h
  split at h
  next t =>
    have hends := (ends_readMembers [] t).extend (List.suffix_cons '\x7b' t)
    split at h
    next e hread =>
      cases h
      rwa [hread] at hends
    next fields r hlt hread =>
      split at h
      · cases h
      · cases h
        rw [hread] at hends
        obtain ⟨c, -, hrest⟩ := hends
        exact (List.suffix_cons c _).trans hrest
  next =>
    cases h
    exact List.suffix_refl _

end PageCompiler.Block
