import PageCompiler.Proofs.Distinct
import PageCompiler.Proofs.Policy.Selectors
import PageCompiler.Proofs.Policy.Stable.Markup

/-!
# `PageCompiler.Proofs.Policy.ClassLists`: class attributes in canonical form

A policy replaces the aliases in class attributes, and keeps each class once where it stands first.
`CanonicalFor` says this of one list of classes. It is a property of lists alone, and
`canonicalFor_classText` is all that is needed of the canonical text.

The markup may be anything: attributes without an end, quotes that open no value, values that look
like attributes. Where an attribute is found is decided by the text up to the second quote behind
it. A pass over values keeps the text up to the first quote, and keeps that there is a second
(`Requoted.opened`). So the attributes of the new markup are those of the old one with new values
(`pieces_renameClasses`), and a second pass has nothing left to do.
-/

set_option autoImplicit false

namespace PageCompiler.Policy

open Text

/-! ### One list of classes -/

/-- The classes that a list of classes stands for, with repetitions. -/
def expandedClasses (p : Policy) (value : List Char) : List (List Char) :=
  (fields value).flatMap fun token =>
    match Assoc.get? p.classAliases (String.ofList token) with
    | some target => fields target.toList
    | none => [token]

/-- A list of classes in canonical form: it holds the classes that the old list stands for, none of
them an alias, each once and in the order of its first occurrence, with single blanks between
them. -/
structure CanonicalFor (p : Policy) (value value' : List Char) : Prop where
  unaliased : ∀ token ∈ fields value', Assoc.has p.classAliases (String.ofList token) = false
  once : (fields value').Nodup
  mem_iff : ∀ token, token ∈ fields value' ↔ token ∈ p.expandedClasses value
  ordered : (fields value').Pairwise fun a b =>
    (p.expandedClasses value).idxOf a < (p.expandedClasses value).idxOf b
  spaced : value' = [' '].intercalate (fields value')

/-- A list of classes that is tidy: it holds no alias and no class twice, with single blanks between
its classes. -/
structure Tidy (p : Policy) (value : List Char) : Prop where
  unaliased : ∀ token ∈ fields value, Assoc.has p.classAliases (String.ofList token) = false
  once : (fields value).Nodup
  spaced : value = [' '].intercalate (fields value)

instance (p : Policy) (value : List Char) : Decidable (p.Tidy value) :=
  decidable_of_iff
    ((∀ token ∈ fields value, Assoc.has p.classAliases (String.ofList token) = false) ∧
      (fields value).Nodup ∧ value = [' '].intercalate (fields value))
    ⟨fun h => ⟨h.1, h.2.1, h.2.2⟩, fun h => ⟨h.unaliased, h.once, h.spaced⟩⟩

section Lists

variable {p : Policy}

theorem CanonicalFor.tidy {value value' : List Char} (h : p.CanonicalFor value value') :
    p.Tidy value' :=
  ⟨h.unaliased, h.once, h.spaced⟩

theorem canonicalClasses_eq (value : List Char) :
    p.canonicalClasses value = (p.expandedClasses value).eraseDups := rfl

theorem fields_classText (value : List Char) :
    fields (p.classText value) = p.canonicalClasses value := by
  refine fields_intercalate fun token htoken => ?_
  rcases mem_canonicalClasses htoken with hfield | ⟨e, -, hfield⟩
  · exact ⟨ne_nil_of_mem_fields hfield, fun c hc => (mem_fields hfield c hc).2⟩
  · exact ⟨ne_nil_of_mem_fields hfield, fun c hc => (mem_fields hfield c hc).2⟩

/-- A tidy list is left as it is. -/
theorem Tidy.classText_eq {value : List Char} (h : p.Tidy value) : p.classText value = value := by
  have hexpanded : p.expandedClasses value = fields value := by
    have hsame : ∀ token ∈ fields value,
        (match Assoc.get? p.classAliases (String.ofList token) with
          | some target => fields target.toList
          | none => [token]) = [token] := by
      intro token htoken
      rw [Assoc.get?_eq_none_iff.2 (h.unaliased token htoken)]
    rw [expandedClasses, List.flatMap_congr hsame, List.flatMap_singleton']
  rw [classText, canonicalClasses_eq, hexpanded, eraseDups_of_nodup h.once, ← h.spaced]

variable (hresolved : Resolved p.classAliases)

include hresolved

/-- No alias is left once all are replaced. -/
theorem not_has_of_mem_expandedClasses {value token : List Char}
    (htoken : token ∈ p.expandedClasses value) :
    Assoc.has p.classAliases (String.ofList token) = false := by
  obtain ⟨old, -, htoken⟩ := List.mem_flatMap.1 htoken
  cases hget : Assoc.get? p.classAliases (String.ofList old) with
  | some target =>
    rw [hget] at htoken
    exact (hresolved _ (Assoc.mem_of_get? hget)).2 token htoken
  | none =>
    rw [hget] at htoken
    rw [List.mem_singleton.1 htoken]
    exact Assoc.get?_eq_none_iff.1 hget

/-- The canonical text of a list is in canonical form for it. -/
theorem canonicalFor_classText (value : List Char) :
    p.CanonicalFor value (p.classText value) where
  unaliased token htoken := by
    rw [fields_classText, canonicalClasses_eq, List.mem_eraseDups] at htoken
    exact not_has_of_mem_expandedClasses hresolved htoken
  once := by
    rw [fields_classText]
    exact nodup_eraseDups _
  mem_iff token := by
    rw [fields_classText, canonicalClasses_eq, List.mem_eraseDups]
  ordered := by
    rw [fields_classText]
    exact pairwise_idxOf_eraseDups _
  spaced := by
    rw [fields_classText]
    rfl

/-- A list of classes is left as it is exactly if it is tidy. -/
theorem classText_eq_self_iff {value : List Char} : p.classText value = value ↔ p.Tidy value := by
  refine ⟨fun h => ?_, Tidy.classText_eq⟩
  have htidy := (canonicalFor_classText hresolved value).tidy
  rwa [h] at htidy

end Lists

/-! ### Class attributes -/

/-- A class attribute up to the quote that opens its value. -/
def IsClassLead (lead : List Char) : Prop :=
  ∃ gap gap', (∀ c ∈ gap, isBlank c = true) ∧ (∀ c ∈ gap', isBlank c = true) ∧
    lead = "class".toList ++ (gap ++ '=' :: gap') ++ ['"']

/-- A class attribute is found where its name does not go on in front, and its value has an end. -/
theorem classAttr_eq_some_iff {before : Option Char} {s lead value rest : List Char} :
    quotedAttr className? before s = some ((lead, value), rest) ↔
      precededBy isAttrChar before = false ∧ IsClassLead lead ∧ '"' ∉ value ∧
        s = lead ++ (value ++ '"' :: rest) := by
  unfold quotedAttr className?
  cases hbefore : precededBy isAttrChar before with
  | true => simp
  | false =>
    simp only [Bool.false_eq_true, if_false, Option.bind_eq_bind, Option.bind_eq_some_iff,
      Option.map_eq_some_iff, true_and]
    constructor
    · rintro ⟨⟨name, s₁⟩, ⟨s₁', hname, hpair⟩, ⟨eq, s₂⟩, hequals, ⟨value', rest'⟩, hvalue, hsome⟩
      cases hpair
      cases hsome
      obtain rfl := after?_eq_some.1 hname
      obtain ⟨gap, gap', rfl, hgap, hgap', rfl⟩ := equals?_eq_some hequals
      obtain ⟨hclosed, rfl⟩ := quotedValue?_eq_some_iff.1 hvalue
      exact ⟨⟨gap, gap', hgap, hgap', by simp⟩, hclosed, by simp⟩
    · rintro ⟨⟨gap, gap', hgap, hgap', rfl⟩, hclosed, rfl⟩
      refine ⟨("class".toList, gap ++ '=' :: (gap' ++ '"' :: (value ++ '"' :: rest))),
        ⟨_, ?_, rfl⟩, _, equals?_append hgap hgap' _, _,
        quotedValue?_eq_some_iff.2 ⟨hclosed, rfl⟩, ?_⟩
      · exact after?_eq_some.2 (by simp)
      · simp

theorem IsClassLead.exists_quote {lead : List Char} (h : IsClassLead lead) :
    ∃ x, '"' ∉ x ∧ lead = x ++ ['"'] := by
  obtain ⟨gap, gap', hgap, hgap', rfl⟩ := h
  have hblank : ∀ {gap : List Char}, (∀ c ∈ gap, isBlank c = true) → '"' ∉ gap :=
    fun hgap hmem => absurd (hgap _ hmem) (by decide)
  refine ⟨_, ?_, rfl⟩
  simp only [List.mem_append, List.mem_cons, not_or]
  exact ⟨by decide, hblank hgap, by decide, hblank hgap'⟩

/-- A pass over values keeps the text up to the first quote, and it puts in no second quote where
none was. -/
theorem Requoted.opened {f : List Char → List Char} {s t x u : List Char} (h : Requoted f s t)
    (hx : '"' ∉ x) (ht : t = x ++ '"' :: u) (hu : '"' ∈ u) :
    ∃ v, s = x ++ '"' :: v ∧ '"' ∈ v := by
  cases h with
  | plain hnone =>
    rw [ht] at hnone
    exact absurd (by simp) hnone
  | @kept y s' t' hy h =>
    obtain ⟨rfl, rfl⟩ := append_cons_inj hy hx ht
    refine ⟨s', rfl, ?_⟩
    cases h with
    | plain => exact hu
    | kept => simp
    | changed => simp
  | @changed y v s' t' hy hv h =>
    obtain ⟨rfl, -⟩ := append_cons_inj hy hx ht
    exact ⟨v ++ '"' :: s', rfl, by simp⟩

/-- Where no class attribute stands, none does once values behind are changed. -/
theorem classAttr_eq_none_of_requoted {f : List Char → List Char} {before : Option Char}
    {s t : List Char} (h : Requoted f s t) (hnone : quotedAttr className? before s = none) :
    quotedAttr className? before t = none := by
  by_contra hsome
  obtain ⟨⟨⟨lead, value⟩, rest⟩, hsome⟩ := Option.ne_none_iff_exists'.1 hsome
  obtain ⟨hbefore, hlead, hvalue, ht⟩ := classAttr_eq_some_iff.1 hsome
  obtain ⟨x, hx, hquote⟩ := hlead.exists_quote
  have ht : t = x ++ '"' :: (value ++ '"' :: rest) := by
    rw [ht, hquote, List.append_assoc]
    rfl
  obtain ⟨v, hs, hv⟩ := h.opened hx ht (by simp)
  -- The old text has the same start and a second quote, so an attribute stands there too.
  obtain ⟨value', rest', hsplit, hvalue'⟩ := List.eq_append_cons_of_mem hv
  have hs : s = lead ++ (value' ++ '"' :: rest') := by
    rw [hs, hquote, List.append_assoc, hsplit]
    rfl
  have hfound : quotedAttr className? before s = some ((lead, value'), rest') :=
    classAttr_eq_some_iff.2 ⟨hbefore, hlead, hvalue', hs⟩
  rw [hnone] at hfound
  cases hfound

/-- The text of an attribute. -/
def attrText : List Char × List Char → List Char
  | (lead, value) => lead ++ value ++ ['"']

/-- The pieces of a markup make up the markup. -/
theorem flatMap_attrText (m : List Char) :
    (pieces (quotedAttr className?) m).flatMap (putFound attrText) = m := by
  have hsame := replaceAll_quotedAttr_eq_self_iff readsNames_class (f := id)
    (fun _ hv => hv) m
  rw [replaceAll_eq] at hsame
  exact hsame.2 fun _ _ => rfl

/-! ### All class attributes -/

section All

variable {p : Policy} (haliases : p.classAliases ≠ [])

include haliases

theorem renameClasses_eq (m : List Char) :
    p.renameClasses m = scanFrom (quotedAttr className?)
      (putFound fun (lead, value) => attrText (lead, p.classText value)) none m := by
  have hempty : p.classAliases.isEmpty = false := by simpa using haliases
  rw [renameClasses, hempty, if_neg Bool.false_ne_true, replaceAll_eq]
  rfl

/-- The attributes of the new markup are those of the old one with new values. -/
theorem pieces_renameClasses (hquotes : ∀ e ∈ p.classAliases, '"' ∉ e.2.toList)
    (m : List Char) :
    pieces (quotedAttr className?) (p.renameClasses m) =
      (pieces (quotedAttr className?) m).map
        (Piece.map fun (lead, value) => (lead, p.classText value)) := by
  have hclosed : ∀ {v : List Char}, '"' ∉ v → '"' ∉ p.classText v :=
    quote_not_mem_classText fun e he token htoken hmem =>
      hquotes e he (mem_fields htoken _ hmem).1
  rw [renameClasses_eq haliases]
  refine piecesFrom_scanFrom ?_ ?_ none m
  · intro before s a rest hfound
    obtain ⟨lead, value⟩ := a
    obtain ⟨hbefore, hlead, hvalue, rfl⟩ := classAttr_eq_some_iff.1 hfound
    refine ⟨lead ++ value ++ ['"'], by simp, by simp, by simp [attrText], by simp [attrText], ?_⟩
    intro t
    refine classAttr_eq_some_iff.2 ⟨hbefore, hlead, hclosed hvalue, ?_⟩
    simp [attrText]
  · intro before c s hnone
    exact classAttr_eq_none_of_requoted ((requoted_scanFrom readsNames_class _ _ s).cons c) hnone

end All

/-- What becomes of a piece of the markup: characters between attributes stay, and so does all of an
attribute but its value, which becomes canonical. -/
inductive Rewritten (p : Policy) :
    Piece (List Char × List Char) → Piece (List Char × List Char) → Prop
  | plain (c : Char) : Rewritten p (.plain c) (.plain c)
  | found {lead value value' : List Char} (h : p.CanonicalFor value value') :
      Rewritten p (.found (lead, value)) (.found (lead, value'))

/-- Replacing the aliases in class attributes gives each attribute a canonical value, keeps all
other text, and changes nothing if it is done again. -/
theorem renameClasses_canonical (p : Policy) (haliases : p.classAliases ≠ [])
    (hresolved : Resolved p.classAliases) (hquotes : ∀ e ∈ p.classAliases, '"' ∉ e.2.toList)
    (m : List Char) :
    (∀ markup, (pieces (quotedAttr className?) markup).flatMap (putFound attrText) = markup) ∧
      List.Forall₂ p.Rewritten (pieces (quotedAttr className?) m)
        (pieces (quotedAttr className?) (p.renameClasses m)) ∧
      p.renameClasses (p.renameClasses m) = p.renameClasses m := by
  have hpieces := pieces_renameClasses haliases hquotes m
  refine ⟨flatMap_attrText, ?_, ?_⟩
  · rw [hpieces, List.forall₂_map_right_iff, List.forall₂_same]
    intro piece _
    cases piece with
    | found a => exact .found (canonicalFor_classText hresolved a.2)
    | plain c => exact .plain c
  · -- The second pass finds the same attributes, and their values are canonical already.
    have hagain : ∀ piece : Piece (List Char × List Char),
        putFound (fun (lead, value) => attrText (lead, p.classText value))
            (piece.map fun (lead, value) => (lead, p.classText value)) =
          putFound (fun (lead, value) => attrText (lead, p.classText value)) piece := by
      intro piece
      cases piece with
      | found a =>
        show attrText (a.1, p.classText (p.classText a.2)) = attrText (a.1, p.classText a.2)
        rw [(canonicalFor_classText hresolved a.2).tidy.classText_eq]
      | plain c => rfl
    rw [renameClasses_eq haliases, scanFrom]
    show (pieces (quotedAttr className?) (p.renameClasses m)).flatMap _ = _
    rw [hpieces, List.flatMap_map, renameClasses_eq haliases, scanFrom]
    simp only [hagain]
    rfl

/-- An attribute with an alias twice and with what looks like an attribute in its value, attributes
of other names, and a value that takes the start of the next attribute. -/
def tangledMarkup : List Char :=
  ("<p class =\n\"primary-btn btn class= primary-btn\" :class=\"primary-btn\">" ++
    "<i class=\"app-wrapper class=\"modal-backdrop\">").toList

/-- Only the values of class attributes are renamed. -/
theorem renameClasses_canonical_tangled :
    Policy.default.renameClasses tangledMarkup =
        ("<p class =\n\"btn btn-primary class=\" :class=\"primary-btn\">" ++
          "<i class=\"app-container class=\"modal-backdrop\">").toList ∧
      List.Forall₂ Policy.default.Rewritten (pieces (quotedAttr className?) tangledMarkup)
        (pieces (quotedAttr className?) (Policy.default.renameClasses tangledMarkup)) ∧
      Policy.default.renameClasses (Policy.default.renameClasses tangledMarkup) =
        Policy.default.renameClasses tangledMarkup := by
  obtain ⟨-, hpieces, hagain⟩ := renameClasses_canonical Policy.default (by decide) (by decide)
    (by decide) tangledMarkup
  exact ⟨by decide +kernel, hpieces, hagain⟩

end PageCompiler.Policy
