import PageCompiler.Proofs.Markup.Fits
import PageCompiler.Proofs.Text.Edit

/-!
# `PageCompiler.Proofs.Markup.Edited`: edits that keep the tags

Markup is changed after it is rendered: it is laid out again at another margin, names in it are
replaced, and so is the marker of the runtime. None of these edits touches an angle bracket, a quote
or the name of an element or an attribute. `Rendered.edited` says that such an edit changes texts
and attribute values only. What holds of a value by an edit of its own is for the caller to say.
-/

set_option autoImplicit false

namespace PageCompiler.Markup

open Text

/-- The words that edits leave alone: first words of tags, names of attributes, and no word at
all. -/
def fixedWords : List String :=
  "" :: "/" :: (tagHeads ++ attrNames ++ flagNames)

/-- The characters that may stand behind such a word in a tag. -/
def wordEnds : List Char :=
  [' ', '=', '>', '"']

/-- Edits that change texts and attribute values only. -/
structure Mild (allowed : Edit) : Prop where
  plain : ∀ {before old new rest}, allowed before old new rest → Plain new
  delimiter : ∀ d ∈ ['<', '"'], Edited.Delimiter allowed d
  word : ∀ w ∈ fixedWords, ∀ d ∈ wordEnds, ∀ {before s u},
    Edited allowed before (w.toList ++ d :: s) u →
      ∃ s', u = w.toList ++ d :: s' ∧ Edited allowed (some d) s s'

/-- An attribute whose value comes from that of another by edits. -/
inductive AttrEdited (allowed : Edit) : Attr → Attr → Prop
  | bare (name : String) : AttrEdited allowed (flag name) (flag name)
  | valued (name : String) {value value' : String}
      (h : Edited allowed (some '"') value.toList value'.toList) :
      AttrEdited allowed (attr name value) (attr name value')

/-- A tag whose attribute values come from those of another by edits. -/
structure TagEdited (allowed : Edit) (t t' : Tag) : Prop where
  head : t'.head = t.head
  attrs : List.Forall₂ (AttrEdited allowed) t.attrs t'.attrs

variable {allowed : Edit} {tidy : Prop}

theorem AttrEdited.outline {a a' : Attr} (h : AttrEdited allowed a a') :
    a'.outline = a.outline := by
  cases h with
  | bare => rfl
  | valued => rfl

theorem flatMap_outline_edited {attrs attrs' : List Attr}
    (h : List.Forall₂ (AttrEdited allowed) attrs attrs') :
    (attrs'.flatMap fun a => ' ' :: a.outline) = attrs.flatMap fun a => ' ' :: a.outline := by
  induction h with
  | nil => rfl
  | cons hhead _ ih => rw [List.flatMap_cons, List.flatMap_cons, hhead.outline, ih]

/-- The reader of tags sees no difference. -/
theorem TagEdited.outline {t t' : Tag} (h : TagEdited allowed t t') : t'.outline = t.outline := by
  rw [Tag.outline, Tag.outline, h.head, flatMap_outline_edited h.attrs]

theorem map_outline_edited {tags tags' : List Tag}
    (h : List.Forall₂ (TagEdited allowed) tags tags') :
    tags'.map Tag.outline = tags.map Tag.outline := by
  induction h with
  | nil => rfl
  | cons hhead _ ih => rw [List.map_cons, List.map_cons, hhead.outline, ih]

/-! ### Reading an edited tag -/

theorem attrsText_append_cons (attrs : List Attr) (rest : List Char) :
    ∃ d s, d ∈ wordEnds ∧ attrsText attrs ++ '>' :: rest = d :: s := by
  cases attrs with
  | nil => exact ⟨'>', rest, by decide, rfl⟩
  | cons a attrs =>
    rw [attrsText_cons, Attr.write.eq_def]
    cases a.value with
    | none => exact ⟨' ', _, by decide, by rw [String.toList_append]; rfl⟩
    | some v => exact ⟨' ', _, by decide, by simp only [String.toList_append]; rfl⟩

section Edited

variable (hm : Mild allowed) {before : Option Char}

include hm

/-- A word at the end of which a tag or another attribute goes on. -/
theorem Mild.word_attrs {w : String} (hw : w ∈ fixedWords) (attrs : List Attr) (rest : List Char)
    {u : List Char} (h : Edited allowed before (w.toList ++ (attrsText attrs ++ '>' :: rest)) u) :
    ∃ u', u = w.toList ++ u' ∧ Edited allowed none (attrsText attrs ++ '>' :: rest) u' := by
  obtain ⟨d, s, hd, hs⟩ := attrsText_append_cons attrs rest
  rw [hs] at h ⊢
  obtain ⟨s', rfl, hs'⟩ := hm.word w hw d hd h
  exact ⟨d :: s', rfl, .keep none d hs'⟩

/-- Attributes up to the end of their tag. -/
theorem Mild.attrs {attrs : List Attr} (hattrs : ∀ a ∈ attrs, a.name ∈ fixedWords)
    {rest u : List Char} (h : Edited allowed before (attrsText attrs ++ '>' :: rest) u) :
    ∃ attrs' rest', u = attrsText attrs' ++ '>' :: rest' ∧
      List.Forall₂ (AttrEdited allowed) attrs attrs' ∧ Edited allowed (some '>') rest rest' := by
  have hempty : "" ∈ fixedWords := List.mem_cons_self
  induction attrs generalizing before u with
  | nil =>
    obtain ⟨rest', rfl, hrest⟩ := hm.word "" hempty '>' (by decide) h
    exact ⟨[], rest', rfl, .nil, hrest⟩
  | cons a attrs ih =>
    obtain ⟨hname, hnames⟩ := List.forall_mem_cons.1 hattrs
    obtain ⟨name, value⟩ := a
    rw [attrsText_cons, List.append_assoc] at h
    cases value with
    | none =>
      -- A blank, the name, and then another attribute or the end of the tag.
      rw [Attr.write, String.toList_append] at h
      rw [List.append_assoc] at h
      obtain ⟨u₁, rfl, h₁⟩ := hm.word "" hempty ' ' (by decide) h
      obtain ⟨u₂, rfl, h₂⟩ := hm.word_attrs hname attrs rest h₁
      obtain ⟨attrs', rest', rfl, hattrs', hrest⟩ := ih hnames h₂
      exact ⟨flag name :: attrs', rest', by simp [attrsText, Attr.write, flag],
        .cons (.bare name) hattrs', hrest⟩
    | some v =>
      -- A blank, the name, an equals sign, and a value between quotes.
      have h : Edited allowed before ("".toList ++ ' ' :: (name.toList ++ '=' :: ("".toList ++
          '"' :: (v.toList ++ '"' :: (attrsText attrs ++ '>' :: rest))))) u := by
        simpa [Attr.write, String.toList_append] using h
      obtain ⟨u₁, rfl, h₁⟩ := hm.word "" hempty ' ' (by decide) h
      obtain ⟨u₂, rfl, h₂⟩ := hm.word name hname '=' (by decide) h₁
      obtain ⟨u₃, rfl, h₃⟩ := hm.word "" hempty '"' (by decide) h₂
      obtain ⟨v', u₄, rfl, hv, h₄⟩ := Edited.split (hm.delimiter '"' (by decide)) _ _ h₃
      obtain ⟨attrs', rest', rfl, hattrs', hrest⟩ := ih hnames h₄
      refine ⟨attr name (String.ofList v') :: attrs', rest', ?_, .cons (.valued name ?_) hattrs',
        hrest⟩
      · simp [attrsText, Attr.write, attr, String.toList_append]
      · rwa [String.toList_ofList]

/-- A woven text is edited tag by tag. -/
theorem Woven.edited {tags : List Tag} {s u : List Char} (hs : Woven tags s)
    (hfits : ∀ t ∈ tags, t.Fits tidy) (h : Edited allowed before s u) :
    ∃ tags', Woven tags' u ∧ List.Forall₂ (TagEdited allowed) tags tags' := by
  induction hs generalizing before u with
  | text hplain => exact ⟨[], .text (h.forall_mem hplain hm.plain), .nil⟩
  | @tag front rest tags hplain t hrest ih =>
    obtain ⟨ht, hfits⟩ := List.forall_mem_cons.1 hfits
    have hhead : t.head ∈ fixedWords := by simp [fixedWords, ht.head]
    have hnames : ∀ a ∈ t.attrs, a.name ∈ fixedWords := by
      intro a ha
      rcases ht.attrs a ha with ha | rfl
      · cases ha with
        | bare hname => simp [fixedWords, flag, hname]
        | valued hname => simp [fixedWords, attr, hname]
      · exact List.mem_cons_of_mem _ List.mem_cons_self
    have h : Edited allowed before
        (front ++ '<' :: (t.head.toList ++ (attrsText t.attrs ++ '>' :: rest))) u := by
      simpa [Tag.toList_write] using h
    obtain ⟨front', u₁, rfl, hfront, h₁⟩ := Edited.split (hm.delimiter '<' (by decide)) _ _ h
    obtain ⟨u₂, rfl, h₂⟩ := hm.word_attrs hhead t.attrs rest h₁
    obtain ⟨attrs', rest', rfl, hattrs', h₃⟩ := hm.attrs hnames h₂
    obtain ⟨tags', hwoven, htags⟩ := ih hfits h₃
    refine ⟨⟨t.head, attrs'⟩ :: tags', ?_, .cons ⟨rfl, hattrs'⟩ htags⟩
    have hplain' : Plain front' := hfront.forall_mem hplain hm.plain
    simpa [Tag.toList_write] using Woven.tag hplain' ⟨t.head, attrs'⟩ hwoven

end Edited

/-- Edits that keep what is known about attributes. -/
def Keeps (tidy : Prop) (allowed : Edit) : Prop :=
  ∀ a a', a.Fits tidy → AttrEdited allowed a a' → a'.Fits tidy

/-- Edits keep what is known about attributes if they leave the variables of loops alone. -/
theorem keeps_of (hplain : ∀ {before old new rest}, allowed before old new rest → Plain new)
    (hends : tidy → ∀ {before s t}, Edited allowed before s t → EndsInEquals t → EndsInEquals s)
    (hloop : ∀ head ∈ loopHeads, ∀ {before s t}, Edited allowed before (head.toList ++ s) t →
      ∃ s', t = head.toList ++ s') : Keeps tidy allowed := by
  intro a a' ha hedited
  cases hedited with
  | bare => exact ha
  | @valued name value value' h =>
    generalize heq : attr name value = a at ha
    cases ha with
    | bare => cases heq
    | valued hname hvalue hfor =>
      cases heq
      refine .valued hname ⟨h.forall_mem hvalue.plain hplain, ?_⟩ ?_
      · intro htidy hvalue'
        exact hvalue.ends htidy (hends htidy h hvalue')
      · intro hname'
        obtain ⟨head, hhead, source, rfl⟩ := hfor hname'
        rw [String.toList_append] at h
        obtain ⟨source', hvalue'⟩ := hloop head hhead h
        refine ⟨head, hhead, String.ofList source', ?_⟩
        apply String.toList_injective
        rw [hvalue', String.toList_append, String.toList_ofList]

/-- Edits that keep values in form keep tags in form. -/
theorem TagEdited.fits {t t' : Tag} (hkeeps : Keeps tidy allowed) (h : TagEdited allowed t t')
    (ht : t.Fits tidy) : t'.Fits tidy := by
  refine ⟨h.head ▸ ht.head, ?_⟩
  have hold := ht.attrs
  have hattrs := h.attrs
  generalize t.attrs = attrs at hold hattrs
  generalize t'.attrs = attrs' at hattrs ⊢
  induction hattrs with
  | nil => simp
  | cons hhead _ ih =>
    obtain ⟨hfirst, hrest⟩ := List.forall_mem_cons.1 hold
    refine List.forall_mem_cons.2 ⟨?_, ih hrest⟩
    rcases hfirst with hfirst | rfl
    · exact .inl (hkeeps _ _ hfirst hhead)
    · cases hhead with
      | bare => exact .inr rfl

/-- Edits of rendered markup change texts and attribute values only. -/
theorem Rendered.edited (hm : Mild allowed) (hkeeps : Keeps tidy allowed) {before : Option Char}
    {tags : List Tag} {s u : List Char} (hs : Rendered tidy tags s)
    (h : Edited allowed before s u) :
    ∃ tags', Rendered tidy tags' u ∧ List.Forall₂ (TagEdited allowed) tags tags' := by
  obtain ⟨tags', hwoven, htags⟩ := hs.woven.edited hm hs.fits h
  refine ⟨tags', ⟨hwoven, ?_, ?_⟩, htags⟩
  · have hfits := hs.fits
    clear hs hwoven
    induction htags with
    | nil => simp
    | cons hhead _ ih =>
      obtain ⟨hfirst, hrest⟩ := List.forall_mem_cons.1 hfits
      exact List.forall_mem_cons.2 ⟨hhead.fits hkeeps hfirst, ih hrest⟩
  · intro stack rest
    rw [map_outline_edited htags]
    exact hs.balanced stack rest

end PageCompiler.Markup
