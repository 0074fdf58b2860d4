import PageCompiler.Proofs.Markup.Display
import PageCompiler.Proofs.Markup.WellFormed

/-!
# `PageCompiler.Proofs.Markup.Fits`: the attributes of rendered markup

`Attr.Fits` says once what the attributes of rendered markup are like. Their names are known, their
values are plain, and a loop names its variables in one of a few fixed ways. If the component is
tidy, no value ends in an equals sign either. `tidy` stands for that condition, so one pass over the
rules serves statements with and without it.
-/

set_option autoImplicit false

namespace PageCompiler.Markup

/-- The names of attributes with a value. -/
def attrNames : List String :=
  ["id", "type", "class", "title", "value", "placeholder", "rows", "data-component", "data-source",
   "v-model", "v-if", "v-for", ":key", ":class", ":style", ":disabled", ":is", "@click",
   "@submit.prevent"]

/-- The names of attributes without a value. -/
def flagNames : List String :=
  ["required", "v-else", "@click.stop"]

/-- How loops name their variables. -/
def loopHeads : List String :=
  ["item in ", "row in ", "message in ", "option in ", "gap in ", "insight in ", "domain in ",
   "(step, index) in "]

/-- A loop over a source. -/
def LoopsOver (value : String) : Prop :=
  ∃ head ∈ loopHeads, ∃ source, value = head ++ source

/-- A text that can stand between quotes. -/
structure Quotable (tidy : Prop) (s : String) : Prop where
  plain : Plain s.toList
  ends : tidy → ¬ EndsInEquals s.toList

/-- An attribute of rendered markup. -/
inductive Attr.Fits (tidy : Prop) : Attr → Prop
  | bare {name : String} (hname : name ∈ flagNames) : Attr.Fits tidy (flag name)
  | valued {name value : String} (hname : name ∈ attrNames) (hvalue : Quotable tidy value)
      (hloop : name = "v-for" → LoopsOver value) : Attr.Fits tidy (attr name value)

variable {tidy : Prop}

/-! ### Values -/

namespace Quotable

theorem literal {s : String} (h : Plain s.toList ∧ ¬ EndsInEquals s.toList) : Quotable tidy s :=
  ⟨h.1, fun _ => h.2⟩

theorem append {s t : String} (hs : Quotable tidy s) (ht : Quotable tidy t) :
    Quotable tidy (s ++ t) := by
  constructor
  · rw [String.toList_append, plain_append]
    exact ⟨hs.plain, ht.plain⟩
  · intro htidy hends
    rw [String.toList_append] at hends
    rcases endsInEquals_append hends with hends | hends
    · exact hs.ends htidy hends
    · exact ht.ends htidy hends

/-- What stands behind an equals sign decides how a text ends. -/
theorem append_inked {s t : String} (hs : Plain s.toList) (ht : Quotable tidy t)
    (hinked : inked t.toList ≠ []) : Quotable tidy (s ++ t) := by
  constructor
  · rw [String.toList_append, plain_append]
    exact ⟨hs, ht.plain⟩
  · intro htidy
    rw [String.toList_append, endsInEquals_append_iff hinked]
    exact ht.ends htidy

theorem escaped {v : Option Value} {default : String} (hv : tidy → ∀ w, v = some w → w.Tidy)
    (hdefault : ¬ EndsInEquals default.toList) : Quotable tidy (escaped v default) :=
  ⟨plain_escaped v default, fun htidy => not_endsInEquals_escaped (hv htidy) hdefault⟩

theorem orElse {s default : String} (hs : Quotable tidy s) (hdefault : Quotable tidy default) :
    Quotable tidy (orElse s default) := by
  unfold Markup.orElse
  split
  · exact hdefault
  · exact hs

end Quotable

theorem plain_mustache {s : String} (h : Plain s.toList) : Plain (mustache s).toList := by
  unfold mustache
  rw [String.toList_append, String.toList_append, plain_append, plain_append]
  exact ⟨⟨by decide, h⟩, by decide⟩

/-! ### Attributes -/

/-- All attributes of a list fit. -/
def AttrsFit (tidy : Prop) (attrs : List Attr) : Prop :=
  ∀ a ∈ attrs, a.Fits tidy

theorem attrsFit_nil : AttrsFit tidy [] := by
  intro a ha
  cases ha

theorem attrsFit_cons {a : Attr} {attrs : List Attr} :
    AttrsFit tidy (a :: attrs) ↔ a.Fits tidy ∧ AttrsFit tidy attrs :=
  List.forall_mem_cons

theorem attrsFit_append {attrs attrs' : List Attr} :
    AttrsFit tidy (attrs ++ attrs') ↔ AttrsFit tidy attrs ∧ AttrsFit tidy attrs' :=
  List.forall_mem_append

theorem attrsFit_single {a : Attr} (h : a.Fits tidy) : AttrsFit tidy [a] :=
  attrsFit_cons.2 ⟨h, attrsFit_nil⟩

/-- An attribute that is no loop. -/
theorem fits_attr {name value : String} (hname : name ∈ attrNames ∧ name ≠ "v-for")
    (hvalue : Quotable tidy value) : (attr name value).Fits tidy :=
  .valued hname.1 hvalue fun h => absurd h hname.2

theorem fits_loop {head source : String} (hhead : head ∈ loopHeads)
    (hsource : Quotable tidy source) : (attr "v-for" (head ++ source)).Fits tidy := by
  have hplain : ∀ head ∈ loopHeads, Plain head.toList ∧ ¬ EndsInEquals head.toList := by
    decide
  exact .valued (by decide) (.append (.literal (hplain head hhead)) hsource)
    fun _ => ⟨head, hhead, source, rfl⟩

theorem attrsFit_optional {name value : String} (hname : name ∈ attrNames ∧ name ≠ "v-for")
    (hvalue : Quotable tidy value) : AttrsFit tidy (attr? name value) := by
  unfold attr?
  split
  · exact attrsFit_nil
  · exact attrsFit_single (fits_attr hname hvalue)

/-- A reader of tags takes the attributes for what they are. -/
theorem Attr.Fits.readable {a : Attr} (h : a.Fits tidy) : a.Readable := by
  cases h with
  | bare hname =>
    have hall : ∀ name ∈ flagNames, isAttribute (flag name).outline = true ∧
        ' ' ∉ (flag name).outline := by decide
    obtain ⟨hreads, hword⟩ := hall _ hname
    exact ⟨hreads, hword⟩
  | valued hname =>
    -- The outline leaves the value out, so the names decide.
    have hall : ∀ name ∈ attrNames, isAttribute (name.toList ++ ['=', '"', '"']) = true ∧
        ' ' ∉ name.toList ++ ['=', '"', '"'] := by decide
    obtain ⟨hreads, hword⟩ := hall _ hname
    exact ⟨hreads, hword⟩

theorem Attr.Fits.plain_name {a : Attr} (h : a.Fits tidy) : Plain a.name.toList := by
  cases h with
  | bare hname =>
    have hall : ∀ name ∈ flagNames, Plain name.toList := by decide
    exact hall _ hname
  | valued hname =>
    have hall : ∀ name ∈ attrNames, Plain name.toList := by decide
    exact hall _ hname

theorem Attr.Fits.plain_value {a : Attr} (h : a.Fits tidy) {v : String} (hv : a.value = some v) :
    Plain v.toList := by
  cases h with
  | bare => cases hv
  | valued _ hvalue =>
    cases hv
    exact hvalue.plain

theorem Attr.Fits.quote_not_mem {name value : String} (h : (attr name value).Fits tidy) :
    '"' ∉ value.toList :=
  fun hmem => (h.plain_value rfl _ hmem).2.2 rfl

/-! ### Tags -/

/-- The first words of the tags of rendered markup. -/
def tagHeads : List String :=
  "input" :: "component" :: (elementNames ++ elementNames.map ("/" ++ ·))

/-- A tag of rendered markup. Its last attribute may be the slash of a tag that closes itself. -/
structure Tag.Fits (tidy : Prop) (t : Tag) : Prop where
  head : t.head ∈ tagHeads
  attrs : ∀ a ∈ t.attrs, a.Fits tidy ∨ a = flag "/"

/-- A tag in form is plain. -/
theorem Tag.Fits.plainly {t : Tag} (h : t.Fits tidy) : t.Plainly where
  head := by
    have hall : ∀ head ∈ tagHeads, Plain head.toList := by decide
    exact hall _ h.head
  names := by
    intro a ha
    rcases h.attrs a ha with ha | rfl
    · exact ha.plain_name
    · decide
  values := by
    intro a ha v hv
    rcases h.attrs a ha with ha | rfl
    · exact ha.plain_value hv
    · cases hv

theorem fits_opening {tag : String} {attrs : List Attr} (htag : tag ∈ tagHeads)
    (hattrs : AttrsFit tidy attrs) : (opening tag attrs).Fits tidy :=
  ⟨htag, fun a ha => .inl (hattrs a ha)⟩

theorem mem_tagHeads {tag : String} (h : tag ∈ elementNames) :
    tag ∈ tagHeads ∧ "/" ++ tag ∈ tagHeads := by
  constructor
  · exact List.mem_cons_of_mem _ (List.mem_cons_of_mem _ (List.mem_append_left _ h))
  · refine List.mem_cons_of_mem _ (List.mem_cons_of_mem _ (List.mem_append_right _ ?_))
    exact List.mem_map.2 ⟨tag, h, rfl⟩

theorem fits_closing {tag : String} (htag : tag ∈ elementNames) : (closing tag).Fits tidy :=
  ⟨(mem_tagHeads htag).2, fun a ha => absurd ha (by simp [closing])⟩

/-- The tags of an element fit if those inside of it do. -/
theorem fits_element {tag : String} {attrs : List Attr} {inner : List Tag}
    (htag : tag ∈ elementNames) (hattrs : AttrsFit tidy attrs)
    (hinner : ∀ t ∈ inner, t.Fits tidy) :
    ∀ t ∈ opening tag attrs :: (inner ++ [closing tag]), t.Fits tidy := by
  rw [List.forall_mem_cons, List.forall_mem_append, List.forall_mem_singleton]
  exact ⟨fits_opening (mem_tagHeads htag).1 hattrs, hinner, fits_closing htag⟩

mutual

/-- The tags of an inline element in form are in form. -/
theorem Inline.fits_tags (i : Inline) (h : i.Fits (Attr.Fits tidy)) :
    ∀ t ∈ i.tags, t.Fits tidy := by
  cases i with
  | text content => simp [Inline.tags]
  | element tag attrs children =>
    obtain ⟨htag, hattrs, hchildren⟩ := h
    exact fits_element htag hattrs (fits_tagsAll children hchildren)
  | void tag attrs =>
    obtain ⟨rfl, hattrs⟩ := h
    exact List.forall_mem_singleton.2 (fits_opening (by decide) hattrs)
  | closed tag attrs =>
    obtain ⟨rfl, hattrs⟩ := h
    have hhead : "component" ∈ tagHeads := by decide
    refine List.forall_mem_singleton.2 ⟨hhead, fun a ha => ?_⟩
    rcases List.mem_append.1 ha with ha | ha
    · exact .inl (hattrs a ha)
    · exact .inr (List.mem_singleton.1 ha)

theorem fits_tagsAll (is : List Inline) (h : FitsAll (Attr.Fits tidy) is) :
    ∀ t ∈ tagsAll is, t.Fits tidy := by
  cases is with
  | nil => simp [tagsAll]
  | cons i is =>
    exact List.forall_mem_append.2 ⟨Inline.fits_tags i h.1, fits_tagsAll is h.2⟩

end

mutual

/-- The tags of a block in form are in form. -/
theorem Block.fits_tags (b : Block) (h : b.Fits (Attr.Fits tidy)) :
    ∀ t ∈ b.tags, t.Fits tidy := by
  cases b with
  | line content => exact Inline.fits_tags content h
  | run pieces => exact fits_tagsAll pieces h
  | block tag attrs children =>
    obtain ⟨htag, hattrs, hchildren⟩ := h
    exact fits_element htag hattrs (fits_blockTags children hchildren)

/-- The tags of markup trees that fit. -/
theorem fits_blockTags (bs : List Block) (h : BlocksFit (Attr.Fits tidy) bs) :
    ∀ t ∈ blockTags bs, t.Fits tidy := by
  cases bs with
  | nil => simp [blockTags]
  | cons b bs =>
    exact List.forall_mem_append.2 ⟨Block.fits_tags b h.1, fits_blockTags bs h.2⟩

end

/-! ### Markup -/

/-- Markup that is woven from fitting tags that nest. -/
structure Rendered (tidy : Prop) (tags : List Tag) (s : List Char) : Prop where
  woven : Woven tags s
  fits : ∀ t ∈ tags, t.Fits tidy
  balanced : Balanced tags

theorem Rendered.wellFormed {tags : List Tag} {s : List Char} (h : Rendered tidy tags s) :
    wellFormed s = true :=
  wellFormed_of_woven h.woven (fun t ht => (h.fits t ht).plainly) h.balanced

theorem Rendered.append {tags tags' : List Tag} {s s' : List Char} (h : Rendered tidy tags s)
    (h' : Rendered tidy tags' s') : Rendered tidy (tags ++ tags') (s ++ s') :=
  ⟨h.woven.append h'.woven, List.forall_mem_append.2 ⟨h.fits, h'.fits⟩,
    h.balanced.append h'.balanced⟩

/-- The text of markup trees that fit. -/
theorem rendered_layOut {bs : List Block} (h : BlocksFit (Attr.Fits tidy) bs) :
    Rendered tidy (blockTags bs) (layOut bs).toList :=
  ⟨woven_layOut h, fits_blockTags bs h, balanced_blockTags (fun _ ha => ha.readable) bs h⟩

end PageCompiler.Markup
