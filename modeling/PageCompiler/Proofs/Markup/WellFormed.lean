import PageCompiler.Proofs.Markup.Woven
import PageCompiler.Text.Word

/-!
# `PageCompiler.Proofs.Markup.WellFormed`: tags that nest

`wellFormed` reads a text as markup. It cuts the text at its angle brackets and quotes, reads what
stands between two angle brackets as a tag, and keeps a stack of the elements that are open. Quotes
may stand inside of tags only, each pair around the value of an attribute. An `input` has no closing
tag, and a `component` is closed in its opening tag.

`wellFormed_of_woven` says that a text woven from tags that nest passes.
-/

set_option autoImplicit false

namespace PageCompiler.Markup

open Text

/-! ### Reading markup -/

/-- Where a reader of markup stands: between tags, in a tag, or in a quoted value of a tag. What has
been read of a tag is kept in reverse, without the quoted values. -/
inductive Place where
  | between
  | tag (read : List Char)
  | value (read : List Char)
  deriving DecidableEq, Repr

/-- What stands inside of the tags of a text, with the values between quotes left out. There is no
answer if a bracket or a quote stands where it has no meaning, or the text ends inside of a tag. -/
def outline? : Place → List Char → Option (List (List Char))
  | .between, [] => some []
  | .tag _, [] => none
  | .value _, [] => none
  | .between, c :: s =>
    if c == '<' then outline? (.tag []) s
    else if c == '>' || c == '"' then none
    else outline? .between s
  | .tag read, c :: s =>
    if c == '>' then (outline? .between s).map (read.reverse :: ·)
    else if c == '<' then none
    else if c == '"' then outline? (.value (c :: read)) s
    else outline? (.tag (c :: read)) s
  | .value read, c :: s =>
    if c == '"' then outline? (.tag (c :: read)) s
    else if c == '<' || c == '>' then none
    else outline? (.value read) s

/-- What a tag does to the elements that are open. -/
inductive TagKind where
  | opens (name : List Char)
  | closes (name : List Char)
  /-- The tag is an element of its own. -/
  | alone
  deriving DecidableEq, Repr

/-- The name of an element: ASCII letters and digits. -/
def isTagName (w : List Char) : Bool :=
  !w.isEmpty && w.all fun c => isAsciiLetter c || isAsciiDigit c

/-- An attribute: a name, alone or with a pair of quotes behind an equals sign. -/
def isAttribute (w : List Char) : Bool :=
  let isPart (c : Char) : Bool := isNameChar c || c == '@' || c == ':' || c == '.'
  let name := w.takeWhile isPart
  !name.isEmpty && (w.dropWhile isPart == [] || w.dropWhile isPart == ['=', '"', '"'])

/-- Reads what stands inside of a tag, without the quoted values. -/
def tagKind? (inner : List Char) : Option TagKind :=
  match inner.splitOn ' ' with
  | [] => none
  | ('/' :: name) :: attrs =>
    if isTagName name && attrs.isEmpty then some (.closes name) else none
  | name :: attrs =>
    if !isTagName name then none
    else if name == "component".toList then
      if attrs.getLast? == some ['/'] && attrs.dropLast.all isAttribute then some .alone else none
    else if !attrs.all isAttribute then none
    else if name == "input".toList then some .alone
    else some (.opens name)

/-- The tags nest and leave no element open. `stack` holds the elements that are open. -/
def nests (stack : List (List Char)) : List (List Char) → Bool
  | [] => stack.isEmpty
  | inner :: rest =>
    match tagKind? inner with
    | none => false
    | some (.opens name) => nests (name :: stack) rest
    | some (.closes name) => stack.head? == some name && nests stack.tail rest
    | some .alone => nests stack rest

/-- A text is well-formed markup. -/
def wellFormed (s : List Char) : Bool :=
  match outline? .between s with
  | some inners => nests [] inners
  | none => false

/-- Tags that are crossed, left open, or broken by a quote are told from tags that nest. -/
example :
    wellFormed "<p class=\"a\">b<input required></p>".toList = true ∧
    wellFormed "<p><b></p></b>".toList = false ∧ wellFormed "<p>".toList = false ∧
    wellFormed "<p class=\"a\" b\"></p>".toList = false ∧
    wellFormed "<p>\"</p>".toList = false ∧ wellFormed "<p class=\"a>b\"></p>".toList = false := by
  decide

/-! ### The tags of a woven text -/

/-- An attribute without its value. -/
def Attr.outline (a : Attr) : List Char :=
  match a.value with
  | some _ => a.name.toList ++ ['=', '"', '"']
  | none => a.name.toList

/-- A tag without the values of its attributes. -/
def Tag.outline (t : Tag) : List Char :=
  t.head.toList ++ t.attrs.flatMap fun a => ' ' :: a.outline

/-- A tag that a reader cuts where it was put together. -/
structure Tag.Plainly (t : Tag) : Prop where
  head : Plain t.head.toList
  names : ∀ a ∈ t.attrs, Plain a.name.toList
  values : ∀ a ∈ t.attrs, ∀ v, a.value = some v → Plain v.toList

section Reading

variable {s rest read : List Char}

/-- Plain text between tags is passed. -/
theorem outline?_between (hs : Plain s) :
    outline? .between (s ++ rest) = outline? .between rest := by
  induction s with
  | nil => rfl
  | cons c s ih =>
    obtain ⟨⟨h₁, h₂, h₃⟩, hs⟩ := plain_cons.1 hs
    rw [List.cons_append, outline?]
    simp [h₁, h₂, h₃, ih hs]

/-- Plain text in a tag is kept. -/
theorem outline?_tag (hs : Plain s) :
    outline? (.tag read) (s ++ rest) = outline? (.tag (s.reverse ++ read)) rest := by
  induction s generalizing read with
  | nil => rfl
  | cons c s ih =>
    obtain ⟨⟨h₁, h₂, h₃⟩, hs⟩ := plain_cons.1 hs
    rw [List.cons_append, outline?]
    simp [h₁, h₂, h₃, ih hs]

/-- A plain value is left out. -/
theorem outline?_value (hs : Plain s) :
    outline? (.value read) (s ++ rest) = outline? (.value read) rest := by
  induction s with
  | nil => rfl
  | cons c s ih =>
    obtain ⟨⟨h₁, h₂, h₃⟩, hs⟩ := plain_cons.1 hs
    rw [List.cons_append, outline?]
    simp [h₁, h₂, h₃, ih hs]

/-- An attribute is read as its outline. -/
theorem outline?_attr {a : Attr} (hname : Plain a.name.toList)
    (hvalue : ∀ v, a.value = some v → Plain v.toList) :
    outline? (.tag read) (a.write.toList ++ rest) =
      outline? (.tag ((' ' :: a.outline).reverse ++ read)) rest := by
  have hspace : Plain (' ' :: a.name.toList) := plain_cons.2 ⟨by decide, hname⟩
  unfold Attr.write Attr.outline
  cases hv : a.value with
  | none =>
    simp only [String.toList_append]
    exact outline?_tag hspace
  | some v =>
    have hlead : Plain (' ' :: (a.name.toList ++ ['='])) := by
      rw [plain_cons, plain_append]
      exact ⟨by decide, hname, by decide⟩
    calc outline? (.tag read) ((" " ++ a.name ++ "=\"" ++ v ++ "\"").toList ++ rest)
        = outline? (.tag read) ((' ' :: (a.name.toList ++ ['='])) ++
            ('"' :: (v.toList ++ ('"' :: rest)))) := by simp [String.toList_append]
      _ = outline? (.value ('"' :: ((' ' :: (a.name.toList ++ ['='])).reverse ++ read)))
            (v.toList ++ ('"' :: rest)) := by rw [outline?_tag hlead]; simp [outline?]
      _ = outline? (.tag ((' ' :: (a.name.toList ++ ['=', '"', '"'])).reverse ++ read)) rest := by
            rw [outline?_value (hvalue v hv)]; simp [outline?]

theorem outline?_attrsText {attrs : List Attr} (hnames : ∀ a ∈ attrs, Plain a.name.toList)
    (hvalues : ∀ a ∈ attrs, ∀ v, a.value = some v → Plain v.toList) :
    outline? (.tag read) (attrsText attrs ++ rest) =
      outline? (.tag ((attrs.flatMap fun a => ' ' :: a.outline).reverse ++ read)) rest := by
  induction attrs generalizing read with
  | nil => rfl
  | cons a attrs ih =>
    rw [attrsText_cons, List.append_assoc,
      outline?_attr (hnames a (by simp)) (hvalues a (by simp)),
      ih (fun b hb => hnames b (by simp [hb])) (fun b hb => hvalues b (by simp [hb]))]
    simp

/-- A tag is read as its outline. -/
theorem outline?_write {t : Tag} (ht : t.Plainly) :
    outline? .between (t.write.toList ++ rest) =
      (outline? .between rest).map (t.outline :: ·) := by
  rw [Tag.toList_write]
  calc outline? .between ('<' :: (t.head.toList ++ (attrsText t.attrs ++ ['>'])) ++ rest)
      = outline? (.tag []) (t.head.toList ++ (attrsText t.attrs ++ ('>' :: rest))) := by
          simp [outline?]
    _ = outline? (.tag t.outline.reverse) ('>' :: rest) := by
          rw [outline?_tag ht.head, outline?_attrsText ht.names ht.values]
          simp [Tag.outline]
    _ = (outline? .between rest).map (t.outline :: ·) := by simp [outline?]

end Reading

/-- The reader finds the tags that a text is woven from. -/
theorem outline?_woven {tags : List Tag} {s : List Char} (h : Woven tags s)
    (htags : ∀ t ∈ tags, t.Plainly) :
    outline? .between s = some (tags.map Tag.outline) := by
  induction h with
  | @text s hs =>
    rw [← List.append_nil s, outline?_between hs]
    rfl
  | tag hs t hrest ih =>
    rw [outline?_between hs, outline?_write (htags t (by simp)),
      ih (fun t' ht' => htags t' (by simp [ht']))]
    rfl

/-! ### Tags that nest -/

/-- Tags that leave the open elements as they found them. -/
def Balanced (tags : List Tag) : Prop :=
  ∀ stack rest, nests stack (tags.map Tag.outline ++ rest) = nests stack rest

theorem balanced_nil : Balanced [] :=
  fun _ _ => rfl

theorem Balanced.append {tags tags' : List Tag} (h : Balanced tags) (h' : Balanced tags') :
    Balanced (tags ++ tags') := by
  intro stack rest
  rw [List.map_append, List.append_assoc, h, h']

/-- Words with a blank in front of each but the first are told apart again. -/
theorem splitOn_words {w : List Char} {ws : List (List Char)} (hw : ' ' ∉ w)
    (hws : ∀ v ∈ ws, ' ' ∉ v) : (w ++ ws.flatMap (' ' :: ·)).splitOn ' ' = w :: ws := by
  have hjoin : ∀ (w : List Char) (ws : List (List Char)),
      w ++ ws.flatMap (' ' :: ·) = [' '].intercalate (w :: ws) := by
    intro w ws
    induction ws generalizing w with
    | nil => simp
    | cons v ws ih =>
      rw [List.intercalate_cons_cons, ← ih v]
      simp
  rw [hjoin]
  refine List.splitOn_intercalate ' ' ?_ (by simp)
  intro v hv
  rcases List.mem_cons.1 hv with rfl | hv
  · exact hw
  · exact hws v hv

/-- The outlines of attributes whose names are read as such. -/
structure Attr.Readable (a : Attr) : Prop where
  reads : isAttribute a.outline = true
  oneWord : ' ' ∉ a.outline

variable {attrs : List Attr}

theorem splitOn_outline {head : String} (hhead : ' ' ∉ head.toList)
    (hattrs : ∀ a ∈ attrs, ' ' ∉ a.outline) :
    (Tag.outline ⟨head, attrs⟩).splitOn ' ' = head.toList :: attrs.map Attr.outline := by
  have hwords : ∀ w ∈ attrs.map Attr.outline, ' ' ∉ w := by simpa using hattrs
  have h := splitOn_words hhead hwords
  rwa [List.flatMap_map] at h

theorem all_isAttribute (hattrs : ∀ a ∈ attrs, a.Readable) :
    (attrs.map Attr.outline).all isAttribute = true := by
  simpa using fun a ha => (hattrs a ha).reads

/-- The name of an element, as a reader of tags sees it. -/
structure IsElement (tag : String) : Prop where
  name : isTagName tag.toList = true
  oneWord : ' ' ∉ tag.toList
  noSlash : tag.toList.head? ≠ some '/'
  notVoid : tag.toList ≠ "input".toList
  notClosed : tag.toList ≠ "component".toList

theorem isElement_of_mem {tag : String} (h : tag ∈ elementNames) : IsElement tag := by
  have hall : ∀ tag ∈ elementNames, isTagName tag.toList = true ∧ ' ' ∉ tag.toList ∧
      tag.toList.head? ≠ some '/' ∧ tag.toList ≠ "input".toList ∧
      tag.toList ≠ "component".toList := by decide
  obtain ⟨h₁, h₂, h₃, h₄, h₅⟩ := hall tag h
  exact ⟨h₁, h₂, h₃, h₄, h₅⟩

/-- An opening tag is read as one. -/
theorem tagKind?_opening {tag : String} (htag : IsElement tag)
    (hattrs : ∀ a ∈ attrs, a.Readable) :
    tagKind? (opening tag attrs).outline = some (.opens tag.toList) := by
  unfold tagKind? opening
  rw [splitOn_outline htag.oneWord fun a ha => (hattrs a ha).oneWord]
  split
  · contradiction
  next name rest heq =>
    -- The first word would start with a slash.
    refine absurd ?_ htag.noSlash
    rw [(List.cons.inj heq).1]
    rfl
  next name rest _ heq =>
    obtain ⟨rfl, rfl⟩ := List.cons.inj heq
    rw [htag.name, all_isAttribute hattrs, beq_eq_false_iff_ne.2 htag.notClosed,
      beq_eq_false_iff_ne.2 htag.notVoid]
    rfl

/-- A closing tag is read as one. -/
theorem tagKind?_closing {tag : String} (htag : IsElement tag) :
    tagKind? (closing tag).outline = some (.closes tag.toList) := by
  have hword : ' ' ∉ ("/" ++ tag).toList := by
    rw [String.toList_append, List.mem_append, not_or]
    exact ⟨by decide, htag.oneWord⟩
  unfold tagKind? closing
  rw [splitOn_outline hword (by simp), String.toList_append]
  simp [htag.name]

theorem tagKind?_void (hattrs : ∀ a ∈ attrs, a.Readable) :
    tagKind? (opening "input" attrs).outline = some .alone := by
  unfold tagKind? opening
  rw [splitOn_outline (by decide) fun a ha => (hattrs a ha).oneWord]
  simp [all_isAttribute hattrs, show isTagName ['i', 'n', 'p', 'u', 't'] = true by decide]

/-- A tag that closes itself is read as one. -/
theorem tagKind?_selfClosing (hattrs : ∀ a ∈ attrs, a.Readable) :
    tagKind? (selfClosing "component" attrs).outline = some .alone := by
  have hwords : ∀ a ∈ attrs ++ [flag "/"], ' ' ∉ a.outline := by
    intro a ha
    rcases List.mem_append.1 ha with ha | ha
    · exact (hattrs a ha).oneWord
    · rw [List.mem_singleton.1 ha]
      decide
  have hname : isTagName ['c', 'o', 'm', 'p', 'o', 'n', 'e', 'n', 't'] = true := by decide
  have hslash : (flag "/").outline = ['/'] := rfl
  unfold tagKind? selfClosing
  rw [splitOn_outline (by decide) hwords]
  have hall := all_isAttribute hattrs
  simp only [List.all_map] at hall
  simp [hname, hslash, hall]

/-! ### Trees nest -/

section Trees

variable {P : Attr → Prop}

/-- An element around tags that nest. -/
theorem balanced_element {tag : String} {inner : List Tag} (htag : IsElement tag)
    (hattrs : ∀ a ∈ attrs, a.Readable) (hinner : Balanced inner) :
    Balanced (opening tag attrs :: (inner ++ [closing tag])) := by
  intro stack rest
  rw [List.map_cons, List.cons_append, nests, tagKind?_opening htag hattrs, List.map_append,
    List.append_assoc]
  show nests (tag.toList :: stack) (inner.map Tag.outline ++ _) = nests stack rest
  rw [hinner, List.map_singleton, List.singleton_append, nests, tagKind?_closing htag]
  simp

mutual

/-- An inline element opens and closes in order. -/
theorem Inline.balanced (hP : ∀ a, P a → a.Readable) (i : Inline) (h : i.Fits P) :
    Balanced i.tags := by
  cases i with
  | text content => exact balanced_nil
  | element tag attrs children =>
    obtain ⟨htag, hattrs, hchildren⟩ := h
    exact balanced_element (isElement_of_mem htag) (fun a ha => hP a (hattrs a ha))
      (balanced_tagsAll hP children hchildren)
  | void tag attrs =>
    obtain ⟨rfl, hattrs⟩ := h
    intro stack rest
    rw [Inline.tags, List.map_singleton, List.singleton_append, nests,
      tagKind?_void fun a ha => hP a (hattrs a ha)]
  | closed tag attrs =>
    obtain ⟨rfl, hattrs⟩ := h
    intro stack rest
    rw [Inline.tags, List.map_singleton, List.singleton_append, nests,
      tagKind?_selfClosing fun a ha => hP a (hattrs a ha)]

theorem balanced_tagsAll (hP : ∀ a, P a → a.Readable) (is : List Inline) (h : FitsAll P is) :
    Balanced (tagsAll is) := by
  cases is with
  | nil => exact balanced_nil
  | cons i is => exact (Inline.balanced hP i h.1).append (balanced_tagsAll hP is h.2)

end

mutual

/-- A block opens and closes in order. -/
theorem Block.balanced (hP : ∀ a, P a → a.Readable) (b : Block) (h : b.Fits P) :
    Balanced b.tags := by
  cases b with
  | line content => exact Inline.balanced hP content h
  | run pieces => exact balanced_tagsAll hP pieces h
  | block tag attrs children =>
    obtain ⟨htag, hattrs, hchildren⟩ := h
    exact balanced_element (isElement_of_mem htag) (fun a ha => hP a (hattrs a ha))
      (balanced_blockTags hP children hchildren)

/-- The tags of markup trees nest. -/
theorem balanced_blockTags (hP : ∀ a, P a → a.Readable) (bs : List Block) (h : BlocksFit P bs) :
    Balanced (blockTags bs) := by
  cases bs with
  | nil => exact balanced_nil
  | cons b bs => exact (Block.balanced hP b h.1).append (balanced_blockTags hP bs h.2)

end

end Trees

/-- A text woven from plain tags that nest is well-formed. -/
theorem wellFormed_of_woven {tags : List Tag} {s : List Char} (h : Woven tags s)
    (htags : ∀ t ∈ tags, t.Plainly) (hbalanced : Balanced tags) : wellFormed s = true := by
  have hnests := hbalanced [] []
  rw [List.append_nil] at hnests
  rw [wellFormed, outline?_woven h htags]
  exact hnests

end PageCompiler.Markup
