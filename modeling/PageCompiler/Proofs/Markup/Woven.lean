import PageCompiler.Markup.Tree

/-!
# `PageCompiler.Proofs.Markup.Woven`: markup as text between tags

A text is woven from tags if it is these tags with plain text between them. Plain text holds no
angle bracket and no double quote, so the tags of such a text are found where the angle brackets
are. `Block.woven` says that the lines of a markup tree are woven from the tags of the tree, at
every margin.

A closing tag is a tag whose head starts with a slash, and a tag that closes itself ends in a slash
as its last attribute. So all tags are written alike.
-/

set_option autoImplicit false

namespace PageCompiler.Markup

/-! ### Plain text -/

/-- A text without angle brackets and double quotes. -/
def Plain (s : List Char) : Prop :=
  ∀ c ∈ s, c ≠ '<' ∧ c ≠ '>' ∧ c ≠ '"'

instance (s : List Char) : Decidable (Plain s) :=
  List.decidableBAll (fun c => c ≠ '<' ∧ c ≠ '>' ∧ c ≠ '"') s

@[simp] theorem plain_nil : Plain [] := by
  intro c hc
  cases hc

@[simp] theorem plain_append {s t : List Char} : Plain (s ++ t) ↔ Plain s ∧ Plain t :=
  List.forall_mem_append

@[simp] theorem plain_cons {c : Char} {s : List Char} :
    Plain (c :: s) ↔ (c ≠ '<' ∧ c ≠ '>' ∧ c ≠ '"') ∧ Plain s :=
  List.forall_mem_cons

/-! ### Tags -/

/-- What stands between two angle brackets: a first word and attributes. -/
structure Tag where
  head : String
  attrs : List Attr
  deriving DecidableEq, Repr

/-- The text of a tag. -/
def Tag.write (t : Tag) : String :=
  openTag t.head t.attrs

/-- The text of attributes behind the first word of a tag. -/
def attrsText (attrs : List Attr) : List Char :=
  attrs.flatMap fun a => a.write.toList

theorem toList_writeAttrs (attrs : List Attr) : (writeAttrs attrs).toList = attrsText attrs := by
  rw [writeAttrs, String.toList_join, attrsText, List.flatMap_map]

@[simp] theorem attrsText_nil : attrsText [] = [] := rfl

@[simp] theorem attrsText_cons (a : Attr) (attrs : List Attr) :
    attrsText (a :: attrs) = a.write.toList ++ attrsText attrs := rfl

theorem Tag.toList_write (t : Tag) :
    t.write.toList = '<' :: (t.head.toList ++ (attrsText t.attrs ++ ['>'])) := by
  simp [Tag.write, openTag, String.toList_append, toList_writeAttrs]

/-- The tag that opens an element. -/
def opening (tag : String) (attrs : List Attr) : Tag := ⟨tag, attrs⟩

/-- The tag that closes an element. -/
def closing (tag : String) : Tag := ⟨"/" ++ tag, []⟩

/-- The tag that opens and closes an element. -/
def selfClosing (tag : String) (attrs : List Attr) : Tag := ⟨tag, attrs ++ [flag "/"]⟩

theorem write_closing (tag : String) : (closing tag).write = closeTag tag := by
  apply String.toList_injective
  simp [Tag.toList_write, closing, closeTag, String.toList_append]

theorem write_selfClosing (tag : String) (attrs : List Attr) :
    (selfClosing tag attrs).write = "<" ++ tag ++ writeAttrs attrs ++ " />" := by
  apply String.toList_injective
  simp [Tag.toList_write, selfClosing, attrsText, flag, Attr.write, String.toList_append,
    toList_writeAttrs]

/-! ### Texts that are woven from tags -/

/-- A text that consists of tags with plain text between them. -/
inductive Woven : List Tag → List Char → Prop
  | text {s : List Char} (hs : Plain s) : Woven [] s
  | tag {s rest : List Char} {tags : List Tag} (hs : Plain s) (t : Tag) (hrest : Woven tags rest) :
      Woven (t :: tags) (s ++ (t.write.toList ++ rest))

namespace Woven

variable {tags tags' : List Tag} {s s' : List Char}

theorem plain_append (hs : Plain s) (h : Woven tags s') : Woven tags (s ++ s') := by
  cases h with
  | text hs' => exact .text (Markup.plain_append.2 ⟨hs, hs'⟩)
  | tag hs' t hrest =>
    rw [← List.append_assoc]
    exact .tag (Markup.plain_append.2 ⟨hs, hs'⟩) t hrest

theorem append (h : Woven tags s) (h' : Woven tags' s') : Woven (tags ++ tags') (s ++ s') := by
  induction h with
  | text hs => exact plain_append hs h'
  | tag hs t hrest ih =>
    rw [List.cons_append, List.append_assoc, List.append_assoc]
    exact .tag hs t ih

theorem single (t : Tag) : Woven [t] t.write.toList := by
  have h := Woven.tag plain_nil t (.text plain_nil)
  rwa [List.nil_append, List.append_nil] at h

/-- A character in front that opens no tag can be taken away. -/
theorem of_cons {c : Char} (hc : c ≠ '<') (h : Woven tags (c :: s)) : Woven tags s := by
  generalize hs' : c :: s = s' at h
  cases h with
  | text hs =>
    subst hs'
    exact .text (plain_cons.1 hs).2
  | @tag front _ _ hs t hrest =>
    cases front with
    | nil =>
      rw [List.nil_append, Tag.toList_write] at hs'
      exact absurd (List.cons.inj hs').1 hc
    | cons c' front =>
      obtain ⟨-, rfl⟩ := List.cons.inj hs'
      exact .tag (plain_cons.1 hs).2 t hrest

end Woven

/-! ### Trees -/

mutual

/-- The tags of markup on one line, in order. -/
def Inline.tags : Inline → List Tag
  | .text _ => []
  | .element tag attrs children => opening tag attrs :: (tagsAll children ++ [closing tag])
  | .void tag attrs => [opening tag attrs]
  | .closed tag attrs => [selfClosing tag attrs]

/-- The tags of pieces on one line, in order. -/
def tagsAll : List Inline → List Tag
  | [] => []
  | piece :: rest => piece.tags ++ tagsAll rest

end

mutual

/-- The tags of markup, in order. -/
def Block.tags : Block → List Tag
  | .line content => content.tags
  | .run pieces => tagsAll pieces
  | .block tag attrs children => opening tag attrs :: (blockTags children ++ [closing tag])

/-- The tags of markup blocks one after another, in order. -/
def blockTags : List Block → List Tag
  | [] => []
  | b :: rest => b.tags ++ blockTags rest

end

/-- The elements that have a closing tag. -/
def elementNames : List String :=
  ["div", "p", "span", "small", "strong", "button", "form", "textarea", "select", "option", "table",
   "thead", "tbody", "tr", "th", "td", "h1", "h2", "h3", "h4", "h5", "h6", "hTrue"]

mutual

/-- Markup on one line with plain texts, known elements, and attributes that satisfy `P`. -/
def Inline.Fits (P : Attr → Prop) : Inline → Prop
  | .text content => Plain content.toList
  | .element tag attrs children => tag ∈ elementNames ∧ (∀ a ∈ attrs, P a) ∧ FitsAll P children
  | .void tag attrs => tag = "input" ∧ ∀ a ∈ attrs, P a
  | .closed tag attrs => tag = "component" ∧ ∀ a ∈ attrs, P a

/-- `Inline.Fits` for pieces on one line. -/
def FitsAll (P : Attr → Prop) : List Inline → Prop
  | [] => True
  | piece :: rest => piece.Fits P ∧ FitsAll P rest

end

mutual

/-- Markup with plain texts, known elements, and attributes that satisfy `P`. -/
def Block.Fits (P : Attr → Prop) : Block → Prop
  | .line content => content.Fits P
  | .run pieces => FitsAll P pieces
  | .block tag attrs children =>
    tag ∈ elementNames ∧ (∀ a ∈ attrs, P a) ∧ BlocksFit P children

/-- `Block.Fits` for blocks one after another. -/
def BlocksFit (P : Attr → Prop) : List Block → Prop
  | [] => True
  | b :: rest => b.Fits P ∧ BlocksFit P rest

end

theorem blocksFit_iff {P : Attr → Prop} {bs : List Block} :
    BlocksFit P bs ↔ ∀ b ∈ bs, b.Fits P := by
  induction bs with
  | nil => simp [BlocksFit]
  | cons b bs ih => simp [BlocksFit, ih]

theorem blocksFit_append {P : Attr → Prop} {bs cs : List Block} :
    BlocksFit P (bs ++ cs) ↔ BlocksFit P bs ∧ BlocksFit P cs := by
  simp only [blocksFit_iff]
  exact List.forall_mem_append

variable {P : Attr → Prop}

mutual

/-- A written inline element is woven of its tags. -/
theorem Inline.woven (i : Inline) (h : i.Fits P) : Woven i.tags i.write.toList := by
  cases i with
  | text content => exact .text h
  | element tag attrs children =>
    obtain ⟨-, -, hchildren⟩ := h
    have hinner := (woven_writeAll children hchildren).append (.single (closing tag))
    have h := (Woven.single (opening tag attrs)).append hinner
    rw [write_closing] at h
    simpa only [Inline.tags, Inline.write, Tag.write, opening, String.toList_append,
      List.append_assoc, List.singleton_append] using h
  | void tag attrs => exact .single (opening tag attrs)
  | closed tag attrs =>
    have h := Woven.single (selfClosing tag attrs)
    rwa [write_selfClosing] at h

theorem woven_writeAll (is : List Inline) (h : FitsAll P is) :
    Woven (tagsAll is) (writeAll is).toList := by
  cases is with
  | nil => exact .text plain_nil
  | cons i is =>
    have h := (Inline.woven i h.1).append (woven_writeAll is h.2)
    rwa [← String.toList_append] at h

end

/-- Lines at a margin, each behind a line feed. -/
def fedLines (margin : List Char) (ls : List String) : List Char :=
  ls.flatMap fun line => '\n' :: (margin ++ line.toList)

theorem fedLines_append (margin : List Char) (ls ls' : List String) :
    fedLines margin (ls ++ ls') = fedLines margin ls ++ fedLines margin ls' :=
  List.flatMap_append

theorem fedLines_indent (margin : List Char) (ls : List String) :
    fedLines margin (indent ls) = fedLines (margin ++ [' ', ' ']) ls := by
  simp [fedLines, indent, List.flatMap_map, String.toList_append]

/-- One line at a margin, woven as the line is. -/
theorem woven_line {margin : List Char} (hmargin : Plain margin) {tags : List Tag} {line : String}
    (h : Woven tags line.toList) : Woven tags (fedLines margin [line]) := by
  have hfeed : Plain ('\n' :: margin) := plain_cons.2 ⟨by decide, hmargin⟩
  have h := Woven.plain_append hfeed h
  simpa [fedLines] using h

mutual

/-- The lines of a markup tree are woven from its tags. -/
theorem Block.woven (b : Block) (h : b.Fits P) {margin : List Char} (hmargin : Plain margin) :
    Woven b.tags (fedLines margin b.lines) := by
  cases b with
  | line content => exact woven_line hmargin (content.woven h)
  | run pieces => exact woven_line hmargin (woven_writeAll pieces h)
  | block tag attrs children =>
    obtain ⟨-, -, hchildren⟩ := h
    have hinner : Woven (blockTags children) (fedLines margin (indent (linesAll children))) := by
      rw [fedLines_indent]
      exact woven_linesAll children hchildren (plain_append.2 ⟨hmargin, by decide⟩)
    have hopen := woven_line hmargin (.single (opening tag attrs))
    have hclose := woven_line hmargin (.single (closing tag))
    rw [write_closing] at hclose
    have h := hopen.append (hinner.append hclose)
    rwa [← fedLines_append, ← fedLines_append] at h

theorem woven_linesAll (bs : List Block) (h : BlocksFit P bs) {margin : List Char}
    (hmargin : Plain margin) : Woven (blockTags bs) (fedLines margin (linesAll bs)) := by
  cases bs with
  | nil => exact .text plain_nil
  | cons b bs =>
    have h := (Block.woven b h.1 hmargin).append (woven_linesAll bs h.2 hmargin)
    rwa [← fedLines_append] at h

end

/-- Lines behind line feeds are the lines put together, behind one line feed. -/
theorem cons_toList_intercalate {ls : List String} (h : ls ≠ []) :
    '\n' :: ("\n".intercalate ls).toList = fedLines [] ls := by
  induction ls with
  | nil => exact absurd rfl h
  | cons line ls ih =>
    cases ls with
    | nil => simp [fedLines]
    | cons line' ls =>
      have ih := ih (by simp)
      rw [String.intercalate_cons_of_ne_nil (by simp), String.toList_append, String.toList_append]
      simpa [fedLines] using ih

/-- The text of markup trees is woven from their tags. -/
theorem woven_layOut {bs : List Block} (h : BlocksFit P bs) :
    Woven (blockTags bs) (layOut bs).toList := by
  have hlines := woven_linesAll bs h plain_nil
  cases hls : linesAll bs with
  | nil =>
    rw [hls] at hlines
    rw [layOut, hls]
    exact hlines
  | cons line ls =>
    rw [← cons_toList_intercalate (by rw [hls]; simp)] at hlines
    exact hlines.of_cons (by decide)

end PageCompiler.Markup
