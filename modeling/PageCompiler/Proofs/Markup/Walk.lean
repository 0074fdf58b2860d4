import PageCompiler.Policy.Apply
import PageCompiler.Proofs.Markup.Edited
import PageCompiler.Proofs.Text.Scan

/-!
# `PageCompiler.Proofs.Markup.Walk`: looking for attributes in rendered markup

Five recognisers look for attributes: those of handlers, bindings and loops, and those that renaming
changes. All of them read a word, an equals sign and a quote (`Introduces`). In rendered markup that
is found at attributes with a value only, provided that no value ends in an equals sign. So a walk
through the markup goes from attribute to attribute (`scanFrom_woven`).
-/

set_option autoImplicit false

namespace PageCompiler

open Text

namespace Markup

/-! ### What an attribute looks like -/

/-- Characters that can stand in front of the equals sign of an attribute. -/
def isWordy (c : Char) : Bool :=
  !isBlank c && !(['=', '"', '<', '>', '('].contains c)

theorem isBlank_of_isWordy {c : Char} (h : isWordy c = true) : isBlank c = false := by
  unfold isWordy at h
  rw [Bool.and_eq_true, Bool.not_eq_true'] at h
  exact h.1

/-- A text that starts with a word, an equals sign and a quote, where white space may stand around
the equals sign. -/
def Introduces (s : List Char) : Prop :=
  ∃ word gap gap' rest, s = word ++ (gap ++ '=' :: (gap' ++ '"' :: rest)) ∧ word ≠ [] ∧
    (∀ c ∈ word, isWordy c = true) ∧ (∀ c ∈ gap, isBlank c = true) ∧ ∀ c ∈ gap', isBlank c = true

/-- The word at the start of such a text is the longest one. -/
theorem introduces_word {word s : List Char} (hword : ∀ c ∈ word, isWordy c = true)
    (hs : followedBy isWordy s = false) (h : Introduces (word ++ s)) :
    word ≠ [] ∧ ∃ gap gap' rest, s = gap ++ '=' :: (gap' ++ '"' :: rest) ∧
      (∀ c ∈ gap, isBlank c = true) ∧ ∀ c ∈ gap', isBlank c = true := by
  obtain ⟨word', gap, gap', rest, heq, hne, hword', hgap, hgap'⟩ := h
  have hend : followedBy isWordy (gap ++ '=' :: (gap' ++ '"' :: rest)) = false := by
    cases gap with
    | nil => exact (by decide : isWordy '=' = false)
    | cons c gap =>
      have hc : isBlank c = true := hgap c (by simp)
      show isWordy c = false
      rw [isWordy, hc]
      rfl
  have htake := takeWhile_run hword hs
  have hdrop := dropWhile_run hword hs
  rw [heq, takeWhile_run hword' hend] at htake
  rw [heq, dropWhile_run hword' hend] at hdrop
  exact ⟨htake ▸ hne, gap, gap', rest, hdrop.symm, hgap, hgap'⟩

theorem not_introduces_of_not_wordy {c : Char} {s : List Char} (hc : isWordy c = false) :
    ¬ Introduces (c :: s) := by
  intro h
  have hword : ∀ d ∈ ([] : List Char), isWordy d = true := by simp
  exact (introduces_word (s := c :: s) hword hc h).1 rfl

/-- Between tags there is no quote to be found. -/
theorem not_introduces_text {x s : List Char} (hx : Plain x) (hs : s = [] ∨ s.head? = some '<') :
    ¬ Introduces (x ++ s) := by
  rintro ⟨word, gap, gap', rest, heq, -, hword, hgap, hgap'⟩
  -- Nothing in front of the quote is a bracket or a quote.
  have hfront : ∀ c ∈ word ++ (gap ++ '=' :: gap'), c ≠ '<' ∧ c ≠ '"' := by
    have hblank : ∀ c, isBlank c = true → c ≠ '<' ∧ c ≠ '"' := by
      intro c hc
      refine ⟨?_, ?_⟩
      · rintro rfl
        exact absurd hc (by decide)
      · rintro rfl
        exact absurd hc (by decide)
    intro c hc
    simp only [List.mem_append, List.mem_cons] at hc
    rcases hc with hc | hc | rfl | hc
    · refine ⟨?_, ?_⟩
      · rintro rfl
        exact absurd (hword _ hc) (by decide)
      · rintro rfl
        exact absurd (hword _ hc) (by decide)
    · exact hblank c (hgap c hc)
    · decide
    · exact hblank c (hgap' c hc)
  have heq : x ++ s = (word ++ (gap ++ '=' :: gap')) ++ '"' :: rest := by simpa using heq
  generalize word ++ (gap ++ '=' :: gap') = front at heq hfront
  rcases List.append_eq_append_iff.1 heq with ⟨a, rfl, ha⟩ | ⟨a, rfl, ha⟩
  · rcases hs with rfl | hs
    · simp at ha
    · cases a with
      | nil =>
        rw [List.nil_append] at ha
        rw [ha] at hs
        exact absurd hs (by simp)
      | cons c a =>
        rw [ha] at hs
        obtain rfl : c = '<' := by simpa using hs
        exact (hfront '<' (by simp)).1 rfl
  · cases a with
    | nil =>
      rw [List.nil_append] at ha
      rw [← ha] at hs
      rcases hs with hs | hs
      · cases hs
      · exact absurd hs (by simp)
    | cons c a =>
      obtain ⟨rfl, -⟩ := List.cons.inj ha
      exact (hx '"' (by simp)).2.2 rfl

/-- In front of a closing quote an attribute is found only if an equals sign stands there. -/
theorem endsInEquals_of_introduces {u s : List Char} (hu : Plain u)
    (h : Introduces (u ++ '"' :: s)) : EndsInEquals u ∧ inked u ≠ [] := by
  obtain ⟨word, gap, gap', rest, heq, -, hword, hgap, hgap'⟩ := h
  have hblank : ∀ c, isBlank c = true → c ≠ '"' := by
    rintro c hc rfl
    exact absurd hc (by decide)
  have hfront : '"' ∉ word ++ (gap ++ '=' :: gap') := by
    intro hmem
    simp only [List.mem_append, List.mem_cons] at hmem
    rcases hmem with hmem | hmem | hmem | hmem
    · exact absurd (hword _ hmem) (by decide)
    · exact hblank _ (hgap _ hmem) rfl
    · exact absurd hmem (by decide)
    · exact hblank _ (hgap' _ hmem) rfl
  have huq : '"' ∉ u := fun hmem => (hu _ hmem).2.2 rfl
  have heq : u ++ '"' :: s = (word ++ (gap ++ '=' :: gap')) ++ '"' :: rest := by simpa using heq
  obtain ⟨rfl, -⟩ := append_cons_inj huq hfront heq
  have hgap'' : inked gap' = [] := by
    rw [inked, List.filter_eq_nil_iff]
    intro c hc
    simp [hgap' c hc]
  have hend : inked (word ++ (gap ++ '=' :: gap')) = inked (word ++ gap) ++ ['='] := by
    have htail : inked ('=' :: gap') = '=' :: inked gap' := rfl
    rw [← List.append_assoc, inked_append, htail, hgap'']
  rw [endsInEquals_iff, hend]
  simp

/-! ### Where recognisers of attributes start -/

/-- A text that starts as one of the attributes that are looked for. -/
def opensAttr (before : Option Char) (s : List Char) : Bool :=
  startsWith ['@'] s || startsWith [':'] s || startsWith ['v', '-'] s ||
    (startsWith "class".toList s && !precededBy Policy.isAttrChar before)

/-- A recogniser that looks for attributes. -/
structure SeeksAttrs {α : Type} (r : Recogniser α) : Prop where
  introduces : ∀ {before s x}, r before s = some x → Introduces s
  opens : ∀ {before s x}, r before s = some x → opensAttr before s = true

/-- The attributes of a tag, of which the last may be a slash. -/
def TagAttrs (tidy : Prop) (attrs : List Attr) : Prop :=
  ∀ a ∈ attrs, a.Fits tidy ∨ a = flag "/"

variable {α β : Type} {tidy : Prop} {r : Recogniser α} {before : Option Char}

theorem isWordy_of_mem_fixedWords : ∀ w ∈ fixedWords, ∀ c ∈ w.toList, isWordy c = true := by
  decide +kernel

/-- Attributes have fixed names. -/
theorem mem_fixedWords_of_fits {a : Attr} (h : a.Fits tidy ∨ a = flag "/") :
    a.name ∈ fixedWords ∧ a.name ≠ "" := by
  rcases h with h | rfl
  · cases h with
    | bare hname =>
      refine ⟨by simp [fixedWords, flag, hname], ?_⟩
      rintro rfl
      exact absurd hname (by decide)
    | valued hname =>
      refine ⟨by simp [fixedWords, attr, hname], ?_⟩
      rintro rfl
      exact absurd hname (by decide)
  · exact ⟨by simp [fixedWords, flag], by decide⟩

/-- An attribute is a blank, its name, and more. -/
theorem toList_write_attr (a : Attr) :
    ∃ s, a.write.toList = ' ' :: (a.name.toList ++ s) := by
  rw [Attr.write.eq_def]
  cases a.value with
  | none => exact ⟨[], by simp [String.toList_append]⟩
  | some v => exact ⟨_, by simp only [String.toList_append, List.append_assoc]; rfl⟩

/-- Behind a word in a tag stands the end of the tag, or a blank and another word. -/
theorem dropWhile_attrsText {attrs : List Attr} (h : TagAttrs tidy attrs) (rest : List Char) :
    followedBy isWordy (attrsText attrs ++ '>' :: rest) = false ∧
      ∃ c s, (attrsText attrs ++ '>' :: rest).dropWhile isBlank = c :: s ∧
        (c = '>' ∨ isWordy c = true) := by
  have hblank : isBlank ' ' = true := by decide
  cases attrs with
  | nil => exact ⟨rfl, '>', rest, rfl, .inl rfl⟩
  | cons a attrs =>
    obtain ⟨hname, hne⟩ := mem_fixedWords_of_fits (h a (by simp))
    have hwordy := isWordy_of_mem_fixedWords _ hname
    obtain ⟨c, name, hc⟩ := List.exists_cons_of_ne_nil (mt String.toList_eq_nil_iff.1 hne)
    obtain ⟨s, hs⟩ := toList_write_attr a
    have hwordy : isWordy c = true := hwordy c (by simp [hc])
    have hinked := isBlank_of_isWordy hwordy
    rw [attrsText_cons, hs, hc]
    refine ⟨rfl, c, name ++ (s ++ (attrsText attrs ++ '>' :: rest)), ?_, .inr hwordy⟩
    simp [hblank, hinked]

theorem not_introduces_in_tag {attrs : List Attr} (h : TagAttrs tidy attrs) {word : List Char}
    (hword : ∀ c ∈ word, isWordy c = true) (rest : List Char) :
    ¬ Introduces (word ++ (attrsText attrs ++ '>' :: rest)) := by
  intro hin
  obtain ⟨hend, c, s, hdrop, hc⟩ := dropWhile_attrsText h rest
  obtain ⟨-, gap, gap', rest', heq, hgap, -⟩ := introduces_word hword hend hin
  rw [heq, dropWhile_run hgap rfl] at hdrop
  obtain ⟨rfl, -⟩ := List.cons.inj hdrop
  exact absurd hc (by decide)

/-! ### Stretches where nothing is found -/

namespace SeeksAttrs

variable (hr : SeeksAttrs r)

include hr

theorem dull_of {x s : List Char} (h : ∀ a b, x = a ++ b → b ≠ [] → ¬ Introduces (b ++ s)) :
    Dull r before x s := by
  intro a c b hx
  rw [Option.eq_none_iff_forall_ne_some]
  intro found hfound
  exact h a (c :: b) hx (List.cons_ne_nil c b) (hr.introduces hfound)

theorem nil_eq_none : r before [] = none := by
  rw [Option.eq_none_iff_forall_ne_some]
  intro found hfound
  obtain ⟨word, gap, gap', rest, heq, hne, -⟩ := hr.introduces hfound
  simp at heq

theorem dull_text {x s : List Char} (hx : Plain x) (hs : s = [] ∨ s.head? = some '<') :
    Dull r before x s := by
  refine hr.dull_of fun a b hab _ => ?_
  subst hab
  exact not_introduces_text (plain_append.1 hx).2 hs

theorem dull_char {c : Char} {s : List Char} (hc : isWordy c = false) : Dull r before [c] s := by
  refine hr.dull_of fun a b hab hb => ?_
  obtain ⟨d, b, rfl⟩ := List.exists_cons_of_ne_nil hb
  have hmem : d ∈ [c] := hab ▸ List.mem_append_right a List.mem_cons_self
  rw [List.mem_singleton.1 hmem, List.cons_append]
  exact not_introduces_of_not_wordy hc

theorem dull_word {word : List Char} (hword : ∀ c ∈ word, isWordy c = true) {attrs : List Attr}
    (hattrs : TagAttrs tidy attrs) (rest : List Char) :
    Dull r before word (attrsText attrs ++ '>' :: rest) := by
  refine hr.dull_of fun a b hab _ => ?_
  subst hab
  exact not_introduces_in_tag hattrs (fun c hc => hword c (List.mem_append_right a hc)) rest

/-- A value up to its closing quote, if it ends in no equals sign. -/
theorem dull_value {v s : List Char} (hv : Plain v) (hends : ¬ EndsInEquals v) :
    Dull r before v ('"' :: s) := by
  refine hr.dull_of fun a b hab _ hin => ?_
  subst hab
  obtain ⟨hb, hinked⟩ := endsInEquals_of_introduces (plain_append.1 hv).2 hin
  exact hends ((endsInEquals_append_iff hinked).2 hb)

end SeeksAttrs

/-- No attribute that is looked for starts inside of a name in front of an equals sign. -/
def opensNowhere (before : Option Char) : List Char → Bool
  | [] => true
  | c :: s => !opensAttr before (c :: s ++ ['=']) && opensNowhere (some c) s

theorem opensAttr_append_equals (before : Option Char) (x s : List Char) :
    opensAttr before (x ++ '=' :: s) = opensAttr before (x ++ ['=']) := by
  have hstop : ∀ pattern : List Char, '=' ∉ pattern →
      startsWith pattern (x ++ '=' :: s) = startsWith pattern (x ++ ['=']) :=
    fun pattern h => startsWith_append_stop h h x s []
  have hmark := hstop ['@'] (by decide)
  have hcolon := hstop [':'] (by decide)
  have hword := hstop ['v', '-'] (by decide)
  have hclass := hstop "class".toList (by decide)
  rw [opensAttr, hmark, hcolon, hword, hclass]
  rfl

/-- Nothing is found inside of a value without attributes. -/
theorem SeeksAttrs.dull_inside (hr : SeeksAttrs r) {x s : List Char}
    (h : opensNowhere before x = true) : Dull r before x ('=' :: s) := by
  induction x generalizing before with
  | nil => exact dull_nil
  | cons c x ih =>
    rw [opensNowhere, Bool.and_eq_true, Bool.not_eq_true'] at h
    refine dull_cons.2 ⟨?_, ih h.2⟩
    rw [Option.eq_none_iff_forall_ne_some]
    intro found hfound
    have hopens := hr.opens hfound
    rw [opensAttr_append_equals, h.1] at hopens
    cases hopens

/-- Behind the first character of a name no other attribute starts. -/
theorem opensNowhere_of_mem_attrNames :
    ∀ name ∈ attrNames, ∃ c x, name.toList = c :: x ∧ opensNowhere (some c) x = true := by
  have hall : ∀ name ∈ attrNames, name.toList ≠ [] ∧
      opensNowhere name.toList.head? name.toList.tail = true := by decide +kernel
  intro name hname
  obtain ⟨hne, hopens⟩ := hall name hname
  obtain ⟨c, x, hc⟩ := List.exists_cons_of_ne_nil hne
  rw [hc] at hopens
  exact ⟨c, x, hc, hopens⟩

variable {g : Piece α → List β}

/-- An attribute that is not looked for comes character by character. -/
theorem SeeksAttrs.scanFrom_unread (hr : SeeksAttrs r) {name : String} (hname : name ∈ attrNames)
    {v s : List Char} (hstart : r (some ' ') (name.toList ++ '=' :: '"' :: (v ++ '"' :: s)) = none)
    (hv : Dull r (some '"') v ('"' :: s)) :
    scanFrom r g (some ' ') (name.toList ++ '=' :: '"' :: (v ++ '"' :: s)) =
      (name.toList ++ '=' :: '"' :: (v ++ ['"'])).flatMap (fun c => g (.plain c)) ++
        scanFrom r g (some '"') s := by
  obtain ⟨c, x, hc, hopens⟩ := opensNowhere_of_mem_attrNames name hname
  have hequals : isWordy '=' = false := by decide
  have hquote : isWordy '"' = false := by decide
  rw [hc] at hstart ⊢
  have hdull : Dull r (some ' ') ((c :: x) ++ (['='] ++ (['"'] ++ (v ++ ['"'])))) s := by
    refine dull_append.2 ⟨dull_cons.2 ⟨by simpa using hstart, hr.dull_inside hopens⟩, ?_⟩
    refine dull_append.2 ⟨hr.dull_char hequals, dull_append.2 ⟨hr.dull_char hquote, ?_⟩⟩
    exact dull_append.2 ⟨by simpa using hv, hr.dull_char hquote⟩
  have hscan := scanFrom_dull (g := g) hdull
  simpa using hscan

/-! ### Walks through markup -/

/-- A walk gives `out` at every attribute with a value, and passes everything else. -/
structure AttrWalk (tidy : Prop) (r : Recogniser α) (g : Piece α → List β)
    (out : String → String → List β) : Prop where
  seeks : SeeksAttrs r
  valued : ∀ {name value}, (attr name value).Fits tidy → ∀ {attrs}, TagAttrs tidy attrs →
    ∀ rest, scanFrom r g (some ' ') (name.toList ++ '=' :: '"' ::
        (value.toList ++ '"' :: (attrsText attrs ++ '>' :: rest))) =
      out name value ++ scanFrom r g (some '"') (attrsText attrs ++ '>' :: rest)

/-- What a walk gives at an attribute. -/
def attrOut (g : Piece α → List β) (out : String → String → List β) (a : Attr) : List β :=
  match a.value with
  | none => a.write.toList.flatMap fun c => g (.plain c)
  | some v => g (.plain ' ') ++ out a.name v

/-- What a walk gives at a tag. -/
def tagOut (g : Piece α → List β) (out : String → String → List β) (t : Tag) : List β :=
  ('<' :: t.head.toList).flatMap (fun c => g (.plain c)) ++
    (t.attrs.flatMap (attrOut g out) ++ g (.plain '>'))

section Walk

variable {out : String → String → List β} (hw : AttrWalk tidy r g out)

include hw

/-- A walk over the attributes of a tag takes them one by one. -/
theorem AttrWalk.attrs {attrs : List Attr} (h : TagAttrs tidy attrs) (rest : List Char) :
    scanFrom r g before (attrsText attrs ++ '>' :: rest) =
      attrs.flatMap (attrOut g out) ++ (g (.plain '>') ++ scanFrom r g (some '>') rest) := by
  have hblank : isWordy ' ' = false := by decide
  have hclose : isWordy '>' = false := by decide
  induction attrs generalizing before with
  | nil =>
    have hdull : Dull r before ['>'] rest := hw.seeks.dull_char hclose
    have hscan := scanFrom_dull (g := g) hdull
    simpa using hscan
  | cons a attrs ih =>
    obtain ⟨ha, hattrs⟩ := List.forall_mem_cons.1 h
    obtain ⟨name, value⟩ := a
    cases value with
    | none =>
      -- A blank and the name of the attribute.
      have hwordy := isWordy_of_mem_fixedWords _ (mem_fixedWords_of_fits ha).1
      have hdull : Dull r before ([' '] ++ name.toList) (attrsText attrs ++ '>' :: rest) :=
        dull_append.2 ⟨hw.seeks.dull_char hblank, hw.seeks.dull_word hwordy hattrs rest⟩
      have hscan := scanFrom_dull (g := g) hdull
      rw [ih hattrs] at hscan
      simpa [attrOut, Attr.write, String.toList_append] using hscan
    | some v =>
      -- A blank, and then the attribute as a whole.
      have hfits : (attr name v).Fits tidy := by
        rcases ha with ha | ha
        · exact ha
        · cases ha
      have hdull : Dull r before [' '] (name.toList ++ '=' :: '"' ::
          (v.toList ++ '"' :: (attrsText attrs ++ '>' :: rest))) := hw.seeks.dull_char hblank
      have hscan := scanFrom_dull (g := g) hdull
      rw [behind_cons, behind_nil, hw.valued hfits hattrs rest, ih hattrs] at hscan
      simpa [attrOut, Attr.write, String.toList_append] using hscan

/-- A walk over a tag finds what its attributes give. -/
theorem AttrWalk.tag {t : Tag} (ht : t.Fits tidy) (rest : List Char) :
    scanFrom r g before (t.write.toList ++ rest) =
      tagOut g out t ++ scanFrom r g (some '>') rest := by
  have hopen : isWordy '<' = false := by decide
  have hhead : t.head ∈ fixedWords := by simp [fixedWords, ht.head]
  have hdull : Dull r before (['<'] ++ t.head.toList) (attrsText t.attrs ++ '>' :: rest) :=
    dull_append.2 ⟨hw.seeks.dull_char hopen,
      hw.seeks.dull_word (isWordy_of_mem_fixedWords _ hhead) ht.attrs rest⟩
  have hscan := scanFrom_dull (g := g) hdull
  rw [hw.attrs ht.attrs] at hscan
  simpa [tagOut, Tag.toList_write] using hscan

end Walk

/-- What is found in markup is found at attributes with a value. -/
theorem AttrWalk.found {r : Recogniser α} {out : String → String → List α}
    (hw : AttrWalk tidy r keepFound out) {tags : List Tag} {s : List Char} (hs : Woven tags s)
    (hfits : ∀ t ∈ tags, t.Fits tidy) :
    scanFrom r keepFound before s =
      tags.flatMap fun t => t.attrs.flatMap fun a => (a.value.map (out a.name)).getD [] := by
  have hattr : ∀ a : Attr, attrOut keepFound out a = (a.value.map (out a.name)).getD [] := by
    intro a
    unfold attrOut
    cases a.value with
    | none => exact flatMap_keepFound _
    | some v => rfl
  induction hs generalizing before with
  | @text x hplain =>
    have hdull : Dull r before x [] := hw.seeks.dull_text hplain (.inl rfl)
    have hscan := scanFrom_dull (g := keepFound) hdull
    rw [scanFrom_nil hw.seeks.nil_eq_none, flatMap_keepFound] at hscan
    simpa using hscan
  | @tag x rest tags hplain t hrest ih =>
    obtain ⟨ht, hfits⟩ := List.forall_mem_cons.1 hfits
    have hhead : (t.write.toList ++ rest).head? = some '<' := by
      rw [Tag.toList_write]
      rfl
    rw [scanFrom_dull (hw.seeks.dull_text hplain (.inr hhead)), hw.tag ht, ih hfits,
      flatMap_keepFound, tagOut, flatMap_keepFound, List.flatMap_cons, funext hattr]
    simp [keepFound]

/-- A walk over markup finds what the attributes of its tags give. -/
theorem AttrWalk.mem_found {r : Recogniser α} {out : String → String → List α}
    (hw : AttrWalk tidy r keepFound out) {tags : List Tag} {s : List Char} (hs : Woven tags s)
    (hfits : ∀ t ∈ tags, t.Fits tidy) {x : α} :
    x ∈ scanFrom r keepFound before s ↔
      ∃ t ∈ tags, ∃ a ∈ t.attrs, ∃ value, a.value = some value ∧ x ∈ out a.name value := by
  have hattr : ∀ a : Attr, x ∈ (a.value.map (out a.name)).getD [] ↔
      ∃ value, a.value = some value ∧ x ∈ out a.name value := by
    intro a
    cases a.value with
    | none => simp
    | some v => simp
  rw [hw.found hs hfits]
  simp only [List.mem_flatMap, hattr]

/-- An attribute with another value. -/
def Attr.change (change : String → String → String) (a : Attr) : Attr :=
  ⟨a.name, a.value.map (change a.name)⟩

/-- A tag with other attribute values. -/
def Tag.change (change : String → String → String) (t : Tag) : Tag :=
  ⟨t.head, t.attrs.map (Attr.change change)⟩

/-- Replacing in markup changes the values of attributes only. -/
theorem AttrWalk.replaced {r : Recogniser α} {f : α → List Char} {change : String → String → String}
    (hw : AttrWalk tidy r (putFound f) fun name value =>
      name.toList ++ '=' :: '"' :: ((change name value).toList ++ ['"']))
    {tags : List Tag} {s : List Char} (hs : Woven tags s) (hfits : ∀ t ∈ tags, t.Fits tidy)
    (before : Option Char) :
    Woven (tags.map (Tag.change change)) (scanFrom r (putFound f) before s) := by
  have hattr : ∀ a : Attr, attrOut (putFound f) (fun name value =>
      name.toList ++ '=' :: '"' :: ((change name value).toList ++ ['"'])) a =
        (a.change change).write.toList := by
    intro a
    obtain ⟨name, value⟩ := a
    cases value with
    | none => exact flatMap_putFound f _
    | some v => simp [attrOut, Attr.change, Attr.write, putFound, String.toList_append]
  induction hs generalizing before with
  | @text x hplain =>
    have hdull : Dull r before x [] := hw.seeks.dull_text hplain (.inl rfl)
    have hscan := scanFrom_dull (g := putFound f) hdull
    rw [scanFrom_nil hw.seeks.nil_eq_none, flatMap_putFound, List.append_nil] at hscan
    rw [hscan]
    exact .text hplain
  | @tag x rest tags hplain t hrest ih =>
    obtain ⟨ht, hfits⟩ := List.forall_mem_cons.1 hfits
    have hhead : (t.write.toList ++ rest).head? = some '<' := by
      rw [Tag.toList_write]
      rfl
    have htag : tagOut (putFound f) (fun name value =>
        name.toList ++ '=' :: '"' :: ((change name value).toList ++ ['"'])) t =
          (t.change change).write.toList := by
      rw [tagOut, flatMap_putFound, funext hattr, Tag.toList_write, Tag.change, attrsText,
        List.flatMap_map]
      rfl
    rw [scanFrom_dull (hw.seeks.dull_text hplain (.inr hhead)), hw.tag ht, flatMap_putFound, htag]
    exact .tag hplain _ (ih hfits _)

end Markup

end PageCompiler
