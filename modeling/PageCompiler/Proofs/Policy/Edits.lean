import Mathlib.Data.List.Infix
import PageCompiler.Proofs.Markup.Edited
import PageCompiler.Proofs.Policy.Renaming
import PageCompiler.Policy.Apply

/-!
# `PageCompiler.Proofs.Policy.Edits`: renaming and marking as edits

Renaming variables puts canonical names in the place of aliases that stand as words of their own
(`renamed`). Replacing runtime markers puts one marker in the place of others (`marked`). Both are
edits that keep the tags of rendered markup.
-/

set_option autoImplicit false

namespace PageCompiler

open Text

namespace Policy

/-- A canonical name may be put in the place of an alias that is a word of its own. -/
def renamed (aliases : Assoc String) : Edit := fun before old new rest =>
  ∃ target, Assoc.get? aliases (String.ofList old) = some target ∧ new = target.toList ∧
    precededBy isIdentChar before = false ∧ followedBy isIdentChar rest = false

/-- A marker may be put in the place of another. -/
def marked (marker : List Char) : Edit := fun _ old new _ =>
  new = marker ∧ ∃ version, old = "vue@".toList ++ version ∧ ∀ c ∈ version, isVersionChar c = true

/-- A text may be put in the place of a class selector that is not the start of a longer one. -/
def selected (name : String) (text : List Char) : Edit := fun _ old new rest =>
  old = '.' :: name.toList ∧ new = text ∧ followedBy isNameChar rest = false

theorem renamed_append {aliases : Assoc String} {before : Option Char} {old new rest : List Char}
    {c : Char} (hc : isIdentChar c = false) (s : List Char)
    (h : renamed aliases before old new rest) :
    renamed aliases before old new (rest ++ c :: s) := by
  obtain ⟨target, hget, hnew, hbefore, hrest⟩ := h
  refine ⟨target, hget, hnew, hbefore, ?_⟩
  cases rest with
  | nil => exact hc
  | cons d rest => exact hrest

/-- Renaming is an edit. -/
theorem edited_run {aliases : Assoc String} (h : Rename.Regular aliases) (s : List Char)
    {before : Option Char}
    (hbefore : precededBy isIdentChar before = true → followedBy isIdentChar s = false) :
    Edited (renamed aliases) before s (Rename.run aliases s) := by
  induction s using Rename.code_induction generalizing before with
  | nil =>
    rw [Rename.run_nil h]
    exact .nil before
  | quiet text s hquiet ih =>
    obtain ⟨-, -, hend⟩ := Rename.quiet?_eq_some hquiet
    rw [Rename.run_quiet h hquiet]
    exact .append_left text (ih (hend before))
  | word w s hne hw hs ih =>
    rw [Rename.run_word h hne hw hs]
    cases hget : Assoc.get? aliases (String.ofList w) with
    | none =>
      rw [Rename.canonical_of_none hget]
      exact .append_left w (ih fun _ => hs)
    | some target =>
      have hbefore := Rename.not_precededBy_word hne hw hbefore
      rw [Rename.canonical_of_some hget]
      exact .swap before ⟨target, hget, rfl, hbefore, hs⟩ (ih fun _ => hs)
  | mark c s hc hquiet ih =>
    rw [Rename.run_mark h hc hquiet]
    exact .keep before c (ih (by simp [precededBy, hc]))

/-- Renaming between double braces is an edit. -/
theorem edited_interpolation {aliases : Assoc String} (h : Rename.Regular aliases)
    (s : List Char) :
    Edited (renamed aliases) none s (replaceAll interpolation
      (fun code => '\x7b' :: '\x7b' :: Rename.run aliases code ++ ['\x7d', '\x7d']) s) := by
  rw [replaceAll_eq]
  refine edited_scanFrom (fun _ => rfl) ?_ none s
  intro before s code rest hfound
  unfold interpolation at hfound
  rw [Option.bind_eq_bind, Option.bind_eq_some_iff] at hfound
  obtain ⟨s₁, h₁, h₂⟩ := hfound
  obtain rfl := after?_eq_some.1 h₁
  obtain rfl := upTo?_eq_some h₂
  refine ⟨'\x7b' :: '\x7b' :: (code ++ ['\x7d', '\x7d']), by simp, by simp, fun t ht => ?_⟩
  have hcode : Edited (renamed aliases) (some '\x7b') code (Rename.run aliases code) :=
    edited_run h code fun hb => absurd hb (by decide)
  have hrest : Edited (renamed aliases) (behind (some '\x7b') code)
      ('\x7d' :: '\x7d' :: rest) ('\x7d' :: '\x7d' :: t) := by
    refine .keep _ '\x7d' (.keep _ '\x7d' ?_)
    simpa using ht
  have hwhole := hcode.append (renamed_append (by decide) ('\x7d' :: rest)) hrest
  have hwhole := Edited.keep before '\x7b' (Edited.keep (some '\x7b') '\x7b' hwhole)
  simpa using hwhole

/-- A marker is found where the name of the runtime and a version stand. -/
theorem marker_eq_some_iff {before : Option Char} {s rest : List Char} {found : Unit} :
    marker before s = some (found, rest) ↔
      ∃ version, version ≠ [] ∧ (∀ c ∈ version, isVersionChar c = true) ∧
        followedBy isVersionChar rest = false ∧ s = "vue@".toList ++ (version ++ rest) := by
  unfold marker
  simp only [Option.bind_eq_bind, Option.bind_eq_some_iff]
  constructor
  · rintro ⟨s₁, h₁, ⟨version, s₂⟩, h₂, h₃⟩
    obtain ⟨rfl, hne, hversion, hrest⟩ := span1?_eq_some h₂
    cases h₃
    exact ⟨version, hne, hversion, hrest, after?_eq_some.1 h₁⟩
  · rintro ⟨version, hne, hversion, hrest, rfl⟩
    exact ⟨version ++ rest, after?_append _ _, (version, rest), span1?_append hne hversion hrest,
      rfl⟩

/-- Replacing markers is an edit. -/
theorem edited_replaceMarkers (p : Policy) (s : List Char) :
    Edited (marked p.runtimeMarker.toList) none s (p.replaceMarkers s) := by
  rw [replaceMarkers, replaceAll_eq]
  refine edited_scanFrom (fun _ => rfl) ?_ none s
  intro before s _ rest hfound
  obtain ⟨version, -, hversion, -, rfl⟩ := marker_eq_some_iff.1 hfound
  refine ⟨"vue@".toList ++ version, by simp, by simp, fun t ht => ?_⟩
  exact .swap before ⟨rfl, version, rfl, hversion⟩ ht

/-- A selector of a class is found where a point and the name of the class stand. -/
theorem selector_eq_some_iff {name : String} {before : Option Char} {s rest : List Char}
    {found : Unit} :
    selector name before s = some (found, rest) ↔
      followedBy isNameChar rest = false ∧ s = '.' :: name.toList ++ rest := by
  unfold selector
  simp only [Option.bind_eq_bind, Option.bind_eq_some_iff, after?_eq_some]
  constructor
  · rintro ⟨rest', rfl, hselector⟩
    split at hselector
    · cases hselector
    next hend =>
      cases hselector
      exact ⟨by simpa using hend, rfl⟩
  · rintro ⟨hrest, rfl⟩
    exact ⟨rest, rfl, by simp [hrest]⟩

/-- Replacing a class selector is an edit. -/
theorem edited_selector (name : String) (new s : List Char) :
    Edited (selected name new) none s (replaceAll (selector name) (fun _ => new) s) := by
  rw [replaceAll_eq]
  refine edited_scanFrom (fun _ => rfl) ?_ none s
  intro before s _ rest hfound
  obtain ⟨hend, rfl⟩ := selector_eq_some_iff.1 hfound
  refine ⟨'.' :: name.toList, by simp, rfl, fun t ht => ?_⟩
  exact .swap before ⟨rfl, rfl, hend⟩ ht

end Policy

namespace Markup

/-! ### Edits that start with known words -/

/-- Edits put something in the place of texts that start with one of the `leads`. -/
structure Led (leads : List String) (allowed : Edit) : Prop where
  lead : ∀ {before old new rest}, allowed before old new rest →
    ∃ n ∈ leads, startsWith n.toList (old ++ rest) = true
  ends : ∀ n ∈ leads, ∀ d ∈ wordEnds, d ∉ n.toList

/-- None of the `leads` starts inside of a word that a blank ends. -/
def Clear (leads : List String) (w : List Char) : Prop :=
  ∀ n ∈ leads, ∀ y ∈ (w ++ [' ']).tails, startsWith n.toList y = false

instance (leads : List String) (w : List Char) : Decidable (Clear leads w) :=
  inferInstanceAs (Decidable (∀ n ∈ leads, ∀ y ∈ (w ++ [' ']).tails,
    startsWith n.toList y = false))

variable {leads : List String} {allowed : Edit} {tidy : Prop}

/-- A clear word stays as it is. -/
theorem Led.word (hled : Led leads allowed) {w : List Char} (hw : Clear leads w) {d : Char}
    (hd : d ∈ wordEnds) {before : Option Char} {s u : List Char}
    (h : Edited allowed before (w ++ d :: s) u) :
    ∃ s', u = w ++ d :: s' ∧ Edited allowed (some d) s s' := by
  have hblank : ' ' ∈ wordEnds := by decide
  have h : Edited allowed before ((w ++ [d]) ++ s) u := by simpa using h
  -- What an edit starts with would have to start in the word or at its end.
  have hclear : ∀ a b, w ++ [d] = a ++ b → b ≠ [] → ∀ {before old new rest},
      allowed before old new rest → old ++ rest ≠ b ++ s := by
    intro a b hab hb before old new rest hold heq
    obtain ⟨n, hn, hstarts⟩ := hled.lead hold
    rcases List.eq_nil_or_concat b with rfl | ⟨y, e, rfl⟩
    · exact hb rfl
    · rw [List.concat_eq_append] at hab heq
      rw [← List.append_assoc] at hab
      obtain ⟨rfl, he⟩ := List.append_inj' hab rfl
      cases he
      have hsuffix : y ++ [' '] ∈ (a ++ y ++ [' ']).tails :=
        (List.mem_tails _ _).2 ⟨a, by simp⟩
      rw [heq, List.append_assoc, List.singleton_append,
        startsWith_append_stop (hled.ends n hn d hd) (hled.ends n hn ' ' hblank) y s [],
        hw n hn _ hsuffix] at hstarts
      cases hstarts
  obtain ⟨s', rfl, hs'⟩ := h.untouched fun a b hab hb => hclear a b hab hb
  exact ⟨s', by simp, by simpa using hs'⟩

/-- The variables of loops without the blank at the end. -/
def loopWords : List String :=
  ["item in", "row in", "message in", "option in", "gap in", "insight in", "domain in",
   "(step, index) in"]

/-- A loop keeps its variables. -/
theorem Led.loop (hled : Led leads allowed) (hclear : ∀ w ∈ loopWords, Clear leads w.toList)
    {head : String} (hhead : head ∈ loopHeads) {before : Option Char} {s t : List Char}
    (h : Edited allowed before (head.toList ++ s) t) :
    ∃ s', t = head.toList ++ s' ∧ Edited allowed (some ' ') s s' := by
  have hwords : ∀ head ∈ loopHeads, ∃ w ∈ loopWords, head.toList = w.toList ++ [' '] := by
    decide
  obtain ⟨w, hw, hsplit⟩ := hwords head hhead
  have h : Edited allowed before (w.toList ++ ' ' :: s) t := by simpa [hsplit] using h
  obtain ⟨s', rfl, hs'⟩ := hled.word (hclear w hw) (by decide) h
  exact ⟨s', by simp [hsplit], hs'⟩

/-- An equals sign at the end was there before. -/
theorem endsInEquals_of_edited
    (hnew : ∀ {before old new rest}, allowed before old new rest → '=' ∉ new ∧ inked new ≠ [])
    {before : Option Char} {s t : List Char} (h : Edited allowed before s t)
    (ht : EndsInEquals t) : EndsInEquals s := by
  have hinked : ∀ {x : List Char}, EndsInEquals x → inked x ≠ [] := by
    intro x hx hnil
    rw [endsInEquals_iff, hnil] at hx
    cases hx
  -- A text that is edited to white space is white space.
  have hblank : ∀ {before s t}, Edited allowed before s t → inked t = [] → inked s = [] := by
    intro before s t h
    induction h with
    | nil => exact id
    | keep before c h ih =>
      intro hc
      rw [← List.singleton_append, inked_append, List.append_eq_nil_iff] at hc ⊢
      exact ⟨hc.1, ih hc.2⟩
    | swap before hold h ih =>
      intro hc
      rw [inked_append, List.append_eq_nil_iff] at hc
      exact absurd hc.1 (hnew hold).2
  induction h with
  | nil => exact ht
  | @keep before c s t h ih =>
    rw [← List.singleton_append] at ht ⊢
    by_cases hrest : inked t = []
    · rw [endsInEquals_iff, inked_append, hrest] at ht
      rw [endsInEquals_iff, inked_append, hblank h hrest]
      exact ht
    · have hs := ih ((endsInEquals_append_iff hrest).1 ht)
      exact (endsInEquals_append_iff (hinked hs)).2 hs
  | @swap before old new s t hold h ih =>
    rcases endsInEquals_append ht with hends | hends
    · exact absurd hends (not_endsInEquals_of_not_mem (hnew hold).1)
    · have hs := ih hends
      exact (endsInEquals_append_iff (hinked hs)).2 hs

/-! ### The edits of the default policy -/

/-- Words of markup hold no alias of the default policy and no runtime marker. -/
theorem clear_fixedWords : ∀ w ∈ fixedWords ++ loopWords,
    Clear Policy.default.identifierAliases.keys w.toList ∧ Clear ["vue@"] w.toList := by
  decide +kernel

theorem regular_default : Rename.Regular Policy.default.identifierAliases := by
  decide

/-- Each renaming starts with an alias. -/
theorem led_renamed :
    Led Policy.default.identifierAliases.keys
      (Policy.renamed Policy.default.identifierAliases) where
  lead := by
    rintro before old new rest ⟨target, hget, -⟩
    refine ⟨String.ofList old, List.mem_map.2 ⟨_, Assoc.mem_of_get? hget, rfl⟩, ?_⟩
    rw [String.toList_ofList, startsWith, after?_append]
    rfl
  ends := by decide

/-- Each marker starts in the same way. -/
theorem led_marked (marker : List Char) : Led ["vue@"] (Policy.marked marker) where
  lead := by
    rintro before old new rest ⟨-, version, rfl, -⟩
    refine ⟨"vue@", List.mem_cons_self, ?_⟩
    rw [List.append_assoc, startsWith, after?_append]
    rfl
  ends := by decide

/-- Names of variables can stand in texts and values. -/
theorem plain_of_isIdent {name : List Char} (h : IsIdent name) :
    Plain name ∧ '=' ∉ name ∧ inked name ≠ [] := by
  have hchars : ∀ c ∈ ['<', '>', '"', '='], isIdentChar c = false := by decide
  have hother : ∀ c ∈ ['<', '>', '"', '='], c ∉ name := by
    intro c hc hmem
    have hident := h.chars c hmem
    rw [hchars c hc] at hident
    cases hident
  refine ⟨?_, hother '=' (by simp), ?_⟩
  · intro c hc
    refine ⟨?_, ?_, ?_⟩
    · rintro rfl
      exact hother '<' (by simp) hc
    · rintro rfl
      exact hother '>' (by simp) hc
    · rintro rfl
      exact hother '"' (by simp) hc
  · obtain ⟨c, x, rfl⟩ := List.exists_cons_of_ne_nil h.ne_nil
    have hinked : isBlank c = false := by
      rw [← Bool.not_eq_true]
      intro hblank
      have hident := h.chars c (by simp)
      rw [isIdentChar_of_isBlank hblank] at hident
      cases hident
    simp [inked, hinked]

theorem new_of_renamed {before : Option Char} {old new rest : List Char}
    (h : Policy.renamed Policy.default.identifierAliases before old new rest) : IsIdent new := by
  obtain ⟨target, hget, rfl, -⟩ := h
  exact (regular_default _ (Assoc.mem_of_get? hget)).2

/-- Renaming by the default aliases is a mild edit. -/
theorem mild_renamed : Mild (Policy.renamed Policy.default.identifierAliases) where
  plain h := (plain_of_isIdent (new_of_renamed h)).1
  delimiter := by
    intro d hd
    have hall : ∀ d ∈ ['<', '"'], isIdentChar d = false := by decide
    refine ⟨?_, ?_⟩
    · rintro before old new rest ⟨target, hget, -⟩ hmem
      have hident := (regular_default _ (Assoc.mem_of_get? hget)).1.chars d (by simpa using hmem)
      rw [hall d hd] at hident
      cases hident
    · rintro before old new s rest ⟨target, hget, hnew, hbefore, hrest⟩
      refine ⟨target, hget, hnew, hbefore, ?_⟩
      cases s with
      | nil => rfl
      | cons c s => exact hrest
  word := by
    intro w hw d hd before s u h
    exact led_renamed.word (clear_fixedWords w (List.mem_append_left _ hw)).1 hd h

theorem keeps_renamed (tidy : Prop) :
    Keeps tidy (Policy.renamed Policy.default.identifierAliases) := by
  refine keeps_of mild_renamed.plain ?_ ?_
  · intro _ before s t h
    exact endsInEquals_of_edited (fun hold => (plain_of_isIdent (new_of_renamed hold)).2) h
  · intro head hhead before s t h
    obtain ⟨s', ht, -⟩ := led_renamed.loop
      (fun w hw => (clear_fixedWords w (List.mem_append_right _ hw)).1) hhead h
    exact ⟨s', ht⟩

/-- Replacing markers by the default one is a mild edit. -/
theorem mild_marked : Mild (Policy.marked Policy.default.runtimeMarker.toList) where
  plain := by
    rintro before old new rest ⟨rfl, -⟩
    decide
  delimiter := by
    intro d hd
    have hall : ∀ d ∈ ['<', '"'], Policy.isVersionChar d = false ∧ d ∉ "vue@".toList := by decide
    refine ⟨?_, fun h => h⟩
    rintro before old new rest ⟨-, version, rfl, hversion⟩ hmem
    rcases List.mem_append.1 hmem with hmem | hmem
    · exact (hall d hd).2 hmem
    · have hchar := hversion d hmem
      rw [(hall d hd).1] at hchar
      cases hchar
  word := by
    intro w hw d hd before s u h
    exact (led_marked _).word (clear_fixedWords w (List.mem_append_left _ hw)).2 hd h

theorem keeps_marked : Keeps False (Policy.marked Policy.default.runtimeMarker.toList) := by
  refine keeps_of mild_marked.plain (fun h => h.elim) ?_
  intro head hhead before s t h
  obtain ⟨s', ht, -⟩ := (led_marked _).loop
    (fun w hw => (clear_fixedWords w (List.mem_append_right _ hw)).2) hhead h
  exact ⟨s', ht⟩

end Markup

end PageCompiler
