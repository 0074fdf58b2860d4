import PageCompiler.Proofs.Policy.Edits
import PageCompiler.Proofs.Text.Blank

/-!
# `PageCompiler.Proofs.Policy.Selectors`: replacing class selectors

A policy goes over a style once for each class alias, and each pass works on what the passes before
it left. `renameAtOnce` replaces the selectors of all aliases in a single walk. The two agree
(`renameSelectors_eq`), because a pass puts in selectors of classes that are no aliases, and it
changes no word behind a point that it leaves alone.

A style is read as points, each with the word behind it, and other characters in between
(`style_induction`). What becomes of a point depends on its word alone (`renameAtOnce_point`), and
all that is said about the passes follows from this equation.
-/

set_option autoImplicit false

namespace PageCompiler

open Text

/-! ### Templates without a backslash -/

/-- A template without a backslash stands for itself. -/
theorem Template.parse_of_not_mem {s : List Char} (h : '\\' ∉ s) :
    Template.parse s = .ok (s.map .char) := by
  have htokens : ∀ {s : List Char}, '\\' ∉ s → Template.tokens s = s.map .plain := by
    intro s hs
    induction s with
    | nil => rfl
    | cons c s ih =>
      obtain ⟨hc, hs⟩ := not_or.1 (mt List.mem_cons.2 hs)
      rw [List.map_cons, ← ih hs]
      exact Template.tokens.eq_4 c s (fun hc' => absurd hc'.symm hc)
        (fun d rest hc' => absurd hc'.symm hc)
  have hparts : ∀ (s : List Char) (fuel size position : Nat), s.length < fuel →
      Template.parts fuel size position (s.map .plain) = .ok (s.map .char) := by
    intro s
    induction s with
    | nil =>
      intro fuel size position hfuel
      cases fuel with
      | zero => omega
      | succ fuel => rfl
    | cons c s ih =>
      intro fuel size position hfuel
      cases fuel with
      | zero => omega
      | succ fuel =>
        have hrest := ih fuel size (position + 1) (by simpa using hfuel)
        rw [List.map_cons, Template.parts, hrest]
        · rfl
        · intro tail heq
          cases s with
          | nil => cases heq
          | cons d s => cases heq
  rw [Template.parse, htokens h]
  exact hparts s _ _ _ (Nat.lt_succ_self _)

namespace Policy

/-! ### Words behind points -/

/-- A style is made of points with the words behind them, and of other characters. -/
theorem style_induction {P : List Char → Prop} (nil : P [])
    (point : ∀ w s, (∀ c ∈ w, isNameChar c = true) → followedBy isNameChar s = false → P s →
      P ('.' :: (w ++ s)))
    (other : ∀ c s, c ≠ '.' → P s → P (c :: s)) (s : List Char) : P s := by
  induction hn : s.length using Nat.strongRecOn generalizing s with
  | ind n ih =>
    subst hn
    cases s with
    | nil => exact nil
    | cons c s =>
      -- A point goes with the word behind it, which may be empty.
      by_cases hc : c = '.'
      · obtain ⟨w, rest, rfl, hw, hrest⟩ := exists_run isNameChar s
        have hlength : rest.length < (c :: (w ++ rest)).length := by
          simp only [List.length_cons, List.length_append]
          omega
        rw [hc]
        exact point w rest hw hrest (ih _ hlength rest rfl)
      · exact other c s hc (ih _ (by simp) s rfl)

theorem point_not_mem {w : List Char} (hw : ∀ c ∈ w, isNameChar c = true) : '.' ∉ w :=
  fun hmem => absurd (hw _ hmem) (by decide)

theorem selector_of_ne {name : String} {c : Char} {s : List Char} (hc : c ≠ '.') :
    selector name none (c :: s) = none := by
  rw [selector, after?_cons_ne _ _ hc]
  rfl

/-- Behind a point stands the selector of the class that is the next word. -/
theorem selector_point {name : String} (hname : ∀ c ∈ name.toList, isNameChar c = true)
    {w s : List Char} (hw : ∀ c ∈ w, isNameChar c = true) (hs : followedBy isNameChar s = false) :
    selector name none ('.' :: (w ++ s)) = if w = name.toList then some ((), s) else none := by
  split
  next heq =>
    rw [heq]
    exact selector_eq_some_iff.2 ⟨hs, rfl⟩
  next hne =>
    rw [Option.eq_none_iff_forall_ne_some]
    rintro ⟨_, rest⟩ hfound
    obtain ⟨hend, hsplit⟩ := selector_eq_some_iff.1 hfound
    have hsplit : w ++ s = name.toList ++ rest := (List.cons.inj hsplit).2
    have hsame := congrArg (List.takeWhile isNameChar) hsplit
    rw [takeWhile_run hw hs, takeWhile_run hname hend] at hsame
    exact hne hsame

theorem selector_point_iff {name : String} (hname : ∀ c ∈ name.toList, isNameChar c = true)
    {s : List Char} :
    selector name none ('.' :: s) = none ↔ s.takeWhile isNameChar ≠ name.toList := by
  obtain ⟨w, rest, rfl, hw, hrest⟩ := exists_run isNameChar s
  rw [selector_point hname hw hrest, takeWhile_run hw hrest]
  simp

/-! ### Texts without a selector -/

/-- No selector of a class stands in a style. -/
def FreeOf (name : String) (s : List Char) : Prop :=
  ∀ v, v <:+ s → selector name none v = none

theorem FreeOf.of_suffix {name : String} {s v : List Char} (h : FreeOf name s) (hv : v <:+ s) :
    FreeOf name v :=
  fun u hu => h u (hu.trans hv)

theorem freeOf_nil (name : String) : FreeOf name [] := by
  intro v hv
  rw [List.suffix_nil.1 hv]
  rfl

theorem freeOf_cons {name : String} {c : Char} {s : List Char} :
    FreeOf name (c :: s) ↔ selector name none (c :: s) = none ∧ FreeOf name s := by
  constructor
  · intro h
    exact ⟨h _ List.suffix_rfl, h.of_suffix (List.suffix_cons c s)⟩
  · rintro ⟨hc, hs⟩ v hv
    rcases List.suffix_cons_iff.1 hv with rfl | hv
    · exact hc
    · exact hs v hv

/-- Texts without a point hold no selector. -/
theorem FreeOf.append_left {name : String} {x s : List Char} (h : FreeOf name s)
    (hx : '.' ∉ x) : FreeOf name (x ++ s) := by
  induction x with
  | nil => exact h
  | cons c x ih =>
    obtain ⟨hc, hx⟩ := not_or.1 (mt List.mem_cons.2 hx)
    exact freeOf_cons.2 ⟨selector_of_ne (Ne.symm hc), ih hx⟩

theorem freeOf_point {name : String} (hname : ∀ c ∈ name.toList, isNameChar c = true)
    {w s : List Char} (hw : ∀ c ∈ w, isNameChar c = true) (hs : followedBy isNameChar s = false) :
    FreeOf name ('.' :: (w ++ s)) ↔ w ≠ name.toList ∧ FreeOf name s := by
  rw [freeOf_cons, selector_point_iff hname, takeWhile_run hw hs]
  constructor
  · rintro ⟨hne, hfree⟩
    exact ⟨hne, hfree.of_suffix (List.suffix_append w s)⟩
  · rintro ⟨hne, hfree⟩
    exact ⟨hne, hfree.append_left (point_not_mem hw)⟩

/-- Selectors of other classes hold no selector of a class. -/
theorem FreeOf.append_selectors {name : String} (hname : ∀ c ∈ name.toList, isNameChar c = true)
    {tokens : List (List Char)} (hne : tokens ≠ [])
    (htokens : ∀ token ∈ tokens, (∀ c ∈ token, isNameChar c = true) ∧ token ≠ name.toList)
    {s : List Char} (h : FreeOf name s) (hs : followedBy isNameChar s = false) :
    FreeOf name ('.' :: ['.'].intercalate tokens ++ s) := by
  induction tokens with
  | nil => exact absurd rfl hne
  | cons token tokens ih =>
    obtain ⟨⟨hchars, hother⟩, hrest⟩ := List.forall_mem_cons.1 htokens
    cases tokens with
    | nil =>
      rw [List.intercalate_singleton]
      exact (freeOf_point hname hchars hs).2 ⟨hother, h⟩
    | cons next tokens =>
      rw [List.intercalate_cons_cons, List.append_assoc, List.singleton_append, List.cons_append,
        List.append_assoc]
      refine (freeOf_point hname hchars ?_).2 ⟨hother, ih (by simp) hrest⟩
      show isNameChar '.' = false
      decide

/-! ### All aliases at once -/

/-- Aliases of classes, and the classes that replace them, are made of characters of names. -/
def ClassNames (aliases : Assoc String) : Prop :=
  ∀ e ∈ aliases, (∀ c ∈ e.1.toList, isNameChar c = true) ∧
    ∀ token ∈ fields e.2.toList, ∀ c ∈ token, isNameChar c = true

instance (aliases : Assoc String) : Decidable (ClassNames aliases) :=
  inferInstanceAs (Decidable (∀ e ∈ aliases, (∀ c ∈ e.1.toList, isNameChar c = true) ∧
    ∀ token ∈ fields e.2.toList, ∀ c ∈ token, isNameChar c = true))

/-- Every alias stands for some classes, and none of these is an alias again. -/
def Resolved (aliases : Assoc String) : Prop :=
  ∀ e ∈ aliases, fields e.2.toList ≠ [] ∧
    ∀ token ∈ fields e.2.toList, Assoc.has aliases (String.ofList token) = false

instance (aliases : Assoc String) : Decidable (Resolved aliases) :=
  inferInstanceAs (Decidable (∀ e ∈ aliases, fields e.2.toList ≠ [] ∧
    ∀ token ∈ fields e.2.toList, Assoc.has aliases (String.ofList token) = false))

theorem ClassNames.perm {aliases aliases' : Assoc String} (h : ClassNames aliases)
    (hperm : aliases'.Perm aliases) : ClassNames aliases' :=
  fun e he => h e (hperm.mem_iff.1 he)

theorem Resolved.perm {aliases aliases' : Assoc String} (h : Resolved aliases)
    (hperm : aliases'.Perm aliases) : Resolved aliases' := by
  intro e he
  obtain ⟨hne, htokens⟩ := h e (hperm.mem_iff.1 he)
  exact ⟨hne, fun token htoken => hperm.any_eq.trans (htokens token htoken)⟩

/-- What is no alias of a table is none of the rest of it. -/
theorem not_has_of_cons {e : String × String} {aliases : Assoc String} {key : String}
    (h : Assoc.has (e :: aliases) key = false) : Assoc.has aliases key = false := by
  rw [Assoc.has, List.any_cons, Bool.or_eq_false_iff] at h
  exact h.2

theorem Resolved.tail {e : String × String} {aliases : Assoc String}
    (h : Resolved (e :: aliases)) : Resolved aliases := by
  intro e' he'
  obtain ⟨hne, htokens⟩ := h e' (List.mem_cons_of_mem e he')
  exact ⟨hne, fun token htoken => not_has_of_cons (htokens token htoken)⟩

/-- What is put in the place of an alias of a class: selectors of its classes. -/
def targetSelector (target : String) : List Char :=
  '.' :: ['.'].intercalate (fields target.toList)

/-- The selector of an alias that is not the start of a longer one, and what the alias stands
for. -/
def anySelector (aliases : Assoc String) : Recogniser String := fun before s =>
  aliases.findSome? fun e => mapFound (fun _ => e.2) (selector e.1) before s

/-- A style with the selectors of all aliases replaced in one walk. -/
def renameAtOnce (aliases : Assoc String) (style : List Char) : List Char :=
  replaceAll (anySelector aliases) targetSelector style

/-- What becomes of a point and the word behind it. -/
def selectorText (aliases : Assoc String) (w : List Char) : List Char :=
  match Assoc.get? aliases (String.ofList w) with
  | some target => targetSelector target
  | none => '.' :: w

section AtOnce

variable {aliases : Assoc String}

/-- A class in a selector is replaced as a whole name. -/
theorem anySelector_point (h : ClassNames aliases) {w s : List Char}
    (hw : ∀ c ∈ w, isNameChar c = true) (hs : followedBy isNameChar s = false) :
    anySelector aliases none ('.' :: (w ++ s)) =
      (Assoc.get? aliases (String.ofList w)).map fun target => (target, s) := by
  unfold anySelector
  induction aliases with
  | nil => rfl
  | cons e aliases ih =>
    obtain ⟨hfirst, hrest⟩ := List.forall_mem_cons.1 h
    have hkey : w = e.1.toList ↔ e.1 = String.ofList w := by
      rw [String.ext_iff, String.toList_ofList, eq_comm]
    rw [List.findSome?_cons, ih hrest, mapFound, selector_point hfirst.1 hw hs, Assoc.get?_cons]
    by_cases heq : e.1 = String.ofList w
    · rw [if_pos (hkey.2 heq), if_pos heq]
      rfl
    · rw [if_neg (mt hkey.1 heq), if_neg heq]
      rfl

/-- A class in a selector starts with a point. -/
theorem anySelector_other {c : Char} (hc : c ≠ '.') (s : List Char) :
    anySelector aliases none (c :: s) = none := by
  unfold anySelector
  rw [List.findSome?_eq_none_iff]
  intro e _
  rw [mapFound, selector_of_ne hc]
  rfl

/-- No alias is looked for behind a character of its own. -/
theorem anySelector_behind (before before' : Option Char) (s : List Char) :
    anySelector aliases before s = anySelector aliases before' s := rfl

@[simp] theorem renameAtOnce_nil : renameAtOnce aliases [] = [] := by
  have hnone : anySelector aliases none [] = none := by
    unfold anySelector
    rw [List.findSome?_eq_none_iff]
    intro e _
    rfl
  rw [renameAtOnce, replaceAll_eq, scanFrom_nil hnone]

theorem renameAtOnce_other {c : Char} (hc : c ≠ '.') (s : List Char) :
    renameAtOnce aliases (c :: s) = c :: renameAtOnce aliases s :=
  replaceAll_plain anySelector_behind (anySelector_other hc s)

/-- Words without a point in front stay. -/
theorem renameAtOnce_word {w : List Char} (hw : '.' ∉ w) (s : List Char) :
    renameAtOnce aliases (w ++ s) = w ++ renameAtOnce aliases s := by
  induction w with
  | nil => rfl
  | cons c w ih =>
    obtain ⟨hc, hw⟩ := not_or.1 (mt List.mem_cons.2 hw)
    rw [List.cons_append, renameAtOnce_other (Ne.symm hc), ih hw]
    rfl

/-- What becomes of a point depends on the word behind it alone. -/
theorem renameAtOnce_point (h : ClassNames aliases) {w s : List Char}
    (hw : ∀ c ∈ w, isNameChar c = true) (hs : followedBy isNameChar s = false) :
    renameAtOnce aliases ('.' :: (w ++ s)) = selectorText aliases w ++ renameAtOnce aliases s := by
  have hfound := anySelector_point h hw hs
  rw [selectorText]
  cases hget : Assoc.get? aliases (String.ofList w) with
  | some target =>
    rw [hget] at hfound
    exact @replaceAll_found _ _ anySelector_behind _ target ('.' :: w) s (by simp) hfound
  | none =>
    rw [hget] at hfound
    rw [renameAtOnce, replaceAll_plain anySelector_behind hfound]
    exact congrArg ('.' :: ·) (renameAtOnce_word (point_not_mem hw) s)

/-- A word starts in the new style where one starts in the old. -/
theorem followedBy_renameAtOnce (h : ClassNames aliases) (s : List Char) :
    followedBy isNameChar (renameAtOnce aliases s) = followedBy isNameChar s := by
  induction s using style_induction with
  | nil => rw [renameAtOnce_nil]
  | point w s hw hs ih =>
    rw [renameAtOnce_point h hw hs, selectorText]
    cases Assoc.get? aliases (String.ofList w) with
    | some target => rfl
    | none => rfl
  | other c s hc ih =>
    rw [renameAtOnce_other hc]
    rfl

theorem selectorText_of_not_has {w : List Char}
    (hw : Assoc.has aliases (String.ofList w) = false) : selectorText aliases w = '.' :: w := by
  rw [selectorText, Assoc.get?_eq_none_iff.2 hw]

/-- Selectors of classes that are no aliases stay. -/
theorem renameAtOnce_selectors (h : ClassNames aliases) {tokens : List (List Char)}
    (hne : tokens ≠ [])
    (htokens : ∀ token ∈ tokens, (∀ c ∈ token, isNameChar c = true) ∧
      Assoc.has aliases (String.ofList token) = false)
    {s : List Char} (hs : followedBy isNameChar s = false) :
    renameAtOnce aliases ('.' :: ['.'].intercalate tokens ++ s) =
      '.' :: ['.'].intercalate tokens ++ renameAtOnce aliases s := by
  induction tokens with
  | nil => exact absurd rfl hne
  | cons token tokens ih =>
    obtain ⟨⟨hchars, hnot⟩, hrest⟩ := List.forall_mem_cons.1 htokens
    cases tokens with
    | nil =>
      rw [List.intercalate_singleton, List.cons_append, renameAtOnce_point h hchars hs,
        selectorText_of_not_has hnot]
    | cons next tokens =>
      have hpoint :
          followedBy isNameChar ('.' :: ['.'].intercalate (next :: tokens) ++ s) = false :=
        (by decide : isNameChar '.' = false)
      have hsplit : ∀ u : List Char, '.' :: ['.'].intercalate (token :: next :: tokens) ++ u =
          '.' :: (token ++ ('.' :: ['.'].intercalate (next :: tokens) ++ u)) := by
        intro u
        rw [List.intercalate_cons_cons]
        simp
      rw [hsplit, hsplit, renameAtOnce_point h hchars hpoint, selectorText_of_not_has hnot,
        ih (by simp) hrest]
      rfl

/-- A table without entries replaces nothing. -/
theorem renameAtOnce_empty (s : List Char) : renameAtOnce [] s = s := by
  have h : ClassNames [] := by simp [ClassNames]
  induction s using style_induction with
  | nil => rw [renameAtOnce_nil]
  | point w s hw hs ih =>
    rw [renameAtOnce_point h hw hs, ih, selectorText_of_not_has rfl]
    rfl
  | other c s hc ih => rw [renameAtOnce_other hc, ih]

/-- A pass for one alias and a walk for others is one walk, if the others take nothing of what the
pass puts in. -/
theorem renameAtOnce_cons {e : String × String} (h : ClassNames (e :: aliases))
    (hne : fields e.2.toList ≠ [])
    (htokens : ∀ token ∈ fields e.2.toList, Assoc.has aliases (String.ofList token) = false)
    (s : List Char) :
    renameAtOnce aliases (renameAtOnce [e] s) = renameAtOnce (e :: aliases) s := by
  obtain ⟨hfirst, hrest⟩ := List.forall_mem_cons.1 h
  have hone : ClassNames [e] := by
    intro e' he'
    rw [List.mem_singleton.1 he']
    exact hfirst
  induction s using style_induction with
  | nil => simp
  | point w s hw hs ih =>
    have hend : followedBy isNameChar (renameAtOnce [e] s) = false := by
      rw [followedBy_renameAtOnce hone, hs]
    rw [renameAtOnce_point hone hw hs, renameAtOnce_point h hw hs, ← ih]
    by_cases heq : e.1 = String.ofList w
    · -- The pass takes this point, and the walk leaves what the pass puts in.
      have htext : ∀ l : Assoc String, selectorText (e :: l) w = targetSelector e.2 := by
        intro l
        rw [selectorText, Assoc.get?_cons, if_pos heq]
      rw [htext, htext, targetSelector]
      exact renameAtOnce_selectors hrest hne
        (fun token htoken => ⟨hfirst.2 token htoken, htokens token htoken⟩) hend
    · -- The pass leaves this point, and the walk finds the same word behind it.
      have htext : ∀ l : Assoc String, selectorText (e :: l) w = selectorText l w := by
        intro l
        rw [selectorText, selectorText, Assoc.get?_cons, if_neg heq]
      rw [htext, htext, selectorText_of_not_has rfl, List.cons_append,
        renameAtOnce_point hrest hw hend]
  | other c s hc ih => rw [renameAtOnce_other hc, renameAtOnce_other hc, renameAtOnce_other hc, ih]

/-- The walk leaves no selector of an alias. -/
theorem freeOf_renameAtOnce (h : ClassNames aliases) (hresolved : Resolved aliases)
    {e : String × String} (he : e ∈ aliases) (s : List Char) :
    FreeOf e.1 (renameAtOnce aliases s) := by
  have hname := (h e he).1
  have hhas : Assoc.has aliases e.1 = true := Assoc.has_iff.2 (List.mem_map_of_mem he)
  -- What is no alias is not this one.
  have hother :
      ∀ {w : List Char}, Assoc.has aliases (String.ofList w) = false → w ≠ e.1.toList := by
    rintro w hw rfl
    rw [String.ofList_toList, hhas] at hw
    cases hw
  induction s using style_induction with
  | nil =>
    rw [renameAtOnce_nil]
    exact freeOf_nil e.1
  | point w s hw hs ih =>
    have hend : followedBy isNameChar (renameAtOnce aliases s) = false := by
      rw [followedBy_renameAtOnce h, hs]
    rw [renameAtOnce_point h hw hs]
    cases hget : Assoc.get? aliases (String.ofList w) with
    | some target =>
      have hmem := Assoc.mem_of_get? hget
      obtain ⟨hne, htokens⟩ := hresolved _ hmem
      rw [selectorText, hget]
      refine FreeOf.append_selectors hname hne (fun token htoken => ?_) ih hend
      exact ⟨(h _ hmem).2 token htoken, hother (htokens token htoken)⟩
    | none =>
      have hnot := Assoc.get?_eq_none_iff.1 hget
      rw [selectorText_of_not_has hnot]
      exact (freeOf_point hname hw hend).2 ⟨hother hnot, ih⟩
  | other c s hc ih =>
    rw [renameAtOnce_other hc]
    exact freeOf_cons.2 ⟨selector_of_ne hc, ih⟩

/-- The walk changes nothing where no selector of an alias stands. -/
theorem renameAtOnce_of_freeOf (h : ClassNames aliases) {s : List Char}
    (hfree : ∀ e ∈ aliases, FreeOf e.1 s) : renameAtOnce aliases s = s := by
  induction s using style_induction with
  | nil => rw [renameAtOnce_nil]
  | point w s hw hs ih =>
    have hword : ∀ e ∈ aliases, w ≠ e.1.toList ∧ FreeOf e.1 s := fun e he =>
      (freeOf_point (h e he).1 hw hs).1 (hfree e he)
    have hnot : Assoc.has aliases (String.ofList w) = false := by
      rw [← Bool.not_eq_true, Assoc.has_iff]
      intro hmem
      obtain ⟨e, he, heq⟩ := List.mem_map.1 hmem
      exact (hword e he).1 (by rw [heq, String.toList_ofList])
    rw [renameAtOnce_point h hw hs, selectorText_of_not_has hnot, ih fun e he => (hword e he).2]
    rfl
  | other c s hc ih =>
    rw [renameAtOnce_other hc, ih fun e he => (freeOf_cons.1 (hfree e he)).2]

/-- The order of the aliases plays no part if none is repeated. -/
theorem renameAtOnce_perm {aliases' : Assoc String} (h : ClassNames aliases)
    (hnodup : aliases.keys.Nodup) (hperm : aliases'.Perm aliases) (s : List Char) :
    renameAtOnce aliases' s = renameAtOnce aliases s := by
  have h' := h.perm hperm
  induction s using style_induction with
  | nil => rw [renameAtOnce_nil, renameAtOnce_nil]
  | point w s hw hs ih =>
    rw [renameAtOnce_point h' hw hs, renameAtOnce_point h hw hs, ih, selectorText, selectorText,
      Assoc.get?_perm hperm hnodup]
  | other c s hc ih => rw [renameAtOnce_other hc, renameAtOnce_other hc, ih]

end AtOnce

/-! ### One alias after another -/

/-- An alias of plain names is replaced by the selectors of its classes. -/
theorem renameSelector_eq {e : String × String}
    (he : ∀ token ∈ fields e.2.toList, ∀ c ∈ token, isNameChar c = true) (style : List Char) :
    renameSelector style e.1 e.2 = .ok (renameAtOnce [e] style) := by
  -- Names hold no backslash, so the target is a template that stands for itself.
  have hplain : '\\' ∉ targetSelector e.2 := by
    intro hmem
    rcases List.mem_cons.1 hmem with hmem | hmem
    · cases hmem
    · refine forall_mem_intercalate (P := (· ≠ '\\')) (by decide) ?_ _ hmem rfl
      rintro token htoken c hc rfl
      exact absurd (he token htoken _ hc) (by decide)
  have hfill : Template.fill ('.' :: e.1.toList) ((targetSelector e.2).map .char) =
      targetSelector e.2 := by
    rw [Template.fill, List.flatMap_map]
    exact List.flatMap_singleton' _
  have hone : anySelector [e] = mapFound (fun _ => e.2) (selector e.1) := by
    funext before s
    rw [anySelector, List.findSome?_cons]
    cases mapFound (fun _ => e.2) (selector e.1) before s with
    | none => rfl
    | some found => rfl
  rw [renameAtOnce, hone, replaceAll_mapFound, renameSelector]
  show (Template.parse (targetSelector e.2)).bind _ = _
  rw [Template.parse_of_not_mem hplain]
  show Except.ok _ = _
  rw [hfill]

/-- Replacing one alias after another is one walk. -/
theorem foldlM_renameSelector {aliases : Assoc String} (h : ClassNames aliases)
    (hresolved : Resolved aliases) (style : List Char) :
    aliases.foldlM (fun style entry => renameSelector style entry.1 entry.2) style =
      .ok (renameAtOnce aliases style) := by
  induction aliases generalizing style with
  | nil =>
    rw [renameAtOnce_empty]
    rfl
  | cons e aliases ih =>
    obtain ⟨hfirst, hrest⟩ := List.forall_mem_cons.1 h
    obtain ⟨⟨hne, htokens⟩, -⟩ := List.forall_mem_cons.1 hresolved
    have hothers : ∀ token ∈ fields e.2.toList, Assoc.has aliases (String.ofList token) = false :=
      fun token htoken => not_has_of_cons (htokens token htoken)
    rw [List.foldlM_cons, renameSelector_eq hfirst.2]
    show aliases.foldlM (fun style entry => renameSelector style entry.1 entry.2)
      (renameAtOnce [e] style) = _
    rw [ih hrest hresolved.tail, renameAtOnce_cons h hne hothers]

theorem renameSelectors_eq {p : Policy} (h : ClassNames p.classAliases)
    (hresolved : Resolved p.classAliases) (style : List Char) :
    p.renameSelectors style = .ok (renameAtOnce p.classAliases style) :=
  foldlM_renameSelector h hresolved style

/-- Replacing the selectors of aliases one alias after another succeeds and gives the same style as
replacing all of them at once. The order of the aliases plays no part, no selector of an alias is
left, and a second application changes nothing. -/
theorem renameSelectors_confluent (p : Policy) (hnames : ClassNames p.classAliases)
    (hresolved : Resolved p.classAliases) (style : List Char) :
    ∃ renamed, p.renameSelectors style = .ok renamed ∧
      renamed = replaceAll (anySelector p.classAliases) targetSelector style ∧
      (p.classAliases.keys.Nodup → ∀ q : Policy, q.classAliases.Perm p.classAliases →
        q.renameSelectors style = .ok renamed) ∧
      (∀ e ∈ p.classAliases, FreeOf e.1 renamed) ∧ p.renameSelectors renamed = .ok renamed := by
  have hfree : ∀ e ∈ p.classAliases, FreeOf e.1 (renameAtOnce p.classAliases style) :=
    fun e he => freeOf_renameAtOnce hnames hresolved he style
  refine ⟨_, renameSelectors_eq hnames hresolved style, rfl, ?_, hfree, ?_⟩
  · intro hnodup q hperm
    rw [renameSelectors_eq (hnames.perm hperm) (hresolved.perm hperm),
      renameAtOnce_perm hnames hnodup hperm]
  · rw [renameSelectors_eq hnames hresolved, renameAtOnce_of_freeOf hnames hfree]

/-- Aliases of which one starts as another does, with a target that starts so too. -/
def overlappingClasses : Policy :=
  { Policy.default with classAliases := [("btn", "btn-base round"), ("btn-lg", "large")] }

/-- Both aliases are replaced, in either order. -/
theorem renameSelectors_confluent_overlapping :
    ClassNames overlappingClasses.classAliases ∧ Resolved overlappingClasses.classAliases ∧
      ∃ renamed, overlappingClasses.renameSelectors "a.btn.btn-lg:hover .btn-lgs, .btn".toList =
          .ok renamed ∧
        renamed = "a.btn-base.round.large:hover .btn-lgs, .btn-base.round".toList ∧
        ({ overlappingClasses with classAliases := overlappingClasses.classAliases.reverse } :
            Policy).renameSelectors "a.btn.btn-lg:hover .btn-lgs, .btn".toList = .ok renamed ∧
        overlappingClasses.renameSelectors renamed = .ok renamed := by
  have hnames : ClassNames overlappingClasses.classAliases := by decide
  have hresolved : Resolved overlappingClasses.classAliases := by decide
  obtain ⟨renamed, hrenamed, hwalk, horder, -, hagain⟩ := renameSelectors_confluent
    overlappingClasses hnames hresolved "a.btn.btn-lg:hover .btn-lgs, .btn".toList
  refine ⟨hnames, hresolved, renamed, hrenamed, ?_, ?_, hagain⟩
  · rw [hwalk]
    decide +kernel
  · exact horder (by decide) _ (List.reverse_perm _)

end Policy

end PageCompiler
