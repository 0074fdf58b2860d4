import PageCompiler.Proofs.Artifact.Captures
import PageCompiler.Proofs.Policy.Edits
import PageCompiler.Proofs.Policy.Merging
import PageCompiler.Proofs.Text.Blank

/-!
# `PageCompiler.Proofs.Policy.References`: what markup refers to under canonical names

The default policy changes rendered markup in four passes: it renames in directive values, between
double braces and in class attributes, and it replaces runtime markers. `exists_of_mem_referred`
says what this does to the names that the markup refers to: each of them is the canonical form of a
name that the markup referred to before. The passes are followed value by value.
-/

set_option autoImplicit false

namespace PageCompiler

open Text Markup Directive

/-! ### Names in edited values -/

/-- Edits that put in texts which start neither with white space nor with a parenthesis. -/
def Inky (allowed : Edit) : Prop :=
  ∀ before old new rest, allowed before old new rest → followedBy isWordy new = true

namespace Inky

variable {allowed : Edit} (h : Inky allowed) {before : Option Char}

include h

/-- White space in an edited text was there before. -/
theorem gap {gap s t : List Char} (hgap : ∀ c ∈ gap, isBlank c = true)
    (hs : Edited allowed before s (gap ++ t)) :
    ∃ s', s = gap ++ s' ∧ Edited allowed (behind before gap) s' t := by
  refine hs.untouched_new ?_
  intro a b hab hb old new rest rest' hold heq
  have hstart := h _ _ _ _ hold
  obtain ⟨c, x, rfl⟩ := List.exists_cons_of_ne_nil hb
  cases new with
  | nil => cases hstart
  | cons d new =>
    obtain ⟨rfl, -⟩ := List.cons.inj heq
    have hblank : isBlank d = true := hgap d (by simp [hab])
    rw [isBlank_of_isWordy hstart] at hblank
    cases hblank

/-- What may follow a name was there before. -/
theorem closes {called : Bool} {s t : List Char} (hs : Edited allowed before s t)
    (ht : Closes called t) : Closes called s := by
  rcases ht with rfl | ⟨hcalled, u, rfl⟩
  · left
    generalize ht : [] = t at hs
    cases hs with
    | nil => rfl
    | keep => cases ht
    | swap _ hold =>
      have hstart := h _ _ _ _ hold
      rw [(List.append_eq_nil_iff.1 ht.symm).1] at hstart
      cases hstart
  · right
    refine ⟨hcalled, ?_⟩
    generalize ht : '(' :: u = t at hs
    cases hs with
    | nil => cases ht
    | @keep _ c s t hs =>
      obtain ⟨rfl, -⟩ := List.cons.inj ht
      exact ⟨s, rfl⟩
    | @swap _ old new s t hold hs =>
      have hstart := h _ _ _ _ hold
      cases new with
      | nil => cases hstart
      | cons c new =>
        obtain ⟨rfl, -⟩ := List.cons.inj ht
        rw [followedBy_cons] at hstart
        exact absurd hstart (by decide)

end Inky

theorem isWordy_of_isIdentChar {c : Char} (h : isIdentChar c = true) : isWordy c = true := by
  rw [isIdentChar, Bool.or_eq_true, beq_iff_eq] at h
  rcases h with h | rfl
  · exact isWordy_of_isWord h
  · decide

namespace Policy

section Marked

variable {mark : List Char} (hinky : followedBy isWordy mark = true) (hmark : '@' ∈ mark)
  (hcall : '(' ∉ mark)

include hinky in
theorem inky_marked : Inky (marked mark) := by
  rintro before old new rest ⟨rfl, -⟩
  exact hinky

include hinky hmark hcall in
/-- The name of a value holds no marker. -/
theorem valueName?_marked {called : Bool} {before : Option Char} {s t name : List Char}
    (h : Edited (marked mark) before s t) (ht : valueName? called t = some name) :
    valueName? called s = some name := by
  obtain ⟨gap, gap', tail, rfl, hgap, hname, hgap', htail⟩ := valueName?_eq_some.1 ht
  have hat : ∀ {x : List Char}, (∀ c ∈ x, isIdentChar c = true ∨ isBlank c = true) → '@' ∉ x := by
    intro x hx hmem
    rcases hx _ hmem with hident | hblank
    · exact absurd hident (by decide)
    · exact absurd hblank (by decide)
  obtain ⟨s₁, rfl, h₁⟩ := (inky_marked hinky).gap hgap h
  -- A marker that starts in the name would have to go beyond what follows the name.
  have hclear : ∀ a b, name = a ++ b → b ≠ [] → ∀ {before old new rest rest'},
      marked mark before old new rest → new ++ rest' ≠ b ++ (gap' ++ tail) := by
    rintro a b hab hb before old new rest rest' ⟨rfl, -⟩ heq
    have hfront : '@' ∉ b ++ gap' := by
      refine hat fun c hc => ?_
      rcases List.mem_append.1 hc with hc | hc
      · exact .inl (hname.chars c (by simp [hab, hc]))
      · exact .inr (hgap' c hc)
    rw [← List.append_assoc] at heq
    rcases List.append_eq_append_iff.1 heq with ⟨z, hz, -⟩ | ⟨z, hz, hrest⟩
    · exact hfront (hz ▸ List.mem_append_left z hmark)
    · rw [hz] at hmark hcall
      rcases htail with rfl | ⟨-, u, rfl⟩
      · rw [(List.append_eq_nil_iff.1 hrest.symm).1, List.append_nil] at hmark
        exact hfront hmark
      · cases z with
        | nil =>
          rw [List.append_nil] at hmark
          exact hfront hmark
        | cons c z =>
          obtain ⟨rfl, -⟩ := List.cons.inj hrest
          exact hcall (by simp)
  obtain ⟨s₂, rfl, h₂⟩ := h₁.untouched_new fun a b hab hb => hclear a b hab hb
  obtain ⟨s₃, rfl, h₃⟩ := (inky_marked hinky).gap hgap' h₂
  exact valueName?_eq_some.2
    ⟨gap, gap', s₃, rfl, hgap, hname, hgap', (inky_marked hinky).closes h₃ htail⟩

end Marked

section Renamed

variable {aliases : Assoc String} (h : Rename.Regular aliases)

include h

theorem inky_renamed : Inky (renamed aliases) := by
  rintro before old new rest ⟨target, hget, rfl, -⟩
  have htarget := (h _ (Assoc.mem_of_get? hget)).2
  obtain ⟨c, x, hc⟩ := List.exists_cons_of_ne_nil htarget.ne_nil
  rw [hc]
  exact isWordy_of_isIdentChar (htarget.chars c (by simp [hc]))

omit h in
/-- Inside of a word nothing is renamed. -/
theorem renamed_inside {b : Char} (hb : isIdentChar b = true) {x s t : List Char}
    (hx : ∀ c ∈ x, isIdentChar c = true) (hs : Edited (renamed aliases) (some b) s (x ++ t)) :
    ∃ s' b', s = x ++ s' ∧ isIdentChar b' = true ∧ Edited (renamed aliases) (some b') s' t := by
  induction x generalizing b s with
  | nil => exact ⟨s, b, rfl, hb, hs⟩
  | cons c x ih =>
    obtain ⟨hc, hx⟩ := List.forall_mem_cons.1 hx
    generalize ht : c :: x ++ t = u at hs
    cases hs with
    | nil => cases ht
    | keep _ c' hs =>
      obtain ⟨rfl, rfl⟩ := List.cons.inj ht
      obtain ⟨s', b', rfl, hb', hs'⟩ := ih hc hx hs
      exact ⟨s', b', rfl, hb', hs'⟩
    | swap _ hold =>
      obtain ⟨-, -, -, hbefore, -⟩ := hold
      rw [precededBy, hb] at hbefore
      cases hbefore

/-- Where no word goes on, none went on before, and the other way around. -/
theorem followedBy_renamed {before : Option Char} {s t : List Char}
    (hs : Edited (renamed aliases) before s t)
    (hend : precededBy isIdentChar before = true ∧ followedBy isIdentChar t = false ∨
      followedBy isIdentChar s = false) :
    followedBy isIdentChar s = false ∧ followedBy isIdentChar t = false := by
  cases hs with
  | nil => exact ⟨rfl, rfl⟩
  | keep _ c hs =>
    rcases hend with ⟨-, hend⟩ | hend
    · exact ⟨hend, hend⟩
    · exact ⟨hend, hend⟩
  | @swap _ old new s t hold hs =>
    obtain ⟨target, hget, rfl, hbefore, -⟩ := hold
    rcases hend with ⟨hend, -⟩ | hend
    · rw [hbefore] at hend
      cases hend
    · have hold := (h _ (Assoc.mem_of_get? hget)).1
      rw [String.toList_ofList] at hold
      obtain ⟨c, x, rfl⟩ := List.exists_cons_of_ne_nil hold.ne_nil
      have hc := hold.chars c (by simp)
      rw [List.cons_append, followedBy_cons, hc] at hend
      cases hend

/-- A word of a renamed text comes from one word. -/
theorem renamed_word {before : Option Char} {s t name : List Char} (hname : IsIdent name)
    (ht : followedBy isIdentChar t = false) (hs : Edited (renamed aliases) before s (name ++ t)) :
    ∃ old s', s = old ++ s' ∧ IsIdent old ∧ (∃ b, Edited (renamed aliases) b s' t) ∧
      (old = name ∨ Assoc.get? aliases (String.ofList old) = some (String.ofList name)) := by
  obtain ⟨c, x, rfl⟩ := List.exists_cons_of_ne_nil hname.ne_nil
  obtain ⟨hc, hx⟩ := List.forall_mem_cons.1 hname.chars
  generalize hu : c :: x ++ t = u at hs
  cases hs with
  | nil => cases hu
  | keep _ c' hs =>
    obtain ⟨rfl, rfl⟩ := List.cons.inj hu
    obtain ⟨s', b', rfl, hb', hs'⟩ := renamed_inside hc hx hs
    exact ⟨c :: x, s', rfl, hname, ⟨_, hs'⟩, .inl rfl⟩
  | @swap _ old new s t' hold hs =>
    obtain ⟨target, hget, rfl, -, hrest⟩ := hold
    obtain ⟨hold, htarget⟩ := h _ (Assoc.mem_of_get? hget)
    obtain ⟨-, ht'⟩ := followedBy_renamed h hs (.inr hrest)
    -- The word that is put in ends where the word of the result does.
    have htake := congrArg (List.takeWhile isIdentChar) hu
    have hdrop := congrArg (List.dropWhile isIdentChar) hu
    rw [takeWhile_run hname.chars ht, takeWhile_run htarget.chars ht'] at htake
    rw [dropWhile_run hname.chars ht, dropWhile_run htarget.chars ht'] at hdrop
    rw [String.toList_ofList] at hold
    subst hdrop
    refine ⟨old, s, rfl, hold, ⟨_, hs⟩, .inr ?_⟩
    rw [hget, htake, String.ofList_toList]

/-- The name of a renamed value was there before, or an alias of it was. -/
theorem valueName?_renamed {called : Bool} {before : Option Char} {s t name : List Char}
    (hs : Edited (renamed aliases) before s t) (ht : valueName? called t = some name) :
    ∃ old, valueName? called s = some old ∧
      (old = name ∨ Assoc.get? aliases (String.ofList old) = some (String.ofList name)) := by
  obtain ⟨gap, gap', tail, rfl, hgap, hname, hgap', htail⟩ := valueName?_eq_some.1 ht
  obtain ⟨s₁, rfl, h₁⟩ := (inky_renamed h).gap hgap hs
  have hend := htail.followedBy hgap'
  obtain ⟨old, s₂, rfl, hold, ⟨b, h₂⟩, halias⟩ := renamed_word h hname hend h₁
  obtain ⟨s₃, rfl, h₃⟩ := (inky_renamed h).gap hgap' h₂
  refine ⟨old, valueName?_eq_some.2 ⟨gap, gap', s₃, rfl, hgap, hold, hgap', ?_⟩, halias⟩
  exact (inky_renamed h).closes h₃ htail

/-- The name of a value takes its canonical form. -/
theorem valueName?_run {called : Bool} {v name : List Char}
    (hv : valueName? called v = some name) :
    valueName? called (Rename.run aliases v) = some (Rename.canonical aliases name) := by
  obtain ⟨gap, gap', tail, rfl, hgap, hname, hgap', htail⟩ := valueName?_eq_some.1 hv
  have hcanonical := Rename.isIdent_canonical h hname
  have hrun : Rename.run aliases (gap ++ (name ++ (gap' ++ tail))) =
      gap ++ (Rename.canonical aliases name ++ (gap' ++ Rename.run aliases tail)) := by
    rw [Rename.run_gap h hgap, Rename.run_word h hname.ne_nil hname.chars (htail.followedBy hgap'),
      Rename.run_gap h hgap']
  refine valueName?_eq_some.2 ⟨gap, gap', _, hrun, hgap, hcanonical, hgap', ?_⟩
  rcases htail with rfl | ⟨hcalled, u, rfl⟩
  · exact .inl (Rename.run_nil h)
  · have hquiet : Rename.quiet? ('(' :: u) = none :=
      Rename.quiet?_of_not_isQuietStart (by decide)
    exact .inr ⟨hcalled, Rename.run aliases u, Rename.run_mark h (by decide) hquiet⟩

end Renamed

end Policy

/-! ### Attributes that a pass changes -/

namespace Policy

/-- A reader of attribute names that reads the names it `takes` as a whole, and no others. -/
structure ReadsNames (name? : List Char → Option (List Char × List Char)) (takes : String → Bool) :
    Prop where
  word : ∀ {s w s'}, name? s = some (w, s') → s = w ++ s' ∧ w ≠ [] ∧ ∀ c ∈ w, isWordy c = true
  opens : ∀ {before s x}, precededBy isAttrChar before = false → name? s = some x →
    opensAttr before s = true
  taken : ∀ {name}, name ∈ attrNames → takes name = true → ∀ s,
    name? (name.toList ++ '=' :: s) = some (name.toList, '=' :: s)
  left : ∀ {name}, name ∈ attrNames → takes name = false → ∀ s,
    name? (name.toList ++ '=' :: s) = none

/-- An equals sign with blanks and a quote. -/
theorem equals?_eq_some {s eq rest : List Char} (h : equals? s = some (eq, rest)) :
    ∃ gap gap', s = gap ++ '=' :: (gap' ++ '"' :: rest) ∧ (∀ c ∈ gap, isBlank c = true) ∧
      (∀ c ∈ gap', isBlank c = true) ∧ eq = gap ++ '=' :: gap' ++ ['"'] := by
  obtain ⟨gap, s₁, rfl, hgap, hs₁⟩ := exists_run isBlank s
  unfold equals? at h
  simp only [takeWhile_run hgap hs₁, dropWhile_run hgap hs₁, Option.bind_eq_bind,
    Option.bind_eq_some_iff] at h
  obtain ⟨s₂, h₂, s₃, h₃, h₄⟩ := h
  obtain rfl := after?_eq_some.1 h₂
  obtain ⟨gap', s₄, rfl, hgap', hs₄⟩ := exists_run isBlank s₂
  rw [dropWhile_run hgap' hs₄] at h₃
  rw [takeWhile_run hgap' hs₄] at h₄
  obtain rfl := after?_eq_some.1 h₃
  cases h₄
  exact ⟨gap, gap', rfl, hgap, hgap', rfl⟩

theorem equals?_append {gap gap' : List Char} (hgap : ∀ c ∈ gap, isBlank c = true)
    (hgap' : ∀ c ∈ gap', isBlank c = true) (rest : List Char) :
    equals? (gap ++ '=' :: (gap' ++ '"' :: rest)) = some (gap ++ '=' :: gap' ++ ['"'], rest) := by
  have hsign : followedBy isBlank ('=' :: (gap' ++ '"' :: rest)) = false :=
    (by decide : isBlank '=' = false)
  have hquote : followedBy isBlank ('"' :: rest) = false := (by decide : isBlank '"' = false)
  unfold equals?
  rw [takeWhile_run hgap hsign, dropWhile_run hgap hsign]
  show (after? ['"'] ((gap' ++ '"' :: rest).dropWhile isBlank)).bind _ = _
  rw [dropWhile_run hgap' hquote]
  show some (gap ++ '=' :: (gap' ++ '"' :: rest).takeWhile isBlank ++ ['"'], rest) = _
  rw [takeWhile_run hgap' hquote]

/-- A value goes up to the first quote. -/
theorem quotedValue?_eq_some_iff {s value rest : List Char} :
    quotedValue? s = some (value, rest) ↔ '"' ∉ value ∧ s = value ++ '"' :: rest := by
  have hquote : ∀ {c : Char}, (c != '"') = false ↔ c = '"' := by simp
  constructor
  · intro h
    obtain ⟨run, s', rfl, hrun, hs'⟩ := exists_run (· != '"') s
    unfold quotedValue? at h
    rw [dropWhile_run hrun hs', takeWhile_run hrun hs'] at h
    cases s' with
    | nil => cases h
    | cons c s' =>
      obtain rfl := hquote.1 hs'
      cases h
      exact ⟨fun hmem => absurd (hrun _ hmem) (by decide), rfl⟩
  · rintro ⟨hvalue, rfl⟩
    have hrun : ∀ c ∈ value, (c != '"') = true := by
      intro c hc
      rw [bne_iff_ne]
      rintro rfl
      exact hvalue hc
    rw [quotedValue?, dropWhile_run hrun (by simp), takeWhile_run hrun (by simp)]

variable {name? : List Char → Option (List Char × List Char)} {takes : String → Bool}

/-- Attributes are read by their names. -/
theorem ReadsNames.seeks (h : ReadsNames name? takes) : SeeksAttrs (quotedAttr name?) := by
  have hsome : ∀ {before s x}, quotedAttr name? before s = some x →
      precededBy isAttrChar before = false ∧ ∃ w s₁, name? s = some (w, s₁) ∧
        ∃ eq s₂, equals? s₁ = some (eq, s₂) := by
    intro before s x hx
    unfold quotedAttr at hx
    cases hbefore : precededBy isAttrChar before with
    | true => simp [hbefore] at hx
    | false =>
      simp only [hbefore, Bool.false_eq_true, if_false, Option.bind_eq_bind,
        Option.bind_eq_some_iff] at hx
      obtain ⟨⟨w, s₁⟩, hw, ⟨eq, s₂⟩, heq, -⟩ := hx
      exact ⟨rfl, w, s₁, hw, eq, s₂, heq⟩
  constructor
  · intro before s x hx
    obtain ⟨-, w, s₁, hw, eq, s₂, heq⟩ := hsome hx
    obtain ⟨rfl, hne, hwordy⟩ := h.word hw
    obtain ⟨gap, gap', rfl, hgap, hgap', -⟩ := equals?_eq_some heq
    exact ⟨w, gap, gap', s₂, rfl, hne, hwordy, hgap, hgap'⟩
  · intro before s x hx
    obtain ⟨hbefore, w, s₁, hw, -⟩ := hsome hx
    exact h.opens hbefore hw

/-- The value that a pass gives to an attribute. -/
def passed (takes : String → Bool) (f : List Char → List Char) (name value : String) : String :=
  if takes name then String.ofList (f value.toList) else value

/-- A pass changes the values of the attributes it takes, and nothing else. -/
theorem ReadsNames.attrWalk (h : ReadsNames name? takes) (f : List Char → List Char) :
    AttrWalk True (quotedAttr name?)
      (putFound fun (lead, value) => lead ++ f value ++ ['"']) fun name value =>
        name.toList ++ '=' :: '"' :: ((passed takes f name value).toList ++ ['"']) where
  seeks := h.seeks
  valued := by
    intro name value hfits attrs hattrs rest
    have hquote := hfits.quote_not_mem
    cases hfits with
    | valued hname hvalue =>
      generalize attrsText attrs ++ '>' :: rest = s
      have hblank : precededBy isAttrChar (some ' ') = false := by decide
      cases htakes : takes name with
      | true =>
        have hread : quotedValue? (value.toList ++ '"' :: s) = some (value.toList, s) :=
          quotedValue?_eq_some_iff.2 ⟨hquote, rfl⟩
        have hequals : equals? ('=' :: '"' :: (value.toList ++ '"' :: s)) =
            some (['=', '"'], value.toList ++ '"' :: s) := rfl
        have hfound : quotedAttr name? (some ' ')
            (name.toList ++ '=' :: '"' :: (value.toList ++ '"' :: s)) =
              some ((name.toList ++ ['=', '"'], value.toList), s) := by
          unfold quotedAttr
          simp [hblank, h.taken hname htakes, hequals, hread]
        have hsplit : name.toList ++ '=' :: '"' :: (value.toList ++ '"' :: s) =
            (name.toList ++ '=' :: '"' :: (value.toList ++ ['"'])) ++ s := by simp
        rw [hsplit] at hfound ⊢
        rw [scanFrom_found (by simp) hfound]
        simp [putFound, passed, htakes]
      | false =>
        have hnone : quotedAttr name? (some ' ')
            (name.toList ++ '=' :: '"' :: (value.toList ++ '"' :: s)) = none := by
          unfold quotedAttr
          simp [hblank, h.left hname htakes]
        rw [h.seeks.scanFrom_unread hname hnone
          (h.seeks.dull_value hvalue.plain (hvalue.ends trivial)), flatMap_putFound]
        simp [passed, htakes]

/-- The directives among the attributes of rendered markup. -/
def directiveNames : List String :=
  ["v-model", "v-if", "v-for", ":key", ":class", ":style", ":disabled", ":is", "@click",
   "@submit.prevent"]

theorem isWordy_of_isDirectiveChar {c : Char} (h : isDirectiveChar c = true) :
    isWordy c = true := by
  unfold isDirectiveChar isAttrChar at h
  simp only [Bool.or_eq_true, beq_iff_eq] at h
  rcases h with ((((h | rfl) | rfl) | rfl) | rfl) | rfl
  · exact isWordy_of_isWord h
  · decide
  · decide
  · decide
  · decide
  · decide

/-- A directive has a mark and a name. -/
theorem directiveName?_eq_some {s w s' : List Char} (h : directiveName? s = some (w, s')) :
    ∃ mark rest, mark ∈ [['@'], [':'], ['v', '-']] ∧ s = mark ++ rest ∧
      w = mark ++ rest.takeWhile isDirectiveChar ∧ s' = rest.dropWhile isDirectiveChar := by
  unfold directiveName? at h
  rw [Option.map_eq_some_iff] at h
  obtain ⟨⟨mark, rest⟩, hmark, heq⟩ := h
  obtain ⟨rfl, rfl⟩ := Prod.mk.inj heq
  refine ⟨mark, rest, ?_⟩
  split at hmark
  next =>
    cases hmark
    exact ⟨by simp, rfl, rfl, rfl⟩
  next =>
    cases hmark
    exact ⟨by simp, rfl, rfl, rfl⟩
  next =>
    cases hmark
    exact ⟨by simp, rfl, rfl, rfl⟩
  next => cases hmark

/-- Of all attributes, the directives are read. -/
theorem readsNames_directive : ReadsNames directiveName? (directiveNames.contains ·) where
  word := by
    intro s w s' h
    obtain ⟨mark, rest, hmark, rfl, rfl, rfl⟩ := directiveName?_eq_some h
    have hall : ∀ mark ∈ [['@'], [':'], ['v', '-']], mark ≠ [] ∧ ∀ c ∈ mark, isWordy c = true := by
      decide
    obtain ⟨hne, hwordy⟩ := hall mark hmark
    refine ⟨by rw [List.append_assoc, List.takeWhile_append_dropWhile], by simp [hne], ?_⟩
    refine List.forall_mem_append.2 ⟨hwordy, fun c hc => ?_⟩
    exact isWordy_of_isDirectiveChar (List.mem_takeWhile_imp hc)
  opens := by
    rintro before s ⟨w, s'⟩ - h
    obtain ⟨mark, rest, hmark, rfl, -⟩ := directiveName?_eq_some h
    simp only [List.mem_cons, List.not_mem_nil, or_false] at hmark
    rcases hmark with rfl | rfl | rfl
    · rfl
    · rfl
    · rfl
  taken := by
    intro name _ htakes s
    have hname : name ∈ directiveNames := by simpa using htakes
    simp only [directiveNames, List.mem_cons, List.not_mem_nil, or_false] at hname
    rcases hname with rfl | rfl | rfl | rfl | rfl | rfl | rfl | rfl | rfl | rfl <;> rfl
  left := by
    intro name hname htakes s
    have hnot : name ∉ directiveNames := by simpa using htakes
    have hall : ∀ name ∈ attrNames, name ∈ directiveNames ∨
        ∀ mark ∈ [['@'], [':'], ['v', '-']],
          (mark.zip name.toList).any (fun pair => pair.1 != pair.2) = true := by
      decide
    rw [Option.eq_none_iff_forall_ne_some]
    rintro ⟨w, s'⟩ h
    obtain ⟨mark, rest, hmark, hs, -⟩ := directiveName?_eq_some h
    rcases hall name hname with hmem | hclash
    · exact hnot hmem
    · have hnone := after?_of_clash (hclash mark hmark) ('=' :: s)
      rw [hs, after?_append] at hnone
      cases hnone

/-- Of all attributes, the class attribute is read. -/
theorem readsNames_class : ReadsNames className? (· == "class") where
  word := by
    intro s w s' h
    unfold className? at h
    rw [Option.map_eq_some_iff] at h
    obtain ⟨rest, hrest, heq⟩ := h
    obtain ⟨rfl, rfl⟩ := Prod.mk.inj heq
    exact ⟨after?_eq_some.1 hrest, by simp, by decide⟩
  opens := by
    intro before s x hbefore h
    unfold className? at h
    rw [Option.map_eq_some_iff] at h
    obtain ⟨rest, hrest, -⟩ := h
    have hstarts : startsWith "class".toList s = true := by
      rw [startsWith, hrest]
      rfl
    rw [opensAttr, hstarts, hbefore]
    simp
  taken := by
    intro name _ htakes s
    obtain rfl : name = "class" := by simpa using htakes
    rfl
  left := by
    intro name hname htakes s
    have hall : ∀ name ∈ attrNames, name = "class" ∨
        ("class".toList.zip name.toList).any (fun pair => pair.1 != pair.2) = true := by
      decide
    rcases hall name hname with rfl | hclash
    · cases htakes
    · rw [className?, after?_of_clash hclash]
      rfl

/-! ### Tracing attributes back -/

/-- Each attribute of some tags comes from one of other tags. -/
def Traced (R : Attr → Attr → Prop) (tags tags' : List Tag) : Prop :=
  ∀ t' ∈ tags', ∀ a' ∈ t'.attrs, ∃ t ∈ tags, ∃ a ∈ t.attrs, R a a'

theorem traced_change (change : String → String → String) (tags : List Tag) :
    Traced (fun a a' => a' = a.change change) tags (tags.map (Tag.change change)) := by
  intro t' ht' a' ha'
  obtain ⟨t, ht, rfl⟩ := List.mem_map.1 ht'
  obtain ⟨a, ha, rfl⟩ := List.mem_map.1 ha'
  exact ⟨t, ht, a, ha, rfl⟩

theorem exists_of_forall₂ {α : Type} {R : α → α → Prop} {xs ys : List α}
    (h : List.Forall₂ R xs ys) {y : α} (hy : y ∈ ys) : ∃ x ∈ xs, R x y := by
  induction h with
  | nil => cases hy
  | cons hhead _ ih =>
    rcases List.mem_cons.1 hy with rfl | hy
    · exact ⟨_, List.mem_cons_self, hhead⟩
    · obtain ⟨x, hx, hR⟩ := ih hy
      exact ⟨x, List.mem_cons_of_mem _ hx, hR⟩

/-- Edited attributes come from those before. -/
theorem traced_edited {allowed : Edit} {tags tags' : List Tag}
    (h : List.Forall₂ (TagEdited allowed) tags tags') :
    Traced (AttrEdited allowed) tags tags' := by
  intro t' ht' a' ha'
  obtain ⟨t, ht, hedited⟩ := exists_of_forall₂ h ht'
  obtain ⟨a, ha, hattr⟩ := exists_of_forall₂ hedited.attrs ha'
  exact ⟨t, ht, a, ha, hattr⟩

theorem fits_edited {tidy : Prop} {allowed : Edit} (hkeeps : Keeps tidy allowed)
    {tags tags' : List Tag} (h : List.Forall₂ (TagEdited allowed) tags tags')
    (hfits : ∀ t ∈ tags, t.Fits tidy) : ∀ t' ∈ tags', t'.Fits tidy := by
  intro t' ht'
  obtain ⟨t, ht, hedited⟩ := exists_of_forall₂ h ht'
  exact hedited.fits hkeeps (hfits t ht)

/-- Changes that keep values in form keep tags in form. -/
theorem fits_change {tidy tidy' : Prop} {change : String → String → String}
    (h : ∀ {name value}, (attr name value).Fits tidy → (attr name (change name value)).Fits tidy')
    {tags : List Tag} (hfits : ∀ t ∈ tags, t.Fits tidy) :
    ∀ t' ∈ tags.map (Tag.change change), t'.Fits tidy' := by
  intro t' ht'
  obtain ⟨t, ht, rfl⟩ := List.mem_map.1 ht'
  refine ⟨(hfits t ht).head, fun a' ha' => ?_⟩
  obtain ⟨a, ha, rfl⟩ := List.mem_map.1 ha'
  rcases (hfits t ht).attrs a ha with hattr | rfl
  · left
    cases hattr with
    | bare hname => exact .bare hname
    | valued hname hvalue hloop => exact h (.valued hname hvalue hloop)
  · exact .inr rfl

/-- If a change of values takes the names in them to other names, then what an attribute refers to
comes from what it referred to before. -/
theorem refersTo_back {tidy tidy' : Prop} {E R : List Char → List Char → Prop}
    (hloop : ∀ head ∈ loopHeads, ∀ {s t}, E (head.toList ++ s) t →
      ∃ s', t = head.toList ++ s' ∧ E s s')
    (hvalue : ∀ {called s t x}, E s t → valueName? called t = some x →
      ∃ y, valueName? called s = some y ∧ R y x)
    {name v v' : String} (hfits : (attr name v).Fits tidy) (hfits' : (attr name v').Fits tidy')
    (h : E v.toList v'.toList) {n : String} (hn : n ∈ refersTo name v') :
    ∃ m ∈ refersTo name v, R m.toList n.toList := by
  have hname : ∀ {called s t}, E s t → valueName? called t = some n.toList →
      ∃ m : String, valueName? called s = some m.toList ∧ R m.toList n.toList := by
    intro called s t hst ht
    obtain ⟨y, hy, hR⟩ := hvalue hst ht
    exact ⟨String.ofList y, by rwa [String.toList_ofList], by rwa [String.toList_ofList]⟩
  rcases (mem_refersTo_iff hfits').1 hn with ⟨hevent, hn⟩ | ⟨hmodel, hn⟩ | ⟨hfor, hn⟩
  · obtain ⟨m, hm, hR⟩ := hname h hn
    exact ⟨m, (mem_refersTo_iff hfits).2 (.inl ⟨hevent, hm⟩), hR⟩
  · obtain ⟨m, hm, hR⟩ := hname h hn
    exact ⟨m, (mem_refersTo_iff hfits).2 (.inr (.inl ⟨hmodel, hm⟩)), hR⟩
  · have hplain := hfits'.plain_value rfl
    have hquote : ∀ {front source : List Char}, v'.toList = front ++ source → '"' ∉ source :=
      fun hsplit hmem => (hplain '"' (by simp [hsplit, hmem])).2.2 rfl
    obtain ⟨head, hhead, source, rfl⟩ : LoopsOver v := by
      cases hfits with
      | valued _ _ hloops => exact hloops hfor
    rw [String.toList_append] at h
    obtain ⟨source', hsplit, hsource⟩ := hloop head hhead h
    -- The value names one source, however it is cut.
    obtain ⟨head', hhead', source'', hsplit', hn⟩ := hn
    have hname' := loopSource?_append hhead (hquote hsplit)
    rw [← hsplit, hsplit', loopSource?_append hhead' (hquote hsplit'), hn] at hname'
    obtain ⟨x, hx, hxn⟩ := Option.map_eq_some_iff.1 hname'.symm
    obtain rfl : x = n.toList := by
      rw [String.ofList_toList] at hxn
      rw [← hxn, String.toList_ofList]
    obtain ⟨m, hm, hR⟩ := hname hsource hx
    refine ⟨m, (mem_refersTo_iff hfits).2
      (.inr (.inr ⟨hfor, head, hhead, source.toList, ?_, hm⟩)), hR⟩
    exact String.toList_append

/-! ### The four passes -/

/-- Renaming in a directive value leaves the attribute one of rendered markup. -/
theorem fits_bound {name value : String} (h : (attr name value).Fits True) :
    (attr name (passed (directiveNames.contains ·)
      (Rename.run Policy.default.identifierAliases) name value)).Fits True := by
  unfold passed
  split
  · refine keeps_renamed True _ _ h (.valued name ?_)
    rw [String.toList_ofList]
    exact edited_run regular_default _ fun hb => absurd hb (by decide)
  · exact h

theorem loose_of_fits {tidy : Prop} {a : Attr} (h : a.Fits tidy) : a.Fits False := by
  cases h with
  | bare hname => exact .bare hname
  | valued hname hvalue hloop => exact .valued hname ⟨hvalue.plain, False.elim⟩ hloop

/-- Canonical classes can stand between quotes, but they may end in an equals sign. -/
theorem fits_classed {name value : String} (h : (attr name value).Fits True) :
    (attr name (passed (· == "class")
      (fun v => [' '].intercalate (Policy.default.canonicalClasses v)) name value)).Fits False := by
  unfold passed
  split
  next hclass =>
    obtain rfl : name = "class" := by simpa using hclass
    refine .valued (by decide) ⟨?_, False.elim⟩ fun hfor => absurd hfor (by decide)
    rw [String.toList_ofList]
    refine forall_mem_intercalate (by decide) fun token htoken => ?_
    rw [canonicalClasses, List.mem_eraseDups, List.mem_flatMap] at htoken
    obtain ⟨old, hold, htoken⟩ := htoken
    split at htoken
    next target htarget =>
      have hall : ∀ entry ∈ Policy.default.classAliases, Plain entry.2.toList := by decide
      intro c hc
      exact hall _ (Assoc.mem_of_get? htarget) c (mem_fields htoken c hc).1
    next =>
      rw [List.mem_singleton] at htoken
      subst htoken
      intro c hc
      exact h.plain_value rfl c (mem_fields hold c hc).1
  next => exact loose_of_fits h

/-- Renaming keeps the variables of loops. -/
theorem run_loopHead {head : String} (h : head ∈ loopHeads) (s : List Char) :
    Rename.run Policy.default.identifierAliases (head.toList ++ s) =
      head.toList ++ Rename.run Policy.default.identifierAliases s := by
  have hwords : ∀ head ∈ loopHeads, ∃ w ∈ loopWords, head.toList = w.toList ++ [' '] ∧
      ∀ d ∈ w.toList, Rename.isQuietStart d = false := by
    decide
  obtain ⟨w, hw, hsplit, hquiet⟩ := hwords head h
  have hcut : ∀ t, Rename.run Policy.default.identifierAliases (w.toList ++ ' ' :: t) =
      Rename.run Policy.default.identifierAliases w.toList ++
        ' ' :: Rename.run Policy.default.identifierAliases t := by
    intro t
    rw [Rename.closed_of_plain regular_default hquiet (' ' :: t) rfl,
      Rename.run_mark regular_default (by decide)
        (Rename.quiet?_of_not_isQuietStart (by decide))]
  -- In front of a blank the words stay.
  have hkeep : Rename.run Policy.default.identifierAliases w.toList = w.toList := by
    have hstart : precededBy isIdentChar none = true →
        followedBy isIdentChar (w.toList ++ [' ']) = false := fun hb => by cases hb
    obtain ⟨s', hs', hrest⟩ := led_renamed.word
      (clear_fixedWords w (List.mem_append_right _ hw)).1 (by decide)
      (edited_run regular_default (w.toList ++ [' ']) hstart)
    have hnil : s' = [] := by
      refine hrest.eq_nil ?_
      rintro before old new rest ⟨target, hget, -⟩ rfl
      exact (regular_default _ (Assoc.mem_of_get? hget)).1.ne_nil String.toList_ofList
    rw [hcut, hnil, Rename.run_nil regular_default] at hs'
    exact List.append_cancel_right hs'
  rw [hsplit, List.append_assoc, List.singleton_append, hcut, hkeep]
  simp

/-- An attribute with a value is no slash. -/
theorem fits_of_mem {tidy : Prop} {tags : List Tag} (hfits : ∀ t ∈ tags, t.Fits tidy) {t : Tag}
    (ht : t ∈ tags) {name value : String} (ha : attr name value ∈ t.attrs) :
    (attr name value).Fits tidy := by
  rcases (hfits t ht).attrs _ ha with h | h
  · exact h
  · cases h

theorem eq_attr_of_change {change : String → String → String} {name value : String} {a : Attr}
    (h : attr name value = a.change change) :
    ∃ old, a = attr name old ∧ value = change name old := by
  obtain ⟨name', old⟩ := a
  cases old with
  | none => cases h
  | some old =>
    cases h
    exact ⟨old, rfl, rfl⟩

theorem eq_attr_of_edited {allowed : Edit} {name value : String} {a : Attr}
    (h : AttrEdited allowed a (attr name value)) :
    ∃ old, a = attr name old ∧ Edited allowed (some '"') old.toList value.toList := by
  generalize hb : attr name value = b at h
  cases h with
  | bare => cases hb
  | valued _ h =>
    cases hb
    exact ⟨_, rfl, h⟩

/-! ### Values in each pass -/

/-- Replacing markers keeps what a value refers to. -/
theorem refersTo_marked {name v v' : String} (hfits : (attr name v).Fits False)
    (hfits' : (attr name v').Fits False)
    (h : Edited (marked Policy.default.runtimeMarker.toList) (some '"') v.toList v'.toList)
    {n : String} (hn : n ∈ refersTo name v') : n ∈ refersTo name v := by
  obtain ⟨m, hm, hmn⟩ := refersTo_back
    (E := fun s t => ∃ before, Edited (marked Policy.default.runtimeMarker.toList) before s t)
    (R := Eq)
    (by
      rintro head hhead s t ⟨before, h⟩
      obtain ⟨s', hs', hrest⟩ := (led_marked _).loop
        (fun w hw => (clear_fixedWords w (List.mem_append_right _ hw)).2) hhead h
      exact ⟨s', hs', _, hrest⟩)
    (by
      rintro called s t x ⟨before, h⟩ hx
      exact ⟨x, valueName?_marked (by decide) (by decide) (by decide) h hx, rfl⟩)
    hfits hfits' ⟨_, h⟩ hn
  rwa [← String.toList_injective hmn]

/-- Renaming in a value renames what it refers to. -/
theorem refersTo_renamed {name v v' : String} (hfits : (attr name v).Fits True)
    (hfits' : (attr name v').Fits True)
    (h : Edited (renamed Policy.default.identifierAliases) (some '"') v.toList v'.toList)
    {n : String} (hn : n ∈ refersTo name v') :
    ∃ m ∈ refersTo name v, m = n ∨ Assoc.get? Policy.default.identifierAliases m = some n := by
  obtain ⟨m, hm, hmn⟩ := refersTo_back
    (E := fun s t => ∃ before, Edited (renamed Policy.default.identifierAliases) before s t)
    (R := fun y x => y = x ∨
      Assoc.get? Policy.default.identifierAliases (String.ofList y) = some (String.ofList x))
    (by
      rintro head hhead s t ⟨before, h⟩
      obtain ⟨s', hs', hrest⟩ := led_renamed.loop
        (fun w hw => (clear_fixedWords w (List.mem_append_right _ hw)).1) hhead h
      exact ⟨s', hs', _, hrest⟩)
    (by
      rintro called s t x ⟨before, h⟩ hx
      exact valueName?_renamed regular_default h hx)
    hfits hfits' ⟨_, h⟩ hn
  rw [String.ofList_toList, String.ofList_toList] at hmn
  exact ⟨m, hm, hmn.imp_left fun heq => String.toList_injective heq⟩

/-- Renaming in directives renames what they refer to. -/
theorem refersTo_bound {name v : String} (hfits : (attr name v).Fits True) {n : String}
    (hn : n ∈ refersTo name (passed (directiveNames.contains ·)
      (Rename.run Policy.default.identifierAliases) name v)) :
    ∃ m ∈ refersTo name v, n = Policy.default.canonicalName m := by
  -- What refers to something is a directive.
  have hdirective : directiveNames.contains name = true := by
    have hevents : ∀ name ∈ eventNames, directiveNames.contains name = true := by decide
    rcases (mem_refersTo_iff (fits_bound hfits)).1 hn with ⟨hevent, -⟩ | ⟨rfl, -⟩ | ⟨rfl, -⟩
    · exact hevents name hevent
    · decide
    · decide
  have hpassed : (passed (directiveNames.contains ·) (Rename.run Policy.default.identifierAliases)
      name v).toList = Rename.run Policy.default.identifierAliases v.toList := by
    rw [passed, if_pos hdirective, String.toList_ofList]
  obtain ⟨m, hm, hmn⟩ := refersTo_back
    (E := fun s t => t = Rename.run Policy.default.identifierAliases s)
    (R := fun y x => x = Rename.canonical Policy.default.identifierAliases y)
    (by
      rintro head hhead s t rfl
      exact ⟨_, run_loopHead hhead s, rfl⟩)
    (by
      rintro called s t x rfl hx
      have hstart : precededBy isIdentChar none = true → followedBy isIdentChar s = false :=
        fun hb => by cases hb
      obtain ⟨y, hy, -⟩ := valueName?_renamed regular_default
        (edited_run regular_default s hstart) hx
      rw [valueName?_run regular_default hy, Option.some_inj] at hx
      exact ⟨y, hy, hx.symm⟩)
    hfits (fits_bound hfits) hpassed hn
  refine ⟨m, hm, String.toList_injective ?_⟩
  rw [hmn, Rename.canonical, String.ofList_toList]
  rfl

/-- Canonical names are no aliases. -/
theorem canonicalName_not_alias (m : String) :
    Assoc.get? Policy.default.identifierAliases (Policy.default.canonicalName m) = none := by
  cases hm : Assoc.get? Policy.default.identifierAliases m with
  | none => rw [canonicalName_of_none hm, hm]
  | some target =>
    have hall : ∀ entry ∈ Policy.default.identifierAliases,
        Assoc.get? Policy.default.identifierAliases entry.2 = none := by decide
    rw [canonicalName_of_some hm]
    exact hall _ (Assoc.mem_of_get? hm)

/-- Under canonical names rendered markup refers to canonical forms of what it referred to. -/
theorem exists_of_mem_referred {tags : List Tag} {markup : String}
    (hwoven : Woven tags markup.toList) (hfits : ∀ t ∈ tags, t.Fits True) {n : String}
    (hn : n ∈ referred (String.ofList (canonicalMarkup Policy.default markup.toList))) :
    ∃ m ∈ referred markup, n = Policy.default.canonicalName m := by
  -- What each pass makes of the tags.
  have hwoven₁ := (readsNames_directive.attrWalk
    (Rename.run Policy.default.identifierAliases)).replaced hwoven hfits none
  have hfits₁ := fits_change fits_bound hfits
  obtain ⟨tags₂, hwoven₂, htags₂⟩ := hwoven₁.edited mild_renamed hfits₁
    (edited_interpolation regular_default _)
  have hfits₂ := fits_edited (keeps_renamed True) htags₂ hfits₁
  have hwoven₃ := (readsNames_class.attrWalk
    (fun v => [' '].intercalate (Policy.default.canonicalClasses v))).replaced hwoven₂ hfits₂ none
  have hfits₃ := fits_change fits_classed hfits₂
  obtain ⟨tags₄, hwoven₄, htags₄⟩ := hwoven₃.edited mild_marked hfits₃
    (edited_replaceMarkers Policy.default _)
  have hfits₄ := fits_edited keeps_marked htags₄ hfits₃
  have hclasses : ¬Policy.default.classAliases.isEmpty = true := by decide
  have hwoven' : Woven tags₄
      (String.ofList (canonicalMarkup Policy.default markup.toList)).toList := by
    rw [String.toList_ofList, canonicalMarkup, renameClasses, if_neg hclasses, mapCode,
      replaceAll_eq (quotedAttr className?), replaceAll_eq (quotedAttr directiveName?)]
    exact hwoven₄
  -- The attribute that refers to `n`, and what it was before each pass.
  obtain ⟨t₄, ht₄, ⟨name, value⟩, ha₄, v₄, rfl, hn⟩ := (mem_referred_iff hwoven' hfits₄).1 hn
  obtain ⟨t₃, ht₃, a₃, ha₃, htrace₄⟩ := traced_edited htags₄ t₄ ht₄ _ ha₄
  obtain ⟨v₃, rfl, h₄⟩ := eq_attr_of_edited htrace₄
  obtain ⟨t₂, ht₂, a₂, ha₂, htrace₃⟩ := traced_change _ _ t₃ ht₃ _ ha₃
  obtain ⟨v₂, rfl, h₃⟩ := eq_attr_of_change htrace₃
  obtain ⟨t₁, ht₁, a₁, ha₁, htrace₂⟩ := traced_edited htags₂ t₂ ht₂ _ ha₂
  obtain ⟨v₁, rfl, h₂⟩ := eq_attr_of_edited htrace₂
  obtain ⟨t₀, ht₀, a₀, ha₀, htrace₁⟩ := traced_change _ _ t₁ ht₁ _ ha₁
  obtain ⟨v₀, rfl, rfl⟩ := eq_attr_of_change htrace₁
  -- The name in its value, pass by pass.
  have hn₃ := refersTo_marked (fits_of_mem hfits₃ ht₃ ha₃) (fits_of_mem hfits₄ ht₄ ha₄) h₄ hn
  have hn₂ : n ∈ refersTo name v₂ := by
    have hclass : ¬(name == "class") = true := by
      have hevents : "class" ∉ eventNames := by decide
      intro hclass
      obtain rfl : name = "class" := by simpa using hclass
      rcases (mem_refersTo_iff (fits_of_mem hfits₃ ht₃ ha₃)).1 hn₃ with ⟨h, -⟩ | ⟨h, -⟩ | ⟨h, -⟩
      · exact hevents h
      · exact absurd h (by decide)
      · exact absurd h (by decide)
    rw [h₃, passed, if_neg hclass] at hn₃
    exact hn₃
  obtain ⟨n₁, hn₁, hrenamed⟩ :=
    refersTo_renamed (fits_of_mem hfits₁ ht₁ ha₁) (fits_of_mem hfits₂ ht₂ ha₂) h₂ hn₂
  obtain ⟨m, hm, rfl⟩ := refersTo_bound (fits_of_mem hfits ht₀ ha₀) hn₁
  refine ⟨m, (mem_referred_iff hwoven hfits).2 ⟨t₀, ht₀, _, ha₀, v₀, rfl, hm⟩, ?_⟩
  rcases hrenamed with heq | halias
  · exact heq.symm
  · rw [canonicalName_not_alias] at halias
    cases halias

end Policy

end PageCompiler
