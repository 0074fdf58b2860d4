import PageCompiler.Proofs.Markup.Walk

/-!
# `PageCompiler.Proofs.Artifact.Captures`: the names that rendered markup refers to

In rendered markup the names of handlers, bindings and loops are those of attribute values. A
handler is named at the start of the value of an event attribute, a binding by its whole value, a
loop by what stands behind its variables (`valueName?`). `mem_referred_iff` says that nothing else
is taken for one of them.
-/

set_option autoImplicit false

namespace PageCompiler

open Text Markup

namespace Directive

/-! ### Names in values -/

/-- The name that a value consists of, between white space. If names are `called`, a parenthesis may
follow the name, and then anything. -/
def valueName? (called : Bool) (s : List Char) : Option (List Char) := do
  let (name, rest) ← ident? (s.dropWhile isBlank)
  match rest.dropWhile isBlank with
  | [] => some name
  | c :: _ => if called && c == '(' then some name else none

/-- What may follow the name in a value. -/
def Closes (called : Bool) (s : List Char) : Prop :=
  s = [] ∨ called = true ∧ ∃ u, s = '(' :: u

/-- A name ends where white space or the end of the value follows. -/
theorem Closes.followedBy {called : Bool} {gap tail : List Char} (h : Closes called tail)
    (hgap : ∀ c ∈ gap, isBlank c = true) : followedBy isIdentChar (gap ++ tail) = false := by
  cases gap with
  | nil =>
    rcases h with rfl | ⟨-, u, rfl⟩
    · rfl
    · rfl
  | cons c gap => exact isIdentChar_of_isBlank (hgap c (by simp))

/-- A value is named by what stands between white space. -/
theorem valueName?_eq_some {called : Bool} {s name : List Char} :
    valueName? called s = some name ↔ ∃ gap gap' tail, s = gap ++ (name ++ (gap' ++ tail)) ∧
      (∀ c ∈ gap, isBlank c = true) ∧ IsIdent name ∧ (∀ c ∈ gap', isBlank c = true) ∧
        Closes called tail := by
  have hcall : isBlank '(' = false := by decide
  unfold valueName?
  constructor
  · intro h
    rw [Option.bind_eq_bind, Option.bind_eq_some_iff] at h
    obtain ⟨⟨name', rest⟩, hident, hrest⟩ := h
    obtain ⟨hsplit, hname, -⟩ := ident?_eq_some.1 hident
    obtain ⟨gap, s', rfl, hgap, hs'⟩ := exists_run isBlank s
    obtain ⟨gap', tail, rfl, hgap', htail⟩ := exists_run isBlank rest
    rw [dropWhile_run hgap hs'] at hsplit
    dsimp only at hrest
    rw [dropWhile_run hgap' htail] at hrest
    subst hsplit
    cases tail with
    | nil =>
      cases hrest
      exact ⟨gap, gap', [], rfl, hgap, hname, hgap', .inl rfl⟩
    | cons c tail =>
      dsimp only at hrest
      split at hrest
      next hc =>
        cases hrest
        rw [Bool.and_eq_true, beq_iff_eq] at hc
        obtain ⟨hcalled, rfl⟩ := hc
        exact ⟨gap, gap', _, rfl, hgap, hname, hgap', .inr ⟨hcalled, tail, rfl⟩⟩
      next => cases hrest
  · rintro ⟨gap, gap', tail, rfl, hgap, hname, hgap', htail⟩
    have hstart : followedBy isBlank (name ++ (gap' ++ tail)) = false := by
      obtain ⟨c, x, rfl⟩ := List.exists_cons_of_ne_nil hname.ne_nil
      rw [List.cons_append, followedBy_cons, ← Bool.not_eq_true]
      intro hblank
      have hident := hname.chars c (by simp)
      rw [isIdentChar_of_isBlank hblank] at hident
      cases hident
    have hend : followedBy isBlank tail = false := by
      rcases htail with rfl | ⟨-, u, rfl⟩
      · rfl
      · exact hcall
    have hident : ident? (name ++ (gap' ++ tail)) = some (name, gap' ++ tail) :=
      ident?_eq_some.2 ⟨rfl, hname, htail.followedBy hgap'⟩
    rw [dropWhile_run hgap hstart, hident]
    simp only [Option.bind_eq_bind, Option.bind_some]
    rw [dropWhile_run hgap' hend]
    rcases htail with rfl | ⟨rfl, u, rfl⟩
    · rfl
    · rfl

/-- The name up to the closing quote, and what follows. -/
def readSole (s : List Char) : Option (String × List Char) := do
  let (name, s) ← ident? (s.dropWhile isBlank)
  let rest ← after? ['"'] (s.dropWhile isBlank)
  some (String.ofList name, rest)

/-- The name up to a parenthesis or the closing quote, and what follows. -/
def readCalled (s : List Char) : Option (String × List Char) := do
  let (name, s) ← ident? (s.dropWhile isBlank)
  match s.dropWhile isBlank with
  | '(' :: rest | '"' :: rest => some (String.ofList name, rest)
  | _ => none

/-- What reading a value `v` in front of `s` can give, and the names that come of it. -/
inductive Reads (v s : List Char) : Option (String × List Char) → List String → Prop
  | nothing : Reads v s none []
  | whole (name : String) : Reads v s (some (name, s)) [name]
  | part (name : String) {front rest : List Char} (h : v = front ++ rest) :
      Reads v s (some (name, rest ++ '"' :: s)) [name]

theorem ident?_value (v s : List Char) :
    ident? ((v ++ '"' :: s).dropWhile isBlank) =
      (ident? (v.dropWhile isBlank)).map fun (name, rest) => (name, rest ++ '"' :: s) := by
  rw [dropWhile_append_stop (by decide), ident?_append_stop (by decide)]

/-- Between quotes, a name that must stand alone is read from the value. -/
theorem readSole_value {v : List Char} (hv : '"' ∉ v) (s : List Char) :
    readSole (v ++ '"' :: s) = (valueName? false v).map fun name => (String.ofList name, s) := by
  unfold readSole valueName?
  rw [ident?_value]
  cases hident : ident? (v.dropWhile isBlank) with
  | none => rfl
  | some found =>
    obtain ⟨name, rest⟩ := found
    obtain ⟨hsplit, -, -⟩ := ident?_eq_some.1 hident
    simp only [Option.map_some, Option.bind_eq_bind, Option.bind_some]
    rw [dropWhile_append_stop (by decide)]
    cases hrest : rest.dropWhile isBlank with
    | nil => rfl
    | cons c u =>
      have hc : c ≠ '"' := by
        rintro rfl
        have hmem : '"' ∈ rest := (List.dropWhile_suffix isBlank).subset (by rw [hrest]; simp)
        have hmem : '"' ∈ v.dropWhile isBlank := by simp [hsplit, hmem]
        exact hv ((List.dropWhile_suffix isBlank).subset hmem)
      rw [List.cons_append, after?_cons_ne _ _ hc]
      rfl

/-- A value that is read as a whole or not at all. -/
theorem reads_map (v s : List Char) (name? : Option (List Char)) :
    Reads v s (name?.map fun name => (String.ofList name, s))
      (name?.map String.ofList).toList := by
  cases name? with
  | none => exact .nothing
  | some name => exact .whole _

/-- Between quotes, the name of a handler is read from the value. -/
theorem reads_called {v : List Char} (hv : '"' ∉ v) (s : List Char) :
    Reads v s (readCalled (v ++ '"' :: s)) ((valueName? true v).map String.ofList).toList := by
  unfold readCalled valueName?
  rw [ident?_value]
  cases hident : ident? (v.dropWhile isBlank) with
  | none => exact .nothing
  | some found =>
    obtain ⟨name, rest⟩ := found
    obtain ⟨hsplit, -, -⟩ := ident?_eq_some.1 hident
    simp only [Option.map_some, Option.bind_eq_bind, Option.bind_some]
    rw [dropWhile_append_stop (by decide)]
    cases hrest : rest.dropWhile isBlank with
    | nil => exact .whole _
    | cons c u =>
      -- The value goes on behind the name.
      have hvsplit :
          v = (v.takeWhile isBlank ++ (name ++ (rest.takeWhile isBlank ++ [c]))) ++ u := by
        calc v = v.takeWhile isBlank ++ (name ++ rest) := by
              rw [← hsplit, List.takeWhile_append_dropWhile]
          _ = v.takeWhile isBlank ++ (name ++ (rest.takeWhile isBlank ++ c :: u)) := by
              rw [← hrest, List.takeWhile_append_dropWhile]
          _ = _ := by simp
      have hc : c ≠ '"' := by
        rintro rfl
        exact hv (hvsplit ▸ by simp)
      by_cases hcall : c = '('
      · subst hcall
        exact .part _ hvsplit
      · dsimp only
        rw [if_neg (by simpa using hcall), List.cons_append]
        split
        next heq => exact absurd (List.cons.inj heq).1 hcall
        next heq => exact absurd (List.cons.inj heq).1 hc
        next => exact .nothing

/-! ### Recognisers that read a value -/

/-- A recogniser that reads a value behind its opening quote as `body` does, and finds the names
`out` in it. -/
structure ReadsValues (tidy : Prop) (r : Recogniser String)
    (body : List Char → Option (String × List Char)) (out : String → String → List String) :
    Prop where
  lead : ∀ {before s x}, r before s = some x → opensAttr before s = true ∧
    ∃ word rest, s = word ++ '=' :: '"' :: rest ∧ body rest = some x ∧ word ≠ [] ∧
      ∀ c ∈ word, isWordy c = true
  tag : ∀ {attrs}, TagAttrs tidy attrs → ∀ rest, body (attrsText attrs ++ '>' :: rest) = none
  value : ∀ {name value}, (attr name value).Fits tidy → ∀ s, Reads value.toList s
    (r (some ' ') (name.toList ++ '=' :: '"' :: (value.toList ++ '"' :: s))) (out name value)

namespace ReadsValues

variable {tidy : Prop} {r : Recogniser String} {body : List Char → Option (String × List Char)}
  {out : String → String → List String}

theorem seeks (hr : ReadsValues tidy r body out) : SeeksAttrs r where
  introduces h := by
    obtain ⟨-, word, rest, hs, -, hne, hwordy⟩ := hr.lead h
    exact ⟨word, [], [], rest, hs, hne, hwordy, by simp, by simp⟩
  opens h := (hr.lead h).1

/-- A value may end in an equals sign: what follows in the tag is no value. -/
theorem dull_value (hr : ReadsValues tidy r body out) (before : Option Char) {v : List Char}
    (hv : '"' ∉ v) {attrs : List Attr} (hattrs : TagAttrs tidy attrs) (rest : List Char) :
    Dull r before v ('"' :: (attrsText attrs ++ '>' :: rest)) := by
  rintro a c b rfl
  rw [Option.eq_none_iff_forall_ne_some]
  intro x hx
  obtain ⟨-, word, rest', hs, hbody, -, hwordy⟩ := hr.lead hx
  have hb : '"' ∉ c :: b := fun hmem => hv (List.mem_append_right a hmem)
  have hword : '"' ∉ word ++ ['='] := by
    intro hmem
    rcases List.mem_append.1 hmem with hmem | hmem
    · exact absurd (hwordy _ hmem) (by decide)
    · exact absurd hmem (by decide)
  have hs : (c :: b) ++ '"' :: (attrsText attrs ++ '>' :: rest) =
      (word ++ ['=']) ++ '"' :: rest' := by simpa using hs
  obtain ⟨-, rfl⟩ := append_cons_inj hb hword hs
  rw [hr.tag hattrs rest] at hbody
  cases hbody

/-- What a recogniser reads from values, it finds along the attributes of a tag. -/
theorem attrWalk (hr : ReadsValues tidy r body out) : AttrWalk tidy r keepFound out where
  seeks := hr.seeks
  valued := by
    intro name value hfits attrs hattrs rest
    have hname : name ∈ attrNames := by
      cases hfits with
      | valued hname => exact hname
    have hquote := hfits.quote_not_mem
    have hreads := hr.value hfits (attrsText attrs ++ '>' :: rest)
    generalize hs : attrsText attrs ++ '>' :: rest = s at hreads
    generalize hfound : r (some ' ')
      (name.toList ++ '=' :: '"' :: (value.toList ++ '"' :: s)) = found at hreads
    generalize out name value = names at hreads
    have hne : ∀ x, name.toList ++ '=' :: '"' :: x ≠ [] := by simp
    cases hreads with
    | nothing =>
      have hdull := hr.dull_value (some '"') hquote hattrs rest
      rw [hs] at hdull
      rw [hr.seeks.scanFrom_unread hname hfound hdull, flatMap_keepFound]
    | whole n =>
      -- The attribute is passed as a whole.
      have hsplit : name.toList ++ '=' :: '"' :: (value.toList ++ '"' :: s) =
          (name.toList ++ '=' :: '"' :: (value.toList ++ ['"'])) ++ s := by simp
      rw [hsplit] at hfound ⊢
      rw [scanFrom_found (hne _) hfound]
      simp [keepFound]
    | @part n front u hvalue =>
      -- The walk goes on inside of the value, where nothing more is found.
      have hu : '"' ∉ u := fun hmem => hquote (by simp [hvalue, hmem])
      have hsplit : name.toList ++ '=' :: '"' :: (value.toList ++ '"' :: s) =
          (name.toList ++ '=' :: '"' :: front) ++ (u ++ '"' :: s) := by simp [hvalue]
      have hdull := hr.dull_value (behind (some ' ') (name.toList ++ '=' :: '"' :: front)) hu hattrs
        rest
      rw [hs] at hdull
      have hclose : Dull r (behind (behind (some ' ') (name.toList ++ '=' :: '"' :: front)) u)
          ['"'] s := hr.seeks.dull_char (by decide)
      have hscan := scanFrom_dull (g := keepFound) (dull_append.2 ⟨hdull, hclose⟩)
      rw [flatMap_keepFound] at hscan
      rw [hsplit] at hfound ⊢
      rw [scanFrom_found (hne _) hfound]
      simpa [keepFound] using hscan

end ReadsValues

/-! ### What follows a value in a tag -/

/-- The names of attributes, and the slash that closes a tag. -/
def tagWords : List String :=
  "/" :: (attrNames ++ flagNames)

/-- A name at the start of a word ends with the word, or in front of a character that neither calls
it nor closes a value. -/
def namesNothing (w : List Char) : Bool :=
  match ident? w with
  | some (_, c :: _) => !isBlank c && c != '(' && c != '"'
  | _ => true

variable {tidy : Prop}

theorem mem_tagWords {a : Attr} (h : a.Fits tidy ∨ a = flag "/") : a.name ∈ tagWords := by
  rcases h with h | rfl
  · cases h with
    | bare hname => simp [tagWords, flag, hname]
    | valued hname => simp [tagWords, attr, hname]
  · exact List.mem_cons_self

theorem tagWords_facts : ∀ w ∈ tagWords, w.toList ≠ [] ∧ namesNothing w.toList = true ∧
    (∀ c ∈ w.toList, isWordy c = true) ∧
    ∀ p ∈ ["in", "of"], (p.toList.zip w.toList).any (fun pair => pair.1 != pair.2) = true := by
  decide +kernel

theorem dropWhile_tagWord {w : String} (hw : w ∈ tagWords) (s : List Char) :
    (' ' :: (w.toList ++ s)).dropWhile isBlank = w.toList ++ s := by
  obtain ⟨hne, -, hwordy, -⟩ := tagWords_facts w hw
  obtain ⟨c, x, hc⟩ := List.exists_cons_of_ne_nil hne
  have hblank : isBlank ' ' = true := by decide
  have hinked : isBlank c = false := isBlank_of_isWordy (hwordy c (by simp [hc]))
  simp [hc, hblank, hinked]

/-- A name at the start of a word in a tag does not go beyond the word, and what follows it is
neither called nor the end of a value. -/
theorem ident?_tagWord {w : String} (hw : w ∈ tagWords) {d : Char} (hd : isIdentChar d = false)
    {s name rest : List Char} (h : ident? (w.toList ++ d :: s) = some (name, rest)) :
    rest = d :: s ∨ ∃ c rest', rest = c :: rest' ∧ isBlank c = false ∧ c ≠ '(' ∧ c ≠ '"' := by
  obtain ⟨-, hnames, -, -⟩ := tagWords_facts w hw
  rw [ident?_append_stop hd, Option.map_eq_some_iff] at h
  obtain ⟨⟨name', rest'⟩, hident, heq⟩ := h
  obtain ⟨rfl, rfl⟩ := Prod.mk.inj heq
  cases rest' with
  | nil => exact .inl rfl
  | cons c rest' =>
    unfold namesNothing at hnames
    rw [hident] at hnames
    simp only [Bool.and_eq_true, Bool.not_eq_true', bne_iff_ne] at hnames
    exact .inr ⟨c, rest' ++ d :: s, rfl, hnames.1.1, hnames.1.2, hnames.2⟩

/-- In a tag stands its end, or a word in front of an equals sign or of more of the tag. -/
theorem dropWhile_in_tag {attrs : List Attr} (h : TagAttrs tidy attrs) (rest : List Char) :
    (attrsText attrs ++ '>' :: rest).dropWhile isBlank = '>' :: rest ∨
      ∃ w ∈ tagWords, ∃ s, (attrsText attrs ++ '>' :: rest).dropWhile isBlank = w.toList ++ s ∧
        ((∃ s', s = '=' :: s') ∨ ∃ attrs', TagAttrs tidy attrs' ∧
          s = attrsText attrs' ++ '>' :: rest) := by
  cases attrs with
  | nil => exact .inl rfl
  | cons a attrs =>
    obtain ⟨ha, hattrs⟩ := List.forall_mem_cons.1 h
    have hw := mem_tagWords ha
    refine .inr ⟨a.name, hw, ?_⟩
    rw [attrsText_cons, List.append_assoc, Attr.write.eq_def]
    cases a.value with
    | none =>
      refine ⟨attrsText attrs ++ '>' :: rest, ?_, .inr ⟨attrs, hattrs, rfl⟩⟩
      rw [← dropWhile_tagWord hw, String.toList_append]
      rfl
    | some v =>
      refine ⟨'=' :: '"' :: (v.toList ++ '"' :: (attrsText attrs ++ '>' :: rest)), ?_,
        .inl ⟨_, rfl⟩⟩
      rw [← dropWhile_tagWord hw]
      simp [String.toList_append]

/-- What follows a name behind a closing quote. -/
theorem ident?_in_tag {attrs : List Attr} (h : TagAttrs tidy attrs) {rest name s : List Char}
    (hident : ident? ((attrsText attrs ++ '>' :: rest).dropWhile isBlank) = some (name, s)) :
    ∃ c s', s.dropWhile isBlank = c :: s' ∧ c ≠ '(' ∧ c ≠ '"' ∧
      (followedBy isBlank s = true →
        after? "in".toList (c :: s') = none ∧ after? "of".toList (c :: s') = none) := by
  have hends : ∀ d ∈ wordEnds, isIdentChar d = false := by decide
  rcases dropWhile_in_tag h rest with hend | ⟨w, hw, s', hs', hnext⟩
  · rw [hend] at hident
    cases hident
  · rw [hs'] at hident
    rcases hnext with ⟨t, rfl⟩ | ⟨attrs', hattrs', rfl⟩
    · rcases ident?_tagWord hw (by decide) hident with rfl | ⟨c, t', rfl, hc, hcall, hquote⟩
      · refine ⟨'=', t, rfl, by decide, by decide, fun hblank => ?_⟩
        exact absurd (followedBy_cons .. ▸ hblank) (by decide)
      · refine ⟨c, t', by simp [hc], hcall, hquote, fun hblank => ?_⟩
        simp [hc] at hblank
    · -- A word without a value: the next word of the tag follows, or its end.
      obtain ⟨d, t, hd, ht⟩ := attrsText_append_cons attrs' rest
      rw [ht] at hident
      rcases ident?_tagWord hw (hends d hd) hident with rfl | ⟨c, t', rfl, hc, hcall, hquote⟩
      · rw [← ht]
        rcases dropWhile_in_tag hattrs' rest with hend | ⟨w', hw', u, hu, -⟩
        · exact ⟨'>', rest, hend, by decide, by decide, fun _ => ⟨rfl, rfl⟩⟩
        · obtain ⟨hne, -, hwordy, hclash⟩ := tagWords_facts w' hw'
          obtain ⟨c, x, hc⟩ := List.exists_cons_of_ne_nil hne
          have hwordy : isWordy c = true := hwordy c (by simp [hc])
          refine ⟨c, x ++ u, by rw [hu, hc]; rfl, ?_, ?_, fun _ => ?_⟩
          · rintro rfl
            exact absurd hwordy (by decide)
          · rintro rfl
            exact absurd hwordy (by decide)
          · rw [← List.cons_append, ← hc]
            exact ⟨after?_of_clash (hclash "in" (by simp)) u,
              after?_of_clash (hclash "of" (by simp)) u⟩
      · refine ⟨c, t', by simp [hc], hcall, hquote, fun hblank => ?_⟩
        simp [hc] at hblank

/-- Behind a closing quote there is no name that a quote closes. -/
theorem readSole_in_tag {attrs : List Attr} (h : TagAttrs tidy attrs) (rest : List Char) :
    readSole (attrsText attrs ++ '>' :: rest) = none := by
  unfold readSole
  cases hident : ident? ((attrsText attrs ++ '>' :: rest).dropWhile isBlank) with
  | none => rfl
  | some found =>
    obtain ⟨name, s⟩ := found
    obtain ⟨c, s', hs', -, hquote, -⟩ := ident?_in_tag h hident
    simp only [Option.bind_eq_bind, Option.bind_some, hs', after?_cons_ne [] s' hquote,
      Option.bind_none]

/-- No handler is read past the end of a value. -/
theorem readCalled_in_tag {attrs : List Attr} (h : TagAttrs tidy attrs) (rest : List Char) :
    readCalled (attrsText attrs ++ '>' :: rest) = none := by
  unfold readCalled
  cases hident : ident? ((attrsText attrs ++ '>' :: rest).dropWhile isBlank) with
  | none => rfl
  | some found =>
    obtain ⟨name, s⟩ := found
    obtain ⟨c, s', hs', hcall, hquote, -⟩ := ident?_in_tag h hident
    simp only [Option.bind_eq_bind, Option.bind_some, hs']
    split
    next heq => exact absurd (List.cons.inj heq).1 hcall
    next heq => exact absurd (List.cons.inj heq).1 hquote
    next => rfl

/-! ### Handlers -/

/-- The event attributes of rendered markup. -/
def eventNames : List String :=
  ["@click", "@submit.prevent"]

/-- The handler that an attribute names. -/
def handlerOf (name value : String) : List String :=
  if eventNames.contains name then ((valueName? true value.toList).map String.ofList).toList else []

/-- Word characters do not end a word in a tag. -/
theorem isWordy_of_isWord {c : Char} (h : isWord c = true) : isWordy c = true := by
  unfold isWordy
  rw [Bool.and_eq_true, Bool.not_eq_true', Bool.not_eq_true']
  constructor
  · rw [← Bool.not_eq_true]
    intro hblank
    rw [isWord_of_isBlank hblank] at h
    cases h
  · rw [← Bool.not_eq_true]
    intro hmem
    have hall : ∀ c ∈ ['=', '"', '<', '>', '('], isWord c = false := by decide
    rw [hall c (by simpa using hmem)] at h
    cases h

theorem isWordy_of_isEventChar {c : Char} (h : isEventChar c = true) : isWordy c = true := by
  unfold isEventChar at h
  simp only [Bool.or_eq_true, beq_iff_eq] at h
  rcases h with ((h | rfl) | rfl) | rfl
  · exact isWordy_of_isWord h
  · decide
  · decide
  · decide

/-- The word in front of the equals sign of an attribute is its name. -/
theorem word_eq_name {name : String} (hname : name ∈ attrNames) {word s s' : List Char}
    (hword : ∀ c ∈ word, isWordy c = true) (h : name.toList ++ '=' :: s = word ++ '=' :: s') :
    word = name.toList ∧ s' = s := by
  have hwordy := isWordy_of_mem_fixedWords name (by simp [fixedWords, hname])
  have hequals : ∀ x : List Char, (∀ c ∈ x, isWordy c = true) → '=' ∉ x :=
    fun x hx hmem => absurd (hx _ hmem) (by decide)
  obtain ⟨hx, hs⟩ := append_cons_inj (hequals _ hwordy) (hequals _ hword) h
  exact ⟨hx.symm, hs.symm⟩

/-- A handler is read from an event attribute. -/
theorem handler_eq_some {before : Option Char} {s : List Char} {x : String × List Char}
    (h : handler before s = some x) :
    ∃ event rest, s = '@' :: (event ++ '=' :: '"' :: rest) ∧ (∀ c ∈ event, isEventChar c = true) ∧
      readCalled rest = some x := by
  unfold handler at h
  simp only [Option.bind_eq_bind, Option.bind_eq_some_iff] at h
  obtain ⟨s₁, h₁, ⟨event, s₂⟩, h₂, s₃, h₃, h₄⟩ := h
  obtain ⟨rfl, -, hevent, -⟩ := span1?_eq_some h₂
  obtain rfl : s₂ = "=\"".toList ++ s₃ := after?_eq_some.1 h₃
  refine ⟨event, s₃, after?_eq_some.1 h₁, hevent, ?_⟩
  unfold readCalled
  simp only [Option.bind_eq_bind, Option.bind_eq_some_iff]
  exact h₄

theorem handler_event {name : String} (h : name ∈ eventNames) (before : Option Char)
    (s : List Char) : handler before (name.toList ++ '=' :: '"' :: s) = readCalled s := by
  simp only [eventNames, List.mem_cons, List.not_mem_nil, or_false] at h
  rcases h with rfl | rfl
  · rfl
  · rfl

/-- Handlers are read from the values of event attributes only. -/
theorem readsValues_handler : ReadsValues tidy handler readCalled handlerOf where
  lead := by
    intro before s x h
    obtain ⟨event, rest, rfl, hevent, hbody⟩ := handler_eq_some h
    refine ⟨rfl, '@' :: event, rest, rfl, hbody, by simp, ?_⟩
    exact List.forall_mem_cons.2 ⟨by decide, fun c hc => isWordy_of_isEventChar (hevent c hc)⟩
  tag h rest := readCalled_in_tag h rest
  value := by
    intro name value hfits s
    have hquote := hfits.quote_not_mem
    by_cases hevent : name ∈ eventNames
    · rw [handler_event hevent, handlerOf, if_pos (by simpa using hevent)]
      exact reads_called hquote s
    · have hall : ∀ name ∈ attrNames, name ∈ eventNames ∨ name.toList.head? ≠ some '@' := by
        decide
      have hnone : handler (some ' ') (name.toList ++ '=' :: '"' :: (value.toList ++ '"' :: s)) =
          none := by
        rw [Option.eq_none_iff_forall_ne_some]
        intro x hx
        obtain ⟨event, rest, hs, -, -⟩ := handler_eq_some hx
        cases hfits with
        | valued hname =>
          refine (hall name hname).elim hevent fun hhead => hhead ?_
          obtain ⟨c, t, hc⟩ := List.exists_cons_of_ne_nil (tagWords_facts name
            (by simp [tagWords, hname])).1
          rw [hc] at hs ⊢
          exact congrArg some (List.cons.inj hs).1
      rw [hnone, handlerOf, if_neg (by simpa using hevent)]
      exact .nothing

/-! ### Bindings -/

/-- The variable that an attribute binds. -/
def modelOf (name value : String) : List String :=
  if name == "v-model" then ((valueName? false value.toList).map String.ofList).toList else []

/-- A binding is read from an attribute with its modifiers. -/
theorem model_eq_some {before : Option Char} {s : List Char} {x : String × List Char}
    (h : model before s = some x) :
    ∃ modifiers rest, s = "v-model".toList ++ (modifiers ++ '=' :: '"' :: rest) ∧
      (∀ c ∈ modifiers, isWordy c = true) ∧ readSole rest = some x := by
  unfold model at h
  simp only [Option.bind_eq_bind, Option.bind_eq_some_iff] at h
  obtain ⟨s₁, h₁, s₂, h₂, s₃, h₃, h₄⟩ := h
  unfold afterModifiers? at h₂
  dsimp only at h₂
  split at h₂
  next =>
    obtain ⟨run, rest, hs₁, hrun, hrest⟩ := exists_run (fun c => isWord c || c == '.') s₁
    rw [hs₁, dropWhile_run hrun hrest] at h₂
    cases h₂
    refine ⟨run, s₃, ?_, ?_, ?_⟩
    · rw [after?_eq_some.1 h₁, hs₁, after?_eq_some.1 h₃]
      rfl
    · intro c hc
      have hc := hrun c hc
      rw [Bool.or_eq_true, beq_iff_eq] at hc
      rcases hc with hc | rfl
      · exact isWordy_of_isWord hc
      · decide
    · unfold readSole
      simp only [Option.bind_eq_bind, Option.bind_eq_some_iff]
      exact h₄
  next => cases h₂

/-- Bindings are read from the values of `v-model` only. -/
theorem readsValues_model : ReadsValues tidy model readSole modelOf where
  lead := by
    intro before s x h
    obtain ⟨modifiers, rest, rfl, hmodifiers, hbody⟩ := model_eq_some h
    refine ⟨rfl, "v-model".toList ++ modifiers, rest, by simp, hbody, by simp, ?_⟩
    exact List.forall_mem_append.2 ⟨by decide, hmodifiers⟩
  tag h rest := readSole_in_tag h rest
  value := by
    intro name value hfits s
    have hquote := hfits.quote_not_mem
    by_cases hmodel : name = "v-model"
    · subst hmodel
      have hread : model (some ' ') ("v-model".toList ++ '=' :: '"' :: (value.toList ++ '"' :: s)) =
          readSole (value.toList ++ '"' :: s) := rfl
      rw [hread, readSole_value hquote]
      exact reads_map _ s _
    · have hall : ∀ name ∈ attrNames, name = "v-model" ∨
          startsWith "v-model".toList name.toList = false := by decide
      have hnone : model (some ' ') (name.toList ++ '=' :: '"' :: (value.toList ++ '"' :: s)) =
          none := by
        rw [Option.eq_none_iff_forall_ne_some]
        intro x hx
        obtain ⟨modifiers, rest, hs, hmodifiers, -⟩ := model_eq_some hx
        cases hfits with
        | valued hname =>
          have hwordy : ∀ c ∈ "v-model".toList ++ modifiers, isWordy c = true :=
            List.forall_mem_append.2 ⟨by decide, hmodifiers⟩
          rw [← List.append_assoc] at hs
          obtain ⟨hword, -⟩ := word_eq_name hname hwordy hs
          rcases hall name hname with heq | hstarts
          · exact hmodel heq
          · rw [← hword, startsWith, after?_append] at hstarts
            cases hstarts
      rw [hnone, modelOf, if_neg (by simpa using hmodel)]
      exact .nothing

/-! ### Loops -/

/-- The source of a loop up to the closing quote, and what follows. -/
def readLoop (s : List Char) : Option (String × List Char) := do
  let s ← loopVariables? (s.dropWhile isBlank)
  let (_, s) ← span1? isBlank s
  let s ← (after? "in".toList s).orElse fun _ => after? "of".toList s
  let (_, s) ← span1? isBlank s
  let (name, s) ← ident? s
  let rest ← after? ['"'] (s.dropWhile isBlank)
  some (String.ofList name, rest)

/-- The source that the value of a loop names. -/
def loopSource? (value : List Char) : Option String :=
  (readLoop (value ++ ['"'])).map (·.1)

/-- The variable that an attribute loops over. -/
def loopOf (name value : String) : List String :=
  if name == "v-for" then (loopSource? value.toList).toList else []

/-- Behind the variables of a loop stands its source. -/
theorem readLoop_head {head : String} (h : head ∈ loopHeads) (s : List Char) :
    readLoop (head.toList ++ s) = readSole s := by
  have hvariables : loopVariables? ((head.toList ++ s).dropWhile isBlank) =
      some (' ' :: 'i' :: 'n' :: ' ' :: s) := by
    simp only [loopHeads, List.mem_cons, List.not_mem_nil, or_false] at h
    rcases h with rfl | rfl | rfl | rfl | rfl | rfl | rfl | rfl <;> rfl
  have hblank : isBlank ' ' = true := by decide
  have hgap : span1? isBlank (' ' :: 'i' :: 'n' :: ' ' :: s) =
      some ([' '], 'i' :: 'n' :: ' ' :: s) := rfl
  have hword : after? "in".toList ('i' :: 'n' :: ' ' :: s) = some (' ' :: s) := rfl
  have hgap' : span1? isBlank (' ' :: s) =
      some (' ' :: s.takeWhile isBlank, s.dropWhile isBlank) := by
    simp [span1?, hblank]
  unfold readLoop readSole
  simp only [hvariables, hgap, hword, hgap', Option.bind_eq_bind, Option.bind_some,
    Option.orElse_some]

theorem loopSource?_append {head : String} (h : head ∈ loopHeads) {source : List Char}
    (hsource : '"' ∉ source) :
    loopSource? (head.toList ++ source) = (valueName? false source).map String.ofList := by
  rw [loopSource?, List.append_assoc, readLoop_head h, readSole_value hsource, Option.map_map]
  rfl

/-- No loop is read past the end of a value. -/
theorem readLoop_in_tag {attrs : List Attr} (h : TagAttrs tidy attrs) (rest : List Char) :
    readLoop (attrsText attrs ++ '>' :: rest) = none := by
  rw [Option.eq_none_iff_forall_ne_some]
  intro x hx
  unfold readLoop at hx
  simp only [Option.bind_eq_bind, Option.bind_eq_some_iff] at hx
  obtain ⟨s₁, h₁, ⟨gap, s₂⟩, h₂, s₃, h₃, -⟩ := hx
  -- No parenthesis stands there, so the loop variable is a name.
  obtain ⟨-, c, s, hdrop, hc⟩ := dropWhile_attrsText h rest
  have hident : ((ident? ((attrsText attrs ++ '>' :: rest).dropWhile isBlank)).map (·.2)) =
      some s₁ := by
    rw [hdrop] at h₁ ⊢
    unfold loopVariables? at h₁
    split at h₁
    next heq =>
      obtain ⟨rfl, -⟩ := List.cons.inj heq
      exact absurd hc (by decide)
    next => exact h₁
  obtain ⟨⟨name, s₁'⟩, hname, rfl⟩ := Option.map_eq_some_iff.1 hident
  obtain ⟨d, t, ht, -, -, hwords⟩ := ident?_in_tag h hname
  obtain ⟨hs₁, hne, hgap, hrest⟩ := span1?_eq_some h₂
  dsimp only at hs₁
  have hblank : followedBy isBlank s₁' = true := by
    obtain ⟨e, gap, rfl⟩ := List.exists_cons_of_ne_nil hne
    rw [hs₁]
    exact hgap e (by simp)
  obtain ⟨hin, hof⟩ := hwords hblank
  rw [hs₁, dropWhile_run hgap hrest] at ht
  rw [ht, hin, hof] at h₃
  cases h₃

/-- A loop is read from its attribute. -/
theorem loop_eq_some {before : Option Char} {s : List Char} {x : String × List Char}
    (h : loop before s = some x) :
    ∃ rest, s = "v-for".toList ++ '=' :: '"' :: rest ∧ readLoop rest = some x := by
  unfold loop at h
  rw [Option.bind_eq_bind, Option.bind_eq_some_iff] at h
  obtain ⟨s₁, h₁, h₂⟩ := h
  exact ⟨s₁, by rw [after?_eq_some.1 h₁]; rfl, h₂⟩

/-- Loops are read from the values of `v-for` only. -/
theorem readsValues_loop : ReadsValues tidy loop readLoop loopOf where
  lead := by
    intro before s x h
    obtain ⟨rest, rfl, hbody⟩ := loop_eq_some h
    exact ⟨rfl, "v-for".toList, rest, rfl, hbody, by simp, by decide⟩
  tag h rest := readLoop_in_tag h rest
  value := by
    intro name value hfits s
    have hquote := hfits.quote_not_mem
    cases hfits with
    | valued hname hvalue hloop =>
      by_cases hfor : name = "v-for"
      · subst hfor
        obtain ⟨head, hhead, source, rfl⟩ := hloop rfl
        rw [String.toList_append] at hquote ⊢
        have hsource : '"' ∉ source.toList := fun hmem => hquote (List.mem_append_right _ hmem)
        have hread : loop (some ' ') ("v-for".toList ++ '=' :: '"' ::
            (head.toList ++ source.toList ++ '"' :: s)) =
              (valueName? false source.toList).map fun name => (String.ofList name, s) := by
          rw [List.append_assoc, ← readSole_value hsource, ← readLoop_head hhead]
          rfl
        rw [hread, loopOf, String.toList_append, loopSource?_append hhead hsource]
        exact reads_map _ s _
      · have hnone : loop (some ' ') (name.toList ++ '=' :: '"' :: (value.toList ++ '"' :: s)) =
            none := by
          rw [Option.eq_none_iff_forall_ne_some]
          intro x hx
          obtain ⟨rest, hs, -⟩ := loop_eq_some hx
          obtain ⟨hword, -⟩ := word_eq_name hname (by decide) hs
          exact hfor (String.toList_injective hword.symm)
        rw [hnone, loopOf, if_neg (by simpa using hfor)]
        exact .nothing

/-! ### The names of a page -/

/-- The names that markup refers to. -/
def referred (markup : String) : List String :=
  handlers markup ++ models markup ++ loops markup

/-- The names that an attribute refers to. -/
def refersTo (name value : String) : List String :=
  handlerOf name value ++ modelOf name value ++ loopOf name value

/-- What an attribute refers to is named by its value, or by the source of its loop. -/
theorem mem_refersTo_iff {name value : String} (h : (attr name value).Fits tidy) {n : String} :
    n ∈ refersTo name value ↔
      (name ∈ eventNames ∧ valueName? true value.toList = some n.toList) ∨
      (name = "v-model" ∧ valueName? false value.toList = some n.toList) ∨
      (name = "v-for" ∧ ∃ head ∈ loopHeads, ∃ source, value.toList = head.toList ++ source ∧
        valueName? false source = some n.toList) := by
  have hmem : ∀ found : Option (List Char), n ∈ (found.map String.ofList).toList ↔
      found = some n.toList := by
    intro found
    cases found with
    | none => simp
    | some x =>
      rw [Option.map_some, Option.toList_some, List.mem_singleton, Option.some_inj]
      constructor
      · rintro rfl
        exact (String.toList_ofList).symm
      · rintro rfl
        exact (String.ofList_toList).symm
  have hloop : name = "v-for" → (n ∈ (loopSource? value.toList).toList ↔
      ∃ head ∈ loopHeads, ∃ source, value.toList = head.toList ++ source ∧
        valueName? false source = some n.toList) := by
    intro hname
    have hquote := h.quote_not_mem
    constructor
    · intro hn
      cases h with
      | valued _ _ hfor =>
        obtain ⟨head, hhead, source, rfl⟩ := hfor hname
        rw [String.toList_append] at hquote hn ⊢
        rw [loopSource?_append hhead fun hmem => hquote (List.mem_append_right _ hmem), hmem] at hn
        exact ⟨head, hhead, source.toList, rfl, hn⟩
    · rintro ⟨head, hhead, source, hvalue, hn⟩
      rw [hvalue] at hquote ⊢
      rw [loopSource?_append hhead fun hmem => hquote (List.mem_append_right _ hmem), hmem]
      exact hn
  unfold refersTo handlerOf modelOf loopOf
  rw [List.mem_append, List.mem_append, or_assoc]
  refine or_congr ?_ (or_congr ?_ ?_)
  · by_cases hname : name ∈ eventNames
    · rw [if_pos (by simpa using hname), hmem]
      simp [hname]
    · rw [if_neg (by simpa using hname)]
      simp [hname]
  · by_cases hname : name = "v-model"
    · rw [if_pos (by simpa using hname), hmem]
      simp [hname]
    · rw [if_neg (by simpa using hname)]
      simp [hname]
  · by_cases hname : name = "v-for"
    · rw [if_pos (by simpa using hname), hloop hname]
      simp [hname]
    · rw [if_neg (by simpa using hname)]
      simp [hname]

/-- Rendered markup refers to what its attributes refer to. -/
theorem mem_referred_iff {tags : List Tag} {markup : String} (h : Woven tags markup.toList)
    (hfits : ∀ t ∈ tags, t.Fits tidy) {n : String} :
    n ∈ referred markup ↔
      ∃ t ∈ tags, ∃ a ∈ t.attrs, ∃ value, a.value = some value ∧ n ∈ refersTo a.name value := by
  simp only [referred, refersTo, handlers, models, loops, findAll_eq, List.mem_append,
    List.mem_eraseDups, readsValues_handler.attrWalk.mem_found h hfits,
    readsValues_model.attrWalk.mem_found h hfits, readsValues_loop.attrWalk.mem_found h hfits]
  constructor
  · rintro ((⟨t, ht, a, ha, v, hv, hn⟩ | ⟨t, ht, a, ha, v, hv, hn⟩) | ⟨t, ht, a, ha, v, hv, hn⟩)
    · exact ⟨t, ht, a, ha, v, hv, .inl (.inl hn)⟩
    · exact ⟨t, ht, a, ha, v, hv, .inl (.inr hn)⟩
    · exact ⟨t, ht, a, ha, v, hv, .inr hn⟩
  · rintro ⟨t, ht, a, ha, v, hv, (hn | hn) | hn⟩
    · exact .inl (.inl ⟨t, ht, a, ha, v, hv, hn⟩)
    · exact .inl (.inr ⟨t, ht, a, ha, v, hv, hn⟩)
    · exact .inr ⟨t, ht, a, ha, v, hv, hn⟩

end Directive

end PageCompiler
