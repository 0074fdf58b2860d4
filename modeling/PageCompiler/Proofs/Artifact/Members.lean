import PageCompiler.Policy.Apply
import PageCompiler.Proofs.Text.Scan

/-!
# `PageCompiler.Proofs.Artifact.Members`: what the lines of a script declare

A script that is put together from known lines declares what these lines declare. `Line` tells the
lines apart by how they start: with a name in front of a colon or a parenthesis, with another word,
with a closing brace, or with a comment. `mem_scriptKeys` finds every declared name.
-/

set_option autoImplicit false

namespace PageCompiler.Directive

open Text

/-- Lines that a line feed ends, one after another. -/
def feed (ls : List (List Char)) : List Char :=
  ls.flatMap (· ++ ['\n'])

@[simp] theorem feed_nil : feed [] = [] := rfl

@[simp] theorem feed_cons (l : List Char) (ls : List (List Char)) :
    feed (l :: ls) = l ++ '\n' :: feed ls := by
  simp [feed]

/-- The words that a line starts with without declaring something. -/
def leadWords : List String :=
  ["const", "return", "console"]

/-- A line of a script, and the name that it declares, if there is one. -/
inductive Line : List Char → Option (List Char) → Prop
  | declares {gap name rest : List Char} {c : Char} (hgap : ∀ d ∈ gap, isBlank d = true)
      (hname : IsIdent name) (hc : c ∈ [':', '(']) (hrest : '\n' ∉ rest) :
      Line (gap ++ (name ++ c :: rest)) (some name)
  | leads {gap gap' rest : List Char} {w : String} {c : Char}
      (hgap : ∀ d ∈ gap, Policy.isSpace d = true) (hw : w ∈ leadWords)
      (hgap' : ∀ d ∈ gap', Policy.isSpace d = true) (hc : c ∈ ['.', '\x7b'])
      (hrest : '\n' ∉ rest) : Line (gap ++ (w.toList ++ (gap' ++ c :: rest))) none
  | closes {gap rest : List Char} (hgap : ∀ d ∈ gap, Policy.isSpace d = true)
      (hrest : '\n' ∉ rest) : Line (gap ++ '\x7d' :: rest) none
  | comments {gap rest : List Char} (hgap : ∀ d ∈ gap, Policy.isSpace d = true)
      (hrest : '\n' ∉ rest) : Line (gap ++ '/' :: '/' :: rest) none

/-! ### Members at line starts -/

section Member

variable {marks : List Char} {before : Option Char}

theorem lineWise_member : LineWise (member marks) := by
  intro before s hbefore
  rw [member, hbefore]
  rfl

/-- Behind the start of a line no member is found up to its end. -/
theorem scanFrom_member_rest (hbefore : atLineStart before = false) {x : List Char}
    (hx : '\n' ∉ x) (s : List Char) :
    scanFrom (member marks) keepFound before (x ++ '\n' :: s) =
      scanFrom (member marks) keepFound (some '\n') s := by
  rw [scanFrom_dull (lineWise_member.dull hbefore hx _), flatMap_keepFound, List.nil_append,
    scanFrom_plain (lineWise_member _ _ (atLineStart_behind hbefore hx))]
  rfl

/-- A line where no member is found at the start. -/
theorem scanFrom_member_none {c : Char} {x s : List Char}
    (hnone : member marks before (c :: x ++ '\n' :: s) = none) (hx : '\n' ∉ c :: x) :
    scanFrom (member marks) keepFound before (c :: x ++ '\n' :: s) =
      scanFrom (member marks) keepFound (some '\n') s := by
  obtain ⟨hc, hx⟩ := not_or.1 (mt List.mem_cons.2 hx)
  rw [List.cons_append] at hnone ⊢
  rw [scanFrom_plain hnone]
  exact scanFrom_member_rest (by simpa [atLineStart] using Ne.symm hc) hx s

/-- A member is a name in front of a mark, behind the blanks at the start of a line, unless the word
for asynchronous methods stands there. -/
theorem member_eq (hbefore : atLineStart before = true) {gap s : List Char}
    (hgap : ∀ d ∈ gap, isBlank d = true) (hs : followedBy isBlank s = false)
    (hasync : ∀ s', after? "async".toList s = some s' → followedBy isBlank s' = false) :
    member marks before (gap ++ s) = nameBefore? marks s := by
  have hspan : ∀ s', after? "async".toList s = some s' → span1? isBlank s' = none := by
    intro s' h
    have hblank := hasync s' h
    cases s' with
    | nil => rfl
    | cons c s' => rw [span1?, if_neg (by simpa using hblank)]
  rw [member, if_pos hbefore, dropWhile_run hgap hs]
  simp only [Option.bind_eq_bind]
  cases h : after? "async".toList s with
  | none => rfl
  | some s' =>
    rw [Option.bind_some, hspan s' h]
    rfl

/-- The word for asynchronous methods is not read where a name stands directly in front of a
mark. -/
theorem followedBy_async {name s s' : List Char} {c : Char}
    (hname : ∀ d ∈ name, isIdentChar d = true) (hc : c ∉ "async".toList)
    (hblank : isBlank c = false) (h : after? "async".toList (name ++ c :: s) = some s') :
    followedBy isBlank s' = false := by
  rw [after?_eq_some, List.append_eq_append_iff] at h
  rcases h with ⟨r, hasync, hrest⟩ | ⟨r, rfl, rfl⟩
  · cases r with
    | nil =>
      rw [List.nil_append] at hrest
      rw [← hrest]
      exact hblank
    | cons d r =>
      -- The mark would be a letter of the word.
      obtain ⟨rfl, -⟩ := List.cons.inj hrest
      exact absurd (by rw [hasync]; simp) hc
  · cases r with
    | nil => exact hblank
    | cons d r =>
      have hd : isIdentChar d = true := hname d (by simp)
      rw [List.cons_append, followedBy_cons, ← Bool.not_eq_true]
      intro hd'
      rw [isIdentChar_of_isBlank hd'] at hd
      cases hd

/-- A line that declares a name is passed with it. -/
theorem scanFrom_member_declares (hbefore : atLineStart before = true)
    {gap name rest : List Char} {c : Char} (hgap : ∀ d ∈ gap, isBlank d = true)
    (hname : IsIdent name) (hc : c ∈ [':', '(']) (hrest : '\n' ∉ rest) (s : List Char) :
    scanFrom (member [':', '(']) keepFound before (gap ++ (name ++ c :: rest) ++ '\n' :: s) =
      String.ofList name :: scanFrom (member [':', '(']) keepFound (some '\n') s := by
  have hmarks : ∀ c ∈ [':', '('], c ∉ "async".toList ∧ isBlank c = false ∧
      isIdentChar c = false ∧ atLineStart (some c) = false := by decide
  obtain ⟨hasync, hblank, hstop, hstart⟩ := hmarks c hc
  obtain ⟨d, name', rfl⟩ := List.exists_cons_of_ne_nil hname.ne_nil
  have hd : isBlank d = false := by
    rw [← Bool.not_eq_true]
    intro hd
    have hident := hname.chars d (by simp)
    rw [isIdentChar_of_isBlank hd] at hident
    cases hident
  have hfound : member [':', '('] before ((gap ++ (d :: name') ++ [c]) ++ (rest ++ '\n' :: s)) =
      some (String.ofList (d :: name'), rest ++ '\n' :: s) := by
    have hident : ident? ((d :: name') ++ c :: (rest ++ '\n' :: s)) = some (d :: name', _) :=
      ident?_eq_some.2 ⟨rfl, hname, hstop⟩
    have heq : member [':', '('] before (gap ++ ((d :: name') ++ c :: (rest ++ '\n' :: s))) = _ :=
      member_eq hbefore hgap hd fun s' => followedBy_async hname.chars hasync hblank
    simp only [List.append_assoc, List.singleton_append]
    rw [heq, nameBefore?, hident]
    simp only [Option.bind_eq_bind, Option.bind_some]
    rw [List.dropWhile_cons_of_neg (by simp [hblank])]
    exact if_pos (List.contains_iff_mem.2 hc)
  have hfinds := scanFrom_found (g := keepFound) (by simp) hfound
  simp only [List.append_assoc, List.cons_append, List.nil_append] at hfinds ⊢
  rw [hfinds, ← List.cons_append, ← List.append_assoc, behind_append]
  exact congrArg (String.ofList (d :: name') :: ·) (scanFrom_member_rest hstart hrest s)

/-- A line that starts with neither a blank nor a variable declares nothing. -/
theorem member_of_bare (hbefore : atLineStart before = true) {gap s : List Char} {c : Char}
    (hgap : ∀ d ∈ gap, isBlank d = true) (hc : isBlank c = false) (hstart : isIdentStart c = false)
    (hasync : c ≠ 'a') : member marks before (gap ++ c :: s) = none := by
  have hnone : after? "async".toList (c :: s) = none := after?_cons_ne _ s hasync
  have heq : member marks before (gap ++ c :: s) = _ := member_eq hbefore hgap hc fun s' h => by
    rw [hnone] at h
    cases h
  rw [heq, nameBefore?, ident?, if_neg (by simp [hstart])]
  rfl

/-- A line that starts with another word declares nothing. -/
theorem member_of_leads (hbefore : atLineStart before = true) {gap gap' s : List Char} {w : String}
    {c : Char} (hgap : ∀ d ∈ gap, isBlank d = true) (hw : w ∈ leadWords)
    (hgap' : ∀ d ∈ gap', isBlank d = true) (hc : c ∈ ['.', '\x7b']) :
    member [':', '('] before (gap ++ (w.toList ++ (gap' ++ c :: s))) = none := by
  have hwords : ∀ w ∈ leadWords, IsIdent w.toList ∧ followedBy isBlank w.toList = false ∧
      followedBy (· == 'a') w.toList = false := by decide
  have hmarks : ∀ c ∈ ['.', '\x7b'], isBlank c = false ∧ isIdentChar c = false ∧
      c ∉ [':', '('] := by decide
  obtain ⟨hident, hblank, hasync⟩ := hwords w hw
  obtain ⟨hcblank, hcstop, hcmark⟩ := hmarks c hc
  obtain ⟨d, name, hd⟩ := List.exists_cons_of_ne_nil hident.ne_nil
  have hstop : followedBy isIdentChar (gap' ++ c :: s) = false := by
    cases gap' with
    | nil => exact hcstop
    | cons e gap' => exact isIdentChar_of_isBlank (hgap' e (by simp))
  have hname := ident?_eq_some.2 ⟨rfl, hident, hstop⟩
  rw [hd] at hblank hasync hname ⊢
  have heq : member [':', '('] before (gap ++ ((d :: name) ++ (gap' ++ c :: s))) = _ :=
    member_eq hbefore hgap hblank fun s' h => by
      have hne : d ≠ 'a' := by simpa using hasync
      have hnone : after? "async".toList ((d :: name) ++ (gap' ++ c :: s)) = none :=
        after?_cons_ne _ _ hne
      rw [hnone] at h
      cases h
  rw [heq, nameBefore?, hname]
  simp only [Option.bind_eq_bind, Option.bind_some]
  rw [dropWhile_run (s := c :: s) hgap' hcblank]
  simp only [List.contains_iff_mem, hcmark, if_false]

end Member

theorem isBlank_of_isSpace {c : Char} (h : Policy.isSpace c = true) : isBlank c = true := by
  unfold Policy.isSpace at h
  simp only [Bool.or_eq_true, beq_iff_eq] at h
  rcases h with rfl | rfl
  · decide
  · decide

theorem isBlank_of_spaces {gap : List Char} (h : ∀ d ∈ gap, Policy.isSpace d = true) :
    ∀ d ∈ gap, isBlank d = true :=
  fun d hd => isBlank_of_isSpace (h d hd)

theorem feed_not_mem_spaces {gap : List Char} (h : ∀ d ∈ gap, Policy.isSpace d = true) :
    '\n' ∉ gap :=
  fun hmem => absurd (h _ hmem) (by decide)

/-- A line of a script is passed with the name that it declares. -/
theorem Line.scanFrom {l : List Char} {key : Option (List Char)} (h : Line l key)
    {before : Option Char} (hbefore : atLineStart before = true) (s : List Char) :
    Text.scanFrom (member [':', '(']) keepFound before (l ++ '\n' :: s) =
      (key.map String.ofList).toList ++
        Text.scanFrom (member [':', '(']) keepFound (some '\n') s := by
  -- The three kinds that declare nothing differ in why no member is found at their start.
  have hmute : ∀ {l : List Char}, l ≠ [] → '\n' ∉ l →
      member [':', '('] before (l ++ '\n' :: s) = none →
      Text.scanFrom (member [':', '(']) keepFound before (l ++ '\n' :: s) =
        Text.scanFrom (member [':', '(']) keepFound (some '\n') s := by
    intro l hne hfeed hnone
    obtain ⟨c, x, rfl⟩ := List.exists_cons_of_ne_nil hne
    exact scanFrom_member_none hnone hfeed
  cases h with
  | declares hgap hname hc hrest => exact scanFrom_member_declares hbefore hgap hname hc hrest s
  | @leads gap gap' rest w c hgap hw hgap' hc hrest =>
    have hwords : ∀ w ∈ leadWords, '\n' ∉ w.toList := by decide
    have hmark : c ≠ '\n' := by
      rintro rfl
      exact absurd hc (by decide)
    refine hmute (by simp) ?_ ?_
    · simp [feed_not_mem_spaces hgap, feed_not_mem_spaces hgap', hwords w hw, hrest, hmark.symm]
    · simp only [List.append_assoc, List.cons_append]
      exact member_of_leads hbefore (isBlank_of_spaces hgap) hw
        (isBlank_of_spaces hgap') hc
  | closes hgap hrest =>
    refine hmute (by simp) (by simp [feed_not_mem_spaces hgap, hrest]) ?_
    rw [List.append_assoc, List.cons_append]
    exact member_of_bare hbefore (isBlank_of_spaces hgap) (by decide)
      (by decide) (by decide)
  | comments hgap hrest =>
    refine hmute (by simp) (by simp [feed_not_mem_spaces hgap, hrest]) ?_
    rw [List.append_assoc, List.cons_append]
    exact member_of_bare hbefore (isBlank_of_spaces hgap) (by decide)
      (by decide) (by decide)

/-- A line that declares nothing does not start with a line feed. -/
theorem Line.followedBy_feed {l : List Char} (h : Line l none) (s : List Char) :
    followedBy (· == '\n') (l ++ s) = false := by
  -- Behind the spaces stands a character that is no line feed.
  have hgap : ∀ {gap y : List Char}, (∀ d ∈ gap, Policy.isSpace d = true) →
      followedBy (· == '\n') y = false → followedBy (· == '\n') (gap ++ y) = false := by
    intro gap y hgap hy
    cases gap with
    | nil => exact hy
    | cons d gap =>
      rw [List.cons_append, followedBy_cons, beq_eq_false_iff_ne]
      rintro rfl
      exact feed_not_mem_spaces hgap (by simp)
  cases h with
  | @leads gap gap' rest w c hg hw hg' hc hrest =>
    have hwords : ∀ w ∈ leadWords, w.toList ≠ [] ∧ followedBy (· == '\n') w.toList = false := by
      decide
    obtain ⟨hne, hfirst⟩ := hwords w hw
    obtain ⟨d, name, hd⟩ := List.exists_cons_of_ne_nil hne
    rw [hd] at hfirst ⊢
    rw [List.append_assoc]
    exact hgap hg hfirst
  | closes hg hrest =>
    rw [List.append_assoc]
    exact hgap hg rfl
  | comments hg hrest =>
    rw [List.append_assoc]
    exact hgap hg rfl

/-- A script with a header declares what its lines declare. -/
theorem mem_scriptKeys {head : List Char} {ls : List (List Char)} (hhead : '\n' ∉ head)
    (hls : ∀ l ∈ ls, ∃ key, Line l key) {l name : List Char} (hl : l ∈ ls)
    (hline : Line l (some name)) (last : List Char) :
    String.ofList name ∈ scriptKeys (String.ofList ('/' :: head ++ '\n' :: (feed ls ++ last))) := by
  have hnone : member [':', '('] none ([] ++ '/' :: (head ++ '\n' :: (feed ls ++ last))) = none :=
    member_of_bare rfl (by simp) (by decide) (by decide) (by decide)
  rw [scriptKeys, List.mem_eraseDups, String.toList_ofList, findAll_eq,
    scanFrom_member_none hnone (by simp [hhead])]
  clear hnone
  induction ls with
  | nil => cases hl
  | cons l' ls ih =>
    rw [feed_cons, List.append_assoc, List.cons_append]
    rcases List.mem_cons.1 hl with rfl | hl
    · rw [hline.scanFrom rfl]
      simp
    · obtain ⟨key, hkey⟩ := hls l' (by simp)
      rw [hkey.scanFrom rfl]
      exact List.mem_append_right _ (ih (fun l hl => hls l (List.mem_cons_of_mem l' hl)) hl)

end PageCompiler.Directive
