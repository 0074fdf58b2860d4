import PageCompiler.Policy.Rename
import PageCompiler.Proofs.Assoc
import PageCompiler.Proofs.Text.Scan

/-!
# `PageCompiler.Proofs.Policy.Renaming`: renaming word by word

Code consists of literals and comments, of words, and of single characters in between. Renaming
goes through it piece by piece: `run_quiet`, `run_word` and `run_mark` say what becomes of each, and
`code_induction` is the induction that goes with them. Every text is code in this sense, also one
with a quote that nothing closes.
-/

set_option autoImplicit false

namespace PageCompiler.Rename

open Text

/-! ### Literals and comments -/

/-- A literal is cut behind its closing quote. -/
theorem literalRest?_eq_some {quote : Char} {s inner rest : List Char}
    (h : literalRest? quote s = some (inner, rest)) :
    s = inner ++ rest ∧ ∀ before, behind before inner = some quote := by
  fun_induction literalRest? quote s generalizing inner with
  | case1 => cases h
  | case2 c s ih =>
    rw [Option.map_eq_some_iff] at h
    obtain ⟨⟨inner', rest'⟩, hrest, heq⟩ := h
    obtain ⟨rfl, rfl⟩ := Prod.mk.inj heq
    obtain ⟨rfl, hbehind⟩ := ih hrest
    exact ⟨rfl, fun before => hbehind _⟩
  | case3 => cases h
  | case4 c s _ _ hquote =>
    cases h
    rw [eq_of_beq hquote]
    exact ⟨rfl, fun before => rfl⟩
  | case5 => cases h
  | case6 c s _ _ _ _ ih =>
    rw [Option.map_eq_some_iff] at h
    obtain ⟨⟨inner', rest'⟩, hrest, heq⟩ := h
    obtain ⟨rfl, rfl⟩ := Prod.mk.inj heq
    obtain ⟨rfl, hbehind⟩ := ih hrest
    exact ⟨rfl, fun before => hbehind _⟩

/-- Characters that a literal or a comment starts with. -/
def isQuietStart (c : Char) : Bool :=
  c == '/' || isLiteralQuote c

theorem isQuietStart_of_isBlank {c : Char} (h : isBlank c = true) : isQuietStart c = false := by
  rw [← Bool.not_eq_true]
  intro hstart
  unfold isQuietStart isLiteralQuote at hstart
  simp only [Bool.or_eq_true, beq_iff_eq] at hstart
  rcases hstart with rfl | (rfl | rfl) | rfl <;> exact absurd h (by decide)

theorem isIdentChar_of_isQuietStart {c : Char} (h : isQuietStart c = true) :
    isIdentChar c = false := by
  unfold isQuietStart isLiteralQuote at h
  simp only [Bool.or_eq_true, beq_iff_eq] at h
  rcases h with rfl | (rfl | rfl) | rfl
  · decide
  · decide
  · decide
  · decide

/-- A literal or a comment starts with a sign of its own, and no word goes over its end. -/
theorem quiet?_eq_some {s text rest : List Char} (h : quiet? s = some (text, rest)) :
    s = text ++ rest ∧ followedBy isQuietStart text = true ∧
      ∀ before, precededBy isIdentChar (behind before text) = true →
        followedBy isIdentChar rest = false := by
  unfold quiet? at h
  split at h
  next => cases h
  next s =>
    -- A comment up to the end of the line.
    obtain ⟨line, rest', rfl, hline, hrest⟩ := exists_run (· != '\n') s
    rw [takeWhile_run hline hrest, dropWhile_run hline hrest] at h
    cases h
    refine ⟨rfl, rfl, fun _ _ => ?_⟩
    cases rest with
    | nil => rfl
    | cons c rest =>
      obtain rfl : c = '\n' := by simpa using hrest
      rfl
  next s =>
    rw [Option.map_eq_some_iff] at h
    obtain ⟨⟨inner, rest'⟩, hrest, heq⟩ := h
    obtain ⟨rfl, rfl⟩ := Prod.mk.inj heq
    rw [upTo?_eq_some hrest]
    refine ⟨by simp, rfl, fun before hbehind => ?_⟩
    simp only [List.cons_append, behind_cons, behind_append, behind_nil] at hbehind
    exact absurd hbehind (by decide)
  next c s _ _ =>
    split at h
    next hquote =>
      rw [Option.map_eq_some_iff] at h
      obtain ⟨⟨inner, rest'⟩, hrest, heq⟩ := h
      obtain ⟨rfl, rfl⟩ := Prod.mk.inj heq
      obtain ⟨rfl, hbehind⟩ := literalRest?_eq_some hrest
      have hstart : isQuietStart c = true := by simp [isQuietStart, hquote]
      refine ⟨rfl, hstart, fun before hend => ?_⟩
      rw [behind_cons, hbehind] at hend
      rw [precededBy, isIdentChar_of_isQuietStart hstart] at hend
      cases hend
    next => cases h

theorem quiet?_of_not_isQuietStart {c : Char} {s : List Char} (h : isQuietStart c = false) :
    quiet? (c :: s) = none := by
  rw [Option.eq_none_iff_forall_ne_some]
  rintro ⟨text, rest⟩ hquiet
  obtain ⟨hs, hstart, -⟩ := quiet?_eq_some hquiet
  cases text with
  | nil => cases hstart
  | cons d text =>
    obtain ⟨rfl, -⟩ := List.cons.inj hs
    rw [followedBy_cons, h] at hstart
    cases hstart

theorem quiet?_of_isIdentChar {c : Char} {s : List Char} (h : isIdentChar c = true) :
    quiet? (c :: s) = none := by
  refine quiet?_of_not_isQuietStart ?_
  rw [← Bool.not_eq_true]
  intro hstart
  rw [isIdentChar_of_isQuietStart hstart] at h
  cases h

/-- A slash that starts no comment. -/
theorem quiet?_slash {d : Char} (hslash : d ≠ '/') (hstar : d ≠ '*') (s : List Char) :
    quiet? ('/' :: d :: s) = none := by
  rw [quiet?, if_neg (by decide)]
  · simp [hslash]
  · simp [hstar]

/-! ### Induction over code -/

/-- Code is made of literals and comments, of words, and of single characters. -/
theorem code_induction {P : List Char → Prop} (nil : P [])
    (quiet : ∀ text s, quiet? (text ++ s) = some (text, s) → P s → P (text ++ s))
    (word : ∀ w s, w ≠ [] → (∀ c ∈ w, isIdentChar c = true) → followedBy isIdentChar s = false →
      P s → P (w ++ s))
    (mark : ∀ c s, isIdentChar c = false → quiet? (c :: s) = none → P s → P (c :: s))
    (s : List Char) : P s := by
  induction hn : s.length using Nat.strongRecOn generalizing s with
  | ind n ih =>
    subst hn
    cases s with
    | nil => exact nil
    | cons c s =>
      cases hquiet : quiet? (c :: s) with
      | some found =>
        obtain ⟨text, rest⟩ := found
        obtain ⟨hs, hstart, -⟩ := quiet?_eq_some hquiet
        rw [hs] at hquiet ⊢
        refine quiet text rest hquiet (ih _ ?_ rest rfl)
        cases text with
        | nil => cases hstart
        | cons d text =>
          simp only [hs, List.cons_append, List.length_cons, List.length_append]
          omega
      | none =>
        by_cases hc : isIdentChar c = true
        · obtain ⟨run, rest, rfl, hrun, hrest⟩ := exists_run isIdentChar s
          have hword : ∀ d ∈ c :: run, isIdentChar d = true := List.forall_mem_cons.2 ⟨hc, hrun⟩
          refine word (c :: run) rest (by simp) hword hrest (ih _ ?_ rest rfl)
          simp only [List.length_cons, List.length_append]
          omega
        · exact mark c s (by simpa using hc) hquiet (ih _ (by simp) s rfl)

/-! ### Renaming -/

/-- Aliases and canonical names are names of variables. -/
def Regular (aliases : Assoc String) : Prop :=
  ∀ entry ∈ aliases, IsIdent entry.1.toList ∧ IsIdent entry.2.toList

instance (aliases : Assoc String) : Decidable (Regular aliases) :=
  inferInstanceAs (Decidable (∀ entry ∈ aliases, IsIdent entry.1.toList ∧ IsIdent entry.2.toList))

/-- The canonical form of a word. -/
def canonical (aliases : Assoc String) (w : List Char) : List Char :=
  ((Assoc.get? aliases (String.ofList w)).getD (String.ofList w)).toList

theorem canonical_of_none {aliases : Assoc String} {w : List Char}
    (h : Assoc.get? aliases (String.ofList w) = none) : canonical aliases w = w := by
  rw [canonical, h, Option.getD_none, String.toList_ofList]

theorem canonical_of_some {aliases : Assoc String} {w : List Char} {target : String}
    (h : Assoc.get? aliases (String.ofList w) = some target) :
    canonical aliases w = target.toList := by
  rw [canonical, h, Option.getD_some]

/-- A canonical form is no alias, if no canonical name is one. -/
theorem has_canonical {aliases : Assoc String}
    (htargets : ∀ e ∈ aliases, Assoc.has aliases e.2 = false) (w : List Char) :
    Assoc.has aliases (String.ofList (canonical aliases w)) = false := by
  cases hget : Assoc.get? aliases (String.ofList w) with
  | none =>
    rw [canonical_of_none hget]
    exact Assoc.get?_eq_none_iff.1 hget
  | some target =>
    rw [canonical_of_some hget, String.ofList_toList]
    exact htargets _ (Assoc.mem_of_get? hget)

/-- A name fits at a word exactly if it is that word. -/
theorem firstName?_word {names : List String} (hnames : ∀ n ∈ names, IsIdent n.toList)
    {w s : List Char} (hw : ∀ c ∈ w, isIdentChar c = true) (hs : followedBy isIdentChar s = false) :
    firstName? names (w ++ s) =
      if String.ofList w ∈ names then some (String.ofList w, s) else none := by
  induction names with
  | nil => rfl
  | cons n names ih =>
    obtain ⟨hn, hnames⟩ := List.forall_mem_cons.1 hnames
    have ih := ih hnames
    unfold firstName? at ih ⊢
    rw [List.findSome?_cons, ih]
    by_cases heq : n = String.ofList w
    · subst heq
      rw [String.toList_ofList, after?_append]
      simp [hs]
    · have hother : ∀ rest, w ++ s = n.toList ++ rest → followedBy isIdentChar rest = true := by
        intro rest hrest
        by_contra hend
        have hend : followedBy isIdentChar rest = false := by simpa using hend
        have htake := congrArg (List.takeWhile isIdentChar) hrest
        rw [takeWhile_run hw hs, takeWhile_run hn.chars hend] at htake
        exact heq (by rw [htake, String.ofList_toList])
      have hmem : String.ofList w ∈ n :: names ↔ String.ofList w ∈ names := by
        simp [Ne.symm heq]
      simp only [hmem]
      cases hafter : after? n.toList (w ++ s) with
      | none => rfl
      | some rest => simp [hother rest (after?_eq_some.1 hafter)]

/-- No name fits where no word starts. -/
theorem firstName?_mark {names : List String} (hnames : ∀ n ∈ names, IsIdent n.toList)
    {c : Char} (hc : isIdentChar c = false) (s : List Char) : firstName? names (c :: s) = none := by
  unfold firstName?
  rw [List.findSome?_eq_none_iff]
  intro n hn
  obtain ⟨d, x, hd⟩ := List.exists_cons_of_ne_nil (hnames n hn).ne_nil
  have hne : c ≠ d := by
    rintro rfl
    have hchar := (hnames n hn).chars c (by simp [hd])
    rw [hc] at hchar
    cases hchar
  rw [hd, after?_cons_ne _ _ hne]

theorem firstName?_nil {names : List String} (hnames : ∀ n ∈ names, IsIdent n.toList) :
    firstName? names [] = none := by
  unfold firstName?
  rw [List.findSome?_eq_none_iff]
  intro n hn
  obtain ⟨d, x, hd⟩ := List.exists_cons_of_ne_nil (hnames n hn).ne_nil
  rw [hd, after?]

/-- What renaming puts in the place of a token. -/
def put (aliases : Assoc String) : Token → List Char
  | .quiet text => text
  | .word name => ((Assoc.get? aliases name).getD name).toList

/-- The walk that renames, behind a character. -/
def walk (aliases : Assoc String) (before : Option Char) (s : List Char) : List Char :=
  scanFrom (token (longestFirst aliases.keys)) (putFound (put aliases)) before s

section Regular

variable {aliases : Assoc String}

theorem mem_insertByLength {n name : String} {names : List String} :
    n ∈ insertByLength name names ↔ n = name ∨ n ∈ names := by
  induction names with
  | nil => simp [insertByLength]
  | cons m names ih =>
    rw [insertByLength]
    split
    · simp
    · simp only [List.mem_cons, ih]
      exact or_left_comm

/-- Sorting by length keeps the aliases. -/
theorem mem_longestFirst {n : String} :
    n ∈ longestFirst aliases.keys ↔ (Assoc.get? aliases n).isSome = true := by
  have hfold : ∀ names sorted : List String,
      n ∈ names.foldl (fun sorted name => insertByLength name sorted) sorted ↔
        n ∈ sorted ∨ n ∈ names := by
    intro names
    induction names with
    | nil => simp
    | cons m names ih =>
      intro sorted
      rw [List.foldl_cons, ih, mem_insertByLength, List.mem_cons, or_comm (a := n = m), or_assoc]
  rw [longestFirst, hfold, Assoc.keys, Assoc.get?, Option.isSome_map, List.find?_isSome]
  simp

/-- Comments and literals are passed. -/
theorem walk_quiet {text s : List Char} (hquiet : quiet? (text ++ s) = some (text, s))
    (before : Option Char) :
    walk aliases before (text ++ s) = text ++ walk aliases (behind before text) s := by
  obtain ⟨-, hstart, -⟩ := quiet?_eq_some hquiet
  have hne : text ≠ [] := by
    rintro rfl
    cases hstart
  have htoken : token (longestFirst aliases.keys) before (text ++ s) = some (.quiet text, s) := by
    rw [token, hquiet]
  exact scanFrom_found hne htoken

/-- No word stands right behind another. -/
theorem not_precededBy_word {before : Option Char} {w s : List Char} (hne : w ≠ [])
    (hw : ∀ c ∈ w, isIdentChar c = true)
    (hbefore : precededBy isIdentChar before = true → followedBy isIdentChar (w ++ s) = false) :
    precededBy isIdentChar before = false := by
  obtain ⟨c, x, rfl⟩ := List.exists_cons_of_ne_nil hne
  rw [← Bool.not_eq_true]
  intro hb
  exact Bool.false_ne_true ((hbefore hb).symm.trans (hw c (by simp)))

variable (h : Regular aliases)

include h

theorem Regular.names : ∀ n ∈ longestFirst aliases.keys, IsIdent n.toList := by
  intro n hn
  rw [mem_longestFirst, Option.isSome_iff_exists] at hn
  obtain ⟨target, htarget⟩ := hn
  exact (h _ (Assoc.mem_of_get? htarget)).1

/-- A whole word is replaced if it is an alias. -/
theorem walk_word {w s : List Char} (hne : w ≠ []) (hw : ∀ c ∈ w, isIdentChar c = true)
    (hs : followedBy isIdentChar s = false) {before : Option Char}
    (hbefore : precededBy isIdentChar before = false) :
    walk aliases before (w ++ s) = canonical aliases w ++ walk aliases (behind before w) s := by
  obtain ⟨c, x, rfl⟩ := List.exists_cons_of_ne_nil hne
  obtain ⟨hc, hx⟩ := List.forall_mem_cons.1 hw
  have hquiet : quiet? (c :: x ++ s) = none := quiet?_of_isIdentChar hc
  have hfirst := firstName?_word h.names hw hs
  cases hget : Assoc.get? aliases (String.ofList (c :: x)) with
  | some target =>
    have hmem : String.ofList (c :: x) ∈ longestFirst aliases.keys := by
      rw [mem_longestFirst, hget]
      rfl
    have htoken : token (longestFirst aliases.keys) before (c :: x ++ s) =
        some (.word (String.ofList (c :: x)), s) := by
      rw [token, hquiet, hbefore, hfirst, if_pos hmem]
      rfl
    exact scanFrom_found hne htoken
  | none =>
    have hmem : String.ofList (c :: x) ∉ longestFirst aliases.keys := by
      rw [mem_longestFirst, hget]
      exact Bool.false_ne_true
    have hnone : token (longestFirst aliases.keys) before (c :: x ++ s) = none := by
      rw [token, hquiet, hbefore, hfirst, if_neg hmem]
      rfl
    -- Inside of a word nothing starts.
    have hinside : ∀ b, isIdentChar b = true →
        Dull (token (longestFirst aliases.keys)) (some b) x s := by
      clear hnone hmem hget hfirst hquiet hw hne hc
      induction x with
      | nil => exact fun _ _ => dull_nil
      | cons d x ih =>
        intro b hb
        obtain ⟨hd, hx⟩ := List.forall_mem_cons.1 hx
        refine dull_cons.2 ⟨?_, ih hx d hd⟩
        rw [token, List.cons_append, quiet?_of_isIdentChar hd]
        simp [precededBy, hb]
    have hscan := scanFrom_dull (g := putFound (put aliases))
      (dull_cons.2 ⟨hnone, hinside c hc⟩)
    rw [flatMap_putFound] at hscan
    rw [canonical_of_none hget]
    exact hscan

/-- Other characters are passed. -/
theorem walk_mark {c : Char} {s : List Char} (hc : isIdentChar c = false)
    (hquiet : quiet? (c :: s) = none) (before : Option Char) :
    walk aliases before (c :: s) = c :: walk aliases (some c) s := by
  have hnone : token (longestFirst aliases.keys) before (c :: s) = none := by
    rw [token, hquiet, firstName?_mark h.names hc s]
    simp
  exact scanFrom_plain hnone

theorem walk_nil (before : Option Char) : walk aliases before [] = [] := by
  have hnone : token (longestFirst aliases.keys) before [] = none := by
    rw [token, quiet?, firstName?_nil h.names]
    simp
  exact scanFrom_nil hnone

/-- What stands in front of code plays no part unless a word goes on there. -/
theorem walk_behind (s : List Char) {before : Option Char}
    (hbefore : precededBy isIdentChar before = true → followedBy isIdentChar s = false) :
    walk aliases before s = walk aliases none s := by
  induction s using code_induction generalizing before with
  | nil => rw [walk_nil h, walk_nil h]
  | quiet text s hquiet ih =>
    obtain ⟨-, -, hend⟩ := quiet?_eq_some hquiet
    rw [walk_quiet hquiet, walk_quiet hquiet, ih (hend before), ih (hend none)]
  | word w s hne hw hs ih =>
    have hbefore := not_precededBy_word hne hw hbefore
    have hbehind : ∀ b, walk aliases b s = walk aliases none s := fun b => ih fun _ => hs
    rw [walk_word h hne hw hs hbefore, walk_word h hne hw hs rfl, hbehind, hbehind (behind none w)]
  | mark c s hc hquiet ih => rw [walk_mark h hc hquiet, walk_mark h hc hquiet]

/-- Renaming is one walk over the words of a text. -/
theorem run_eq_walk (s : List Char) : run aliases s = walk aliases none s := by
  unfold run
  cases aliases with
  | nil =>
    -- Without aliases the walk changes nothing.
    rw [if_pos List.isEmpty_nil]
    induction s using code_induction with
    | nil => rw [walk_nil h]
    | quiet text s hquiet ih =>
      obtain ⟨-, -, hend⟩ := quiet?_eq_some hquiet
      rw [walk_quiet hquiet, walk_behind h s (hend none), ← ih]
    | word w s hne hw hs ih =>
      rw [walk_word h hne hw hs rfl, walk_behind h s fun _ => hs, ← ih, canonical_of_none rfl]
    | mark c s hc hquiet ih =>
      have hend : precededBy isIdentChar (some c) = true → followedBy isIdentChar s = false := by
        simp [precededBy, hc]
      rw [walk_mark h hc hquiet, walk_behind h s hend, ← ih]
  | cons entry aliases =>
    rw [if_neg (by simp), replaceAll_eq]
    rfl

theorem run_nil : run aliases [] = [] := by
  rw [run_eq_walk h, walk_nil h]

/-- Literals and comments stay as they are. -/
theorem run_quiet {text s : List Char} (hquiet : quiet? (text ++ s) = some (text, s)) :
    run aliases (text ++ s) = text ++ run aliases s := by
  obtain ⟨-, -, hend⟩ := quiet?_eq_some hquiet
  rw [run_eq_walk h, run_eq_walk h, walk_quiet hquiet, walk_behind h s (hend none)]

/-- A word takes its canonical form. -/
theorem run_word {w s : List Char} (hne : w ≠ []) (hw : ∀ c ∈ w, isIdentChar c = true)
    (hs : followedBy isIdentChar s = false) :
    run aliases (w ++ s) = canonical aliases w ++ run aliases s := by
  rw [run_eq_walk h, run_eq_walk h, walk_word h hne hw hs rfl, walk_behind h s fun _ => hs]

theorem run_mark {c : Char} {s : List Char} (hc : isIdentChar c = false)
    (hquiet : quiet? (c :: s) = none) : run aliases (c :: s) = c :: run aliases s := by
  have hend : precededBy isIdentChar (some c) = true → followedBy isIdentChar s = false := by
    simp [precededBy, hc]
  rw [run_eq_walk h, run_eq_walk h, walk_mark h hc hquiet, walk_behind h s hend]

/-- The canonical form of a name is a name. -/
theorem isIdent_canonical {name : List Char} (hname : IsIdent name) :
    IsIdent (canonical aliases name) := by
  cases hget : Assoc.get? aliases (String.ofList name) with
  | none =>
    rw [canonical_of_none hget]
    exact hname
  | some target =>
    rw [canonical_of_some hget]
    exact (h _ (Assoc.mem_of_get? hget)).2

/-- The canonical form of a word is a word. -/
theorem canonical_chars {w : List Char} (hw : ∀ c ∈ w, isIdentChar c = true) :
    ∀ c ∈ canonical aliases w, isIdentChar c = true := by
  cases hget : Assoc.get? aliases (String.ofList w) with
  | none => rwa [canonical_of_none hget]
  | some target =>
    rw [canonical_of_some hget]
    exact (h _ (Assoc.mem_of_get? hget)).2.chars

theorem canonical_ne_nil {w : List Char} (hne : w ≠ []) : canonical aliases w ≠ [] := by
  cases hget : Assoc.get? aliases (String.ofList w) with
  | none => rwa [canonical_of_none hget]
  | some target =>
    rw [canonical_of_some hget]
    exact (h _ (Assoc.mem_of_get? hget)).2.ne_nil

/-- Renaming keeps the first character of code, or puts a word in the place of a word. -/
theorem followedBy_run {q : Char → Bool}
    (hq : ∀ c d, isIdentChar c = true → isIdentChar d = true → q c = q d) (s : List Char) :
    followedBy q (run aliases s) = followedBy q s := by
  induction s using code_induction with
  | nil => rw [run_nil h]
  | quiet text s hquiet ih =>
    obtain ⟨-, hstart, -⟩ := quiet?_eq_some hquiet
    rw [run_quiet h hquiet]
    cases text with
    | nil => cases hstart
    | cons c text => rfl
  | word w s hne hw hs ih =>
    obtain ⟨c, x, hc⟩ := List.exists_cons_of_ne_nil hne
    obtain ⟨d, y, hd⟩ := List.exists_cons_of_ne_nil (canonical_ne_nil h hne)
    have hcident := hw c (by simp [hc])
    have hdident := canonical_chars h hw d (by simp [hd])
    rw [run_word h hne hw hs, hc, ← hc, hd, hc]
    exact hq d c hdident hcident
  | mark c s hc hquiet ih =>
    rw [run_mark h hc hquiet]
    rfl

theorem ends_run {s : List Char} (hs : followedBy isIdentChar s = false) :
    followedBy isIdentChar (run aliases s) = false :=
  (followedBy_run h (fun _ _ hc hd => hc.trans hd.symm) s).trans hs

/-- White space stays as it is. -/
theorem run_gap {gap : List Char} (hgap : ∀ c ∈ gap, isBlank c = true) (s : List Char) :
    run aliases (gap ++ s) = gap ++ run aliases s := by
  induction gap with
  | nil => rfl
  | cons c gap ih =>
    obtain ⟨hc, hgap⟩ := List.forall_mem_cons.1 hgap
    have hquiet : quiet? (c :: (gap ++ s)) = none :=
      quiet?_of_not_isQuietStart (isQuietStart_of_isBlank hc)
    rw [List.cons_append, run_mark h (isIdentChar_of_isBlank hc) hquiet, ih hgap]
    rfl

omit h in
/-- Code that ends where it ends, unless a word goes on: it leaves no literal or comment open. -/
def Closed (aliases : Assoc String) (x : List Char) : Prop :=
  ∀ s, followedBy isIdentChar s = false → run aliases (x ++ s) = run aliases x ++ run aliases s

/-- Code in which no literal or comment starts. -/
theorem closed_of_plain {x : List Char} (hx : ∀ d ∈ x, isQuietStart d = false) :
    Closed aliases x := by
  intro s hs
  induction x using code_induction with
  | nil =>
    rw [run_nil h]
    rfl
  | quiet text x hquiet ih =>
    obtain ⟨-, hstart, -⟩ := quiet?_eq_some hquiet
    cases text with
    | nil => cases hstart
    | cons d text =>
      rw [followedBy_cons, hx d (by simp)] at hstart
      cases hstart
  | word w x hne hw hend ih =>
    have hend' : followedBy isIdentChar (x ++ s) = false := by
      cases x with
      | nil => exact hs
      | cons d x => exact hend
    rw [List.append_assoc, run_word h hne hw hend', run_word h hne hw hend,
      ih fun d hd => hx d (List.mem_append_right w hd), List.append_assoc]
  | mark d x hd hquiet ih =>
    obtain ⟨hbare, hx⟩ := List.forall_mem_cons.1 hx
    rw [List.cons_append, run_mark h hd (quiet?_of_not_isQuietStart hbare),
      run_mark h hd (quiet?_of_not_isQuietStart hbare), ih hx]
    rfl

/-- Words and white space. -/
theorem closed_of_words {x : List Char} (hx : ∀ d ∈ x, isBlank d = true ∨ isIdentChar d = true) :
    Closed aliases x := by
  refine closed_of_plain h fun d hd => ?_
  rcases hx d hd with hblank | hident
  · exact isQuietStart_of_isBlank hblank
  · rw [← Bool.not_eq_true]
    intro hstart
    rw [isIdentChar_of_isQuietStart hstart] at hident
    cases hident

/-- A literal or a comment that is complete. -/
theorem closed_quiet {text : List Char} (hquiet : ∀ s, quiet? (text ++ s) = some (text, s)) :
    Closed aliases text := by
  intro s _
  have hself := run_quiet h (hquiet [])
  rw [List.append_nil, run_nil h, List.append_nil] at hself
  rw [run_quiet h (hquiet s), hself]

/-- A bare character between two pieces of code. -/
theorem Closed.append_mark {x y : List Char} {c : Char} (hx : Closed aliases x)
    (hc : isIdentChar c = false) (hbare : isQuietStart c = false) (hy : Closed aliases y) :
    Closed aliases (x ++ c :: y) := by
  intro s hs
  have hmark : ∀ t, run aliases (c :: t) = c :: run aliases t :=
    fun t => run_mark h hc (quiet?_of_not_isQuietStart hbare)
  rw [List.append_assoc, List.cons_append, hx (c :: (y ++ s)) hc, hx (c :: y) hc, hmark, hmark,
    hy s hs]
  simp

end Regular

end PageCompiler.Rename
