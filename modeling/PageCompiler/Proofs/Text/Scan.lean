import Mathlib.Data.List.TakeWhile
import PageCompiler.Proofs.Text.Edit

/-!
# `PageCompiler.Proofs.Text.Scan`: walking through a text

`scanFrom` is what `findAll` and `replaceAll` have in common: a walk through the pieces of a text
behind a given character. It can be followed stretch by stretch. Where the recogniser accepts
nothing, the characters come one by one (`scanFrom_dull`). Where it accepts a stretch, the walk goes
on behind it (`scanFrom_found`).
-/

set_option autoImplicit false

namespace PageCompiler.Text

/-! ### Fixed texts and runs of characters -/

theorem after?_append (pattern s : List Char) : after? pattern (pattern ++ s) = some s := by
  induction pattern with
  | nil => rfl
  | cons c pattern ih => simpa [after?] using ih

/-- What follows a fixed text. -/
theorem after?_eq_some {pattern s rest : List Char} :
    after? pattern s = some rest ↔ s = pattern ++ rest := by
  constructor
  · intro h
    induction pattern generalizing s with
    | nil =>
      cases h
      rfl
    | cons c pattern ih =>
      cases s with
      | nil => cases h
      | cons d s =>
        rw [after?] at h
        split at h
        next hc =>
          rw [eq_of_beq hc, ih h]
          rfl
        next => cases h
  · rintro rfl
    exact after?_append pattern rest

theorem after?_cons_ne {p c : Char} (pattern s : List Char) (h : c ≠ p) :
    after? (p :: pattern) (c :: s) = none := by
  rw [after?, if_neg (by simpa using Ne.symm h)]

/-- A text that differs from a pattern within its first characters does not start with it. -/
theorem after?_of_clash {pattern x : List Char}
    (h : (pattern.zip x).any (fun pair => pair.1 != pair.2) = true) (s : List Char) :
    after? pattern (x ++ s) = none := by
  induction pattern generalizing x with
  | nil => simp at h
  | cons p pattern ih =>
    cases x with
    | nil => simp at h
    | cons c x =>
      rw [List.cons_append, after?]
      split
      next heq =>
        rw [List.zip_cons_cons, List.any_cons, eq_of_beq heq, bne_self_eq_false, Bool.false_or] at h
        exact ih h
      next => rfl

/-- Whether a text starts with a pattern is decided in front of a character that the pattern does
not hold. -/
theorem startsWith_append_stop {pattern : List Char} {c d : Char} (hc : c ∉ pattern)
    (hd : d ∉ pattern) (x s t : List Char) :
    startsWith pattern (x ++ c :: s) = startsWith pattern (x ++ d :: t) := by
  induction pattern generalizing x with
  | nil => rfl
  | cons p pattern ih =>
    obtain ⟨hcp, hc⟩ := not_or.1 (mt List.mem_cons.2 hc)
    obtain ⟨hdp, hd⟩ := not_or.1 (mt List.mem_cons.2 hd)
    cases x with
    | nil => simp [startsWith, after?, Ne.symm hcp, Ne.symm hdp]
    | cons e x =>
      have ih := ih hc hd x
      unfold startsWith at ih ⊢
      rw [List.cons_append, List.cons_append, after?, after?]
      split
      · exact ih
      · rfl

/-- A fixed text does not go beyond a character that it does not hold. -/
theorem after?_append_stop {pattern : List Char} {c : Char} (hc : c ∉ pattern) (s t : List Char) :
    after? pattern (s ++ c :: t) = (after? pattern s).map (· ++ c :: t) := by
  induction pattern generalizing s with
  | nil => rfl
  | cons p pattern ih =>
    obtain ⟨hcp, hc⟩ := not_or.1 (mt List.mem_cons.2 hc)
    cases s with
    | nil => exact after?_cons_ne pattern t hcp
    | cons d s =>
      rw [List.cons_append, after?, after?, ih hc]
      split
      · rfl
      · rfl

@[simp] theorem followedBy_nil (p : Char → Bool) : followedBy p [] = false := rfl

@[simp] theorem followedBy_cons (p : Char → Bool) (c : Char) (s : List Char) :
    followedBy p (c :: s) = p c := rfl

theorem takeWhile_run {p : Char → Bool} {run s : List Char} (hrun : ∀ c ∈ run, p c = true)
    (hs : followedBy p s = false) : (run ++ s).takeWhile p = run := by
  rw [List.takeWhile_append_of_pos hrun]
  cases s with
  | nil => simp
  | cons c s =>
    have hc : p c = false := hs
    simp [hc]

theorem dropWhile_run {p : Char → Bool} {run s : List Char} (hrun : ∀ c ∈ run, p c = true)
    (hs : followedBy p s = false) : (run ++ s).dropWhile p = s := by
  rw [List.dropWhile_append_of_pos hrun]
  cases s with
  | nil => rfl
  | cons c s =>
    have hc : p c = false := hs
    simp [hc]

/-- A run of characters does not go beyond a character that ends it. -/
theorem dropWhile_append_stop {p : Char → Bool} {c : Char} (hc : p c = false) (s t : List Char) :
    (s ++ c :: t).dropWhile p = s.dropWhile p ++ c :: t := by
  induction s with
  | nil => simp [hc]
  | cons d s ih =>
    rw [List.cons_append, List.dropWhile_cons, List.dropWhile_cons, ih]
    split
    · rfl
    · rfl

/-- A text is cut at the first place of a character in one way. -/
theorem append_cons_inj {d : Char} {a b s t : List Char} (ha : d ∉ a) (hb : d ∉ b)
    (h : a ++ d :: s = b ++ d :: t) : a = b ∧ s = t := by
  have hrun : ∀ x : List Char, d ∉ x → ∀ c ∈ x, (c != d) = true := by
    intro x hx c hc
    rw [bne_iff_ne]
    rintro rfl
    exact hx hc
  have hstop : ∀ u, followedBy (· != d) (d :: u) = false := by simp
  have htake := congrArg (List.takeWhile (· != d)) h
  have hdrop := congrArg (List.dropWhile (· != d)) h
  rw [takeWhile_run (hrun a ha) (hstop s), takeWhile_run (hrun b hb) (hstop t)] at htake
  rw [dropWhile_run (hrun a ha) (hstop s), dropWhile_run (hrun b hb) (hstop t)] at hdrop
  exact ⟨htake, (List.cons.inj hdrop).2⟩

/-- A text is cut in one way at a place of a character, if the character stands in front of it as
often. -/
theorem append_cons_inj_of_count {d : Char} {a b s t : List Char} (hcount : a.count d = b.count d)
    (h : a ++ d :: s = b ++ d :: t) : a = b ∧ s = t := by
  induction a generalizing b with
  | nil =>
    cases b with
    | nil => exact ⟨rfl, (List.cons.inj h).2⟩
    | cons c b =>
      obtain ⟨rfl, -⟩ := List.cons.inj h
      simp at hcount
  | cons c a ih =>
    cases b with
    | nil =>
      obtain ⟨rfl, -⟩ := List.cons.inj h
      simp at hcount
    | cons c' b =>
      obtain ⟨rfl, htail⟩ := List.cons.inj h
      rw [List.count_cons, List.count_cons] at hcount
      obtain ⟨rfl, rfl⟩ := ih (by omega) htail
      exact ⟨rfl, rfl⟩

/-- A text is a run of characters that satisfy `p` and a rest that starts with none. -/
theorem exists_run (p : Char → Bool) (s : List Char) :
    ∃ run rest, s = run ++ rest ∧ (∀ c ∈ run, p c = true) ∧ followedBy p rest = false := by
  refine ⟨s.takeWhile p, s.dropWhile p, List.takeWhile_append_dropWhile.symm, ?_, ?_⟩
  · intro c hc
    exact List.mem_takeWhile_imp hc
  · have h := List.head?_dropWhile_not p s
    cases hs : s.dropWhile p with
    | nil => rfl
    | cons c rest =>
      rw [hs] at h
      exact h

/-- A run is as long as it can be, and not empty. -/
theorem span1?_eq_some {p : Char → Bool} {s run rest : List Char}
    (h : span1? p s = some (run, rest)) :
    s = run ++ rest ∧ run ≠ [] ∧ (∀ c ∈ run, p c = true) ∧ followedBy p rest = false := by
  cases s with
  | nil => cases h
  | cons c s =>
    rw [span1?] at h
    split at h
    next hc =>
      obtain ⟨run', rest', hs, hrun, hrest⟩ := exists_run p (c :: s)
      rw [hs, takeWhile_run hrun hrest, dropWhile_run hrun hrest] at h
      cases h
      refine ⟨hs, ?_, hrun, hrest⟩
      rintro rfl
      rw [List.nil_append] at hs
      rw [← hs, followedBy, hc] at hrest
      cases hrest
    next => cases h

theorem span1?_append {p : Char → Bool} {run s : List Char} (hne : run ≠ [])
    (hrun : ∀ c ∈ run, p c = true) (hs : followedBy p s = false) :
    span1? p (run ++ s) = some (run, s) := by
  obtain ⟨c, run', rfl⟩ := List.exists_cons_of_ne_nil hne
  have hc : p c = true := hrun c (by simp)
  have htake := takeWhile_run hrun hs
  have hdrop := dropWhile_run hrun hs
  rw [List.cons_append] at htake hdrop
  rw [List.cons_append, span1?, if_pos hc, htake, hdrop]

/-- A run does not go beyond a character that ends it. -/
theorem span1?_append_stop {p : Char → Bool} {c : Char} (hc : p c = false) (s t : List Char) :
    span1? p (s ++ c :: t) = (span1? p s).map fun (run, rest) => (run, rest ++ c :: t) := by
  cases s with
  | nil => simp [span1?, hc]
  | cons d s =>
    have htake : (d :: s ++ c :: t).takeWhile p = (d :: s).takeWhile p := by
      obtain ⟨run, rest, hs, hrun, hrest⟩ := exists_run p (d :: s)
      have hrest' : followedBy p (rest ++ c :: t) = false := by
        cases rest with
        | nil => exact hc
        | cons e rest => exact hrest
      rw [hs, List.append_assoc, takeWhile_run hrun hrest, takeWhile_run hrun hrest']
    have hdrop := dropWhile_append_stop hc (d :: s) t
    rw [List.cons_append] at htake hdrop
    rw [List.cons_append, span1?, span1?, htake, hdrop]
    split
    · rfl
    · rfl

/-- What stands in front of a fixed text. -/
theorem upTo?_eq_some {stop s inner rest : List Char} (h : upTo? stop s = some (inner, rest)) :
    s = inner ++ (stop ++ rest) := by
  fun_induction upTo? stop s generalizing inner with
  | case1 => cases h
  | case2 c s rest' hstop =>
    cases h
    rw [List.nil_append]
    exact after?_eq_some.1 hstop
  | case3 c s _ ih =>
    rw [Option.map_eq_some_iff] at h
    obtain ⟨⟨inner', rest'⟩, hrest, heq⟩ := h
    obtain ⟨rfl, rfl⟩ := Prod.mk.inj heq
    rw [ih hrest]
    rfl

/-! ### Names of script variables -/

/-- White space is no word character. -/
theorem isWord_of_isBlank {c : Char} (h : isBlank c = true) : isWord c = false := by
  have hcodes : ∀ n ∈ List.range' 9 5 ++ List.range' 0x1c 5 ++ List.range' 0x2000 11 ++
      [0x85, 0xa0, 0x1680, 0x2028, 0x2029, 0x202f, 0x205f, 0x3000],
      isWord (Char.ofNat n) = false := by decide +kernel
  unfold isBlank at h
  simp only [Bool.or_eq_true, Bool.and_eq_true, decide_eq_true_eq, beq_iff_eq] at h
  have h := hcodes c.toNat (by
    simp only [List.mem_append, List.mem_range'_1, List.mem_cons, List.not_mem_nil, or_false]
    omega)
  rwa [Char.ofNat_toNat] at h

theorem isIdentChar_of_isBlank {c : Char} (h : isBlank c = true) : isIdentChar c = false := by
  rw [isIdentChar, isWord_of_isBlank h, Bool.false_or, beq_eq_false_iff_ne]
  rintro rfl
  exact absurd h (by decide)

/-- The name of a script variable. -/
structure IsIdent (name : List Char) : Prop where
  start : followedBy isIdentStart name = true
  chars : ∀ c ∈ name, isIdentChar c = true

instance (name : List Char) : Decidable (IsIdent name) :=
  have : Decidable (∀ c ∈ name, isIdentChar c = true) :=
    List.decidableBAll (fun c => isIdentChar c = true) name
  decidable_of_iff (followedBy isIdentStart name = true ∧ ∀ c ∈ name, isIdentChar c = true)
    ⟨fun h => ⟨h.1, h.2⟩, fun h => ⟨h.start, h.chars⟩⟩

theorem IsIdent.ne_nil {name : List Char} (h : IsIdent name) : name ≠ [] := by
  rintro rfl
  exact absurd h.start (by decide)

/-- A variable starts with a character that variables are made of. -/
theorem isIdentChar_of_isIdentStart {c : Char} (h : isIdentStart c = true) :
    isIdentChar c = true := by
  unfold isIdentStart isAsciiLetter at h
  unfold isIdentChar isWord isAsciiLetter
  simp only [Bool.or_eq_true, Bool.and_eq_true, decide_eq_true_eq, beq_iff_eq] at h
  have hle : c.toNat < 128 ∨ c = '_' ∨ c = '$' := by
    rcases h with ((⟨-, h⟩ | ⟨-, h⟩) | h) | h
    · have h : c.toNat ≤ 'z'.toNat := h
      exact .inl (Nat.lt_of_le_of_lt h (by decide))
    · have h : c.toNat ≤ 'Z'.toNat := h
      exact .inl (Nat.lt_of_le_of_lt h (by decide))
    · exact .inr (.inl h)
    · exact .inr (.inr h)
  rcases hle with hlt | rfl | rfl
  · rw [if_pos hlt]
    simp only [Bool.or_eq_true, Bool.and_eq_true, decide_eq_true_eq, beq_iff_eq]
    rcases h with (h | h) | h
    · exact .inl (.inl (.inl h))
    · exact .inl (.inr h)
    · exact .inr h
  · decide
  · decide

/-- A name is read as far as it goes. -/
theorem ident?_eq_some {s name rest : List Char} :
    ident? s = some (name, rest) ↔
      s = name ++ rest ∧ IsIdent name ∧ followedBy isIdentChar rest = false := by
  constructor
  · intro h
    cases s with
    | nil => cases h
    | cons c s =>
      rw [ident?] at h
      split at h
      next hc =>
        obtain ⟨run, rest', rfl, hrun, hrest⟩ := exists_run isIdentChar s
        rw [takeWhile_run hrun hrest, dropWhile_run hrun hrest] at h
        cases h
        exact ⟨rfl, ⟨hc, List.forall_mem_cons.2 ⟨isIdentChar_of_isIdentStart hc, hrun⟩⟩, hrest⟩
      next => cases h
  · rintro ⟨rfl, hname, hrest⟩
    obtain ⟨c, run, rfl⟩ := List.exists_cons_of_ne_nil hname.ne_nil
    have hc : isIdentStart c = true := hname.start
    have hrun := (List.forall_mem_cons.1 hname.chars).2
    rw [List.cons_append, ident?, if_pos hc, takeWhile_run hrun hrest, dropWhile_run hrun hrest]

/-- A name does not go beyond a character that ends it. -/
theorem ident?_append_stop {c : Char} (hc : isIdentChar c = false) (s t : List Char) :
    ident? (s ++ c :: t) = (ident? s).map fun (name, rest) => (name, rest ++ c :: t) := by
  cases s with
  | nil =>
    have hstart : isIdentStart c = false := by
      rw [← Bool.not_eq_true]
      intro h
      rw [isIdentChar_of_isIdentStart h] at hc
      cases hc
    simp [ident?, hstart]
  | cons d s =>
    obtain ⟨run, rest, rfl, hrun, hrest⟩ := exists_run isIdentChar s
    have hrest' : followedBy isIdentChar (rest ++ c :: t) = false := by
      cases rest with
      | nil => exact hc
      | cons e rest => exact hrest
    rw [List.cons_append, List.append_assoc, ident?, ident?, takeWhile_run hrun hrest,
      dropWhile_run hrun hrest, takeWhile_run hrun hrest', dropWhile_run hrun hrest']
    split
    · rfl
    · rfl

/-! ### Walks -/

/-- What a walk through the pieces of a text behind a character gives. -/
def scanFrom {α β : Type} (r : Recogniser α) (g : Piece α → List β) (before : Option Char)
    (s : List Char) : List β :=
  (piecesFrom r before 0 s).flatMap g

section Walk

variable {α β : Type} {r : Recogniser α} {g : Piece α → List β} {before : Option Char}

theorem piecesFrom_skip (before : Option Char) (x s : List Char) :
    piecesFrom r before x.length (x ++ s) = piecesFrom r (behind before x) 0 s := by
  induction x generalizing before with
  | nil => rfl
  | cons c x ih => exact ih (some c)

/-- Where nothing is accepted, a character comes by itself. -/
theorem scanFrom_plain {c : Char} {s : List Char} (h : r before (c :: s) = none) :
    scanFrom r g before (c :: s) = g (.plain c) ++ scanFrom r g (some c) s := by
  rw [scanFrom, piecesFrom, h]
  rfl

/-- What is accepted is passed as a whole. -/
theorem scanFrom_found {a : α} {m s : List Char} (hm : m ≠ [])
    (h : r before (m ++ s) = some (a, s)) :
    scanFrom r g before (m ++ s) = g (.found a) ++ scanFrom r g (behind before m) s := by
  obtain ⟨c, m, rfl⟩ := List.exists_cons_of_ne_nil hm
  have hlength : (c :: (m ++ s)).length - s.length = m.length + 1 := by
    simp only [List.length_cons, List.length_append]
    omega
  rw [List.cons_append] at h ⊢
  rw [scanFrom, piecesFrom, h]
  dsimp only
  rw [hlength]
  dsimp only
  rw [piecesFrom_skip, List.flatMap_cons]
  rfl

/-- Nothing is accepted at any place of a stretch. -/
def Dull (r : Recogniser α) (before : Option Char) (x s : List Char) : Prop :=
  ∀ a c b, x = a ++ c :: b → r (behind before a) (c :: b ++ s) = none

theorem dull_nil {s : List Char} : Dull r before [] s := by
  intro a c b h
  simp at h

theorem dull_cons {c : Char} {x s : List Char} :
    Dull r before (c :: x) s ↔ r before (c :: x ++ s) = none ∧ Dull r (some c) x s := by
  constructor
  · intro h
    refine ⟨h [] c x rfl, ?_⟩
    rintro a d b rfl
    exact h (c :: a) d b rfl
  · rintro ⟨hfirst, hrest⟩ a d b h
    cases a with
    | nil =>
      obtain ⟨rfl, rfl⟩ := List.cons.inj h
      exact hfirst
    | cons e a =>
      obtain ⟨rfl, rfl⟩ := List.cons.inj h
      exact hrest a d b rfl

theorem dull_append {x y s : List Char} :
    Dull r before (x ++ y) s ↔ Dull r before x (y ++ s) ∧ Dull r (behind before x) y s := by
  induction x generalizing before with
  | nil => simp [dull_nil]
  | cons c x ih =>
    rw [List.cons_append, dull_cons, dull_cons, ih, and_assoc]
    simp

/-- A dull stretch comes character by character. -/
theorem scanFrom_dull {x s : List Char} (h : Dull r before x s) :
    scanFrom r g before (x ++ s) =
      x.flatMap (fun c => g (.plain c)) ++ scanFrom r g (behind before x) s := by
  induction x generalizing before with
  | nil => rfl
  | cons c x ih =>
    obtain ⟨hfirst, hrest⟩ := dull_cons.1 h
    rw [List.cons_append] at hfirst ⊢
    rw [scanFrom_plain hfirst, ih hrest, List.flatMap_cons, List.append_assoc]
    rfl

theorem scanFrom_nil (h : r before [] = none) : scanFrom r g before [] = [] := by
  rw [scanFrom, piecesFrom, h]
  rfl

/-- A walk that does not look at the character in front goes the same way behind each. -/
theorem scanFrom_behind (hr : ∀ before before' s, r before s = r before' s)
    (before before' : Option Char) (s : List Char) :
    scanFrom r g before s = scanFrom r g before' s := by
  cases s with
  | nil => rw [scanFrom, scanFrom, piecesFrom, piecesFrom, hr before before']
  | cons c s => rw [scanFrom, scanFrom, piecesFrom, piecesFrom, hr before before']

/-- A walk is cut at a character that nothing it looks for goes beyond. -/
theorem scanFrom_stop {d : Char} (hnil : ∀ before, r before [] = none)
    (hstop : ∀ before x s,
      r before (x ++ d :: s) = (r before x).map fun (a, rest) => (a, rest ++ d :: s))
    (hmove : ∀ {before x a rest}, r before x = some (a, rest) → ∃ m, m ≠ [] ∧ x = m ++ rest)
    (before : Option Char) (x s : List Char) :
    scanFrom r g before (x ++ d :: s) =
      scanFrom r g before x ++ (g (.plain d) ++ scanFrom r g (some d) s) := by
  induction hn : x.length using Nat.strongRecOn generalizing x before with
  | ind n ih =>
    subst hn
    have hwhole := hstop before x s
    cases x with
    | nil =>
      rw [hnil, List.nil_append, Option.map_none] at hwhole
      rw [scanFrom_nil (hnil before), List.nil_append, List.nil_append, scanFrom_plain hwhole]
    | cons c x =>
      cases hr : r before (c :: x) with
      | none =>
        rw [hr, Option.map_none] at hwhole
        rw [List.cons_append] at hwhole ⊢
        rw [scanFrom_plain hr, scanFrom_plain hwhole, ih _ (by simp) (some c) x rfl,
          List.append_assoc]
      | some found =>
        obtain ⟨a, rest⟩ := found
        obtain ⟨m, hm, hx⟩ := hmove hr
        have hlength : rest.length < (c :: x).length := by
          rw [hx, List.length_append]
          have hpos := List.length_pos_iff.2 hm
          omega
        rw [hr, hx, List.append_assoc] at hwhole
        rw [hx] at hr
        rw [hx, List.append_assoc, scanFrom_found hm hr, scanFrom_found hm hwhole,
          ih _ hlength _ rest rfl, List.append_assoc]

/-- Within a line no new one starts. -/
theorem atLineStart_behind (hbefore : atLineStart before = false) {x : List Char} (hx : '\n' ∉ x) :
    atLineStart (behind before x) = false := by
  induction x generalizing before with
  | nil => exact hbefore
  | cons c x ih =>
    obtain ⟨hc, hx⟩ := not_or.1 (mt List.mem_cons.2 hx)
    exact ih (by simpa [atLineStart] using Ne.symm hc) hx

/-- Something is accepted at the starts of lines only. -/
def LineWise (r : Recogniser α) : Prop :=
  ∀ before s, atLineStart before = false → r before s = none

/-- Behind the start of a line nothing is accepted up to its end. -/
theorem LineWise.dull (hr : LineWise r) (hbefore : atLineStart before = false) {x : List Char}
    (hx : '\n' ∉ x) (s : List Char) : Dull r before x s := by
  induction x generalizing before with
  | nil => exact dull_nil
  | cons c x ih =>
    obtain ⟨hc, hx⟩ := not_or.1 (mt List.mem_cons.2 hx)
    exact dull_cons.2 ⟨hr _ _ hbefore, ih (by simpa [atLineStart] using Ne.symm hc) hx⟩

end Walk

/-- What a walk keeps if it looks for something. -/
def keepFound {α : Type} : Piece α → List α
  | .found a => [a]
  | .plain _ => []

/-- What a walk keeps if it replaces something. -/
def putFound {α : Type} (f : α → List Char) : Piece α → List Char
  | .found a => f a
  | .plain c => [c]

/-- Finding is one scan. -/
theorem findAll_eq {α : Type} (r : Recogniser α) (s : List Char) :
    findAll r s = scanFrom r keepFound none s := by
  rw [findAll, scanFrom, pieces]
  induction piecesFrom r none 0 s with
  | nil => rfl
  | cons p ps ih =>
    rw [List.flatMap_cons, ← ih]
    cases p with
    | found a => rfl
    | plain c => rfl

/-- Replacing is one scan. -/
theorem replaceAll_eq {α : Type} (r : Recogniser α) (f : α → List Char) (s : List Char) :
    replaceAll r f s = scanFrom r (putFound f) none s := by
  refine congrArg (fun g => List.flatMap g (pieces r s)) ?_
  funext p
  cases p with
  | found a => rfl
  | plain c => rfl

theorem flatMap_keepFound {α : Type} (x : List Char) :
    (x.flatMap fun c => keepFound (α := α) (.plain c)) = [] := by
  induction x with
  | nil => rfl
  | cons c x ih => exact ih

theorem flatMap_putFound {α : Type} (f : α → List Char) (x : List Char) :
    (x.flatMap fun c => putFound f (.plain c)) = x := by
  induction x with
  | nil => rfl
  | cons c x ih => exact congrArg (c :: ·) ih

/-- A recogniser whose finds are passed on changed. -/
def mapFound {α β : Type} (g : α → β) (r : Recogniser α) : Recogniser β := fun before s =>
  (r before s).map fun (a, rest) => (g a, rest)

/-- What is found may be changed before it is replaced. -/
theorem replaceAll_mapFound {α β : Type} (g : α → β) (r : Recogniser α) (f : β → List Char)
    (s : List Char) : replaceAll (mapFound g r) f s = replaceAll r (fun a => f (g a)) s := by
  have hwalk : ∀ (s : List Char) (before : Option Char) (skip : Nat),
      (piecesFrom (mapFound g r) before skip s).flatMap (putFound f) =
        (piecesFrom r before skip s).flatMap (putFound fun a => f (g a)) := by
    intro s
    induction s with
    | nil =>
      intro before skip
      rw [piecesFrom, piecesFrom, mapFound]
      cases r before [] with
      | none => rfl
      | some found => rfl
    | cons c s ih =>
      intro before skip
      cases skip with
      | succ k => exact ih (some c) k
      | zero =>
        rw [piecesFrom, piecesFrom, mapFound]
        cases r before (c :: s) with
        | none => exact congrArg (c :: ·) (ih (some c) 0)
        | some found =>
          obtain ⟨a, rest⟩ := found
          simp only [Option.map_some]
          cases (c :: s).length - rest.length with
          | zero => exact congrArg (fun t => f (g a) ++ c :: t) (ih (some c) 0)
          | succ k => exact congrArg (f (g a) ++ ·) (ih (some c) k)
  rw [replaceAll_eq, replaceAll_eq]
  exact hwalk s none 0

/-- A recogniser that answers with the text it accepts. -/
def textFound {α : Type} (r : Recogniser α) : Recogniser (List Char) := fun before s =>
  (r before s).map fun (_, rest) => (s.take (s.length - rest.length), rest)

theorem textFound_append {α : Type} {r : Recogniser α} {before : Option Char} {a : α}
    {m s : List Char} (h : r before (m ++ s) = some (a, s)) :
    textFound r before (m ++ s) = some (m, s) := by
  rw [textFound, h]
  show some ((m ++ s).take ((m ++ s).length - s.length), s) = some (m, s)
  rw [List.length_append, Nat.add_sub_cancel, List.take_left]

theorem textFound_eq_none {α : Type} {r : Recogniser α} {before : Option Char} {s : List Char}
    (h : r before s = none) : textFound r before s = none := by
  rw [textFound, h]
  rfl

/-- A piece with what was found in it changed. -/
def Piece.map {α β : Type} (h : α → β) : Piece α → Piece β
  | .found a => .found (h a)
  | .plain c => .plain c

section Again

variable {α : Type} {r : Recogniser α} {f : α → List Char} {h : α → α}

/-- A second walk finds what the first put in, if what is put in is found again whatever follows,
and nothing is found in front of the new text where nothing was found before. -/
theorem piecesFrom_scanFrom
    (hfound : ∀ {before s a rest}, r before s = some (a, rest) →
      ∃ m, m ≠ [] ∧ s = m ++ rest ∧ f a ≠ [] ∧ behind before (f a) = behind before m ∧
        ∀ t, r before (f a ++ t) = some (h a, t))
    (hplain : ∀ {before c s}, r before (c :: s) = none →
      r before (c :: scanFrom r (putFound f) (some c) s) = none)
    (before : Option Char) (s : List Char) :
    piecesFrom r before 0 (scanFrom r (putFound f) before s) =
      (piecesFrom r before 0 s).map (Piece.map h) := by
  have hwalk : ∀ (before : Option Char) (s : List Char),
      scanFrom r (fun piece => [piece]) before (scanFrom r (putFound f) before s) =
        scanFrom r (fun piece => [piece.map h]) before s := by
    intro before s
    induction hn : s.length using Nat.strongRecOn generalizing s before with
    | ind n ih =>
      subst hn
      cases hr : r before s with
      | none =>
        cases s with
        | nil => rw [scanFrom_nil hr, scanFrom_nil hr, scanFrom_nil hr]
        | cons c s =>
          rw [scanFrom_plain hr, scanFrom_plain hr, putFound, List.singleton_append,
            scanFrom_plain (hplain hr), ih _ (by simp) (some c) s rfl]
          rfl
      | some answer =>
        obtain ⟨a, rest⟩ := answer
        obtain ⟨m, hm, rfl, hne, hbehind, hagain⟩ := hfound hr
        have hshorter : rest.length < (m ++ rest).length := by
          rw [List.length_append]
          exact Nat.lt_add_of_pos_left (List.length_pos_iff.2 hm)
        rw [scanFrom_found hm hr, scanFrom_found hm hr, putFound, scanFrom_found hne (hagain _),
          hbehind, ih _ hshorter (behind before m) rest rfl]
        rfl
  have hpieces : ∀ (g : Piece α → Piece α) (s : List Char),
      scanFrom r (fun piece => [g piece]) before s = (piecesFrom r before 0 s).map g :=
    fun g s => List.map_eq_flatMap.symm
  rw [← hpieces, ← hwalk, hpieces fun piece => piece, List.map_id']

end Again

section First

variable {α : Type} {r : Recogniser α}

/-- The first that is found stands behind a dull stretch. -/
theorem find?_of_found {a : α} {x m s : List Char} (hx : Dull r none x (m ++ s)) (hm : m ≠ [])
    (h : r (behind none x) (m ++ s) = some (a, s)) : find? r (x ++ (m ++ s)) = some a := by
  rw [find?, findAll_eq, scanFrom_dull hx, flatMap_keepFound, scanFrom_found hm h]
  rfl

theorem find?_eq_none_of_dull {s : List Char} (hs : Dull r none s [])
    (hnil : r (behind none s) [] = none) : find? r s = none := by
  have hscan := scanFrom_dull (g := keepFound) hs
  rw [List.append_nil, scanFrom_nil hnil, flatMap_keepFound] at hscan
  rw [find?, findAll_eq, hscan]
  rfl

/-- If something is accepted within a stretch, there is a first place where this is so. -/
theorem exists_first_of_not_dull {before : Option Char} {x s : List Char} (h : ¬Dull r before x s) :
    ∃ a c b, x = a ++ c :: b ∧ Dull r before a (c :: b ++ s) ∧
      (r (behind before a) (c :: b ++ s)).isSome = true := by
  induction x generalizing before with
  | nil => exact absurd dull_nil h
  | cons c x ih =>
    cases hfirst : r before (c :: x ++ s) with
    | some found => exact ⟨[], c, x, rfl, dull_nil, by rw [behind_nil, hfirst]; rfl⟩
    | none =>
      obtain ⟨a, d, b, rfl, hdull, hfound⟩ := ih fun hx => h (dull_cons.2 ⟨hfirst, hx⟩)
      refine ⟨c :: a, d, b, rfl, dull_cons.2 ⟨?_, hdull⟩, hfound⟩
      simpa using hfirst

/-- Something is found in a text exactly if it is accepted at some place. -/
theorem find?_isSome_iff (hnil : ∀ before, r before [] = none)
    (hmove : ∀ {before x a rest}, r before x = some (a, rest) → ∃ m, m ≠ [] ∧ x = m ++ rest)
    {s : List Char} :
    (find? r s).isSome = true ↔ ∃ a b, s = a ++ b ∧ (r (behind none a) b).isSome = true := by
  constructor
  · intro h
    have hdull : ¬Dull r none s [] := by
      intro hdull
      rw [find?_eq_none_of_dull hdull (hnil _)] at h
      cases h
    obtain ⟨a, c, b, rfl, -, hfound⟩ := exists_first_of_not_dull hdull
    exact ⟨a, c :: b, rfl, by rwa [List.append_nil] at hfound⟩
  · rintro ⟨a, b, rfl, hfound⟩
    have hdull : ¬Dull r none (a ++ b) [] := by
      intro hdull
      cases b with
      | nil =>
        rw [hnil] at hfound
        cases hfound
      | cons c b =>
        have hnone := hdull a c b rfl
        rw [List.append_nil] at hnone
        rw [hnone] at hfound
        cases hfound
    -- The first place is found, which may be another one.
    obtain ⟨x, c, y, hsplit, hx, hfound⟩ := exists_first_of_not_dull hdull
    rw [List.append_nil] at hx hfound
    obtain ⟨⟨found, rest⟩, hr⟩ := Option.isSome_iff_exists.1 hfound
    obtain ⟨m, hm, hmatch⟩ := hmove hr
    rw [hmatch] at hx hr hsplit
    rw [hsplit, find?_of_found hx hm hr]
    rfl

end First

section Anywhere

variable {α : Type} {r : Recogniser α} (hr : ∀ before before' s, r before s = r before' s)
  {f : α → List Char}

/-- A text is made of things that a recogniser finds and of characters at which it finds nothing. -/
theorem found_induction {P : List Char → Prop}
    (hmove : ∀ {s a rest}, r none s = some (a, rest) → ∃ m, m ≠ [] ∧ s = m ++ rest) (nil : P [])
    (found : ∀ s a rest, r none s = some (a, rest) → P rest → P s)
    (plain : ∀ c s, r none (c :: s) = none → P s → P (c :: s)) (s : List Char) : P s := by
  induction hn : s.length using Nat.strongRecOn generalizing s with
  | ind n ih =>
    subst hn
    cases s with
    | nil => exact nil
    | cons c s =>
      cases hfound : r none (c :: s) with
      | none => exact plain c s hfound (ih _ (by simp) s rfl)
      | some answer =>
        obtain ⟨a, rest⟩ := answer
        obtain ⟨m, hm, hsplit⟩ := hmove hfound
        have hshorter : rest.length < (c :: s).length := by
          rw [hsplit, List.length_append]
          exact Nat.lt_add_of_pos_left (List.length_pos_iff.2 hm)
        exact found _ a rest hfound (ih _ hshorter rest rfl)

include hr

theorem replaceAll_found {a : α} {m s : List Char} (hm : m ≠ [])
    (h : r none (m ++ s) = some (a, s)) :
    replaceAll r f (m ++ s) = f a ++ replaceAll r f s := by
  rw [replaceAll_eq, replaceAll_eq, scanFrom_found hm h, scanFrom_behind hr _ none]
  rfl

theorem replaceAll_plain {c : Char} {s : List Char} (h : r none (c :: s) = none) :
    replaceAll r f (c :: s) = c :: replaceAll r f s := by
  rw [replaceAll_eq, replaceAll_eq, scanFrom_plain h, scanFrom_behind hr _ none]
  rfl

theorem findAll_found {a : α} {m s : List Char} (hm : m ≠ [])
    (h : r none (m ++ s) = some (a, s)) : findAll r (m ++ s) = a :: findAll r s := by
  rw [findAll_eq, findAll_eq, scanFrom_found hm h, scanFrom_behind hr _ none]
  rfl

theorem findAll_plain {c : Char} {s : List Char} (h : r none (c :: s) = none) :
    findAll r (c :: s) = findAll r s := by
  rw [findAll_eq, findAll_eq, scanFrom_plain h, scanFrom_behind hr _ none]
  rfl

end Anywhere

/-- Replacing is an edit if what is put in the place of each thing found is one. -/
theorem edited_scanFrom {α : Type} {r : Recogniser α} {f : α → List Char} {allowed : Edit}
    (hnil : ∀ before, r before [] = none)
    (hfound : ∀ {before s a rest}, r before s = some (a, rest) → ∃ m, m ≠ [] ∧ s = m ++ rest ∧
      ∀ t, Edited allowed (behind before m) rest t → Edited allowed before (m ++ rest) (f a ++ t))
    (before : Option Char) (s : List Char) :
    Edited allowed before s (scanFrom r (putFound f) before s) := by
  induction hn : s.length using Nat.strongRecOn generalizing s before with
  | ind n ih =>
    subst hn
    cases s with
    | nil =>
      rw [scanFrom_nil (hnil before)]
      exact .nil before
    | cons c s =>
      cases hr : r before (c :: s) with
      | none =>
        rw [scanFrom_plain hr]
        exact .keep before c (ih _ (by simp) (some c) s rfl)
      | some found =>
        obtain ⟨a, rest⟩ := found
        obtain ⟨m, hm, hs, hedit⟩ := hfound hr
        have hlength : rest.length < (c :: s).length := by
          rw [hs, List.length_append]
          have hpos := List.length_pos_iff.2 hm
          omega
        rw [hs] at hr ⊢
        rw [scanFrom_found hm hr]
        exact hedit _ (ih _ hlength (behind before m) rest rfl)

/-- Replacing changes nothing exactly if it changes nothing that is found. `source` is the text of
what is found, and no other text may be put in its place as if it were the same. -/
theorem scanFrom_eq_self_iff {α : Type} {r : Recogniser α} {f source : α → List Char}
    (hnil : ∀ before, r before [] = none)
    (hfound : ∀ {before s a rest}, r before s = some (a, rest) → source a ≠ [] ∧
      s = source a ++ rest ∧ ∀ x y, f a ++ x = source a ++ y → f a = source a)
    (before : Option Char) (s : List Char) :
    scanFrom r (putFound f) before s = s ↔
      ∀ a ∈ scanFrom r keepFound before s, f a = source a := by
  induction hn : s.length using Nat.strongRecOn generalizing s before with
  | ind n ih =>
    subst hn
    cases s with
    | nil =>
      rw [scanFrom_nil (hnil before), scanFrom_nil (hnil before)]
      simp
    | cons c s =>
      cases hr : r before (c :: s) with
      | none =>
        rw [scanFrom_plain hr, scanFrom_plain hr]
        show c :: scanFrom r (putFound f) (some c) s = c :: s ↔
          ∀ a ∈ scanFrom r keepFound (some c) s, f a = source a
        rw [List.cons_inj_right, ih _ (by simp) (some c) s rfl]
      | some found =>
        obtain ⟨a, rest⟩ := found
        obtain ⟨hne, hs, halign⟩ := hfound hr
        have hlength : rest.length < (c :: s).length := by
          rw [hs, List.length_append]
          have hpos := List.length_pos_iff.2 hne
          omega
        have hrest := ih _ hlength (behind before (source a)) rest rfl
        rw [hs] at hr ⊢
        rw [scanFrom_found hne hr, scanFrom_found hne hr]
        show f a ++ scanFrom r (putFound f) (behind before (source a)) rest = source a ++ rest ↔
          ∀ b ∈ a :: scanFrom r keepFound (behind before (source a)) rest, f b = source b
        rw [List.forall_mem_cons, ← hrest]
        constructor
        · intro heq
          have hsame := halign _ _ heq
          rw [hsame] at heq
          exact ⟨hsame, List.append_cancel_left heq⟩
        · rintro ⟨hsame, heq⟩
          rw [hsame, heq]

/-- What a recogniser finds in a text it accepts somewhere. -/
theorem exists_of_mem_findAll {α : Type} {r : Recogniser α} {s : List Char} {x : α}
    (h : x ∈ findAll r s) : ∃ before t rest, r before t = some (x, rest) := by
  have hpieces : ∀ (s : List Char) (before : Option Char) (skip : Nat),
      Piece.found x ∈ piecesFrom r before skip s →
        ∃ before t rest, r before t = some (x, rest) := by
    intro s
    induction s with
    | nil =>
      intro before skip hmem
      rw [piecesFrom] at hmem
      split at hmem
      next y rest hy =>
        cases List.mem_singleton.1 hmem
        exact ⟨_, _, _, hy⟩
      next => cases hmem
    | cons c s ih =>
      intro before skip hmem
      cases skip with
      | succ k => exact ih _ _ hmem
      | zero =>
        rw [piecesFrom] at hmem
        split at hmem
        next y rest hy =>
          split at hmem
          · rcases List.mem_cons.1 hmem with heq | hmem
            · cases heq
              exact ⟨_, _, _, hy⟩
            · exact ih _ _ ((List.mem_cons.1 hmem).resolve_left nofun)
          · rcases List.mem_cons.1 hmem with heq | hmem
            · cases heq
              exact ⟨_, _, _, hy⟩
            · exact ih _ _ hmem
        next => exact ih _ _ ((List.mem_cons.1 hmem).resolve_left nofun)
  obtain ⟨p, hp, hx⟩ := List.mem_filterMap.1 h
  cases p with
  | plain c => cases hx
  | found y =>
    cases hx
    exact hpieces s none 0 hp

end PageCompiler.Text
