import PageCompiler.Keyword
import PageCompiler.Proofs.Text.Scan

/-!
# `PageCompiler.Proofs.Keyword`: a keyword occurs where it is a token

The search for a keyword tries every place of a text and looks at the characters on both sides. The
same is said by tokens: a text is cut into runs of letters and digits, and a keyword occurs if one
of the runs is the keyword once its letters are written in lower case (`occursIn_iff_mem_tokens`).

`letter?` says which characters count as letters and digits: those of ASCII and four more. That no
other character does is read off the tables of letters (`foldCase_cases`), and ties `letter?` to the
representatives under which the search compares (`letter?_eq`).
-/

set_option autoImplicit false

namespace PageCompiler.Keyword

open Text

/-! ### Letters -/

/-- The characters above ASCII that count as letters, and for which: the long s, the Kelvin sign,
the dotted capital I and the dotless i. -/
def lookalikes : List (Char × Char) :=
  [('ſ', 's'), ('\u212a', 'k'), ('İ', 'i'), ('ı', 'i')]

/-- The letter in lower case or the digit that a character counts as. -/
def letter? (c : Char) : Option Char :=
  if c.isLower || c.isDigit then some c
  else if c.isUpper then some c.toLower
  else (lookalikes.find? fun e => e.1 == c).map Prod.snd

/-- A character as the letter or digit that it counts as. All others stay. -/
def folded (c : Char) : Char :=
  (letter? c).getD c

/-- Two characters above ASCII have a lower case in ASCII. No character has the dotless i or the
long s as its lower case but these two themselves. -/
theorem lowerChar_cases {c : Char} (h : 128 ≤ c.toNat) :
    (c = 'İ' ∨ c = '\u212a') ∨
      128 ≤ (lowerChar c).toNat ∧ (lowerChar c = 'ı' ∨ lowerChar c = 'ſ' → lowerChar c = c) := by
  -- Where the lower case of a run of capitals lies. Only that of the Kelvin sign is in ASCII.
  have hruns : ∀ e ∈ capitalRuns, e = (0x212a, 0x212a, 1, 0x6b) ∨
      128 ≤ e.2.2.2 ∧
      (e.2.2.2 + (e.2.1 - e.1) < 0x131 ∨
        0x131 < e.2.2.2 ∧ e.2.2.2 + (e.2.1 - e.1) < 0x17f ∨ 0x17f < e.2.2.2) ∧
      (e.2.2.2 + (e.2.1 - e.1) < 0xd800 ∨
        0xdfff < e.2.2.2 ∧ e.2.2.2 + (e.2.1 - e.1) < 0x110000) := by decide +kernel
  rw [lowerChar, if_neg (by omega)]
  split
  next hdotted => exact .inl (.inl (beq_iff_eq.1 hdotted))
  next =>
    split
    next first last step image hfind =>
      have hrange := List.find?_some hfind
      simp only [Bool.and_eq_true, decide_eq_true_iff] at hrange
      rcases hruns _ (List.mem_of_find?_eq_some hfind) with hkelvin | ⟨hlow, hgap, hvalid⟩
      · cases hkelvin
        have hc : c.toNat = 0x212a := by omega
        exact .inl (.inr (by rw [← Char.ofNat_toNat c, hc]))
      · dsimp only at hlow hgap hvalid
        have hscalar : (image + (c.toNat - first)).isValidChar := by
          rcases hvalid with hvalid | hvalid
          · exact .inl (by omega)
          · exact .inr (by omega)
        have hnumber : (Char.ofNat (image + (c.toNat - first))).toNat =
            image + (c.toNat - first) := by
          rw [Char.ofNat, dif_pos hscalar]
          rfl
        refine .inr ⟨by omega, ?_⟩
        rintro (hdotless | hlong)
        · rw [hdotless] at hnumber
          have hcode : 'ı'.toNat = 0x131 := rfl
          omega
        · rw [hlong] at hnumber
          have hcode : 'ſ'.toNat = 0x17f := rfl
          omega
    next => exact .inr ⟨h, fun _ => rfl⟩

/-- A character above ASCII is one of the four that count as letters, or its representative is above
ASCII too. -/
theorem foldCase_cases {c : Char} (h : 128 ≤ c.toNat) :
    (c, foldCase c) ∈ lookalikes ∨ 128 ≤ (foldCase c).toNat := by
  have htwins : ∀ t ∈ caseTwins, t = (0x131, 0x69) ∨ t = (0x17f, 0x73) ∨
      128 ≤ (Char.ofNat t.2).toNat := by decide
  rcases lowerChar_cases h with (rfl | rfl) | ⟨hlow, hself⟩
  · exact .inl (by decide +kernel)
  · exact .inl (by decide +kernel)
  · rw [foldCase, if_neg (by omega)]
    split
    next number least hfind =>
      have hnumber : number = (lowerChar c).toNat := by simpa using List.find?_some hfind
      have hc : lowerChar c = Char.ofNat number := by rw [hnumber, Char.ofNat_toNat]
      -- The two letters with a twin in ASCII are the lower case of themselves only.
      rcases htwins _ (List.mem_of_find?_eq_some hfind) with htwin | htwin | hhigh
      · cases htwin
        rw [← hself (.inl hc), hc]
        exact .inl (by decide)
      · cases htwin
        rw [← hself (.inr hc), hc]
        exact .inl (by decide)
      · exact .inr hhigh
    next => exact .inr hlow

theorem not_le_of_ascii {c d : Char} (hc : 128 ≤ c.toNat) (hd : d.toNat < 128) : ¬c ≤ d := by
  rw [Char.le_def, UInt32.le_iff_toNat_le]
  exact Nat.not_le_of_lt (Nat.lt_of_lt_of_le hd hc)

/-- Above ASCII only the four count as letters. -/
theorem letter?_of_not_ascii {c : Char} (h : 128 ≤ c.toNat) :
    letter? c = (lookalikes.find? fun e => e.1 == c).map Prod.snd := by
  have hz : ¬c ≤ 'z' := not_le_of_ascii h (by decide)
  have h9 : ¬c ≤ '9' := not_le_of_ascii h (by decide)
  have hZ : ¬c ≤ 'Z' := not_le_of_ascii h (by decide)
  have hlower : c.isLower = false := Bool.and_eq_false_imp.2 fun _ => decide_eq_false hz
  have hdigit : c.isDigit = false := Bool.and_eq_false_imp.2 fun _ => decide_eq_false h9
  have hupper : c.isUpper = false := decide_eq_false fun hrange => hZ hrange.2
  simp [letter?, hlower, hdigit, hupper]

theorem isTokenChar_eq_false {c : Char} (h : 128 ≤ (foldCase c).toNat) : isTokenChar c = false := by
  have hz : ¬foldCase c ≤ 'z' := not_le_of_ascii h (by decide)
  have h9 : ¬foldCase c ≤ '9' := not_le_of_ascii h (by decide)
  simp only [isTokenChar, decide_eq_false hz, decide_eq_false h9, Bool.and_false, Bool.or_false]

/-- The search compares characters by the letters and digits that they count as. -/
theorem letter?_eq (c : Char) :
    letter? c = if isTokenChar c then some (foldCase c) else none := by
  by_cases h : c.toNat < 128
  · have hascii : ∀ n < 128, letter? (Char.ofNat n) =
        if isTokenChar (Char.ofNat n) then some (foldCase (Char.ofNat n)) else none := by
      decide +kernel
    rw [← Char.ofNat_toNat c]
    exact hascii c.toNat h
  · rw [Nat.not_lt] at h
    have hlookalikes : ∀ e ∈ lookalikes, letter? e.1 = some e.2 ∧ isTokenChar e.1 = true ∧
        (foldCase e.1).toNat < 128 := by decide +kernel
    rcases foldCase_cases h with hmem | hhigh
    · obtain ⟨hletter, htoken, -⟩ := hlookalikes _ hmem
      rw [if_pos htoken, hletter]
    · have hplain : lookalikes.find? (fun e => e.1 == c) = none := by
        rw [List.find?_eq_none]
        intro e he heq
        have hlow := (hlookalikes e he).2.2
        rw [beq_iff_eq.1 heq] at hlow
        omega
      rw [letter?_of_not_ascii h, hplain, isTokenChar_eq_false hhigh]
      rfl

/-! ### Tokens -/

/-- The tokens of a text: its longest runs of letters and digits. -/
def tokens (s : List Char) : List (List Char) :=
  (s.splitOnP fun c => (letter? c).isNone).filter fun t => !t.isEmpty

/-- What stands between separators are the runs that reach as far as they can on both sides. -/
theorem mem_splitOnP_iff {p : Char → Bool} {s run : List Char} :
    run ∈ s.splitOnP (fun c => !p c) ↔ ∃ a b, s = a ++ (run ++ b) ∧ (∀ c ∈ run, p c = true) ∧
      precededBy p (behind none a) = false ∧ followedBy p b = false := by
  constructor
  · -- The first run reaches up to the first separator, and the others stand behind it.
    induction hn : s.length using Nat.strongRecOn generalizing s with
    | ind n ih =>
      subst hn
      intro hmem
      obtain ⟨first, rest, rfl, hfirst, hrest⟩ := exists_run p s
      have hkept : ∀ c ∈ first, (!p c) = false := by simpa using hfirst
      cases rest with
      | nil =>
        rw [List.append_nil, List.splitOnP_eq_singleton hkept, List.mem_singleton] at hmem
        exact ⟨[], [], by rw [hmem]; rfl, hmem ▸ hfirst, rfl, rfl⟩
      | cons d rest =>
        have hd : (!p d) = true := by simpa using hrest
        rw [List.splitOnP_append_cons_of_forall_mem hkept d hd, List.mem_cons] at hmem
        rcases hmem with rfl | hmem
        · exact ⟨[], d :: rest, rfl, hfirst, rfl, hrest⟩
        · have hshorter : rest.length < (first ++ d :: rest).length := by
            rw [List.length_append, List.length_cons]
            omega
          obtain ⟨a, b, rfl, hrun, ha, hb⟩ := ih _ hshorter rfl hmem
          refine ⟨first ++ d :: a, b, by simp, hrun, ?_, hb⟩
          rw [behind_append, behind_cons]
          cases a with
          | nil => exact hrest
          | cons => exact ha
  · rintro ⟨a, b, rfl, hrun, ha, hb⟩
    have hkept : ∀ c ∈ run, (!p c) = false := by simpa using hrun
    have hmem : run ∈ (run ++ b).splitOnP fun c => !p c := by
      cases b with
      | nil =>
        rw [List.append_nil, List.splitOnP_eq_singleton hkept]
        exact List.mem_singleton_self run
      | cons d b =>
        rw [List.splitOnP_append_cons_of_forall_mem hkept d (by simpa using hb)]
        exact List.mem_cons_self
    rcases List.eq_nil_or_concat a with rfl | ⟨a, d, rfl⟩
    · exact hmem
    · have hd : (!p d) = true := by simpa [precededBy] using ha
      rw [List.concat_append, List.splitOnP_append_cons a (run ++ b) hd]
      exact List.mem_append_right _ hmem

/-- A token is a longest run of its characters. -/
theorem mem_tokens_iff {s t : List Char} :
    t ∈ tokens s ↔ t ≠ [] ∧ ∃ a b, s = a ++ (t ++ b) ∧ (∀ c ∈ t, isTokenChar c = true) ∧
      precededBy isTokenChar (behind none a) = false ∧ followedBy isTokenChar b = false := by
  have hletter : (fun c => (letter? c).isNone) = fun c => !isTokenChar c := by
    funext c
    rw [letter?_eq]
    cases isTokenChar c <;> rfl
  rw [tokens, List.mem_filter, hletter, mem_splitOnP_iff, and_comm]
  simp

/-! ### The search -/

/-- A keyword is read up to case. -/
theorem afterFolded?_eq_some {keyword s rest : List Char} :
    afterFolded? keyword s = some rest ↔
      ∃ m, s = m ++ rest ∧ m.map foldCase = keyword.map foldCase := by
  induction keyword generalizing s with
  | nil => simp [afterFolded?, eq_comm]
  | cons k keyword ih =>
    cases s with
    | nil => simp [afterFolded?]
    | cons c s =>
      rw [afterFolded?]
      constructor
      · intro h
        split at h
        next hk =>
          obtain ⟨m, rfl, hm⟩ := ih.1 h
          exact ⟨c :: m, rfl, by rw [List.map_cons, List.map_cons, hm, eq_of_beq hk]⟩
        next => cases h
      · rintro ⟨m, hs, hm⟩
        cases m with
        | nil => cases hm
        | cons c' m =>
          obtain ⟨rfl, rfl⟩ := List.cons.inj hs
          obtain ⟨hk, hm⟩ := List.cons.inj hm
          rw [if_pos (beq_iff_eq.2 hk.symm)]
          exact ih.2 ⟨m, rfl, hm⟩

/-- A keyword is found as a whole token, up to case. -/
theorem recognise_eq_some {keyword s rest : List Char} {before : Option Char} :
    recognise keyword before s = some ((), rest) ↔
      precededBy isTokenChar before = false ∧ followedBy isTokenChar rest = false ∧
        ∃ m, s = m ++ rest ∧ m.map foldCase = keyword.map foldCase := by
  rw [← afterFolded?_eq_some, recognise]
  constructor
  · intro h
    split at h
    next => cases h
    next hbefore =>
      split at h
      next after hafter =>
        split at h
        next => cases h
        next hrest =>
          cases h
          exact ⟨Bool.eq_false_iff.2 hbefore, Bool.eq_false_iff.2 hrest, hafter⟩
      next => cases h
  · rintro ⟨hbefore, hrest, hafter⟩
    simp [hbefore, hafter, hrest]

/-- A keyword occurs where a stretch agrees with it up to case and stands on its own. -/
theorem occursIn_iff {keyword text : String} (hne : keyword.toList ≠ []) :
    occursIn keyword text = true ↔ ∃ a m b, text.toList = a ++ (m ++ b) ∧
      m.map foldCase = keyword.toList.map foldCase ∧
      precededBy isTokenChar (behind none a) = false ∧ followedBy isTokenChar b = false := by
  -- What agrees with a keyword is not empty, so the search moves on where it finds something.
  have hmatch : ∀ {m : List Char}, m.map foldCase = keyword.toList.map foldCase → m ≠ [] := by
    rintro m hm rfl
    exact hne (List.map_eq_nil_iff.1 hm.symm)
  have hnil : ∀ before, recognise keyword.toList before [] = none := by
    intro before
    by_contra hsome
    obtain ⟨⟨⟨⟩, rest⟩, hr⟩ := Option.ne_none_iff_exists'.1 hsome
    obtain ⟨-, -, m, hm, hfold⟩ := recognise_eq_some.1 hr
    exact hmatch hfold (List.append_eq_nil_iff.1 hm.symm).1
  have hmove : ∀ {before x a rest}, recognise keyword.toList before x = some (a, rest) →
      ∃ m, m ≠ [] ∧ x = m ++ rest := by
    intro before x a rest hr
    obtain ⟨-, -, m, hm, hfold⟩ := recognise_eq_some.1 hr
    exact ⟨m, hmatch hfold, hm⟩
  rw [occursIn, find?_isSome_iff hnil hmove]
  constructor
  · rintro ⟨a, s, hs, hsome⟩
    obtain ⟨⟨⟨⟩, b⟩, hr⟩ := Option.isSome_iff_exists.1 hsome
    obtain ⟨ha, hb, m, rfl, hfold⟩ := recognise_eq_some.1 hr
    exact ⟨a, m, b, hs, hfold, ha, hb⟩
  · rintro ⟨a, m, b, hs, hfold, ha, hb⟩
    exact ⟨a, m ++ b, hs, by rw [recognise_eq_some.2 ⟨ha, hb, m, rfl, hfold⟩]; rfl⟩

/-- The letters of a keyword stand for themselves. -/
theorem foldCase_of_keyword {k : Char} (h : (k.isLower || k.isDigit) = true) :
    isTokenChar k = true ∧ foldCase k = k := by
  have hletter := letter?_eq k
  rw [letter?, if_pos h] at hletter
  split at hletter
  next htoken => exact ⟨htoken, (Option.some.inj hletter).symm⟩
  next => cases hletter

theorem folded_of_isTokenChar {c : Char} (h : isTokenChar c = true) : folded c = foldCase c := by
  rw [folded, letter?_eq, if_pos h]
  rfl

/-- A stretch agrees with a keyword up to case exactly if it is the keyword once its letters are
folded. -/
theorem map_foldCase_eq_iff {keyword m : List Char}
    (hkeyword : ∀ k ∈ keyword, (k.isLower || k.isDigit) = true) :
    m.map foldCase = keyword.map foldCase ↔
      (∀ c ∈ m, isTokenChar c = true) ∧ m.map folded = keyword := by
  have hself : keyword.map foldCase = keyword :=
    List.map_congr_left (fun k hk => (foldCase_of_keyword (hkeyword k hk)).2) |>.trans
      (List.map_id keyword)
  rw [hself]
  constructor
  · intro hm
    have hletters : ∀ c ∈ m, isTokenChar c = true := by
      intro c hc
      have hk : foldCase c ∈ keyword := hm ▸ List.mem_map_of_mem hc
      obtain ⟨htoken, hfix⟩ := foldCase_of_keyword (hkeyword _ hk)
      rw [isTokenChar, hfix] at htoken
      exact htoken
    refine ⟨hletters, ?_⟩
    rw [← hm]
    exact List.map_congr_left fun c hc => folded_of_isTokenChar (hletters c hc)
  · rintro ⟨hletters, hm⟩
    rw [← hm]
    exact List.map_congr_left fun c hc => (folded_of_isTokenChar (hletters c hc)).symm

/-- A keyword of small letters and digits occurs in a text exactly if it is one of the tokens of the
text, with their letters in lower case. -/
theorem occursIn_iff_mem_tokens (keyword text : String) (hne : keyword ≠ "")
    (hkeyword : ∀ k ∈ keyword.toList, (k.isLower || k.isDigit) = true) :
    occursIn keyword text = true ↔ ∃ t ∈ tokens text.toList, t.map folded = keyword.toList := by
  have hletters : keyword.toList ≠ [] := by simpa using hne
  rw [occursIn_iff hletters]
  simp only [mem_tokens_iff, map_foldCase_eq_iff hkeyword]
  constructor
  · rintro ⟨a, t, b, hs, ⟨ht, hfold⟩, ha, hb⟩
    refine ⟨t, ⟨?_, a, b, hs, ht, ha, hb⟩, hfold⟩
    rintro rfl
    exact hletters hfold.symm
  · rintro ⟨t, ⟨-, a, b, hs, ht, ha, hb⟩, hfold⟩
    exact ⟨a, t, b, hs, ⟨ht, hfold⟩, ha, hb⟩

/-- Tokens end at an underscore, a dash and a letter with an accent. The Kelvin sign, the dotless i
and the long s are letters, of the keyword and next to it. -/
theorem occursIn_iff_mem_tokens_kiss :
    occursIn "kiss" "kis_\u212aıSſ-é" = true ∧
      occursIn "kiss" "kissſ_akissékiss\u212a" = false := by
  have hkeyword : ∀ k ∈ "kiss".toList, (k.isLower || k.isDigit) = true := by decide
  constructor
  · exact (occursIn_iff_mem_tokens "kiss" _ (by decide) hkeyword).2 (by decide +kernel)
  · rw [← Bool.not_eq_true, occursIn_iff_mem_tokens "kiss" _ (by decide) hkeyword]
    decide +kernel

end PageCompiler.Keyword
