import Mathlib.Data.List.TakeWhile
import PageCompiler.Text.Lines

/-!
# `PageCompiler.Proofs.Text.Lines`: cutting a text into lines and joining them

A text is cut at eleven kinds of line breaks, and its lines are joined again by line feeds. The two
together only change the breaks: `join_lines` says that they amount to `unifyBreaks`, unless the
text ends in a break. `lines_append_break` cuts off the first line.
-/

set_option autoImplicit false

namespace PageCompiler.Text

/-- What is said of all characters of a text is decided character by character. Without this
instance, `decide` may go through all characters there are. -/
instance decidableForallMem (s : List Char) (p : Char → Prop) [DecidablePred p] :
    Decidable (∀ c ∈ s, p c) :=
  List.decidableBAll p s

/-- No character of the text ends a line. -/
def OneLine (s : List Char) : Prop :=
  ∀ c ∈ s, isLineBreak c = false

/-- The only line breaks of the text are line feeds. -/
def LineFed (s : List Char) : Prop :=
  ∀ c ∈ s, isLineBreak c = true → c = '\n'

/-- A text in which every line break is a line feed. -/
def unifyBreaks : List Char → List Char
  | [] => []
  | '\r' :: '\n' :: rest => '\n' :: unifyBreaks rest
  | c :: rest => (if isLineBreak c then '\n' else c) :: unifyBreaks rest

theorem OneLine.lineFed {s : List Char} (h : OneLine s) : LineFed s := by
  intro c hc hb
  rw [h c hc] at hb
  cases hb

theorem oneLine_append {a b : List Char} : OneLine (a ++ b) ↔ OneLine a ∧ OneLine b :=
  List.forall_mem_append

theorem oneLine_cons {c : Char} {s : List Char} :
    OneLine (c :: s) ↔ isLineBreak c = false ∧ OneLine s :=
  List.forall_mem_cons

theorem lineFed_append {a b : List Char} : LineFed (a ++ b) ↔ LineFed a ∧ LineFed b :=
  List.forall_mem_append

theorem lineFed_cons {c : Char} {s : List Char} :
    LineFed (c :: s) ↔ (isLineBreak c = true → c = '\n') ∧ LineFed s :=
  List.forall_mem_cons

/-- A character that ends no line goes to the front of the first line. -/
theorem lines_cons {c : Char} {s : List Char} (h : isLineBreak c = false) :
    lines (c :: s) = consLine c (lines s) := by
  have hc : c ≠ '\r' := by
    rintro rfl
    exact absurd h (by decide)
  rw [lines.eq_def]
  split
  · contradiction
  · rename_i heq
    cases heq
    exact absurd rfl hc
  · rename_i heq
    cases heq
    rw [h]
    rfl

/-- A line break ends the first line. A carriage return takes the line feed behind it along, so
that case is left out. -/
theorem lines_break_of_not_pair {c : Char} {s : List Char} (h : isLineBreak c = true)
    (hs : ∀ rest, c = '\r' → s = '\n' :: rest → False) : lines (c :: s) = [] :: lines s := by
  rw [lines.eq_def]
  split
  · contradiction
  · rename_i heq
    cases heq
    exact absurd rfl (hs _ rfl)
  · rename_i heq
    cases heq
    rw [h]
    rfl

theorem lines_ne_nil {s : List Char} (h : s ≠ []) : lines s ≠ [] := by
  fun_cases lines s with
  | case1 => exact absurd rfl h
  | case2 => simp
  | case3 => simp_all
  | case4 c rest _ _ => cases lines rest <;> simp_all [consLine]

/-- The first line, when a break ends it. -/
theorem lines_append_break {line : List Char} {c : Char} {s : List Char} (hline : OneLine line)
    (hc : isLineBreak c = true) (hs : c = '\r' → s.head? ≠ some '\n') :
    lines (line ++ c :: s) = line :: lines s := by
  induction line with
  | nil =>
    refine lines_break_of_not_pair hc ?_
    rintro rest rfl rfl
    exact hs rfl rfl
  | cons d line ih =>
    obtain ⟨hd, hline⟩ := oneLine_cons.1 hline
    rw [List.cons_append, lines_cons hd, ih hline]
    rfl

theorem lines_append_feed {line : List Char} (hline : OneLine line) (s : List Char) :
    lines (line ++ '\n' :: s) = line :: lines s :=
  lines_append_break hline rfl (fun h => absurd h (by decide))

/-- A carriage return takes the line feed behind it along. -/
theorem lines_append_pair {line : List Char} (hline : OneLine line) (s : List Char) :
    lines (line ++ '\r' :: '\n' :: s) = line :: lines s := by
  induction line with
  | nil => rfl
  | cons c line ih =>
    obtain ⟨hc, hline⟩ := oneLine_cons.1 hline
    rw [List.cons_append, lines_cons hc, ih hline, consLine]

/-- A text without breaks is one line. -/
theorem lines_of_oneLine {s : List Char} (h : OneLine s) (hs : s ≠ []) : lines s = [s] := by
  induction s with
  | nil => exact absurd rfl hs
  | cons c s ih =>
    obtain ⟨hc, h⟩ := oneLine_cons.1 h
    rw [lines_cons hc]
    cases s with
    | nil => rfl
    | cons d s => rw [ih h (by simp)]; rfl

/-- No line of a text holds a line break. -/
theorem oneLine_of_mem_lines {s : List Char} : ∀ line ∈ lines s, OneLine line := by
  fun_induction lines s with
  | case1 => simp
  | case2 rest ih =>
    intro line hline
    rcases List.mem_cons.1 hline with rfl | hline
    · intro c hc
      cases hc
    · exact ih line hline
  | case3 c rest _ _ ih =>
    intro line hline
    rcases List.mem_cons.1 hline with rfl | hline
    · intro d hd
      cases hd
    · exact ih line hline
  | case4 c rest _ hc ih =>
    have hc : isLineBreak c = false := by simpa using hc
    cases hrest : lines rest with
    | nil =>
      intro line hline
      rw [consLine, List.mem_singleton] at hline
      subst hline
      exact oneLine_cons.2 ⟨hc, by intro d hd; cases hd⟩
    | cons first more =>
      rw [hrest] at ih
      intro line hline
      rcases List.mem_cons.1 hline with rfl | hline
      · exact oneLine_cons.2 ⟨hc, ih first (by simp)⟩
      · exact ih line (by simp [hline])

/-- Lines hold characters of the text. -/
theorem mem_of_mem_lines {s : List Char} : ∀ line ∈ lines s, ∀ c ∈ line, c ∈ s := by
  fun_induction lines s with
  | case1 => simp
  | case2 rest ih =>
    intro line hline c hc
    rcases List.mem_cons.1 hline with rfl | hline
    · cases hc
    · exact List.mem_cons_of_mem _ (List.mem_cons_of_mem _ (ih line hline c hc))
  | case3 d rest _ _ ih =>
    intro line hline c hc
    rcases List.mem_cons.1 hline with rfl | hline
    · cases hc
    · exact List.mem_cons_of_mem _ (ih line hline c hc)
  | case4 d rest _ _ ih =>
    intro line hline c hc
    cases hrest : lines rest with
    | nil =>
      rw [hrest, consLine, List.mem_singleton] at hline
      subst hline
      rw [List.mem_singleton.1 hc]
      exact List.mem_cons_self
    | cons first more =>
      rw [hrest] at ih hline
      rcases List.mem_cons.1 hline with rfl | hline
      · rcases List.mem_cons.1 hc with rfl | hc
        · exact List.mem_cons_self
        · exact List.mem_cons_of_mem _ (ih first (by simp) c hc)
      · exact List.mem_cons_of_mem _ (ih line (by simp [hline]) c hc)

/-- Lines that were put together are found again, unless the last one is empty. -/
theorem linesOf_intercalate {ls : List String} {last : String} (h : ∀ l ∈ ls, OneLine l.toList)
    (hlast : OneLine last.toList) (hne : last ≠ "") :
    linesOf ("\n".intercalate (ls ++ [last])) = ls ++ [last] := by
  induction ls with
  | nil =>
    have hchars : last.toList ≠ [] := by simpa using hne
    rw [List.nil_append, String.intercalate_singleton, linesOf, lines_of_oneLine hlast hchars]
    simp
  | cons l ls ih =>
    obtain ⟨hl, hls⟩ := List.forall_mem_cons.1 h
    have htext : ("\n".intercalate (l :: (ls ++ [last]))).toList =
        l.toList ++ '\n' :: ("\n".intercalate (ls ++ [last])).toList := by
      rw [String.intercalate_cons_of_ne_nil (by simp)]
      simp
    have ih := ih hls
    rw [linesOf] at ih
    rw [List.cons_append, linesOf, htext, lines_append_feed hl, List.map_cons, ih]
    simp

/-! ### Joining -/

theorem join_cons {sep piece : List Char} {rest : List (List Char)} (h : rest ≠ []) :
    join sep (piece :: rest) = piece ++ sep ++ join sep rest := by
  cases rest with
  | nil => exact absurd rfl h
  | cons _ _ => rfl

theorem mem_join {sep piece : List Char} {pieces : List (List Char)} {c : Char}
    (hpiece : piece ∈ pieces) (hc : c ∈ piece) : c ∈ join sep pieces := by
  induction pieces with
  | nil => cases hpiece
  | cons first rest ih =>
    cases rest with
    | nil =>
      rw [join, ← List.mem_singleton.1 hpiece]
      exact hc
    | cons next more =>
      rw [join_cons (by simp)]
      rcases List.mem_cons.1 hpiece with rfl | hpiece
      · exact List.mem_append_left _ (List.mem_append_left _ hc)
      · exact List.mem_append_right _ (ih hpiece)

/-- A line feed in joined lines stands between two of them. -/
theorem join_eq_append {ls : List (List Char)} {a b : List Char} (hls : ∀ l ∈ ls, OneLine l)
    (h : join ['\n'] ls = a ++ '\n' :: b) :
    ∃ p q, ls = p ++ q ∧ p ≠ [] ∧ q ≠ [] ∧ join ['\n'] p = a ∧ join ['\n'] q = b := by
  induction ls generalizing a with
  | nil => simp [join] at h
  | cons piece rest ih =>
    obtain ⟨hpiece, hrest⟩ := List.forall_mem_cons.1 hls
    have hfeed : '\n' ∉ piece := fun hmem => absurd (hpiece '\n' hmem) (by decide)
    cases rest with
    | nil =>
      rw [join] at h
      exact absurd (h ▸ (by simp)) hfeed
    | cons next more =>
      rw [join_cons (by simp), List.append_assoc, List.singleton_append] at h
      rcases List.append_eq_append_iff.1 h with ⟨a', rfl, hb⟩ | ⟨c', rfl, hb⟩
      · cases a' with
        | nil =>
          have hb := (List.cons.inj hb).2
          exact ⟨[piece], next :: more, rfl, by simp, by simp, by simp [join], hb⟩
        | cons d a'' =>
          obtain ⟨rfl, hjoined⟩ := List.cons.inj hb
          obtain ⟨p, q, hpq, hp, hq, hjoin, hq'⟩ := ih hrest hjoined
          refine ⟨piece :: p, q, by rw [hpq]; rfl, by simp, hq, ?_, hq'⟩
          rw [join_cons hp, hjoin]
          simp
      · cases c' with
        | nil =>
          have hb := (List.cons.inj hb).2
          exact ⟨[a], next :: more, by simp, by simp, by simp, by simp [join], hb.symm⟩
        | cons d c'' =>
          obtain ⟨rfl, -⟩ := List.cons.inj hb
          exact absurd (by simp) hfeed

/-- Lines that were joined are found again, and the last piece is cut as it would be on its own. -/
theorem lines_join_concat {ls : List (List Char)} (h : ∀ l ∈ ls, OneLine l) (last : List Char) :
    lines (join ['\n'] (ls ++ [last])) = ls ++ lines last := by
  induction ls with
  | nil => rfl
  | cons line rest ih =>
    obtain ⟨hline, hrest⟩ := List.forall_mem_cons.1 h
    rw [List.cons_append, join_cons (by simp), List.append_assoc, List.singleton_append,
      lines_append_feed hline, ih hrest, List.cons_append]

/-- Joined lines have a line feed between each two of them. -/
theorem countFeeds_join {first : List Char} {more : List (List Char)}
    (h : ∀ l ∈ first :: more, OneLine l) :
    countFeeds (join ['\n'] (first :: more)) = more.length := by
  have hfree : ∀ l : List Char, OneLine l → countFeeds l = 0 := by
    intro l hl
    rw [countFeeds, List.count_eq_zero]
    intro hfeed
    exact absurd (hl '\n' hfeed) (by decide)
  induction more generalizing first with
  | nil => exact hfree first (h first (by simp))
  | cons next more ih =>
    obtain ⟨hfirst, hrest⟩ := List.forall_mem_cons.1 h
    have hcount : countFeeds (first ++ ['\n'] ++ join ['\n'] (next :: more)) =
        countFeeds first + 1 + countFeeds (join ['\n'] (next :: more)) := by
      simp only [countFeeds, List.count_append, List.count_singleton_self]
    rw [join_cons (by simp), hcount, hfree first hfirst, ih hrest, List.length_cons]
    omega

/-- The lines of two texts with a line feed in between. The feed ends the last line of the first
text, or makes an empty one if that line has ended already. -/
theorem lines_append_feed_cases (s t : List Char) :
    lines (s ++ '\n' :: t) = lines s ++ lines t ∨
      lines (s ++ '\n' :: t) = lines s ++ [] :: lines t := by
  fun_induction lines s with
  | case1 => exact .inr rfl
  | case2 rest ih => exact ih.imp (congrArg ([] :: ·)) (congrArg ([] :: ·))
  | case3 c rest hpair hc ih =>
    cases rest with
    | nil =>
      -- A carriage return at the end takes the new line feed along.
      by_cases hr : c = '\r'
      · subst hr
        exact .inl rfl
      · rw [List.singleton_append, lines_break_of_not_pair hc (fun _ heq _ => hr heq)]
        exact .inr rfl
    | cons d rest =>
      have hcut : lines (c :: (d :: rest ++ '\n' :: t)) = [] :: lines (d :: rest ++ '\n' :: t) := by
        refine lines_break_of_not_pair hc ?_
        intro more hr hd
        rw [List.cons_append, List.cons.injEq] at hd
        exact hpair rest hr (by rw [hd.1])
      rw [List.cons_append, hcut]
      exact ih.imp (congrArg ([] :: ·)) (congrArg ([] :: ·))
  | case4 c rest _ hc ih =>
    rw [List.cons_append, lines_cons (by simpa using hc)]
    cases hrest : lines rest with
    | nil =>
      cases rest with
      | nil => exact .inl rfl
      | cons d rest => exact absurd hrest (lines_ne_nil (by simp))
    | cons line more =>
      rw [hrest] at ih
      exact ih.imp (congrArg (consLine c)) (congrArg (consLine c))

/-- A text keeps its lines when more lines are put behind it. -/
theorem lines_prefix_append (s t : List Char) : lines s <+: lines (s ++ '\n' :: t) := by
  obtain h | h := lines_append_feed_cases s t
  · rw [h]
    exact List.prefix_append _ _
  · rw [h]
    exact List.prefix_append _ _

theorem join_consLine {c : Char} {ls : List (List Char)} (h : ls ≠ []) :
    join ['\n'] (consLine c ls) = c :: join ['\n'] ls := by
  match ls, h with
  | [_], _ => rfl
  | _ :: _ :: _, _ => rfl

/-- Lines joined by line feeds are the text with its breaks made line feeds, unless the text ends in
a break. -/
theorem join_lines {s : List Char} (h : ∀ c, s.getLast? = some c → isLineBreak c = false) :
    join ['\n'] (lines s) = unifyBreaks s := by
  fun_induction unifyBreaks s with
  | case1 => rfl
  | case2 rest ih =>
    cases rest with
    | nil => exact absurd (h '\n' rfl) (by decide)
    | cons d rest =>
      rw [show lines ('\r' :: '\n' :: d :: rest) = [] :: lines (d :: rest) from rfl,
        join_cons (lines_ne_nil (by simp)), ih (by simpa using h)]
      rfl
  | case3 c rest hpair ih =>
    cases rest with
    | nil =>
      have hc := h c rfl
      rw [lines_cons hc, hc]
      rfl
    | cons d rest =>
      have ih := ih (by simpa using h)
      by_cases hc : isLineBreak c = true
      · -- A carriage return before a line feed was the case above.
        have hcut : lines (c :: d :: rest) = [] :: lines (d :: rest) :=
          lines_break_of_not_pair hc hpair
        rw [hcut, join_cons (lines_ne_nil (by simp)), ih, hc]
        rfl
      · have hc : isLineBreak c = false := by simpa using hc
        rw [lines_cons hc, join_consLine (lines_ne_nil (by simp)), ih, hc]
        rfl

/-! ### Unified breaks -/

/-- A text with unified breaks has line feeds only. -/
theorem lineFed_unifyBreaks (s : List Char) : LineFed (unifyBreaks s) := by
  fun_induction unifyBreaks s with
  | case1 => intro c hc; cases hc
  | case2 rest ih => exact lineFed_cons.2 ⟨fun _ => rfl, ih⟩
  | case3 c rest _ ih =>
    refine lineFed_cons.2 ⟨?_, ih⟩
    cases hc : isLineBreak c with
    | true => intro _; rfl
    | false =>
      intro hb
      exact absurd hb (by simp [hc])

theorem unifyBreaks_cons {c : Char} {s : List Char} (hc : isLineBreak c = false) :
    unifyBreaks (c :: s) = c :: unifyBreaks s := by
  have hr : c ≠ '\r' := by
    rintro rfl
    exact absurd hc (by decide)
  rw [unifyBreaks.eq_def]
  split
  · contradiction
  · rename_i heq
    cases heq
    exact absurd rfl hr
  · rename_i heq
    cases heq
    rw [hc]
    rfl

/-- A piece without breaks stays as it is. -/
theorem unifyBreaks_append {a s : List Char} (ha : OneLine a) :
    unifyBreaks (a ++ s) = a ++ unifyBreaks s := by
  induction a with
  | nil => rfl
  | cons c a ih =>
    obtain ⟨hc, ha⟩ := oneLine_cons.1 ha
    rw [List.cons_append, unifyBreaks_cons hc, ih ha]
    rfl

theorem unifyBreaks_of_oneLine {s : List Char} (h : OneLine s) : unifyBreaks s = s := by
  have happ := unifyBreaks_append (s := []) h
  rwa [List.append_nil, show unifyBreaks [] = [] from rfl, List.append_nil] at happ

/-- Two pieces may be unified one by one, unless the cut parts a carriage return from its line
feed. -/
theorem unifyBreaks_append_of_cut {a s : List Char}
    (h : a.getLast? = some '\r' → s.head? ≠ some '\n') :
    unifyBreaks (a ++ s) = unifyBreaks a ++ unifyBreaks s := by
  fun_induction unifyBreaks a with
  | case1 => rfl
  | case2 rest ih =>
    rw [List.cons_append, List.cons_append, List.cons_append]
    rw [← ih (fun hlast => h (by cases rest <;> simp_all))]
    rfl
  | case3 c rest hpair ih =>
    rw [List.cons_append, List.cons_append, ← ih (fun hlast => h (by cases rest <;> simp_all)),
      unifyBreaks.eq_def]
    split
    · contradiction
    · rename_i tail heq
      rw [List.cons.injEq] at heq
      obtain ⟨rfl, heq⟩ := heq
      -- The line feed cannot come from either piece.
      cases rest with
      | nil => exact absurd (by rw [show s = _ from heq]; rfl) (h rfl)
      | cons d rest =>
        rw [List.cons_append, List.cons.injEq] at heq
        obtain ⟨rfl, _⟩ := heq
        exact absurd rfl (hpair rest rfl)
    · rename_i heq
      cases heq
      rfl

/-- What unifying keeps and what it changes. -/
theorem mem_unifyBreaks {c : Char} {s : List Char} (h : c ∈ unifyBreaks s) :
    c = '\n' ∨ c ∈ s := by
  fun_induction unifyBreaks s with
  | case1 => cases h
  | case2 rest ih =>
    rcases List.mem_cons.1 h with rfl | h
    · exact .inl rfl
    · exact (ih h).imp_right fun h => by simp [h]
  | case3 d rest _ ih =>
    rcases List.mem_cons.1 h with rfl | h
    · cases isLineBreak d with
      | true => exact .inl rfl
      | false => exact .inr (by simp)
    · exact (ih h).imp_right fun h => by simp [h]

/-- A character is still there after unifying, as a line feed if it is a break. -/
theorem mem_unifyBreaks_of_mem {c : Char} {s : List Char} (h : c ∈ s) :
    (if isLineBreak c then '\n' else c) ∈ unifyBreaks s := by
  fun_induction unifyBreaks s with
  | case1 => cases h
  | case2 rest ih =>
    simp only [List.mem_cons] at h ⊢
    rcases h with rfl | rfl | h
    · exact .inl rfl
    · exact .inl rfl
    · exact .inr (ih h)
  | case3 d rest _ ih =>
    rcases List.mem_cons.1 h with rfl | h
    · exact List.mem_cons_self
    · exact List.mem_cons_of_mem _ (ih h)

/-- Unifying changes the breaks, and so no line. -/
theorem lines_unifyBreaks (s : List Char) : lines (unifyBreaks s) = lines s := by
  fun_induction unifyBreaks s with
  | case1 => rfl
  | case2 rest ih =>
    rw [show lines ('\n' :: unifyBreaks rest) = [] :: lines (unifyBreaks rest) from rfl, ih]
    rfl
  | case3 c rest hpair ih =>
    cases hc : isLineBreak c with
    | true =>
      rw [show lines ((if true = true then '\n' else c) :: unifyBreaks rest) =
        [] :: lines (unifyBreaks rest) from rfl, ih, lines_break_of_not_pair hc hpair]
    | false =>
      rw [show lines ((if false = true then '\n' else c) :: unifyBreaks rest) =
        lines (c :: unifyBreaks rest) from rfl, lines_cons hc, lines_cons hc, ih]

theorem LineFed.append_feed {line s : List Char} (hline : OneLine line) (hs : LineFed s) :
    LineFed (line ++ '\n' :: s) :=
  lineFed_append.2 ⟨hline.lineFed, lineFed_cons.2 ⟨fun _ => rfl, hs⟩⟩

/-- A text whose breaks are line feeds is one line, or a line in front of such a text. -/
@[elab_as_elim]
theorem LineFed.induction {motive : (s : List Char) → LineFed s → Prop}
    (one : ∀ s (h : OneLine s), motive s h.lineFed)
    (feed : ∀ line s (hline : OneLine line) (hs : LineFed s), motive s hs →
      motive (line ++ '\n' :: s) (.append_feed hline hs)) (s : List Char) (hs : LineFed s) :
    motive s hs := by
  induction hn : s.length using Nat.strong_induction_on generalizing s with
  | _ n ih =>
    have hline : OneLine (s.takeWhile (!isLineBreak ·)) := by
      intro c hc
      simpa using List.mem_takeWhile_imp hc
    have hcut := s.takeWhile_append_dropWhile (p := (!isLineBreak ·))
    cases hrest : s.dropWhile (!isLineBreak ·) with
    | nil =>
      rw [hrest, List.append_nil] at hcut
      exact one s (hcut ▸ hline)
    | cons c rest =>
      have hbreak : isLineBreak c = true := by
        have hhead := List.head?_dropWhile_not (!isLineBreak ·) s
        rw [hrest] at hhead
        simpa using hhead
      rw [hrest] at hcut
      generalize s.takeWhile (!isLineBreak ·) = line at hcut hline
      subst hcut
      obtain ⟨hc, hfed⟩ := lineFed_cons.1 (lineFed_append.1 hs).2
      cases hc hbreak
      have hlt : rest.length < n := by
        rw [List.length_append, List.length_cons] at hn
        omega
      exact feed line rest hline hfed (ih rest.length hlt rest hfed rfl)

end PageCompiler.Text
