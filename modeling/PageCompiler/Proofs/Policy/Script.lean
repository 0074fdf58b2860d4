import PageCompiler.Proofs.Artifact.Members
import PageCompiler.Proofs.Policy.Marker

/-!
# `PageCompiler.Proofs.Policy.Script`: a policy goes through a script line by line

Renaming, replacing markers and removing headers are passes over a whole text. On a script whose
lines leave no literal or comment open, each pass works on every line by itself (`run_feed`,
`replaceMarkers_feed`, `replaceAll_header_feed`), and a line stays one that declares the same name
up to renaming (`line_run`, `line_replaceMarkers`). So the canonical script declares the canonical
form of everything that the script declared before (`mem_scriptKeys_withHeader`).
-/

set_option autoImplicit false

namespace PageCompiler

open Text Directive

/-! ### Renaming line by line -/

namespace Rename

variable {aliases : Assoc String}

/-- Code that is renamed by itself in front of a line feed. -/
def Separate (aliases : Assoc String) (l : List Char) : Prop :=
  ∀ s, run aliases (l ++ '\n' :: s) = run aliases l ++ '\n' :: run aliases s

/-- Lines are renamed one by one. -/
theorem run_feed {ls : List (List Char)} (hls : ∀ l ∈ ls, Separate aliases l) (last : List Char) :
    run aliases (feed ls ++ last) = feed (ls.map (run aliases)) ++ run aliases last := by
  induction ls with
  | nil => rfl
  | cons l ls ih =>
    obtain ⟨hl, hls⟩ := List.forall_mem_cons.1 hls
    rw [List.map_cons, feed_cons, feed_cons, List.append_assoc, List.cons_append, hl, ih hls,
      List.append_assoc, List.cons_append]

/-- A comment ends with its line. -/
theorem quiet?_comment {rest s : List Char} (hrest : '\n' ∉ rest)
    (hs : followedBy (· != '\n') s = false) :
    quiet? (('/' :: '/' :: rest) ++ s) = some ('/' :: '/' :: rest, s) := by
  have hrun : ∀ c ∈ rest, (c != '\n') = true := by
    intro c hc
    rw [bne_iff_ne]
    rintro rfl
    exact hrest hc
  rw [List.cons_append, List.cons_append, quiet?, takeWhile_run hrun hs, dropWhile_run hrun hs]

variable (h : Regular aliases)

include h

theorem run_lineFeed (s : List Char) : run aliases ('\n' :: s) = '\n' :: run aliases s :=
  run_mark h (by decide) (quiet?_of_not_isQuietStart (by decide))

theorem Closed.separate {l : List Char} (hl : Closed aliases l) : Separate aliases l := by
  intro s
  have hend : followedBy isIdentChar ('\n' :: s) = false := rfl
  rw [hl _ hend, run_lineFeed h]

theorem run_comment {rest : List Char} (hrest : '\n' ∉ rest) :
    run aliases ('/' :: '/' :: rest) = '/' :: '/' :: rest := by
  have hself := run_quiet h (quiet?_comment hrest (followedBy_nil _))
  rwa [List.append_nil, run_nil h, List.append_nil] at hself

theorem separate_comment {gap rest : List Char} (hgap : ∀ c ∈ gap, isBlank c = true)
    (hrest : '\n' ∉ rest) : Separate aliases (gap ++ '/' :: '/' :: rest) := by
  intro s
  have hend : followedBy (· != '\n') ('\n' :: s) = false := rfl
  rw [List.append_assoc, run_gap h hgap, run_gap h hgap, run_comment h hrest,
    run_quiet h (quiet?_comment hrest hend), run_lineFeed h, List.append_assoc]

/-- Renaming puts no line feed in. -/
theorem feed_not_mem_run {x : List Char} (hx : '\n' ∉ x) : '\n' ∉ run aliases x := by
  have hnew : ∀ {before old new rest}, Policy.renamed aliases before old new rest →
      ∀ c ∈ new, c ≠ '\n' := by
    rintro before old new rest ⟨target, hget, rfl, -⟩ c hc rfl
    exact absurd ((h _ (Assoc.mem_of_get? hget)).2.chars _ hc) (by decide)
  have hedited : Edited (Policy.renamed aliases) none x (run aliases x) :=
    Policy.edited_run h x (by simp [precededBy])
  have hkept := hedited.forall_mem (P := (· ≠ '\n')) (fun c hc heq => hx (heq ▸ hc)) hnew
  exact fun hmem => hkept _ hmem rfl

/-- A renamed line declares the canonical form of its name. -/
theorem line_run (hlead : ∀ w ∈ leadWords, Assoc.get? aliases w = none) {l : List Char}
    {key : Option (List Char)} (hl : Line l key) :
    Line (run aliases l) (key.map (canonical aliases)) := by
  -- A mark stays, and what follows it stays on the line.
  have hmark : ∀ (rest : List Char) {c : Char}, c ∈ [':', '(', '.', '\x7b', '\x7d'] →
      followedBy isIdentChar (c :: rest) = false ∧
        run aliases (c :: rest) = c :: run aliases rest := by
    intro rest c hc
    have hall : ∀ c ∈ [':', '(', '.', '\x7b', '\x7d'],
        isIdentChar c = false ∧ isQuietStart c = false := by decide
    obtain ⟨hident, hquiet⟩ := hall c hc
    exact ⟨hident, run_mark h hident (quiet?_of_not_isQuietStart hquiet)⟩
  cases hl with
  | @declares gap name rest c hgap hname hc hrest =>
    obtain ⟨hend, hrun⟩ := hmark rest (List.mem_append_left ['.', '\x7b', '\x7d'] hc)
    rw [run_gap h hgap, run_word h hname.ne_nil hname.chars hend, hrun]
    exact .declares hgap (isIdent_canonical h hname) hc (feed_not_mem_run h hrest)
  | @leads gap gap' rest w c hgap hw hgap' hc hrest =>
    have hwords : ∀ w ∈ leadWords, IsIdent w.toList := by decide
    have hcanonical : canonical aliases w.toList = w.toList :=
      canonical_of_none (by rw [String.ofList_toList]; exact hlead w hw)
    obtain ⟨hend, hrun⟩ := hmark rest
      (List.mem_append_right [':', '('] (List.mem_append_left ['\x7d'] hc))
    have hstop : followedBy isIdentChar (gap' ++ c :: rest) = false := by
      cases gap' with
      | nil => exact hend
      | cons d gap' => exact isIdentChar_of_isBlank (isBlank_of_spaces hgap' d (by simp))
    rw [run_gap h (isBlank_of_spaces hgap),
      run_word h (hwords w hw).ne_nil (hwords w hw).chars hstop, hcanonical,
      run_gap h (isBlank_of_spaces hgap'), hrun]
    exact .leads hgap hw hgap' hc (feed_not_mem_run h hrest)
  | @closes gap rest hgap hrest =>
    rw [run_gap h (isBlank_of_spaces hgap), (hmark rest (by simp)).2]
    exact .closes hgap (feed_not_mem_run h hrest)
  | @comments gap rest hgap hrest =>
    rw [run_gap h (isBlank_of_spaces hgap), run_comment h hrest]
    exact .comments hgap hrest

end Rename

/-! ### Replacing markers line by line -/

namespace Policy

variable {p : Policy}

/-- No marker goes beyond the end of its line. -/
theorem replaceMarkers_append (x s : List Char) :
    p.replaceMarkers (x ++ '\n' :: s) = p.replaceMarkers x ++ '\n' :: p.replaceMarkers s :=
  replaceMarkers_append_cons p (by decide) (by decide) x s

/-- Markers are replaced line by line. -/
theorem replaceMarkers_feed (ls : List (List Char)) (last : List Char) :
    p.replaceMarkers (feed ls ++ last) =
      feed (ls.map p.replaceMarkers) ++ p.replaceMarkers last := by
  induction ls with
  | nil => rfl
  | cons l ls ih =>
    rw [List.map_cons, feed_cons, feed_cons, List.append_assoc, List.cons_append,
      replaceMarkers_append, ih, List.append_assoc, List.cons_append]

/-- What stands in front of the first sign of a marker stays as it is. -/
theorem replaceMarkers_front {x s : List Char} {c : Char} (hx : '@' ∉ x) (hc : c ∉ "vue@".toList)
    (hmarker : '\n' ∉ p.runtimeMarker.toList) (hs : '\n' ∉ s) :
    ∃ s', p.replaceMarkers (x ++ c :: s) = x ++ c :: s' ∧ '\n' ∉ s' := by
  have h : Edited (marked p.runtimeMarker.toList) none ((x ++ [c]) ++ s)
      (p.replaceMarkers (x ++ c :: s)) := by
    rw [List.append_assoc, List.singleton_append]
    exact edited_replaceMarkers p _
  have hclear : ∀ a b, x ++ [c] = a ++ b → b ≠ [] → ∀ {before old new rest},
      marked p.runtimeMarker.toList before old new rest → old ++ rest ≠ b ++ s := by
    rintro a b hab hb before old new rest ⟨-, version, rfl, -⟩ heq
    rcases List.eq_nil_or_concat b with rfl | ⟨y, e, rfl⟩
    · exact hb rfl
    · rw [List.concat_eq_append] at hab heq
      rw [← List.append_assoc] at hab
      obtain ⟨rfl, he⟩ := List.append_inj' hab rfl
      cases he
      rw [List.append_assoc, List.append_assoc, List.append_eq_append_iff] at heq
      -- The marker ends in front of the character, which puts its sign there, or reaches it.
      rcases heq with ⟨r, rfl, -⟩ | ⟨r, hmark, hrest⟩
      · exact hx (by simp)
      · cases r with
        | nil =>
          rw [List.append_nil] at hmark
          exact hx (by rw [← hmark]; simp)
        | cons d r =>
          obtain ⟨rfl, -⟩ := List.cons.inj hrest
          exact hc (by rw [hmark]; simp)
  obtain ⟨s', hs', hedited⟩ := h.untouched fun a b hab hb => hclear a b hab hb
  refine ⟨s', by rw [hs', List.append_assoc, List.singleton_append], ?_⟩
  have hkept := hedited.forall_mem (P := (· ≠ '\n')) (fun d hd heq => hs (heq ▸ hd)) (by
    rintro before old new rest ⟨rfl, -⟩ d hd rfl
    exact hmarker hd)
  exact fun hmem => hkept _ hmem rfl

/-- A line declares the same with another marker. -/
theorem line_replaceMarkers (hmarker : '\n' ∉ p.runtimeMarker.toList) {l : List Char}
    {key : Option (List Char)} (hl : Line l key) : Line (p.replaceMarkers l) key := by
  have hspaces : ∀ {gap : List Char}, (∀ d ∈ gap, isBlank d = true) → '@' ∉ gap :=
    fun hgap hmem => absurd (hgap _ hmem) (by decide)
  have hmarks : ∀ c ∈ [':', '(', '.', '\x7b'], c ∉ "vue@".toList := by decide
  cases hl with
  | @declares gap name rest c hgap hname hc hrest =>
    have hx : '@' ∉ gap ++ name := by
      rw [List.mem_append, not_or]
      exact ⟨hspaces hgap, fun hmem => absurd (hname.chars _ hmem) (by decide)⟩
    obtain ⟨s', hs', hfeed⟩ := replaceMarkers_front hx
      (hmarks c (List.mem_append_left ['.', '\x7b'] hc)) hmarker hrest
    rw [← List.append_assoc, hs', List.append_assoc]
    exact .declares hgap hname hc hfeed
  | @leads gap gap' rest w c hgap hw hgap' hc hrest =>
    have hwords : ∀ w ∈ leadWords, '@' ∉ w.toList := by decide
    have hx : '@' ∉ gap ++ (w.toList ++ gap') := by
      rw [List.mem_append, List.mem_append, not_or, not_or]
      exact ⟨hspaces (isBlank_of_spaces hgap), hwords w hw, hspaces (isBlank_of_spaces hgap')⟩
    obtain ⟨s', hs', hfeed⟩ := replaceMarkers_front hx
      (hmarks c (List.mem_append_right [':', '('] hc)) hmarker hrest
    have hassoc :
        ∀ y, gap ++ (w.toList ++ (gap' ++ c :: y)) = gap ++ (w.toList ++ gap') ++ c :: y :=
      fun y => by simp only [List.append_assoc]
    rw [hassoc, hs', ← hassoc]
    exact .leads hgap hw hgap' hc hfeed
  | @closes gap rest hgap hrest =>
    obtain ⟨s', hs', hfeed⟩ := replaceMarkers_front (c := '\x7d') (hspaces (isBlank_of_spaces hgap))
      (by decide) hmarker hrest
    rw [hs']
    exact .closes hgap hfeed
  | @comments gap rest hgap hrest =>
    have hx : '@' ∉ gap ++ ['/'] := by
      rw [List.mem_append, not_or]
      exact ⟨hspaces (isBlank_of_spaces hgap), by decide⟩
    obtain ⟨s', hs', hfeed⟩ := replaceMarkers_front (c := '/') hx (by decide) hmarker hrest
    have hassoc : ∀ y, gap ++ '/' :: '/' :: y = gap ++ ['/'] ++ '/' :: y := fun y => by simp
    rw [hassoc, hs', ← hassoc]
    exact .comments hgap hfeed

/-! ### The header -/

theorem lineWise_header : LineWise header := by
  intro before s hbefore
  rw [header, hbefore]
  rfl

theorem header_nil (before : Option Char) : header before [] = none := by
  cases hbefore : atLineStart before <;> simp [header, hbefore, after?]

/-- A header holds a slash, and ends with a slash, a blank or a line feed. -/
theorem header_eq_some {before : Option Char} {s rest : List Char} {found : Unit}
    (h : header before s = some (found, rest)) :
    ∃ m d, s = m ++ d :: rest ∧ '/' ∈ m ∧ d ∈ ['/', ' ', '\t', '\n'] := by
  have hdrop : ∀ {q : Char → Bool} {z pattern rest : List Char},
      after? pattern (z.dropWhile q) = some rest → ∃ x, z = x ++ (pattern ++ rest) := by
    intro q z pattern rest hafter
    refine ⟨z.takeWhile q, ?_⟩
    rw [← after?_eq_some.1 hafter, List.takeWhile_append_dropWhile]
  unfold header at h
  split at h
  · cases h
  · simp only [Option.bind_eq_bind, Option.bind_eq_some_iff] at h
    obtain ⟨s₁, h₁, s₂, h₂, s₃, h₃, h⟩ := h
    obtain ⟨-, hrest⟩ := Prod.mk.inj (Option.some.inj h)
    obtain ⟨x₁, rfl⟩ := hdrop h₁
    obtain ⟨x₂, rfl⟩ := hdrop h₂
    obtain ⟨x₃, rfl⟩ := hdrop h₃
    -- All up to the last star, and then the slash and what follows it.
    obtain ⟨front, hslash, hsplit⟩ : ∃ front, '/' ∈ front ∧ ∀ z, x₁ ++ ("/*".toList ++
        (x₂ ++ ("runtime:".toList ++ (x₃ ++ ("*/".toList ++ z))))) = front ++ '/' :: z :=
      ⟨x₁ ++ ("/*".toList ++ (x₂ ++ ("runtime:".toList ++ (x₃ ++ ['*'])))),
        List.mem_append_right _ (List.mem_append_left _ (by decide)), fun z => by simp⟩
    obtain ⟨spaces, z, rfl, hspaces, hz⟩ := exists_run isSpace s₃
    rw [dropWhile_run hspaces hz] at hrest
    rw [hsplit]
    cases hafter : after? ['\n'] z with
    | some z' =>
      rw [hafter, Option.getD_some] at hrest
      subst hrest
      refine ⟨front ++ '/' :: spaces, '\n', ?_, List.mem_append_left _ hslash, by decide⟩
      rw [after?_eq_some.1 hafter, List.append_assoc]
      rfl
    | none =>
      rw [hafter, Option.getD_none] at hrest
      subst hrest
      rcases List.eq_nil_or_concat spaces with rfl | ⟨spaces, d, rfl⟩
      · exact ⟨front, '/', rfl, hslash, by decide⟩
      · refine ⟨front ++ '/' :: spaces, d, by simp, List.mem_append_left _ hslash, ?_⟩
        have hd := hspaces d (by simp)
        rw [isSpace, Bool.or_eq_true, beq_iff_eq, beq_iff_eq] at hd
        rcases hd with rfl | rfl
        · decide
        · decide

/-- Behind blanks no header starts unless a comment does. -/
theorem header_gap {gap s : List Char} (hgap : ∀ d ∈ gap, isBlank d = true)
    (hs : followedBy isSpace s = false) (hcomment : after? "/*".toList s = none)
    (before : Option Char) : header before (gap ++ s) = none := by
  obtain ⟨spaces, gap', rfl, hspaces, hgap'⟩ := exists_run isSpace gap
  have hstop : followedBy isSpace (gap' ++ s) = false := by
    cases gap' with
    | nil => exact hs
    | cons d gap' => exact hgap'
  have hnone : after? "/*".toList (gap' ++ s) = none := by
    cases gap' with
    | nil => exact hcomment
    | cons d gap' =>
      have hd : d ≠ '/' := by
        rintro rfl
        exact absurd (hgap '/' (by simp)) (by decide)
      exact after?_cons_ne _ _ hd
  rw [header, List.append_assoc, dropWhile_run hspaces hstop, hnone]
  split
  · rfl
  · rfl

theorem header_bare {s : List Char} (hs : followedBy isSpace s = false)
    (hcomment : after? "/*".toList s = none) (before : Option Char) : header before s = none :=
  header_gap (List.forall_mem_nil _) hs hcomment before

/-- No header starts in a line of a script. -/
theorem dull_header {l : List Char} {key : Option (List Char)} (hl : Line l key)
    (before : Option Char) (s : List Char) : Dull header before l s := by
  -- A line is a gap and a stretch on one line that does not open a block comment.
  have hline : ∀ {gap y : List Char} {c : Char}, (∀ d ∈ gap, isBlank d = true) →
      isBlank c = false → '\n' ∉ y → after? "/*".toList (c :: y ++ s) = none →
      Dull header before (gap ++ c :: y) s := by
    intro gap y c hgap hc hy hcomment
    have hspace : followedBy isSpace (c :: y ++ s) = false := by
      rw [List.cons_append, followedBy_cons, ← Bool.not_eq_true]
      intro hspace
      rw [isBlank_of_isSpace hspace] at hc
      cases hc
    have hstart : atLineStart (some c) = false := by
      rw [atLineStart, beq_eq_false_iff_ne]
      rintro rfl
      exact absurd hc (by decide)
    refine dull_append.2 ⟨?_, dull_cons.2 ⟨?_, lineWise_header.dull hstart hy s⟩⟩
    · rintro a d b rfl
      exact header_gap (fun e he => hgap e (List.mem_append_right a he)) hspace hcomment _
    · exact header_bare hspace hcomment _
  cases hl with
  | @declares gap name rest c hgap hname hc hrest =>
    obtain ⟨d, name', rfl⟩ := List.exists_cons_of_ne_nil hname.ne_nil
    have hd : isIdentChar d = true := hname.chars d (by simp)
    have hblank : isBlank d = false := by
      rw [← Bool.not_eq_true]
      intro hblank
      rw [isIdentChar_of_isBlank hblank] at hd
      cases hd
    have hslash : d ≠ '/' := by
      rintro rfl
      exact absurd hd (by decide)
    have hfeed : '\n' ∉ name' ++ c :: rest := by
      rw [List.mem_append, List.mem_cons, not_or, not_or]
      refine ⟨fun hmem => absurd (hname.chars _ (List.mem_cons_of_mem d hmem)) (by decide), ?_,
        hrest⟩
      rintro rfl
      exact absurd hc (by decide)
    exact hline hgap hblank hfeed (after?_cons_ne _ _ hslash)
  | @leads gap gap' rest w c hgap hw hgap' hc hrest =>
    have hwords : ∀ w ∈ leadWords, followedBy isBlank w.toList = false ∧ '\n' ∉ w.toList ∧
        followedBy (· == '/') w.toList = false ∧ w.toList ≠ [] := by decide
    obtain ⟨hblank, hword, hslash, hne⟩ := hwords w hw
    obtain ⟨d, name, hd⟩ := List.exists_cons_of_ne_nil hne
    rw [hd] at hblank hword hslash ⊢
    have hslash : d ≠ '/' := by simpa using hslash
    have hfeed : '\n' ∉ name ++ (gap' ++ c :: rest) := by
      simp only [List.mem_append, List.mem_cons, not_or]
      refine ⟨fun hmem => hword (List.mem_cons_of_mem d hmem), feed_not_mem_spaces hgap', ?_, hrest⟩
      rintro rfl
      exact absurd hc (by decide)
    exact hline (isBlank_of_spaces hgap) hblank hfeed (after?_cons_ne _ _ hslash)
  | closes hgap hrest =>
    exact hline (isBlank_of_spaces hgap) (by decide) hrest (after?_cons_ne _ _ (by decide))
  | comments hgap hrest =>
    refine hline (isBlank_of_spaces hgap) (by decide) (by simp [hrest]) ?_
    have hclash : ("/*".toList.zip ['/', '/']).any (fun pair => pair.1 != pair.2) = true := by
      decide
    exact after?_of_clash hclash _

theorem header_lineFeed (before : Option Char) (s : List Char) : header before ('\n' :: s) = none :=
  header_bare rfl (after?_cons_ne _ _ (by decide)) before

/-- No header is removed from the lines of a script. -/
theorem dull_header_feed {ls : List (List Char)} (hls : ∀ l ∈ ls, ∃ key, Line l key)
    (before : Option Char) (s : List Char) : Dull header before (feed ls) s := by
  induction ls generalizing before with
  | nil => exact dull_nil
  | cons l ls ih =>
    obtain ⟨⟨key, hl⟩, hls⟩ := List.forall_mem_cons.1 hls
    rw [feed_cons]
    exact dull_append.2 ⟨dull_header hl _ _, dull_cons.2 ⟨header_lineFeed _ _, ih hls _⟩⟩

theorem scanFrom_header_feed {ls : List (List Char)} (hls : ∀ l ∈ ls, ∃ key, Line l key)
    {last : List Char} {key : Option (List Char)} (hlast : Line last key) (before : Option Char) :
    scanFrom header (putFound fun _ => []) before (feed ls ++ last) = feed ls ++ last := by
  have hdull : Dull header before (feed ls ++ last) [] :=
    dull_append.2 ⟨dull_header_feed hls _ _, dull_header hlast _ _⟩
  have hnil : header (behind before (feed ls ++ last)) [] = none := header_bare rfl rfl _
  have hscan := scanFrom_dull (g := putFound fun _ => []) hdull
  rwa [List.append_nil, scanFrom_nil hnil, flatMap_putFound, List.append_nil] at hscan

theorem toList_runtimeHeader (m : String) : (Artifact.runtimeHeader m).toList =
    "/*".toList ++ (' ' :: ("runtime:".toList ++ ((' ' :: m.toList ++ [' ']) ++ "*/".toList))) := by
  simp [Artifact.runtimeHeader, String.toList_append]

/-- A header is recognised together with the line feed behind it. -/
theorem header_runtimeHeader {m : String} (hm : '*' ∉ m.toList) (s : List Char) :
    header none ((Artifact.runtimeHeader m).toList ++ '\n' :: s) = some ((), s) := by
  have hrun : ∀ c ∈ ' ' :: m.toList ++ [' '], (c != '*') = true := by
    simp only [List.mem_append, List.mem_cons, List.not_mem_nil, or_false, bne_iff_ne]
    rintro c ((rfl | hc) | rfl)
    · decide
    · rintro rfl
      exact hm hc
    · decide
  rw [toList_runtimeHeader]
  generalize ' ' :: m.toList ++ [' '] = name at hrun
  have hstart : ("/*".toList ++ (' ' :: ("runtime:".toList ++ (name ++ "*/".toList))) ++
      '\n' :: s).dropWhile isSpace =
      "/*".toList ++ (' ' :: ("runtime:".toList ++ (name ++ ("*/".toList ++ '\n' :: s)))) := by
    simp [isSpace]
  have hblank : (' ' :: ("runtime:".toList ++ (name ++ ("*/".toList ++ '\n' :: s)))).dropWhile
      isBlank = "runtime:".toList ++ (name ++ ("*/".toList ++ '\n' :: s)) := rfl
  have hname : (name ++ ("*/".toList ++ '\n' :: s)).dropWhile (· != '*') =
      "*/".toList ++ '\n' :: s := dropWhile_run hrun rfl
  have hend : ('\n' :: s).dropWhile isSpace = '\n' :: s := rfl
  have hfeed : after? ['\n'] ('\n' :: s) = some s := after?_append ['\n'] s
  rw [header, hstart, after?_append]
  simp only [Option.bind_eq_bind, Option.bind_some]
  rw [hblank, after?_append]
  simp only [Option.bind_some]
  rw [hname, after?_append]
  simp only [Option.bind_some]
  rw [hend, hfeed]
  rfl

/-- The header of a script is removed and nothing else. -/
theorem replaceAll_header_feed {m : String} (hm : '*' ∉ m.toList) {ls : List (List Char)}
    (hls : ∀ l ∈ ls, ∃ key, Line l key) {last : List Char} {key : Option (List Char)}
    (hlast : Line last key) :
    replaceAll header (fun _ => [])
      ((Artifact.runtimeHeader m).toList ++ '\n' :: (feed ls ++ last)) = feed ls ++ last := by
  have hsplit : (Artifact.runtimeHeader m).toList ++ '\n' :: (feed ls ++ last) =
      ((Artifact.runtimeHeader m).toList ++ ['\n']) ++ (feed ls ++ last) := by
    rw [List.append_assoc, List.singleton_append]
  have hfound := header_runtimeHeader hm (feed ls ++ last)
  rw [hsplit] at hfound ⊢
  rw [replaceAll_eq, scanFrom_found (by simp) hfound, scanFrom_header_feed hls hlast]
  rfl

/-- A policy replaces the header of a script by its own and goes through the other lines one by
one. -/
theorem withHeader_feed {m : String} (hstar : '*' ∉ p.runtimeMarker.toList)
    (hfeed : '\n' ∉ p.runtimeMarker.toList)
    (hmarker : p.replaceMarkers (Artifact.runtimeHeader m).toList =
      (Artifact.runtimeHeader p.runtimeMarker).toList)
    {l : List Char} {ls : List (List Char)} (hl : Line l none)
    (hls : ∀ l' ∈ ls, ∃ key, Line l' key) {last : List Char} {key : Option (List Char)}
    (hlast : Line last key) :
    p.withHeader ((Artifact.runtimeHeader m).toList ++ '\n' :: (feed (l :: ls) ++ last)) =
      (Artifact.runtimeHeader p.runtimeMarker).toList ++
        '\n' :: (feed ((l :: ls).map p.replaceMarkers) ++ p.replaceMarkers last) := by
  have hlines : ∀ l' ∈ (l :: ls).map p.replaceMarkers, ∃ key, Line l' key := by
    simp only [List.forall_mem_map, List.forall_mem_cons]
    refine ⟨⟨none, line_replaceMarkers hfeed hl⟩, fun l' hl' => ?_⟩
    obtain ⟨key', hkey⟩ := hls l' hl'
    exact ⟨key', line_replaceMarkers hfeed hkey⟩
  have hbody := replaceAll_header_feed hstar hlines (line_replaceMarkers hfeed hlast)
  -- The first line behind the header is not empty, so that no line feed is dropped there.
  have hfirst : followedBy (· == '\n')
      (feed ((l :: ls).map p.replaceMarkers) ++ p.replaceMarkers last) = false := by
    rw [List.map_cons, feed_cons, List.append_assoc]
    exact (line_replaceMarkers hfeed hl).followedBy_feed _
  have hdrop := dropWhile_run (List.forall_mem_nil _) hfirst
  rw [List.nil_append] at hdrop
  rw [withHeader, replaceMarkers_append, hmarker, replaceMarkers_feed, hbody, hdrop]

/-- A stop is found behind a text that does not hold its first character. -/
theorem upTo?_append {d : Char} {stop inner : List Char} (hd : d ∉ inner) (rest : List Char) :
    upTo? (d :: stop) (inner ++ (d :: stop ++ rest)) = some (inner, rest) := by
  induction inner with
  | nil =>
    have hafter := after?_append (d :: stop) rest
    rw [List.cons_append] at hafter
    rw [List.nil_append, List.cons_append, upTo?, hafter]
  | cons c inner ih =>
    obtain ⟨hc, hd⟩ := not_or.1 (mt List.mem_cons.2 hd)
    rw [List.cons_append, upTo?, after?_cons_ne _ _ (Ne.symm hc), ih hd]
    rfl

/-- The header of a script is no code. -/
theorem run_runtimeHeader {aliases : Assoc String} (h : Rename.Regular aliases) {m : String}
    (hm : '*' ∉ m.toList) (s : List Char) :
    Rename.run aliases ((Artifact.runtimeHeader m).toList ++ '\n' :: s) =
      (Artifact.runtimeHeader m).toList ++ '\n' :: Rename.run aliases s := by
  have hquiet : Rename.quiet? ((Artifact.runtimeHeader m).toList ++ '\n' :: s) =
      some ((Artifact.runtimeHeader m).toList, '\n' :: s) := by
    have hstar : '*' ∉ ' ' :: ("runtime:".toList ++ (' ' :: m.toList ++ [' '])) := by
      simpa using hm
    have htext : (Artifact.runtimeHeader m).toList = '/' :: '*' ::
        (' ' :: ("runtime:".toList ++ (' ' :: m.toList ++ [' '])) ++ ['*', '/']) := by
      rw [toList_runtimeHeader]
      simp
    rw [htext]
    generalize ' ' :: ("runtime:".toList ++ (' ' :: m.toList ++ [' '])) = inner at hstar
    show (upTo? ['*', '/'] (inner ++ ['*', '/'] ++ '\n' :: s)).map _ = _
    rw [List.append_assoc, upTo?_append hstar]
    rfl
  rw [Rename.run_quiet h hquiet, Rename.run_lineFeed h]

/-- The default names leave every line of a script a line. -/
theorem line_run_default {l : List Char} {key : Option (List Char)} (hl : Line l key) :
    Line (Rename.run Policy.default.identifierAliases l)
      (key.map (Rename.canonical Policy.default.identifierAliases)) :=
  Rename.line_run Markup.regular_default (by decide) hl

theorem line_run_default_of_mem {ls : List (List Char)} (hls : ∀ l ∈ ls, ∃ key, Line l key) :
    ∀ l ∈ ls.map (Rename.run Policy.default.identifierAliases), ∃ key, Line l key := by
  rw [List.forall_mem_map]
  intro l hl
  obtain ⟨key, hkey⟩ := hls l hl
  exact ⟨_, line_run_default hkey⟩

theorem replaceMarkers_runtimeHeader_default :
    Policy.default.replaceMarkers (Artifact.runtimeHeader Artifact.runtime).toList =
      (Artifact.runtimeHeader Policy.default.runtimeMarker).toList := by
  decide

section Default

variable {l : List Char} {ls : List (List Char)} (hl : Line l none)
  (hls : ∀ l' ∈ ls, ∃ key, Line l' key)
  (hseparate : ∀ l' ∈ l :: ls, Rename.Separate Policy.default.identifierAliases l')
  {last : List Char} {key : Option (List Char)} (hlast : Line last key)

include hl hls hseparate hlast

/-- The default policy puts its header first and goes through the lines of a script one by one. -/
theorem withHeader_run_lines :
    Policy.default.withHeader (Rename.run Policy.default.identifierAliases
        ((Artifact.runtimeHeader Artifact.runtime).toList ++ '\n' :: (feed (l :: ls) ++ last))) =
      (Artifact.runtimeHeader Policy.default.runtimeMarker).toList ++ '\n' ::
        (feed (((l :: ls).map (Rename.run Policy.default.identifierAliases)).map
            Policy.default.replaceMarkers) ++
          Policy.default.replaceMarkers (Rename.run Policy.default.identifierAliases last)) := by
  rw [run_runtimeHeader Markup.regular_default (by decide), Rename.run_feed hseparate,
    List.map_cons, withHeader_feed (by decide) (by decide) replaceMarkers_runtimeHeader_default
      (line_run_default hl) (line_run_default_of_mem hls) (line_run_default hlast)]

/-- The lines that the default policy goes through lose nothing to its header. -/
theorem withHeader_run_feed :
    Policy.default.withHeader (Rename.run Policy.default.identifierAliases
        ((Artifact.runtimeHeader Artifact.runtime).toList ++ '\n' :: (feed (l :: ls) ++ last))) =
      Policy.default.replaceMarkers (Rename.run Policy.default.identifierAliases
        ((Artifact.runtimeHeader Artifact.runtime).toList ++
          '\n' :: (feed (l :: ls) ++ last))) := by
  rw [withHeader_run_lines hl hls hseparate hlast,
    run_runtimeHeader Markup.regular_default (by decide), Rename.run_feed hseparate,
    replaceMarkers_append, replaceMarkers_runtimeHeader_default, replaceMarkers_feed]

/-- A canonical script declares the canonical form of every name that the script declares. -/
theorem mem_scriptKeys_withHeader {declared name : List Char} (hmem : declared ∈ ls)
    (hdeclared : Line declared (some name)) :
    String.ofList (Rename.canonical Policy.default.identifierAliases name) ∈
      scriptKeys (String.ofList (Policy.default.withHeader
        (Rename.run Policy.default.identifierAliases ((Artifact.runtimeHeader
          Artifact.runtime).toList ++ '\n' :: (feed (l :: ls) ++ last))))) := by
  have hfeed : '\n' ∉ Policy.default.runtimeMarker.toList := by decide
  have hhead : '\n' ∉ (Artifact.runtimeHeader Policy.default.runtimeMarker).toList.tail := by
    decide
  rw [withHeader_run_lines hl hls hseparate hlast]
  refine mem_scriptKeys hhead ?_ ?_ (line_replaceMarkers hfeed (line_run_default hdeclared)) _
  · rw [List.forall_mem_map]
    intro l' hl'
    obtain ⟨key', hkey⟩ :=
      line_run_default_of_mem (List.forall_mem_cons.2 ⟨⟨none, hl⟩, hls⟩) l' hl'
    exact ⟨key', line_replaceMarkers hfeed hkey⟩
  · exact List.mem_map_of_mem (List.mem_map_of_mem (List.mem_cons_of_mem l hmem))

end Default

end Policy

end PageCompiler
