import PageCompiler.Document.Braces
import PageCompiler.Proofs.Text.Blank
import PageCompiler.Proofs.Written

/-!
# `PageCompiler.Proofs.Document.Braces`: the braces of a written block

Where a block ends is found line by line by `delta`, with a rule for quotes that is not the one by
which values are read. `scan` follows the inside of a block over its line feeds with that rule. It
gives up where the two rules could come apart: at a brace that would close the block, at a line feed
inside quotes, and at the first sign of a comment outside of quotes.

* `scan_written`: no written form makes it give up, and each one leaves the depth as it was.
* `delta_of_scan`: where it does not give up, it counts what `delta` counts on each line.
-/

set_option autoImplicit false

namespace PageCompiler.Braces

open Text

/-- A place inside of a block. `depth` counts the braces that have been opened there and not yet
closed. -/
structure Place where
  quoting : Quoting
  depth : Nat
  deriving DecidableEq, Repr

/-- The place behind one more character. -/
def Place.step (p : Place) (c : Char) : Option Place :=
  match p.quoting with
  | .outside _ =>
    if c = '\n' then some ⟨.outside ' ', p.depth⟩
    else if c = '#' ∨ c = '/' then none
    else if c = '\x7b' then some ⟨p.quoting.next c, p.depth + 1⟩
    else if c = '\x7d' then
      match p.depth with
      | 0 => none
      | depth + 1 => some ⟨p.quoting.next c, depth⟩
    else some ⟨p.quoting.next c, p.depth⟩
  | .inside _ | .escaped _ => if c = '\n' then none else some ⟨p.quoting.next c, p.depth⟩

/-- The place behind a text. -/
def Place.scan (p : Place) : List Char → Option Place
  | [] => some p
  | c :: rest =>
    match p.step c with
    | none => none
    | some p => p.scan rest

theorem Place.scan_cons_of_step {p p' : Place} {c : Char} {s : List Char} (h : p.step c = some p') :
    p.scan (c :: s) = p'.scan s := by
  rw [scan, h]

/-- A text is scanned piece by piece. -/
theorem Place.scan_append {p p' : Place} {s t : List Char} (h : p.scan s = some p') :
    p.scan (s ++ t) = p'.scan t := by
  induction s generalizing p with
  | nil =>
    cases h
    rfl
  | cons c s ih =>
    cases hstep : p.step c with
    | none =>
      rw [scan, hstep] at h
      cases h
    | some p₁ =>
      rw [scan_cons_of_step hstep] at h
      rw [List.cons_append, scan_cons_of_step hstep, ih h]

/-- What has been scanned as a whole has been scanned in two parts. -/
theorem Place.scan_split {p p' : Place} {s t : List Char} (h : p.scan (s ++ t) = some p') :
    ∃ p₁, p.scan s = some p₁ ∧ p₁.scan t = some p' := by
  induction s generalizing p with
  | nil => exact ⟨p, rfl, h⟩
  | cons c s ih =>
    rw [List.cons_append] at h
    cases hstep : p.step c with
    | none =>
      rw [scan, hstep] at h
      cases h
    | some p₁ =>
      rw [scan_cons_of_step hstep] at h ⊢
      exact ih h

/-! ### Written forms -/

/-- The characters that `Place.step` treats in their own way outside of quotes. -/
def signs : List Char :=
  ['\n', '#', '/', '\x7b', '\x7d', '"', '\x27']

theorem step_dull {x c : Char} {d : Nat} (h : c ∉ signs) :
    Place.step ⟨.outside x, d⟩ c = some ⟨.outside c, d⟩ := by
  simp only [signs, List.mem_cons, not_or] at h
  simp only [Place.step, Quoting.next, Scalar.isQuote, h, beq_eq_false_iff_ne.2 h.2.2.2.2.2.1,
    beq_eq_false_iff_ne.2 h.2.2.2.2.2.2.1, if_false, or_false, Bool.or_false, Bool.false_and]
  rfl

theorem scan_dull {s : List Char} (h : ∀ c ∈ s, c ∉ signs) (x : Char) (d : Nat) :
    ∃ y, Place.scan ⟨.outside x, d⟩ s = some ⟨.outside y, d⟩ := by
  induction s generalizing x with
  | nil => exact ⟨x, rfl⟩
  | cons c s ih =>
    rw [Place.scan_cons_of_step (step_dull (h c (by simp)))]
    exact ih (fun e he => h e (by simp [he])) c

/-- Behind a filler a quote opens. -/
theorem step_filler {x c : Char} {d : Nat} (hc : isFiller c = true)
    (hfed : isLineBreak c = true → c = '\n') :
    ∃ y, Place.step ⟨.outside x, d⟩ c = some ⟨.outside y, d⟩ ∧ startsToken y = true := by
  have hcases : c = '\n' ∨ c ∈ [' ', '\t', ','] := by
    simp only [isFiller, Block.isInlineGap, Bool.or_eq_true, beq_iff_eq] at hc
    rcases hc with ((rfl | rfl) | rfl) | hc
    · exact .inr (by decide)
    · exact .inr (by decide)
    · exact .inr (by decide)
    · exact .inl (hfed hc)
  rcases hcases with rfl | hc
  · exact ⟨' ', rfl, by decide⟩
  · have hdull : ∀ c ∈ [' ', '\t', ','], c ∉ signs ∧ startsToken c = true := by decide
    exact ⟨c, step_dull (hdull c hc).1, (hdull c hc).2⟩

theorem scan_filler {s : List Char} (h : ∀ c ∈ s, isFiller c = true) (hfed : LineFed s)
    (x : Char) (d : Nat) :
    ∃ y, Place.scan ⟨.outside x, d⟩ s = some ⟨.outside y, d⟩ ∧
      (s ≠ [] ∨ startsToken x = true → startsToken y = true) := by
  induction s generalizing x with
  | nil => exact ⟨x, rfl, fun hx => hx.resolve_left (by simp)⟩
  | cons c s ih =>
    obtain ⟨hc, hs⟩ := List.forall_mem_cons.1 h
    obtain ⟨hcfed, hsfed⟩ := lineFed_cons.1 hfed
    obtain ⟨y, hstep, hy⟩ := step_filler hc hcfed
    obtain ⟨z, hscan, hz⟩ := ih hs hsfed y
    exact ⟨z, (Place.scan_cons_of_step hstep).trans hscan, fun _ => hz (.inr hy)⟩

theorem isFiller_of_inlineGap {c : Char} (h : Block.isInlineGap c = true) : isFiller c = true := by
  rw [isFiller, h]
  rfl

/-- An escaped character leaves the scan inside of its quotes. -/
theorem scan_escapeChar {c : Char} {d : Nat} (h : isLineBreak c = false) :
    Place.scan ⟨.inside '"', d⟩ (escapeChar c) = some ⟨.inside '"', d⟩ := by
  have hfeed : c ≠ '\n' := by
    rintro rfl
    exact absurd h (by decide)
  by_cases hback : c = '\\'
  · subst hback
    rfl
  · by_cases hquote : c = '"'
    · subst hquote
      rfl
    · rw [escapeChar, if_neg hback, if_neg hquote]
      have hstep : Place.step ⟨.inside '"', d⟩ c = some ⟨.inside '"', d⟩ := by
        simp [Place.step, Quoting.next, hfeed, hback, hquote]
      exact Place.scan_cons_of_step hstep

/-- Nothing in an escaped text closes its quote. -/
theorem scan_escape {s : List Char} (h : OneLine s) (d : Nat) :
    Place.scan ⟨.inside '"', d⟩ (escape s) = some ⟨.inside '"', d⟩ := by
  induction s with
  | nil => rfl
  | cons c s ih =>
    obtain ⟨hc, hs⟩ := oneLine_cons.1 h
    rw [escape, List.flatMap_cons, ← escape, Place.scan_append (scan_escapeChar hc), ih hs]

/-- A quoted text at the start of a token. -/
theorem scan_enquote {t : String} {x : Char} (h : OneLine t.toList) (hx : startsToken x = true)
    (d : Nat) : Place.scan ⟨.outside x, d⟩ (enquote t) = some ⟨.outside '"', d⟩ := by
  have hopen : Place.step ⟨.outside x, d⟩ '"' = some ⟨.inside '"', d⟩ := by
    simp [Place.step, Quoting.next, hx, Scalar.isQuote]
  rw [enquote, Place.scan_cons_of_step hopen, Place.scan_append (scan_escape h d)]
  rfl

/-- Where a quote has to open behind the place at which a part starts. -/
def needsToken : Part → Bool
  | .value _ => true
  | .items behind _ | .members behind _ => !behind

/-- Behind a gap a quote opens, if one opens at the start of the text where the gap may be empty. -/
theorem startsToken_of_gap {behind : Bool} {gap : List Char} {x : Char} (h : Gap behind gap)
    (hx : (!behind) = true → startsToken x = true) : gap ≠ [] ∨ startsToken x = true := by
  cases behind with
  | false => exact .inr (hx rfl)
  | true =>
    obtain ⟨c, hc, _⟩ := h.2 rfl
    exact .inl (List.ne_nil_of_mem hc)

/-- A written form leaves the depth as it was, and ends outside of quotes. -/
theorem scan_written {p : Part} {s : List Char} (h : Written p s) (hp : p.isPlain = true)
    (hfed : LineFed s) (x : Char) (d : Nat) (hx : needsToken p = true → startsToken x = true) :
    ∃ y, Place.scan ⟨.outside x, d⟩ s = some ⟨.outside y, d⟩ := by
  induction h generalizing x d with
  | text t =>
    have ht : OneLine t.toList := by simpa [Part.isPlain, Value.isPlain, OneLine] using hp
    exact ⟨_, scan_enquote ht (hx rfl) d⟩
  | int n =>
    have hdull : ∀ c ∈ '-' :: Decimal.asciiDigits, c ∉ signs := by decide
    exact scan_dull (fun c hc => hdull c (Decimal.mem_toString hc)) x d
  | bool b =>
    have hdull : ∀ c ∈ (toString b).toList, c ∉ signs := by cases b <;> decide
    exact scan_dull hdull x d
  | list hs hgap ih =>
    obtain ⟨_, hfed⟩ := lineFed_cons.1 hfed
    obtain ⟨hsfed, hfed⟩ := lineFed_append.1 hfed
    obtain ⟨hgapfed, _⟩ := lineFed_append.1 hfed
    obtain ⟨y, hitems⟩ := ih hp hsfed '[' d (fun _ => rfl)
    obtain ⟨z, hclose, _⟩ := scan_filler hgap.1 hgapfed y d
    rw [Place.scan_cons_of_step (step_dull (by decide)), Place.scan_append hitems,
      Place.scan_append hclose, Place.scan_cons_of_step (step_dull (by decide))]
    exact ⟨_, rfl⟩
  | map hs hgap ih =>
    obtain ⟨_, hfed⟩ := lineFed_cons.1 hfed
    obtain ⟨hsfed, hfed⟩ := lineFed_append.1 hfed
    obtain ⟨hgapfed, _⟩ := lineFed_append.1 hfed
    -- Between its braces a map is one level deeper.
    obtain ⟨y, hmembers⟩ := ih hp hsfed '\x7b' (d + 1) (fun _ => rfl)
    obtain ⟨z, hclose, _⟩ := scan_filler hgap.1 hgapfed y (d + 1)
    have hopen : Place.step ⟨.outside x, d⟩ '\x7b' = some ⟨.outside '\x7b', d + 1⟩ := rfl
    rw [Place.scan_cons_of_step hopen, Place.scan_append hmembers, Place.scan_append hclose]
    exact ⟨'\x7d', rfl⟩
  | noItem | noMember => exact ⟨x, rfl⟩
  | @item behind v vs gap s rest hgap hv hrest ihv ihrest =>
    obtain ⟨hvp, hvsp⟩ := Bool.and_eq_true_iff.1 hp
    obtain ⟨hgapfed, hfed⟩ := lineFed_append.1 hfed
    obtain ⟨hsfed, hrestfed⟩ := lineFed_append.1 hfed
    obtain ⟨y, hfill, hy⟩ := scan_filler hgap.1 hgapfed x d
    obtain ⟨z, hvalue⟩ := ihv hvp hsfed y d (fun _ => hy (startsToken_of_gap hgap hx))
    rw [Place.scan_append hfill, Place.scan_append hvalue]
    exact ihrest hvsp hrestfed z d (fun h => absurd h Bool.false_ne_true)
  | @member behind key v fields gap before after s rest hgap hbefore hafter hv hrest ihv ihrest =>
    obtain ⟨hkey, _, hvp, hrestp⟩ := Part.isPlain_member hp
    obtain ⟨hgapfed, hfed⟩ := lineFed_append.1 hfed
    obtain ⟨_, hfed⟩ := lineFed_append.1 hfed
    obtain ⟨_, hfed⟩ := lineFed_append.1 hfed
    obtain ⟨_, hfed⟩ := lineFed_cons.1 hfed
    obtain ⟨_, hfed⟩ := lineFed_append.1 hfed
    obtain ⟨hsfed, hrestfed⟩ := lineFed_append.1 hfed
    obtain ⟨y, hfill, hy⟩ := scan_filler hgap.1 hgapfed x d
    obtain ⟨u, hbefore, _⟩ := scan_filler (fun c hc => isFiller_of_inlineGap (hbefore c hc))
      (oneLine_of_inlineGap hbefore).lineFed '"' d
    obtain ⟨w, hafter, hw⟩ := scan_filler (fun c hc => isFiller_of_inlineGap (hafter c hc))
      (oneLine_of_inlineGap hafter).lineFed ':' d
    obtain ⟨z, hvalue⟩ := ihv hvp hsfed w d (fun _ => hw (.inr rfl))
    have hquoted := scan_enquote hkey (hy (startsToken_of_gap hgap hx)) d
    rw [Place.scan_append hfill, Place.scan_append hquoted, Place.scan_append hbefore,
      Place.scan_cons_of_step (step_dull (by decide)), Place.scan_append hafter,
      Place.scan_append hvalue]
    exact ihrest hrestp hrestfed z d (fun h => absurd h Bool.false_ne_true)

/-- The inside of a written map. -/
theorem scan_inside {fields : Fields} {s : List Char} (h : Written (.value (.map fields)) s)
    (hp : (Value.map fields).isPlain = true) (hfed : LineFed s) :
    ∃ inner x, s = '\x7b' :: (inner ++ ['\x7d']) ∧ LineFed inner ∧
      Place.scan ⟨.outside '\x7b', 0⟩ inner = some ⟨.outside x, 0⟩ := by
  cases h with
  | @map _ members gap hs hgap =>
    rw [← List.append_assoc] at hfed ⊢
    obtain ⟨hinner, _⟩ := lineFed_append.1 (lineFed_cons.1 hfed).2
    obtain ⟨hsfed, hgapfed⟩ := lineFed_append.1 hinner
    obtain ⟨y, hmembers⟩ := scan_written hs hp hsfed '\x7b' 0 (fun _ => rfl)
    obtain ⟨z, hclose, _⟩ := scan_filler hgap.1 hgapfed y 0
    exact ⟨members ++ gap, z, rfl, hinner, (Place.scan_append hmembers).trans hclose⟩

/-! ### What a line adds -/

/-- Apart from line feeds, a step moves as the scan of a line does, and counts the weight. -/
theorem quoting_of_step {p p' : Place} {c : Char} (h : p.step c = some p') (hc : c ≠ '\n') :
    p'.quoting = p.quoting.next c ∧ (p'.depth : Int) = p.depth + weight p.quoting c := by
  obtain ⟨q, d⟩ := p
  cases q with
  | outside x =>
    simp only [Place.step, if_neg hc] at h
    split at h
    · cases h
    · by_cases hopen : c = '\x7b'
      · subst hopen
        cases h
        exact ⟨rfl, rfl⟩
      · rw [if_neg hopen] at h
        by_cases hclose : c = '\x7d'
        · subst hclose
          cases d with
          | zero => cases h
          | succ d =>
            cases h
            refine ⟨rfl, ?_⟩
            show (d : Int) = (d + 1 : Nat) + -1
            omega
        · rw [if_neg hclose] at h
          cases h
          simp [weight, hopen, hclose]
  | inside x =>
    simp only [Place.step, if_neg hc] at h
    cases h
    simp [weight]
  | escaped x =>
    simp only [Place.step, if_neg hc] at h
    cases h
    simp [weight]

/-- A scan of a line counts its balance. -/
theorem balance_of_scan {p p' : Place} {s : List Char} (h : p.scan s = some p') (hs : OneLine s)
    (t : List Char) :
    balance p.quoting (s ++ t) = p'.depth - p.depth + balance p'.quoting t := by
  induction s generalizing p with
  | nil =>
    cases h
    rw [List.nil_append]
    omega
  | cons c s ih =>
    obtain ⟨hc, hs⟩ := oneLine_cons.1 hs
    have hfeed : c ≠ '\n' := by
      rintro rfl
      exact absurd hc (by decide)
    cases hstep : p.step c with
    | none =>
      rw [Place.scan, hstep] at h
      cases h
    | some p₁ =>
      rw [Place.scan_cons_of_step hstep] at h
      obtain ⟨hquoting, hdepth⟩ := quoting_of_step hstep hfeed
      rw [List.cons_append, balance, ← hquoting, ih h hs]
      omega

/-- A text without braces has no weight. -/
theorem balance_of_braceless {s : List Char} (h : ∀ c ∈ s, c ≠ '\x7b' ∧ c ≠ '\x7d') (q : Quoting) :
    balance q s = 0 := by
  induction s generalizing q with
  | nil => rfl
  | cons c s ih =>
    obtain ⟨⟨hopen, hclose⟩, hs⟩ := List.forall_mem_cons.1 h
    have hweight : weight q c = 0 := by
      cases q <;> simp [weight, hopen, hclose]
    rw [balance, hweight, ih hs]
    rfl

/-- White space has no weight. -/
theorem balance_blank {s : List Char} (h : ∀ c ∈ s, isBlank c = true) (q : Quoting) :
    balance q s = 0 := by
  refine balance_of_braceless (fun c hc => ⟨?_, ?_⟩) q
  · rintro rfl
    exact absurd (h _ hc) (by decide)
  · rintro rfl
    exact absurd (h _ hc) (by decide)

theorem balance_append_blank {t : List Char} (h : ∀ c ∈ t, isBlank c = true) (q : Quoting)
    (s : List Char) : balance q (s ++ t) = balance q s := by
  induction s generalizing q with
  | nil => exact balance_blank h q
  | cons c s ih => rw [List.cons_append, balance, balance, ih]

/-- White space at the end of a line has no weight. -/
theorem balance_dropRightWhile (q : Quoting) (s : List Char) :
    balance q (dropRightWhile isBlank s) = balance q s := by
  obtain ⟨t, hs, ht⟩ := exists_dropRightWhile_append isBlank s
  exact (balance_append_blank ht q _).symm.trans (congrArg _ hs.symm)

/-- What a line starts with, behind its white space, starts no comment. -/
def StartsQuietly (line : List Char) : Prop :=
  ∀ c, (line.dropWhile isBlank).head? = some c → c ≠ '#' ∧ c ≠ '/'

theorem startsQuietly_cons {c : Char} {s : List Char} (h : c ≠ '#' ∧ c ≠ '/')
    (hc : isBlank c = false) : StartsQuietly (c :: s) := by
  intro d hd
  rw [dropWhile_of_head hc, List.head?_cons, Option.some.injEq] at hd
  exact hd ▸ h

/-- A line that starts quietly is no comment. -/
theorem isCommentLine_of_startsQuietly {line : List Char} (h : StartsQuietly line) :
    isCommentLine line = false := by
  unfold isCommentLine trim trimRight trimLeft
  cases hline : line.dropWhile isBlank with
  | nil => rfl
  | cons c rest =>
    obtain ⟨hhash, hslash⟩ := h c (by rw [hline]; rfl)
    have hc : isBlank c = false := by
      have hhead := List.head?_dropWhile_not isBlank line
      rw [hline] at hhead
      simpa using hhead
    -- The first character that is not blank stays in front.
    rw [← List.nil_append (c :: rest), dropRightWhile_append_cons hc, List.nil_append]
    split
    all_goals simp_all

theorem startsQuietly_blank {c : Char} {s : List Char} (hc : isBlank c = true) :
    StartsQuietly (c :: s) ↔ StartsQuietly s := by
  unfold StartsQuietly
  rw [List.dropWhile_cons_of_pos hc]

/-- White space leaves a scan outside of quotes. -/
theorem step_blank {x c : Char} {d : Nat} (hc : isBlank c = true) :
    ∃ y, Place.step ⟨.outside x, d⟩ c = some ⟨.outside y, d⟩ := by
  by_cases hfeed : c = '\n'
  · subst hfeed
    exact ⟨' ', rfl⟩
  · refine ⟨c, step_dull ?_⟩
    intro hmem
    have hsigns : ∀ c ∈ signs, c = '\n' ∨ isBlank c = false := by decide
    rcases hsigns c hmem with h | h
    · exact hfeed h
    · rw [hc] at h
      cases h

/-- A scan that starts outside of quotes has met no comment. -/
theorem startsQuietly_of_scan {x : Char} {d : Nat} {p' : Place} {s t : List Char}
    (h : Place.scan ⟨.outside x, d⟩ s = some p') (ht : StartsQuietly t) :
    StartsQuietly (s ++ t) := by
  induction s generalizing x with
  | nil => exact ht
  | cons c s ih =>
    rw [List.cons_append]
    cases hc : isBlank c with
    | true =>
      obtain ⟨y, hstep⟩ := @step_blank x c d hc
      rw [Place.scan_cons_of_step hstep] at h
      exact (startsQuietly_blank hc).2 (ih h)
    | false =>
      refine startsQuietly_cons ⟨?_, ?_⟩ hc
      · rintro rfl
        cases h
      · rintro rfl
        cases h

/-- What a line adds to the depth, when its front has been scanned from the start of the line. -/
theorem delta_of_scan {p : Place} {d : Nat} {s t : List Char}
    (h : Place.scan ⟨.outside ' ', d⟩ s = some p) (hs : OneLine s) (ht : StartsQuietly t) :
    delta (s ++ t) = p.depth - d + balance p.quoting t := by
  rw [delta, isCommentLine_of_startsQuietly (startsQuietly_of_scan h ht)]
  exact balance_of_scan h hs t

end PageCompiler.Braces
