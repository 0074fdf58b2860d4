import PageCompiler.Proofs.Document.Extent
import PageCompiler.Proofs.Document.RoundTrip

/-!
# `PageCompiler.Proofs.Document.Reading`: a text read block by block

The reader goes from line to line and carries the lines of an open block along. Seen from outside, a
text is a sequence of single lines and of whole blocks. `ReadTo done st` takes this view: the lines
`done` were read, no block is open behind them, and `st` is what they gave. A block is one step of
it, however many lines it has, and that step is `State.close`.

`readTo_iff` says that `ReadTo` is a run that ends with no block open. `Progress` also covers a run
that ends inside of a block: up to the line that opens the block it is `ReadTo`, and from there on
the block has taken every line and nothing else has changed. So a fact about all documents is an
induction over `ReadTo`, and a fact about all failures is a look at where a run stands.
-/

set_option autoImplicit false

namespace PageCompiler

open Text

namespace Reader

/-- The lines `done` were read, no block is open behind them, and `st` is what they gave. -/
inductive ReadTo : List (List Char) → State → Prop where
  | start : ReadTo [] .start
  /-- A line that opens no block. -/
  | line {done : List (List Char)} {st st' : State} {line : List Char} (h : ReadTo done st)
    (hsaid : ∀ name, classify (trim line) ≠ .opening name)
    (heffect : Effect st (done.length + 1) line st' (classify (trim line))) :
    ReadTo (done ++ [line]) st'
  /-- All lines of a block. -/
  | block {done more : List (List Char)} {st st' : State} {first : List Char} {name : String}
    (h : ReadTo done st) (hopening : classify (trim first) = .opening name)
    (hown : Gathered (first :: more))
    (hclose : st.close name (done.length + 1) (first :: more) = .ok st') :
    ReadTo (done ++ first :: more) st'

/-- No block is open where lines have been read to. -/
theorem ReadTo.block_eq_none {done : List (List Char)} {st : State} (h : ReadTo done st) :
    st.block = none := by
  induction h with
  | start => rfl
  | line h hsaid heffect ih =>
    generalize classify (trim _) = said at hsaid heffect
    cases heffect with
    | blank hst | comment hst | heading hst | freeText hst =>
      subst hst
      exact ih
    | opening hsettle => exact absurd rfl (hsaid _)
    | assignment hread hst =>
      subst hst
      rw [(block_assign _ _ _).1]
      exact ih
  | block h hopening hown hclose ih =>
    obtain ⟨c, -, -, rfl⟩ := close_ok hclose
    rfl

/-- The block of some lines, with the depth that they come to. -/
def OpenBlock.ofLines (name : String) (start : Nat) (ls : List (List Char)) : OpenBlock :=
  { name, start, lines := ls, depth := Braces.total ls }

/-- How far reading has come. -/
inductive Progress (done : List (List Char)) (st : State) : Prop where
  /-- No block is open. -/
  | outside (h : ReadTo done st)
  /-- The block that `first` opens behind the lines `before` has taken all lines from there on. -/
  | inside {before more : List (List Char)} {st₀ : State} {first : List Char} {name : String}
    (h : ReadTo before st₀) (hopening : classify (trim first) = .opening name)
    (hown : Unclosed (first :: more)) (hdone : done = before ++ first :: more)
    (hst : st = { st₀ with block := some (.ofLines name (before.length + 1) (first :: more)) })

/-- What comes of a block does not depend on the block that is open. -/
theorem settle_with_block (st : State) (b? : Option OpenBlock) (b : OpenBlock) (number : Nat) :
    State.settle { st with block := b? } b number = st.settle b number :=
  rfl

/-! ### From a run to its blocks -/

/-- One more line of a block leaves it open or completes it. -/
theorem progress_settle {before own more : List (List Char)} {st₀ st' : State}
    {first line : List Char} {name : String} {number : Nat} (h : ReadTo before st₀)
    (hopening : classify (trim first) = .opening name) (hown : Unclosed own) (hline : OneLine line)
    (hfirst : own ++ [line] = first :: more)
    (hsettle : st₀.settle (.ofLines name (before.length + 1) (own ++ [line])) number = .ok st') :
    Progress (before ++ (own ++ [line])) st' := by
  rcases settle_ok hsettle with ⟨hpos, hst⟩ | ⟨hzero, hclose⟩
  · have hopen := hown.concat hline hpos
    rw [hfirst] at hopen hst ⊢
    exact .inside h hopening hopen rfl hst
  · have hgathered := hown.gathered hline hzero
    rw [OpenBlock.ofLines] at hclose
    rw [hfirst] at hgathered hclose ⊢
    exact .outside (.block h hopening hgathered hclose)

/-- One line keeps what is known of the lines before. -/
theorem progress_step {done : List (List Char)} {st st' : State} {line : List Char}
    (hst : Progress done st) (hline : OneLine line)
    (h : step st (done.length + 1) line = .ok st') : Progress (done ++ [line]) st' := by
  cases hst with
  | outside hread =>
    have hnone := hread.block_eq_none
    rcases step_ok h with ⟨b, hblock, -⟩ | ⟨-, heffect⟩
    · rw [hnone] at hblock
      cases hblock
    · by_cases hopening : ∃ name, classify (trim line) = .opening name
      · obtain ⟨name, hname⟩ := hopening
        rw [hname] at heffect
        cases heffect with
        | opening hsettle =>
          rw [delta_trim_of_opening hname, ← Braces.total_singleton line] at hsettle
          exact progress_settle hread hname Unclosed.nil hline rfl hsettle
      · exact .outside (.line hread (fun name hname => hopening ⟨name, hname⟩) heffect)
  | @inside before more st₀ first name hread hopening hown hdone hst =>
    subst hdone
    subst hst
    rw [step_inside rfl, settle_with_block] at h
    have hdepth : Braces.total (first :: more) + Braces.delta line =
        Braces.total (first :: more ++ [line]) := by
      rw [Braces.total_append, Braces.total_singleton]
    simp only [OpenBlock.ofLines, hdepth] at h
    rw [List.append_assoc]
    exact progress_settle hread hopening hown hline rfl h

/-- So do any number of lines. -/
theorem progress_run {done ls : List (List Char)} {st st' : State}
    (h : run st (done.length + 1) ls = .ok st') (hls : ∀ l ∈ ls, OneLine l)
    (hst : Progress done st) : Progress (done ++ ls) st' := by
  induction ls generalizing done st with
  | nil =>
    cases h
    rw [List.append_nil]
    exact hst
  | cons line rest ih =>
    obtain ⟨hline, hrest⟩ := List.forall_mem_cons.1 hls
    obtain ⟨st₁, hfirst, hlater⟩ := run_cons_ok h
    have hnumber : done.length + 1 + 1 = (done ++ [line]).length + 1 := by simp
    rw [hnumber] at hlater
    have hwhole := ih hlater hrest (progress_step hst hline hfirst)
    rwa [List.append_assoc, List.singleton_append] at hwhole

/-! ### From blocks to a run -/

/-- A run may be cut anywhere. -/
theorem run_append (st : State) (number : Nat) (a b : List (List Char)) :
    run st number (a ++ b) = (run st number a).bind fun st' => run st' (number + a.length) b := by
  induction a generalizing st number with
  | nil => rfl
  | cons line rest ih =>
    rw [List.cons_append, run, run]
    cases step st number line with
    | error e => rfl
    | ok st₁ =>
      show run st₁ (number + 1) (rest ++ b) = _
      rw [ih, List.length_cons]
      show (run st₁ (number + 1) rest).bind _ = (run st₁ (number + 1) rest).bind _
      congr 1
      funext st'
      congr 1
      omega

theorem Unclosed.of_prefix {ls p : List (List Char)} (h : Unclosed ls) (hp : p <+: ls) :
    Unclosed p :=
  ⟨fun l hl => h.oneLine l (hp.subset hl), fun q hq hne => h.positive q (hq.trans hp) hne⟩

/-- Without its last line, a block that is complete is open. -/
theorem Gathered.unclosed {ls : List (List Char)} {line : List Char}
    (h : Gathered (ls ++ [line])) : Unclosed ls := by
  refine ⟨fun l hl => h.oneLine l (List.mem_append_left _ hl), ?_⟩
  intro p hp hne
  refine h.positive p (hp.trans (List.prefix_append _ _)) hne ?_
  intro hall
  have hlength := hp.length_le
  rw [hall, List.length_append, List.length_singleton] at hlength
  omega

/-- A line that opens a block is the first line of it. -/
theorem step_first {st : State} {first : List Char} {name : String} (hblock : st.block = none)
    (hopening : classify (trim first) = .opening name) (number : Nat) :
    step st number first = st.settle (.ofLines name number [first]) number := by
  rw [step, hblock]
  simp only [hopening]
  rw [delta_trim_of_opening hopening, ← Braces.total_singleton first]
  rfl

/-- The next line of an open block. -/
theorem step_next {st : State} {ls : List (List Char)} {line : List Char} {name : String}
    {start : Nat} (number : Nat) :
    step { st with block := some (.ofLines name start ls) } number line =
      st.settle (.ofLines name start (ls ++ [line])) number := by
  rw [step_inside rfl, settle_with_block]
  simp only [OpenBlock.ofLines, Braces.total_append, Braces.total_singleton]

/-- Lines behind each of which a brace is open are taken by the block. -/
theorem run_unclosed {st : State} {first : List Char} {more : List (List Char)} {name : String}
    {number : Nat} (hblock : st.block = none) (hopening : classify (trim first) = .opening name)
    (hown : Unclosed (first :: more)) :
    run st number (first :: more) =
      .ok { st with block := some (.ofLines name number (first :: more)) } := by
  induction more using List.reverseRecOn with
  | nil =>
    rw [run_singleton, step_first hblock hopening]
    exact settle_open (hown.positive _ (List.prefix_refl _) (by simp)) st number
  | append_singleton more line ih =>
    have hfront : first :: (more ++ [line]) = (first :: more) ++ [line] := rfl
    rw [hfront] at hown ⊢
    rw [run_append, ih (hown.of_prefix (List.prefix_append _ _))]
    show run _ _ [line] = _
    rw [run_singleton, step_next]
    exact settle_open (hown.positive _ (List.prefix_refl _) (by simp)) st _

/-- The lines of a block that is complete close it. -/
theorem run_gathered {st : State} {first : List Char} {more : List (List Char)} {name : String}
    {number : Nat} (hblock : st.block = none) (hopening : classify (trim first) = .opening name)
    (hown : Gathered (first :: more)) :
    run st number (first :: more) = st.close name number (first :: more) := by
  cases more using List.reverseRecOn with
  | nil =>
    rw [run_singleton, step_first hblock hopening]
    exact settle_closed hown.balanced st number
  | append_singleton more line =>
    have hfront : first :: (more ++ [line]) = (first :: more) ++ [line] := rfl
    rw [hfront] at hown ⊢
    rw [run_append, run_unclosed hblock hopening hown.unclosed]
    show run _ _ [line] = _
    rw [run_singleton, step_next]
    exact settle_closed hown.balanced st _

/-- A line outside of blocks has the effect of what it says. -/
theorem step_of_effect {st st' : State} {number : Nat} {line : List Char} (hblock : st.block = none)
    (h : Effect st number line st' (classify (trim line))) : step st number line = .ok st' := by
  rw [step, hblock]
  generalize classify (trim line) = said at h
  cases h with
  | blank hst | comment hst => rw [hst]
  | heading hst | freeText hst => rw [hst, hblock]
  | opening hsettle => exact hsettle
  | assignment hread hst =>
    rw [hst]
    simp only [hread]

/-- Lines that have been read to can be read from the start. -/
theorem ReadTo.run {done : List (List Char)} {st : State} (h : ReadTo done st) :
    run .start 1 done = .ok st := by
  induction h with
  | start => rfl
  | @line done st st' line h hsaid heffect ih =>
    rw [run_append, ih]
    show Reader.run st (1 + done.length) [line] = _
    rw [run_singleton, Nat.add_comm]
    exact step_of_effect h.block_eq_none heffect
  | @block done more st st' first name h hopening hown hclose ih =>
    rw [run_append, ih]
    show Reader.run st (1 + done.length) (first :: more) = _
    rw [run_gathered h.block_eq_none hopening hown, Nat.add_comm]
    exact hclose

/-- Reading block by block is a run that ends with no block open. -/
theorem readTo_iff {ls : List (List Char)} {st : State} (hls : ∀ l ∈ ls, OneLine l) :
    ReadTo ls st ↔ Reader.run .start 1 ls = .ok st ∧ st.block = none := by
  constructor
  · intro h
    exact ⟨h.run, h.block_eq_none⟩
  · intro ⟨hrun, hblock⟩
    have hprogress : Progress ([] ++ ls) st := progress_run hrun hls (.outside .start)
    rw [List.nil_append] at hprogress
    cases hprogress with
    | outside h => exact h
    | inside h hopening hown hdone hst =>
      subst hst
      cases hblock

end Reader

/-- A document is what its lines give, read block by block. -/
theorem Document.read_ok_iff {text : String} {d : Document} :
    Document.read text = .ok d ↔
      ∃ st, Reader.ReadTo (lines text.toList) st ∧ d = st.document := by
  constructor
  · intro h
    obtain ⟨st, hrun, hblock, hd⟩ := Document.read_ok h
    exact ⟨st, (Reader.readTo_iff oneLine_of_mem_lines).2 ⟨hrun, hblock⟩, hd⟩
  · rintro ⟨st, h, rfl⟩
    rw [Document.read, Document.readAll, h.run]
    simp only [Reader.State.finish, h.block_eq_none]
    rfl

end PageCompiler
