import PageCompiler.Proofs.Document.Invariant

/-!
# `PageCompiler.Proofs.Document.Visits`: the lines of a document as the reader meets them

What a line means depends on where the reader stands: inside of a block every line belongs to the
block, and only outside of blocks a line can be a heading or an assignment. `Reader.visits` lists
the lines of a text together with what was read before each, and `Visit.meaning` is what a line
means there. `step_ok` gives the effect of a line for each thing that it can say.

`mem_sectionNames_run` follows the sections of a document through a whole run: apart from the
preamble, a document has exactly the sections that a heading outside of blocks names.
-/

set_option autoImplicit false

namespace PageCompiler

open Text

namespace Reader

/-- A line as the reader meets it, with its number and what was read before it. -/
structure Visit where
  before : State
  number : Nat
  line : List Char

/-- What a line says to the reader. Inside of a block it says nothing. -/
def Visit.meaning (v : Visit) : Option Line :=
  match v.before.block with
  | some _ => none
  | none => some (classify (trim v.line))

/-- The lines that are met from a state on, up to the one at which reading fails. -/
def visits (st : State) (number : Nat) : List (List Char) → List Visit
  | [] => []
  | line :: rest =>
    { before := st, number, line } ::
      match step st number line with
      | .error _ => []
      | .ok st => visits st (number + 1) rest

theorem visits_cons {st st' : State} {number : Nat} {line : List Char} {rest : List (List Char)}
    (h : step st number line = .ok st') :
    visits st number (line :: rest) =
      { before := st, number, line } :: visits st' (number + 1) rest := by
  rw [visits, h]

/-- The first line of a run, and the rest of it. -/
theorem run_cons_ok {st st' : State} {number : Nat} {line : List Char} {rest : List (List Char)}
    (h : run st number (line :: rest) = .ok st') :
    ∃ st₁, step st number line = .ok st₁ ∧ run st₁ (number + 1) rest = .ok st' := by
  rw [run] at h
  split at h
  · cases h
  · rename_i st₁ hfirst
    exact ⟨st₁, hfirst, h⟩

/-- A run that does not fail meets every line. -/
theorem map_line_visits {st st' : State} {number : Nat} {ls : List (List Char)}
    (h : run st number ls = .ok st') : (visits st number ls).map Visit.line = ls := by
  induction ls generalizing st number with
  | nil => rfl
  | cons line rest ih =>
    obtain ⟨st₁, hfirst, hrest⟩ := run_cons_ok h
    rw [visits_cons hfirst, List.map_cons, ih hrest]

/-- Lines are numbered upwards. -/
theorem le_number_of_mem_visits {st : State} {number : Nat} {ls : List (List Char)} :
    ∀ v ∈ visits st number ls, number ≤ v.number := by
  induction ls generalizing st number with
  | nil => simp [visits]
  | cons line rest ih =>
    intro v hv
    rw [visits] at hv
    rcases List.mem_cons.1 hv with rfl | hv
    · exact Nat.le_refl number
    · split at hv
      · cases hv
      · exact Nat.le_of_succ_le (ih v hv)

/-! ### The effect of a line -/

/-- A block stays open as long as its depth is positive, and is complete at zero. -/
theorem settle_ok {st st' : State} {b : OpenBlock} {number : Nat}
    (h : st.settle b number = .ok st') :
    (0 < b.depth ∧ st' = { st with block := some b }) ∨
      (b.depth = 0 ∧ st.close b.name b.start b.lines = .ok st') := by
  unfold State.settle at h
  split at h
  · cases h
  · split at h
    next hzero => exact .inr ⟨beq_iff_eq.1 hzero, h⟩
    next hneg hzero =>
      refine .inl ⟨?_, (Except.ok.inj h).symm⟩
      rw [beq_iff_eq] at hzero
      omega

/-- A property is assigned without moving on. -/
theorem block_assign (st : State) (key : String) (value : Value) :
    (st.assign key value).block = st.block ∧ (st.assign key value).current = st.current := by
  unfold State.assign
  split
  · exact ⟨rfl, rfl⟩
  · exact ⟨rfl, rfl⟩

/-- What a line does that says something. -/
inductive Effect (st : State) (number : Nat) (line : List Char) (st' : State) : Line → Prop where
  | blank : st' = st → Effect st number line st' .blank
  | comment : st' = st → Effect st number line st' .comment
  | heading {name : String} :
    st' = { st with document := st.document.ensureSection name, current := some name } →
      Effect st number line st' (.heading name)
  | opening {name : String} :
    st.settle { name, start := number, lines := [line], depth := Braces.delta (trim line) } number =
      .ok st' → Effect st number line st' (.opening name)
  | assignment {key : String} {value : List Char} {v : Value} :
    Block.readInline value = .ok v → st' = st.assign key v →
      Effect st number line st' (.assignment key value)
  | freeText : st' = { st with freeText := st.freeText ++ [number] } →
      Effect st number line st' .freeText

/-- The effect of a line: inside of a block it goes on with the block, and outside it does what it
says. -/
theorem step_ok {st st' : State} {number : Nat} {line : List Char}
    (h : step st number line = .ok st') :
    (∃ b, st.block = some b ∧
      st.settle { b with lines := b.lines ++ [line], depth := b.depth + Braces.delta line } number =
        .ok st') ∨
    (st.block = none ∧ Effect st number line st' (classify (trim line))) := by
  unfold step at h
  split at h
  next b hblock => exact .inl ⟨b, hblock, h⟩
  next hblock =>
    refine .inr ⟨hblock, ?_⟩
    generalize classify (trim line) = said at h ⊢
    cases said with
    | blank => exact .blank (Except.ok.inj h).symm
    | comment => exact .comment (Except.ok.inj h).symm
    | heading name => exact .heading (Except.ok.inj h).symm
    | opening name => exact .opening h
    | closing => cases h
    | assignment key value =>
      simp only at h
      split at h
      next hread => exact .assignment hread (Except.ok.inj h).symm
      next => cases h
    | freeText => exact .freeText (Except.ok.inj h).symm

/-! ### The sections of a document -/

/-- The names of the sections read so far. -/
def State.sectionNames (st : State) : List String :=
  st.document.sections.map Section.name

/-- A section that is changed is there behind it, and all others stay. -/
theorem mem_names_modifySection {d : Document} {home name : String} {f : Section → Section}
    (hf : ∀ s, (f s).name = s.name) :
    name ∈ (d.modifySection home f).sections.map Section.name ↔
      name ∈ d.sections.map Section.name ∨ name = home := by
  rw [Document.modifySection, map_name_modifySectionIn hf]
  split
  next hmem =>
    constructor
    · exact .inl
    · rintro (h | rfl)
      · exact h
      · exact hmem
  next => rw [List.mem_append, List.mem_singleton]

/-- The section that takes the next property or block is there. -/
def State.AtHome (st : State) : Prop :=
  ∀ home, st.current = some home → home ∈ st.sectionNames

/-- A block that is complete adds no section but the preamble. -/
theorem sectionNames_close {st st' : State} {name : String} {start : Nat} {ls : List (List Char)}
    (h : st.close name start ls = .ok st') (hhome : st.AtHome) :
    st'.AtHome ∧ ∀ n, n ≠ preambleSection → (n ∈ st'.sectionNames ↔ n ∈ st.sectionNames) := by
  obtain ⟨c, -, -, rfl⟩ := close_ok h
  have hmem : ∀ n, n ∈ State.sectionNames { st with
      document := (st.document.ensureSection (st.current.getD preambleSection)).modifySection
        (st.current.getD preambleSection) (·.put c)
      current := some (st.current.getD preambleSection)
      block := none } ↔ n ∈ st.sectionNames ∨ n = st.current.getD preambleSection := by
    intro n
    show n ∈ ((st.document.ensureSection _).modifySection _ _).sections.map Section.name ↔ _
    rw [mem_names_modifySection (f := (·.put c)) fun _ => rfl, Document.ensureSection,
      mem_names_modifySection (f := id) fun _ => rfl, or_assoc, or_self]
    rfl
  constructor
  · intro home hcurrent
    exact (hmem home).2 (.inr (Option.some.inj hcurrent).symm)
  · intro n hn
    rw [hmem]
    refine or_iff_left_of_imp ?_
    rintro rfl
    cases hcurrent : st.current with
    | none =>
      rw [hcurrent] at hn
      exact absurd rfl hn
    | some home => exact hhome home hcurrent

/-- Apart from the preamble, a line adds the section that it names as a heading, and no other. -/
theorem sectionNames_step {st st' : State} {number : Nat} {line : List Char}
    (h : step st number line = .ok st') (hhome : st.AtHome) :
    st'.AtHome ∧ ∀ n, n ≠ preambleSection → (n ∈ st'.sectionNames ↔ n ∈ st.sectionNames ∨
      Visit.meaning { before := st, number, line } = some (.heading n)) := by
  have hsettle : ∀ {b : OpenBlock}, st.settle b number = .ok st' →
      st'.AtHome ∧ ∀ n, n ≠ preambleSection → (n ∈ st'.sectionNames ↔ n ∈ st.sectionNames) := by
    intro b hb
    rcases settle_ok hb with ⟨-, rfl⟩ | ⟨-, hclose⟩
    · exact ⟨hhome, fun _ _ => Iff.rfl⟩
    · exact sectionNames_close hclose hhome
  rcases step_ok h with ⟨b, hblock, hb⟩ | ⟨hblock, heffect⟩
  · obtain ⟨hhome', hnames⟩ := hsettle hb
    refine ⟨hhome', fun n hn => ?_⟩
    simp [Visit.meaning, hblock, hnames n hn]
  · have hmeaning : Visit.meaning { before := st, number, line } = some (classify (trim line)) := by
      rw [Visit.meaning, hblock]
    rw [hmeaning]
    generalize classify (trim line) = said at heffect ⊢
    cases heffect with
    | blank hst | comment hst | freeText hst =>
      subst hst
      refine ⟨hhome, fun n _ => ?_⟩
      simp [State.sectionNames]
    | @heading name hst =>
      subst hst
      have hmem : ∀ n, n ∈ State.sectionNames { st with
          document := st.document.ensureSection name, current := some name } ↔
            n ∈ st.sectionNames ∨ n = name :=
        fun n => mem_names_modifySection (fun _ => rfl)
      refine ⟨fun home hcurrent => (hmem home).2 (.inr (Option.some.inj hcurrent).symm),
        fun n _ => ?_⟩
      rw [hmem]
      simp [eq_comm]
    | opening hb =>
      obtain ⟨hhome', hnames⟩ := hsettle hb
      refine ⟨hhome', fun n hn => ?_⟩
      simp [hnames n hn]
    | @assignment key value v _ hst =>
      subst hst
      cases hcurrent : st.current with
      | none =>
        refine ⟨fun home hc => ?_, fun n _ => ?_⟩
        · rw [(block_assign st key v).2, hcurrent] at hc
          cases hc
        · simp [State.assign, hcurrent, State.sectionNames]
      | some home =>
        have hmem : ∀ n, n ∈ (st.assign key v).sectionNames ↔ n ∈ st.sectionNames := by
          intro n
          rw [State.assign, hcurrent]
          refine (mem_names_modifySection (f := fun s =>
            { s with properties := Assoc.insert s.properties key v }) fun _ => rfl).trans ?_
          exact or_iff_left_of_imp fun hn => hn ▸ hhome home hcurrent
        refine ⟨fun home' hc => (hmem home').2 (hhome home' ?_), fun n _ => ?_⟩
        · rw [← (block_assign st key v).2]
          exact hc
        · rw [hmem]
          simp

/-- Apart from the preamble, a run adds the sections that headings outside of blocks name, and no
others. -/
theorem mem_sectionNames_run {st st' : State} {number : Nat} {ls : List (List Char)}
    (h : run st number ls = .ok st') (hhome : st.AtHome) {n : String} (hn : n ≠ preambleSection) :
    n ∈ st'.sectionNames ↔
      n ∈ st.sectionNames ∨ ∃ v ∈ visits st number ls, v.meaning = some (.heading n) := by
  induction ls generalizing st number with
  | nil =>
    cases h
    simp [visits]
  | cons line rest ih =>
    obtain ⟨st₁, hfirst, hrest⟩ := run_cons_ok h
    obtain ⟨hhome₁, hnames⟩ := sectionNames_step hfirst hhome
    rw [ih hrest hhome₁, hnames n hn, visits_cons hfirst]
    simp [or_assoc]

end Reader

/-- The lines of a text as the reader meets them. -/
def Document.visits (text : String) : List Reader.Visit :=
  Reader.visits .start 1 (lines text.toList)

/-- Apart from the preamble, a document has exactly the sections that headings outside of blocks
name. -/
theorem Document.section?_isSome_iff {text : String} {d : Document}
    (h : Document.read text = .ok d) {n : String} (hn : n ≠ preambleSection) :
    (d.section? n).isSome = true ↔ ∃ v ∈ Document.visits text, v.meaning = some (.heading n) := by
  obtain ⟨st, hrun, -, rfl⟩ := Document.read_ok h
  have hstart : Reader.State.start.AtHome := fun home hcurrent => nomatch hcurrent
  have hmem := Reader.mem_sectionNames_run hrun hstart hn
  rw [Document.visits, Document.section?, List.find?_isSome]
  simpa [Reader.State.sectionNames, Reader.State.start, Document.empty] using hmem

end PageCompiler
