import Mathlib.Data.List.Nodup
import PageCompiler.Proofs.Document.Line

/-!
# `PageCompiler.Proofs.Document.Invariant`: what every document satisfies that was read

The sections of a document have different names, and so have the components of a section. Every
component names the section it stands in, has a legal name, and has a text. `Document.WellFormed`
says so, and `Document.wellFormed_of_read` proves it of every document that was read.

`step_cases` lists what a line can do to the state of the reader, and `run_induction` turns a fact
about one line into a fact about all lines.
-/

set_option autoImplicit false

namespace PageCompiler

open Text

/-- The components of a section have different names, and each of them knows its section. -/
structure Section.WellFormed (s : Section) : Prop where
  names_nodup : (s.components.map Component.name).Nodup
  inSection : ∀ c ∈ s.components, c.inSection = s.name
  isName : ∀ c ∈ s.components, Bundle.isName c.name.toList = true
  rawText : ∀ c ∈ s.components, c.rawText ≠ ""

/-- The sections of a document have different names. -/
structure Document.WellFormed (d : Document) : Prop where
  names_nodup : (d.sections.map Section.name).Nodup
  sections : ∀ s ∈ d.sections, s.WellFormed

/-- The section and the name of a component. -/
def Component.place (c : Component) : String × String :=
  (c.inSection, c.name)

/-- What each component of a well-formed document satisfies on its own. -/
theorem Document.WellFormed.component {d : Document} (h : d.WellFormed) {c : Component}
    (hc : c ∈ d.components) : Bundle.isName c.name.toList = true ∧ c.rawText ≠ "" := by
  obtain ⟨s, hs, hc⟩ := List.mem_flatMap.1 hc
  have hs := h.sections s (List.mem_filter.1 hs).1
  exact ⟨hs.isName c hc, hs.rawText c hc⟩

/-- No two components of a well-formed document have the same place. -/
theorem Document.WellFormed.places_nodup {d : Document} (h : d.WellFormed) :
    (d.components.map Component.place).Nodup := by
  have hwf : ∀ s ∈ d.sections.filter Section.renders, s.WellFormed :=
    fun s hs => h.sections s (List.mem_filter.1 hs).1
  have hnames : ((d.sections.filter Section.renders).map Section.name).Nodup :=
    h.names_nodup.sublist (List.filter_sublist.map _)
  rw [Document.components, List.map_flatMap, List.nodup_flatMap]
  refine ⟨fun s hs => ?_, ?_⟩
  · refine List.Nodup.of_map Prod.snd ?_
    rw [List.map_map]
    exact (hwf s hs).names_nodup
  · -- Components of different sections differ in the section.
    refine (List.pairwise_map.1 hnames).imp_of_mem fun {s t} hs ht hne => ?_
    intro place hps hpt
    obtain ⟨a, ha, rfl⟩ := List.mem_map.1 hps
    obtain ⟨b, hb, hplace⟩ := List.mem_map.1 hpt
    refine hne ?_
    rw [← (hwf s hs).inSection a ha, ← (hwf t ht).inSection b hb]
    exact (congrArg Prod.fst hplace).symm

/-- A component of a well-formed document stands alone at its place. -/
theorem Document.WellFormed.split {d : Document} (h : d.WellFormed) {c : Component}
    (hc : c ∈ d.components) :
    ∃ before after, d.components = before ++ c :: after ∧
      (∀ c' ∈ before, c'.place ≠ c.place) ∧ ∀ c' ∈ after, c'.place ≠ c.place := by
  obtain ⟨before, after, hsplit⟩ := List.append_of_mem hc
  have hplaces := h.places_nodup
  rw [hsplit, List.map_append, List.map_cons, List.nodup_middle, List.nodup_cons] at hplaces
  refine ⟨before, after, hsplit, ?_, ?_⟩
  · intro c' hc' hplace
    exact hplaces.1 (List.mem_append_left _ (List.mem_map.2 ⟨c', hc', hplace⟩))
  · intro c' hc' hplace
    exact hplaces.1 (List.mem_append_right _ (List.mem_map.2 ⟨c', hc', hplace⟩))

theorem Section.wellFormed_empty (name : String) : (Section.empty name).WellFormed :=
  ⟨by simp [Section.empty], by simp [Section.empty], by simp [Section.empty],
    by simp [Section.empty]⟩

/-! ### Changing a section -/

/-- The section of a name, or the empty one that is added for it. -/
def Document.sectionOrEmpty (d : Document) (name : String) : Section :=
  (d.section? name).getD (Section.empty name)

theorem Document.name_sectionOrEmpty (d : Document) (name : String) :
    (d.sectionOrEmpty name).name = name := by
  rw [sectionOrEmpty, Document.section?]
  cases hfind : d.sections.find? fun s => s.name == name with
  | none => rfl
  | some s =>
    have hname := List.find?_some hfind
    exact beq_iff_eq.1 hname

/-- A section is as before, or the one that was changed. -/
theorem mem_modifySectionIn {name : String} {f : Section → Section} {l : List Section}
    {s : Section} (h : s ∈ modifySectionIn name f l) :
    s ∈ l ∨ s = f ((l.find? fun s => s.name == name).getD (Section.empty name)) := by
  induction l with
  | nil => exact .inr (List.mem_singleton.1 h)
  | cons first rest ih =>
    rw [modifySectionIn] at h
    cases hname : first.name == name with
    | true =>
      rw [hname, if_pos rfl] at h
      rw [List.find?_cons, hname]
      rcases List.mem_cons.1 h with h | h
      · exact .inr h
      · exact .inl (List.mem_cons_of_mem _ h)
    | false =>
      rw [hname, if_neg (by decide)] at h
      rw [List.find?_cons, hname]
      rcases List.mem_cons.1 h with h | h
      · exact .inl (h ▸ List.mem_cons_self)
      · exact (ih h).imp_left (List.mem_cons_of_mem _)

/-- A change that keeps the names of sections adds at most the one it was made for. -/
theorem map_name_modifySectionIn {name : String} {f : Section → Section}
    (hf : ∀ s, (f s).name = s.name) (l : List Section) :
    (modifySectionIn name f l).map Section.name =
      if name ∈ l.map Section.name then l.map Section.name else l.map Section.name ++ [name] := by
  induction l with
  | nil => simp [modifySectionIn, hf, Section.empty]
  | cons first rest ih =>
    rw [modifySectionIn]
    by_cases hname : first.name = name
    · simp [hname, hf]
    · rw [if_neg (by simpa using hname), List.map_cons, ih]
      simp only [List.map_cons, List.mem_cons, Ne.symm hname, false_or]
      split
      · rfl
      · rfl

/-- Changing a section keeps the names of sections distinct. -/
theorem nodup_name_modifySectionIn {name : String} {f : Section → Section}
    (hf : ∀ s, (f s).name = s.name) {l : List Section} (h : (l.map Section.name).Nodup) :
    ((modifySectionIn name f l).map Section.name).Nodup := by
  rw [map_name_modifySectionIn hf]
  split
  · exact h
  · rename_i hname
    rw [List.nodup_append]
    refine ⟨h, by simp, ?_⟩
    intro a ha b hb
    rw [List.mem_singleton.1 hb]
    rintro rfl
    exact hname ha

/-- A change keeps a document well formed, if it keeps the section well formed that it is made
to. -/
theorem Document.WellFormed.modifySection {d : Document} (h : d.WellFormed) {name : String}
    {f : Section → Section} (hname : ∀ s, (f s).name = s.name)
    (hf : (d.sectionOrEmpty name).WellFormed → (f (d.sectionOrEmpty name)).WellFormed) :
    (d.modifySection name f).WellFormed := by
  refine ⟨nodup_name_modifySectionIn hname h.names_nodup, ?_⟩
  intro s hs
  rcases mem_modifySectionIn hs with hs | rfl
  · exact h.sections s hs
  · apply hf
    rw [sectionOrEmpty]
    cases hfind : d.section? name with
    | none => exact Section.wellFormed_empty name
    | some s => exact h.sections s (List.mem_of_find?_eq_some hfind)

theorem Document.WellFormed.ensureSection {d : Document} (h : d.WellFormed) (name : String) :
    (d.ensureSection name).WellFormed :=
  h.modifySection (fun _ => rfl) id

theorem placeComponent_of_not_mem {c : Component} {l : List Component}
    (h : c.name ∉ l.map Component.name) : placeComponent c l = l ++ [c] := by
  induction l with
  | nil => rfl
  | cons first rest ih =>
    rw [List.map_cons, List.mem_cons, not_or] at h
    rw [placeComponent, if_neg (by simpa using Ne.symm h.1), ih h.2]
    rfl

/-- A new component at its place keeps a section well formed. -/
theorem Section.WellFormed.put {s : Section} {c : Component} (h : s.WellFormed)
    (hnew : c.name ∉ s.components.map Component.name) (hsection : c.inSection = s.name)
    (hname : Bundle.isName c.name.toList = true) (hraw : c.rawText ≠ "") :
    (s.put c).WellFormed := by
  have hcomponents : (s.put c).components = s.components ++ [c] := placeComponent_of_not_mem hnew
  have hall : ∀ {P : Component → Prop}, (∀ x ∈ s.components, P x) → P c →
      ∀ x ∈ (s.put c).components, P x := by
    intro P hs hc x hx
    rw [hcomponents] at hx
    rcases List.mem_append.1 hx with hx | hx
    · exact hs x hx
    · exact List.mem_singleton.1 hx ▸ hc
  refine ⟨?_, hall h.inSection hsection, hall h.isName hname, hall h.rawText hraw⟩
  rw [hcomponents, List.map_append, List.nodup_append]
  refine ⟨h.names_nodup, by simp, ?_⟩
  intro a ha b hb
  rw [List.mem_singleton.1 hb]
  rintro rfl
  exact hnew ha

/-! ### The reader -/

namespace Reader

/-- A block that is complete becomes a component, if its properties can be read. -/
theorem component_ok {inSection name : String} {start : Nat} {ls : List (List Char)}
    {c : Component} (h : component inSection name start ls = .ok c) :
    ∃ properties, Block.readBlock (blockBody (join ['\n'] ls)) = .ok properties ∧
      c = { name, patternName := patternName? properties, properties,
            rawText := String.ofList (join ['\n'] ls), inSection, line := start } := by
  simp only [component] at h
  split at h
  · rename_i properties hread
    exact ⟨properties, hread, (Except.ok.inj h).symm⟩
  · cases h
  · cases h

/-- A block that is complete is added to its section, if no component there has its name. -/
theorem close_ok {st st' : State} {name : String} {start : Nat} {ls : List (List Char)}
    (h : st.close name start ls = .ok st') :
    ∃ c, component (st.current.getD preambleSection) name start ls = .ok c ∧
      name ∉ ((st.document.ensureSection (st.current.getD preambleSection)).sectionOrEmpty
        (st.current.getD preambleSection)).components.map Component.name ∧
      st' = { st with
        document := (st.document.ensureSection (st.current.getD preambleSection)).modifySection
          (st.current.getD preambleSection) (·.put c)
        current := some (st.current.getD preambleSection)
        block := none } := by
  unfold State.close at h
  generalize st.current.getD preambleSection = home at h ⊢
  simp only at h
  split at h
  · cases h
  · rename_i hnone
    split at h
    · cases h
    · rename_i c hc
      refine ⟨c, hc, ?_, (Except.ok.inj h).symm⟩
      rw [Document.sectionOrEmpty]
      cases hsection : (st.document.ensureSection home).section? home with
      | none => simp [Section.empty]
      | some s =>
        rw [hsection, Option.bind_some, Section.component?, List.find?_eq_none] at hnone
        intro hmem
        obtain ⟨c', hc', hname⟩ := List.mem_map.1 hmem
        exact hnone c' hc' (by simp [hname])

/-- What a line can do. It leaves the state as it is, opens a section, leaves a block open,
completes one, assigns a property under a name, or is noted as free text. -/
theorem step_cases {st st' : State} {number : Nat} {line : List Char}
    (h : step st number line = .ok st') :
    st' = st ∨
    (∃ name, st' = { st with document := st.document.ensureSection name, current := some name }) ∨
    (∃ b : OpenBlock, st' = { st with block := some b } ∧
      ((∃ b', st.block = some b' ∧ b.name = b'.name) ∨ Bundle.isName b.name.toList = true)) ∨
    (∃ name start ls, st.close name start ls = .ok st' ∧
      ((∃ b', st.block = some b' ∧ name = b'.name) ∨ Bundle.isName name.toList = true)) ∨
    (∃ key v, st' = st.assign key v ∧ Bundle.isName key.toList = true) ∨
    st' = { st with freeText := st.freeText ++ [number] } := by
  have hsettle : ∀ {b : OpenBlock}, st.settle b number = .ok st' →
      st' = { st with block := some b } ∨ st.close b.name b.start b.lines = .ok st' := by
    intro b hb
    unfold State.settle at hb
    split at hb
    · cases hb
    · split at hb
      · exact .inr hb
      · exact .inl (Except.ok.inj hb).symm
  unfold step at h
  split at h
  · rename_i b hblock
    rcases hsettle h with h | h
    · exact .inr (.inr (.inl ⟨_, h, .inl ⟨b, hblock, rfl⟩⟩))
    · exact .inr (.inr (.inr (.inl ⟨_, _, _, h, .inl ⟨b, hblock, rfl⟩⟩)))
  · split at h
    · exact .inl (Except.ok.inj h).symm
    · exact .inl (Except.ok.inj h).symm
    · rename_i name _
      exact .inr (.inl ⟨name, (Except.ok.inj h).symm⟩)
    · rename_i name hline
      have hname := isName_of_classify hline
      rcases hsettle h with h | h
      · exact .inr (.inr (.inl ⟨_, h, .inr hname⟩))
      · exact .inr (.inr (.inr (.inl ⟨_, _, _, h, .inr hname⟩)))
    · cases h
    · rename_i key value hline
      split at h
      · rename_i v _
        have hkey := isName_of_classify_assignment hline
        exact .inr (.inr (.inr (.inr (.inl ⟨key, v, (Except.ok.inj h).symm, hkey⟩))))
      · cases h
    · exact .inr (.inr (.inr (.inr (.inr (Except.ok.inj h).symm))))

/-- What every line keeps holds after all lines. -/
theorem run_induction {P : State → Prop}
    (hstep : ∀ {st st' number line}, step st number line = .ok st' → P st → P st')
    {st st' : State} {number : Nat} {ls : List (List Char)} (h : run st number ls = .ok st')
    (hst : P st) : P st' := by
  induction ls generalizing st number with
  | nil =>
    cases h
    exact hst
  | cons line rest ih =>
    rw [run] at h
    split at h
    · cases h
    · rename_i st₁ hfirst
      exact ih h (hstep hfirst hst)

/-- What has been read is well formed, and an open block has a name. -/
structure State.WellFormed (st : State) : Prop where
  document : st.document.WellFormed
  block : ∀ b, st.block = some b → Bundle.isName b.name.toList = true

theorem wellFormed_start : State.start.WellFormed :=
  ⟨⟨by simp [State.start, Document.empty], by simp [State.start, Document.empty]⟩,
    by simp [State.start]⟩

/-- A block that was read has a text. -/
theorem rawText_ne_empty {inSection name : String} {start : Nat} {ls : List (List Char)}
    {c : Component} (h : component inSection name start ls = .ok c) : c.rawText ≠ "" := by
  obtain ⟨properties, hread, rfl⟩ := component_ok h
  intro hempty
  -- Nothing can be read from an empty text.
  have hraw : join ['\n'] ls = [] := by
    have hlist := congrArg String.toList hempty
    rwa [String.toList_ofList] at hlist
  rw [hraw] at hread
  cases hread

/-- A block that is complete keeps the document well formed. -/
theorem wellFormed_close {st st' : State} {name : String} {start : Nat} {ls : List (List Char)}
    (h : st.close name start ls = .ok st') (hdoc : st.document.WellFormed)
    (hname : Bundle.isName name.toList = true) : st'.WellFormed := by
  obtain ⟨c, hc, hnew, rfl⟩ := close_ok h
  have hraw := rawText_ne_empty hc
  obtain ⟨properties, _, rfl⟩ := component_ok hc
  refine ⟨(hdoc.ensureSection _).modifySection (fun _ => rfl) fun hs => ?_, fun b hb => nomatch hb⟩
  exact hs.put hnew (Document.name_sectionOrEmpty _ _).symm hname hraw

theorem wellFormed_assign {st : State} (h : st.WellFormed) (key : String) (v : Value) :
    (st.assign key v).WellFormed := by
  unfold State.assign
  split
  · exact ⟨⟨h.document.names_nodup, h.document.sections⟩, h.block⟩
  · refine ⟨h.document.modifySection (fun _ => rfl) fun hs => ?_, h.block⟩
    exact ⟨hs.names_nodup, hs.inSection, hs.isName, hs.rawText⟩

/-- Every line keeps the state well formed. -/
theorem wellFormed_step {st st' : State} {number : Nat} {line : List Char}
    (h : step st number line = .ok st') (hst : st.WellFormed) : st'.WellFormed := by
  -- A block has the name of the line that opened it, also when a later line completes it.
  have hnamed : ∀ {name : String},
      (∃ b', st.block = some b' ∧ name = b'.name) ∨ Bundle.isName name.toList = true →
        Bundle.isName name.toList = true := by
    rintro name (⟨b', hb', rfl⟩ | hname)
    · exact hst.block b' hb'
    · exact hname
  rcases step_cases h with rfl | ⟨name, rfl⟩ | ⟨b, rfl, hb⟩ | ⟨name, start, ls, hclose, hname⟩ |
    ⟨key, v, rfl, -⟩ | rfl
  · exact hst
  · exact ⟨hst.document.ensureSection name, hst.block⟩
  · refine ⟨hst.document, fun b' hb' => ?_⟩
    cases hb'
    exact hnamed hb
  · exact wellFormed_close hclose hst.document (hnamed hname)
  · exact wellFormed_assign hst key v
  · exact ⟨hst.document, hst.block⟩

end Reader

/-- A document was read by running over its lines, with no block open at the end. -/
theorem Document.read_ok {text : String} {d : Document} (h : Document.read text = .ok d) :
    ∃ st, Reader.run .start 1 (lines text.toList) = .ok st ∧ st.block = none ∧
      d = st.document := by
  rw [Document.read, Document.readAll] at h
  cases hrun : Reader.run .start 1 (lines text.toList) with
  | error e =>
    rw [hrun] at h
    cases h
  | ok st =>
    rw [hrun] at h
    cases hblock : st.block with
    | some b =>
      simp only [Reader.State.finish, hblock, Reader.State.fail] at h
      cases h
    | none =>
      simp only [Reader.State.finish, hblock] at h
      exact ⟨st, rfl, hblock, (Except.ok.inj h).symm⟩

/-- Every document that was read is well formed. -/
theorem Document.wellFormed_of_read {text : String} {d : Document}
    (h : Document.read text = .ok d) : d.WellFormed := by
  obtain ⟨st, hrun, _, rfl⟩ := Document.read_ok h
  exact (Reader.run_induction Reader.wellFormed_step hrun Reader.wellFormed_start).document

end PageCompiler
