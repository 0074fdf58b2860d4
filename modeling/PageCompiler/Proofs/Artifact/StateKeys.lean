import PageCompiler.Proofs.Artifact.Script
import PageCompiler.Proofs.Generation

/-!
# `PageCompiler.Proofs.Artifact.StateKeys`: where the members of a state get their names

The names of a state come from the declarations of the data model, from the members of its container
of state, from the patterns that bind a variable, and from the markup. What is read from markup is
the name of a variable (`isIdent_of_mem_models`, `isIdent_of_mem_loops`). Properties and blocks have
names, in which only a hyphen is not allowed for variables (`isIdent_iff_of_isName`). The other two
sources give any text. `state_keys_not_variables_iff` puts this together: it says which members of
the state of a page are no variables.
-/

set_option autoImplicit false

namespace PageCompiler

open Text Directive

/-! ### Names and variables -/

/-- A name is a variable unless it has a hyphen. -/
theorem isIdent_iff_of_isName {name : List Char} (h : Bundle.isName name = true) :
    IsIdent name ↔ '-' ∉ name := by
  constructor
  · intro hident hmem
    exact absurd (hident.chars '-' hmem) (by decide)
  · intro hhyphen
    cases name with
    | nil => cases h
    | cons c rest =>
      have hstart : isNameStart c = true := (Bool.and_eq_true_iff.1 h).1
      refine ⟨?_, fun d hd => ?_⟩
      · rw [followedBy_cons, isIdentStart, ← isNameStart, hstart, Bool.true_or]
      · have hd' := isNameChar_of_mem_name h hd
        rw [isNameChar, Bool.or_eq_true, beq_iff_eq] at hd'
        rcases hd' with hword | rfl
        · rw [isIdentChar, hword, Bool.true_or]
        · exact absurd hd hhyphen

namespace Directive

/-- What a binding refers to is a variable. -/
theorem isIdent_of_mem_models {markup name : String} (h : name ∈ models markup) :
    IsIdent name.toList := by
  obtain ⟨before, t, rest, hmodel⟩ := exists_of_mem_findAll h
  unfold model at hmodel
  simp only [Option.bind_eq_bind, Option.bind_eq_some_iff] at hmodel
  obtain ⟨_, -, _, -, _, -, ⟨word, _⟩, hword, _, -, ⟨⟩⟩ := hmodel
  rw [String.toList_ofList]
  exact (ident?_eq_some.1 hword).2.1

/-- What a loop runs over is a variable. -/
theorem isIdent_of_mem_loops {markup name : String} (h : name ∈ loops markup) :
    IsIdent name.toList := by
  obtain ⟨before, t, rest, hloop⟩ := exists_of_mem_findAll h
  unfold loop at hloop
  simp only [Option.bind_eq_bind, Option.bind_eq_some_iff] at hloop
  obtain ⟨_, -, _, -, _, -, _, -, _, -, ⟨word, _⟩, hword, _, -, ⟨⟩⟩ := hloop
  rw [String.toList_ofList]
  exact (ident?_eq_some.1 hword).2.1

end Directive

/-! ### The properties of sections -/

/-- The properties of a section have names. -/
def Section.NamesProperties (s : Section) : Prop :=
  ∀ name ∈ Assoc.keys s.properties, Bundle.isName name.toList = true

/-- The properties of all sections have names. -/
def Document.NamesProperties (d : Document) : Prop :=
  ∀ s ∈ d.sections, s.NamesProperties

theorem Document.NamesProperties.modifySection {d : Document} (h : d.NamesProperties)
    {name : String} {f : Section → Section}
    (hf : ∀ s : Section, s.NamesProperties → (f s).NamesProperties) :
    (d.modifySection name f).NamesProperties := by
  intro s hs
  rcases mem_modifySectionIn hs with hs | rfl
  · exact h s hs
  · refine hf _ ?_
    cases hfind : d.sections.find? fun s => s.name == name with
    | none => exact fun _ hmem => absurd hmem List.not_mem_nil
    | some s => exact h s (List.mem_of_find?_eq_some hfind)

namespace Reader

/-- Every line keeps the properties named. -/
theorem namesProperties_step {st st' : State} {number : Nat} {line : List Char}
    (h : step st number line = .ok st') (hst : st.document.NamesProperties) :
    st'.document.NamesProperties := by
  rcases step_cases h with rfl | ⟨name, rfl⟩ | ⟨b, rfl, -⟩ | ⟨name, start, ls, hclose, -⟩ |
    ⟨key, v, rfl, hkey⟩ | rfl
  · exact hst
  · exact hst.modifySection fun _ hs => hs
  · exact hst
  · obtain ⟨c, -, -, rfl⟩ := close_ok hclose
    refine Document.NamesProperties.modifySection ?_ fun _ hs => hs
    exact hst.modifySection fun _ hs => hs
  · unfold State.assign
    split
    · exact hst
    · refine hst.modifySection fun s hs name hname => ?_
      rcases Assoc.mem_keys_insert.1 hname with hname | rfl
      · exact hs name hname
      · exact hkey
  · exact hst

end Reader

theorem Document.namesProperties_of_read {text : String} {d : Document}
    (h : Document.read text = .ok d) : d.NamesProperties := by
  obtain ⟨st, hrun, -, rfl⟩ := Document.read_ok h
  exact Reader.run_induction (P := fun st => st.document.NamesProperties)
    Reader.namesProperties_step hrun nofun

/-! ### Declarations -/

/-- The data model declares a name by a property or by a block of its own. -/
def Document.Declares (d : Document) (name : String) : Prop :=
  ∃ s, d.section? "data_model" = some s ∧
    (name ∈ Assoc.keys s.properties ∨
      ∃ c ∈ s.components, c.name ≠ Assembly.stateContainer ∧ name = c.name)

/-- The container of state in the data model has a member. -/
def Document.DeclaresMember (d : Document) (name : String) : Prop :=
  ∃ s, d.section? "data_model" = some s ∧
    ∃ c ∈ s.components, c.name = Assembly.stateContainer ∧ name ∈ Assoc.keys c.properties

/-- What the data model of a text declares has a name. -/
theorem Document.Declares.isName {d : Document} (hwf : d.WellFormed) (hnamed : d.NamesProperties)
    {name : String} (h : d.Declares name) : Bundle.isName name.toList = true := by
  obtain ⟨s, hs, hname⟩ := h
  have hs := List.mem_of_find?_eq_some hs
  rcases hname with hname | ⟨c, hc, -, rfl⟩
  · exact hnamed s hs name hname
  · exact (hwf.sections s hs).isName c hc

namespace Assembly

/-- Steps that each add some names add the names of all of them. -/
theorem mem_keys_foldlM {α ε : Type} {f : Fields → α → Except ε Fields} (adds : α → String → Prop)
    (hf : ∀ s x s', f s x = .ok s' → ∀ name, name ∈ Assoc.keys s' ↔
      name ∈ Assoc.keys s ∨ adds x name)
    {l : List α} {s s' : Fields} (h : l.foldlM f s = .ok s') (name : String) :
    name ∈ Assoc.keys s' ↔ name ∈ Assoc.keys s ∨ ∃ x ∈ l, adds x name := by
  induction l generalizing s with
  | nil =>
    cases h
    simp
  | cons x l ih =>
    rw [List.foldlM_cons] at h
    obtain ⟨s₁, hx, hl⟩ := Failure.bind_ok h
    rw [ih hl, hf _ _ _ hx]
    simp [or_assoc]

/-- A block adds its own name, or as the container of state those of its members. -/
theorem mem_keys_declareBlock {s s' : Fields} {c : Component} (h : declareBlock s c = .ok s')
    (name : String) :
    name ∈ Assoc.keys s' ↔ name ∈ Assoc.keys s ∨
      (c.name ≠ stateContainer ∧ name = c.name ∨
        c.name = stateContainer ∧ name ∈ Assoc.keys c.properties) := by
  unfold declareBlock at h
  split at h
  next hc =>
    rw [mem_keys_foldlM (fun entry name => name = entry.1) ?_ h]
    · simp [eq_of_beq hc, Assoc.keys, eq_comm]
    · intro s entry s' h name
      obtain ⟨v, -, h⟩ := Failure.bind_ok h
      cases h
      exact mem_keys_addDefault
  next hc =>
    obtain ⟨v, -, h⟩ := Failure.bind_ok h
    cases h
    have hc : c.name ≠ stateContainer := by simpa using hc
    rw [mem_keys_addDefault]
    simp [hc]

/-- The declared state has the names that the document declares. -/
theorem mem_keys_declaredState {d : Document} {declared : Fields}
    (h : declaredState d = .ok declared) (name : String) :
    name ∈ Assoc.keys declared ↔ d.Declares name ∨ d.DeclaresMember name := by
  unfold declaredState at h
  unfold Document.Declares Document.DeclaresMember
  split at h
  next hsection =>
    cases h
    simp [hsection, Assoc.keys]
  next s hsection =>
    obtain ⟨state, hproperties, hblocks⟩ := Failure.bind_ok h
    rw [mem_keys_foldlM _ (fun _ _ _ h => mem_keys_declareBlock h) hblocks,
      mem_keys_foldlM (fun entry name => name = entry.1) ?_ hproperties]
    · simp only [hsection, Option.some.injEq, exists_eq_left', Assoc.keys, List.map_nil,
        List.not_mem_nil, false_or, List.mem_map, and_or_left, exists_or, or_assoc, eq_comm]
    · intro s entry s' h name
      obtain ⟨v, -, h⟩ := Failure.bind_ok h
      cases h
      exact Assoc.mem_keys_insert

end Assembly

/-! ### What patterns bind -/

/-- The fragments that the standard rules render from a document. -/
def RuleOutput.rendered (a : Analysis) (d : Document) : List Fragment :=
  (RuleOutput.generate .standard a d).fragments.map Prod.snd

/-- A form for an address or a panel with tabs is rendered from the document and binds a name. -/
def Document.Binds (d : Document) (a : Analysis) (name : String) : Prop :=
  ∃ c ∈ d.components, ∃ f, RuleOutput.rendered? .standard a c = some f ∧
    (f.patternId = some "email_form" ∧
        name = Markup.asText (Assoc.get? c.properties "bind") "user_email" ∨
      f.patternId = some "tabbed_panel" ∧
        name = Markup.asText (Assoc.get? c.properties "bind") "active_tab")

/-- Of the standard patterns two have state: the variable that they bind. -/
theorem Pattern.mem_keys_state {p : Pattern} (hp : p ∈ Registry.standardPatterns) (c : Component)
    (name : String) :
    name ∈ Assoc.keys (p.state c) ↔
      p.id = "email_form" ∧ name = Markup.asText (Assoc.get? c.properties "bind") "user_email" ∨
      p.id = "tabbed_panel" ∧
        name = Markup.asText (Assoc.get? c.properties "bind") "active_tab" := by
  simp only [Registry.standardPatterns, List.mem_cons, List.not_mem_nil, or_false] at hp
  rcases hp with rfl | rfl | rfl | rfl | rfl | rfl | rfl | rfl | rfl | rfl | rfl | rfl | rfl | rfl |
    rfl | rfl | rfl | rfl
  all_goals first
    | exact iff_of_false List.not_mem_nil
        (by rintro (⟨h, -⟩ | ⟨h, -⟩) <;> exact absurd h (by decide))
    | simp [emailForm, tabbedPanel, tabbedState, Assoc.keys]

namespace RuleOutput

variable {r : Registry} {a : Analysis}

/-- A fragment is rendered from a component by a registered pattern. -/
theorem exists_pattern_of_rendered? {c : Component} {f : Fragment} (h : rendered? r a c = some f) :
    ∃ p ∈ r.patterns, f.patternId = some p.id ∧ f.state = p.state c := by
  obtain ⟨id, -, h⟩ := Option.bind_eq_some_iff.1 (rendered?_eq_some_iff.1 h)
  obtain ⟨p, hp, h⟩ := Option.bind_eq_some_iff.1 h
  have heq := eq_of_generate (Option.some.inj h)
  exact ⟨p, List.mem_of_find?_eq_some hp, by rw [heq], by rw [heq]⟩

/-- The fragments of a document are those of its components. -/
theorem mem_fragments_generate {d : Document} (h : d.WellFormed) {f : Fragment} :
    f ∈ (generate r a d).fragments.map Prod.snd ↔ ∃ c ∈ d.components, rendered? r a c = some f := by
  constructor
  · have hfold : ∀ (cs : List Component) (o : RuleOutput),
        f ∈ (cs.foldl (add r a) o).fragments.map Prod.snd →
          f ∈ o.fragments.map Prod.snd ∨ ∃ c ∈ cs, rendered? r a c = some f := by
      intro cs
      induction cs with
      | nil => exact fun o hf => .inl hf
      | cons c cs ih =>
        intro o hf
        rcases ih _ hf with hf | ⟨x, hx, hf⟩
        · unfold add at hf
          split at hf
          · exact .inl hf
          · exact .inl hf
          next g hattempt =>
            obtain ⟨entry, hentry, rfl⟩ := List.mem_map.1 hf
            rcases Assoc.mem_insert hentry with rfl | hentry
            · exact .inr ⟨c, List.mem_cons_self, rendered?_eq_some_iff.2 hattempt⟩
            · exact .inl (List.mem_map_of_mem hentry)
        · exact .inr ⟨x, List.mem_cons_of_mem c hx, hf⟩
    intro hf
    exact (hfold _ _ hf).resolve_left nofun
  · rintro ⟨c, hc, hf⟩
    rw [← fragment?_generate h hc] at hf
    exact List.mem_map.2 ⟨_, Assoc.mem_of_get? hf, rfl⟩

end RuleOutput

/-- The state of the fragments has the names that components bind. -/
theorem mem_keys_rendered {d : Document} (h : d.WellFormed) {a : Analysis} {name : String} :
    name ∈ Assoc.keys ((RuleOutput.rendered a d).flatMap Fragment.state) ↔ d.Binds a name := by
  rw [Assoc.keys, List.map_flatMap, List.mem_flatMap]
  constructor
  · rintro ⟨f, hf, hname⟩
    obtain ⟨c, hc, hf⟩ := (RuleOutput.mem_fragments_generate h).1 hf
    obtain ⟨p, hp, hid, hstate⟩ := RuleOutput.exists_pattern_of_rendered? hf
    rw [hstate] at hname
    refine ⟨c, hc, f, hf, ?_⟩
    rw [hid, Option.some.injEq, Option.some.injEq]
    exact (Pattern.mem_keys_state hp c name).1 hname
  · rintro ⟨c, hc, f, hf, hbind⟩
    obtain ⟨p, hp, hid, hstate⟩ := RuleOutput.exists_pattern_of_rendered? hf
    refine ⟨f, (RuleOutput.mem_fragments_generate h).2 ⟨c, hc, hf⟩, ?_⟩
    rw [hid, Option.some.injEq, Option.some.injEq] at hbind
    rw [hstate]
    exact (Pattern.mem_keys_state hp c name).2 hbind

/-! ### The members of the state -/

/-- The script of a page has a line for each member of the state. Of these members the ones that are
no variables are the declarations of the data model with a hyphen in their names, and among the
members of the container of state and the names that patterns bind all that are no variables. -/
theorem state_keys_not_variables_iff (text : String) (d : Document) (a : Analysis)
    (given script : String) (hread : Document.read text = .ok d)
    (hscript : Assembly.script d (RuleOutput.rendered a d)
      (Assembly.markup (RuleOutput.rendered a d)) given = .ok script) :
    ∃ state, Assembly.state d (RuleOutput.rendered a d)
        (Assembly.markup (RuleOutput.rendered a d)) = .ok state ∧
      script = "\n".intercalate
        ([Artifact.runtimeHeader Artifact.runtime, "const \x7b createApp \x7d = Vue;", "",
          "createApp(\x7b", "  data() \x7b", "    return \x7b"] ++
          state.map (fun (name, v) => "      " ++ name ++ ": " ++ Json.literal v ++ ",") ++
          ["    \x7d;", "  \x7d,", "  methods: \x7b"] ++
          Assembly.methodLines d state (Assembly.markup (RuleOutput.rendered a d)) given ++
          ["  \x7d,", "\x7d).mount('#app');"]) ∧
      ∀ name, name ∈ Assoc.keys state ∧ ¬ IsIdent name.toList ↔
        d.Declares name ∧ '-' ∈ name.toList ∨
          (d.DeclaresMember name ∨ d.Binds a name) ∧ ¬ IsIdent name.toList := by
  obtain ⟨state, hstate, hlines⟩ := Failure.bind_ok hscript
  obtain ⟨declared, hdeclared, hkeys⟩ := Assembly.mem_keys_state hstate
  have hwf := Document.wellFormed_of_read hread
  refine ⟨state, hstate, (Except.ok.inj hlines).symm, fun name => ?_⟩
  -- The title and what is read from markup are variables.
  have hmarkup : name = "appTitle" ∨
      name ∈ models (Assembly.markup (RuleOutput.rendered a d)) ∨
      name ∈ loops (Assembly.markup (RuleOutput.rendered a d)) → IsIdent name.toList := by
    rintro (rfl | hname | hname)
    · decide
    · exact isIdent_of_mem_models hname
    · exact isIdent_of_mem_loops hname
  have hhyphen : d.Declares name → (¬ IsIdent name.toList ↔ '-' ∈ name.toList) := by
    intro hname
    rw [isIdent_iff_of_isName (hname.isName hwf (Document.namesProperties_of_read hread)), not_not]
  have hsources : name ∈ Assoc.keys (declared ++ (RuleOutput.rendered a d).flatMap Fragment.state) ↔
      (d.Declares name ∨ d.DeclaresMember name) ∨ d.Binds a name := by
    rw [Assoc.keys, List.map_append, List.mem_append]
    exact or_congr (Assembly.mem_keys_declaredState hdeclared name) (mem_keys_rendered hwf)
  rw [hkeys, hsources]
  constructor
  · rintro ⟨hname | ((hname | hname) | hname) | hname, hident⟩
    · exact absurd (hmarkup (.inl hname)) hident
    · exact .inl ⟨hname, (hhyphen hname).1 hident⟩
    · exact .inr ⟨.inl hname, hident⟩
    · exact .inr ⟨.inr hname, hident⟩
    · exact absurd (hmarkup (.inr hname)) hident
  · rintro (⟨hname, hmem⟩ | ⟨hname | hname, hident⟩)
    · exact ⟨.inr (.inl (.inl (.inl hname))), (hhyphen hname).2 hmem⟩
    · exact ⟨.inr (.inl (.inl (.inr hname))), hident⟩
    · exact ⟨.inr (.inl (.inr hname)), hident⟩

/-- A property with a hyphen in its name, and a member whose name goes on with code. -/
theorem state_keys_not_variables_iff_injected :
    let text := "## Data Model\nuser-name: Ada\napp_state: \x7b\n  \"x: alert(1), y\": 1\n\x7d\n"
    let a := Analysis.ofClassifications []
    ∃ d script state, Document.read text = .ok d ∧
      Assembly.script d (RuleOutput.rendered a d) (Assembly.markup (RuleOutput.rendered a d)) "" =
        .ok script ∧
      Assembly.state d (RuleOutput.rendered a d) (Assembly.markup (RuleOutput.rendered a d)) =
        .ok state ∧
      ∀ name ∈ ["user-name", "x: alert(1), y"],
        name ∈ Assoc.keys state ∧ ¬ IsIdent name.toList := by
  intro text a
  obtain ⟨d, hread, hd⟩ := Failure.exists_ok (x := Document.read text)
    (fun d => (Assembly.declaredState d).toOption.isSome &&
      (d.section? "data_model").any fun s => (Assoc.keys s.properties).contains "user-name" &&
        s.components.any fun c => c.name == Assembly.stateContainer &&
          (Assoc.keys c.properties).contains "x: alert(1), y") (by decide +kernel)
  rw [Bool.and_eq_true, Option.any_eq_true] at hd
  obtain ⟨hdeclared, s, hs, hd⟩ := hd
  simp only [Bool.and_eq_true, List.any_eq_true, List.contains_iff_mem, beq_iff_eq] at hd
  obtain ⟨hproperty, c, hc, hcontainer, hmember⟩ := hd
  obtain ⟨script, hscript⟩ : ∃ script, Assembly.script d (RuleOutput.rendered a d)
      (Assembly.markup (RuleOutput.rendered a d)) "" = .ok script := by
    unfold Assembly.script Assembly.state
    cases hstate : Assembly.declaredState d with
    | error e =>
      rw [hstate] at hdeclared
      cases hdeclared
    | ok declared => exact ⟨_, rfl⟩
  obtain ⟨state, hstate, -, hkeys⟩ := state_keys_not_variables_iff text d a "" script hread hscript
  refine ⟨d, script, state, hread, hscript, hstate, ?_⟩
  intro name hname
  simp only [List.mem_cons, List.not_mem_nil, or_false] at hname
  rcases hname with rfl | rfl
  · exact (hkeys _).2 (.inl ⟨⟨s, hs, .inl hproperty⟩, by decide⟩)
  · exact (hkeys _).2 (.inr ⟨.inl ⟨s, hs, c, hc, hcontainer, hmember⟩, by decide⟩)

end PageCompiler
