import Mathlib.Data.String.Basic
import PageCompiler.Proofs.Analysis
import PageCompiler.Proofs.Distinct
import PageCompiler.Proofs.Generation

/-!
# `PageCompiler.Proofs.Generation.Isolation`: every component has a share of its own

What the rules make of a component depends on the registry and on the component alone. `share?` is
this share: nothing for a component that takes no pattern, else a fragment or a report. `Outcome`
says which of the two it is, in terms of the properties that the component lacks (`Lacks`).

The rules go through an analysis in which components are looked up by name and section, and through
a table of fragments under keys. `generate_eq_shares` shows that all this comes to the shares of the
components in their order. A component that is replaced changes its own share and no other.
-/

set_option autoImplicit false

namespace PageCompiler

open Text

/-! ### Required properties -/

/-- A component does not give a property: it is absent, a blank text, or empty. -/
inductive Component.Lacks (c : Component) (name : String) : Prop
  | absent (h : Assoc.get? c.properties name = none)
  | null (h : Assoc.get? c.properties name = some .null)
  | blank {s : String} (h : Assoc.get? c.properties name = some (.text s))
      (hblank : ∀ x ∈ s.toList, isBlank x = true)
  | emptyList (h : Assoc.get? c.properties name = some (.list []))
  | emptyMap (h : Assoc.get? c.properties name = some (.map []))

/-- A property is lacking exactly if its value does not count as given. -/
theorem Component.lacks_iff {c : Component} {name : String} :
    c.Lacks name ↔ isGiven (Assoc.get? c.properties name) = false := by
  constructor
  · intro h
    cases h with
    | absent h => rw [h]; rfl
    | null h => rw [h]; rfl
    | blank h hblank => rw [h]; simpa [isGiven, allBlank] using hblank
    | emptyList h => rw [h]; rfl
    | emptyMap h => rw [h]; rfl
  · intro h
    cases hget : Assoc.get? c.properties name with
    | none => exact .absent hget
    | some v =>
      rw [hget] at h
      cases v with
      | null => exact .null hget
      | bool b => cases h
      | int n => cases h
      | float x => cases h
      | text s => exact .blank hget (by simpa [isGiven, allBlank] using h)
      | list items =>
        cases items with
        | nil => exact .emptyList hget
        | cons v items => cases h
      | map fields =>
        cases fields with
        | nil => exact .emptyMap hget
        | cons entry fields => cases h

theorem mem_sortedNames {names : List String} {name : String} :
    name ∈ sortedNames names ↔ name ∈ names := by
  rw [sortedNames, List.mem_mergeSort, List.mem_eraseDups]

/-- Sorted names ascend, each once. -/
theorem pairwise_sortedNames (names : List String) : (sortedNames names).Pairwise (· < ·) := by
  have hle : (sortedNames names).Pairwise fun a b => decide (a ≤ b) = true := by
    refine List.pairwise_mergeSort ?_ ?_ _
    · intro a b c hab hbc
      exact decide_eq_true (String.le_trans (of_decide_eq_true hab) (of_decide_eq_true hbc))
    · intro a b
      rw [Bool.or_eq_true, decide_eq_true_iff, decide_eq_true_iff]
      exact String.le_total a b
  have hne : (sortedNames names).Nodup :=
    (List.mergeSort_perm _ _).nodup_iff.2 (nodup_eraseDups names)
  exact hle.imp₂ (fun a b hle hne => lt_of_le_of_ne (of_decide_eq_true hle) hne) hne

namespace Pattern

/-- The rule of a pattern refuses no component that gives what the pattern requires. This is so for
all standard patterns. -/
def Total (p : Pattern) : Prop :=
  ∀ c, p.missing c = [] → p.refusal c = none

/-- What the rule of a pattern makes of a component. If the component lacks no required property, it
is a fragment that names both. Else it is a report that names both and the required properties that
the component lacks, each once and in order. -/
inductive Outcome (p : Pattern) (c : Component) : Except MissingFields Fragment → Prop
  | rendered (hgiven : ∀ name ∈ p.required, ¬ c.Lacks name) :
      Outcome p c (.ok { component := c.name, markup := p.render c, source := .rule,
                         patternId := some p.id, state := p.state c })
  | reported {fields : List String} (hne : fields ≠ []) (hsorted : fields.Pairwise (· < ·))
      (hfields : ∀ name, name ∈ fields ↔ name ∈ p.required ∧ c.Lacks name) :
      Outcome p c (.error (.of c.name p.id fields))

theorem mem_missing {p : Pattern} {c : Component} {name : String} :
    name ∈ p.missing c ↔ name ∈ p.required ∧ c.Lacks name := by
  rw [missing, mem_sortedNames, List.mem_filter, Component.lacks_iff, Bool.not_eq_true']

/-- Where the rule of a pattern is total, a component that gives what the pattern requires is
rendered, and any other component is reported. -/
theorem Total.outcome {p : Pattern} (hp : p.Total) (c : Component) :
    p.Outcome c (p.generate c) := by
  rw [generate]
  cases hmissing : p.missing c with
  | nil =>
    rw [hp c hmissing]
    refine .rendered fun name hname hlacks => ?_
    have hmem : name ∈ p.missing c := mem_missing.2 ⟨hname, hlacks⟩
    rw [hmissing] at hmem
    cases hmem
  | cons first rest =>
    show p.Outcome c (.error (.of c.name p.id (first :: rest)))
    rw [← hmissing]
    exact .reported (by rw [hmissing]; simp) (pairwise_sortedNames _) fun _ => mem_missing

end Pattern

/-! ### Shares -/

namespace RuleOutput

/-- The key of a component's own fragment. -/
def ownKey (c : Component) : String :=
  key c.inSection c.name

/-- What the rules make of a component by itself. -/
def share? (r : Registry) (c : Component) : Option (Except MissingFields Fragment) :=
  (Analysis.resolve r c).bind fun m => (r.get? m.1).map fun p => p.generate c

/-- The shares of components, one behind the other: fragments under their keys, and reports. -/
def shares (r : Registry) (cs : List Component) : RuleOutput where
  fragments := cs.filterMap fun c =>
    match share? r c with
    | some (.ok f) => some (ownKey c, f)
    | _ => none
  errors := cs.filterMap fun c =>
    match share? r c with
    | some (.error e) => some e
    | _ => none

/-- One output behind another. -/
instance : Append RuleOutput where
  append o o' := { fragments := o.fragments ++ o'.fragments, errors := o.errors ++ o'.errors }

theorem shares_append (r : Registry) (cs cs' : List Component) :
    shares r (cs ++ cs') = shares r cs ++ shares r cs' := by
  show _ = RuleOutput.mk _ _
  rw [shares, List.filterMap_append, List.filterMap_append]
  rfl

/-- In the analysis of a well-formed document the rules find what a component comes to by itself. -/
theorem attempt?_eq_share? {r : Registry} {a : Analysis} {d : Document} (h : d.WellFormed)
    (ha : Analysis.classify r d = .ok a) {c : Component} (hc : c ∈ d.components) :
    attempt? r a c = share? r c := by
  rw [Analysis.classify_eq r h] at ha
  cases ha
  rw [attempt?, Analysis.knownPatternFor_eq_patternFor, Analysis.patternFor_eq r h hc, share?]
  cases Analysis.resolve r c with
  | none => rfl
  | some m => exact Option.map_eq_bind.symm

/-- No two components of a well-formed document share a key. -/
theorem ownKeys_nodup {d : Document} (h : d.WellFormed) : (d.components.map ownKey).Nodup := by
  refine List.Nodup.map_on ?_ h.places_nodup.of_map
  intro c hc c' hc' hkey
  obtain ⟨hsection, hname⟩ := key_inj (h.component hc).1 (h.component hc').1 hkey
  exact List.inj_on_of_nodup_map h.places_nodup hc hc' (Prod.ext hsection hname)

/-- A component with a new key adds its fragment at the end. -/
theorem fragments_add {r : Registry} {a : Analysis} {o : RuleOutput} {c : Component}
    (hnew : ownKey c ∉ Assoc.keys o.fragments) :
    (add r a o c).fragments =
      o.fragments ++ ((rendered? r a c).map fun f => (ownKey c, f)).toList := by
  unfold add rendered?
  cases attempt? r a c with
  | none => simp
  | some x =>
    cases x with
    | error e => simp
    | ok f => exact Assoc.insert_of_not_mem hnew

/-- Components with different keys add their fragments one behind the other. -/
theorem fragments_foldl_add {r : Registry} {a : Analysis} {cs : List Component} {o : RuleOutput}
    (hkeys : (cs.map ownKey).Nodup) (hnew : ∀ c ∈ cs, ownKey c ∉ Assoc.keys o.fragments) :
    (cs.foldl (add r a) o).fragments =
      o.fragments ++ cs.filterMap fun c => (rendered? r a c).map fun f => (ownKey c, f) := by
  induction cs generalizing o with
  | nil => simp
  | cons c cs ih =>
    rw [List.map_cons, List.nodup_cons] at hkeys
    obtain ⟨hc, hcs⟩ := List.forall_mem_cons.1 hnew
    have hfragments := fragments_add (r := r) (a := a) hc
    rw [List.foldl_cons, ih hkeys.2, hfragments]
    · cases hrendered : rendered? r a c with
      | none => simp [hrendered]
      | some f => simp [hrendered]
    · -- The key that was added is the one of the first component only.
      intro c' hc' hmem
      rw [hfragments, Assoc.keys, List.map_append, List.mem_append] at hmem
      rcases hmem with hmem | hmem
      · exact hcs c' hc' hmem
      · have hkey : ownKey c' = ownKey c := by
          cases hrendered : rendered? r a c with
          | none => simp [hrendered] at hmem
          | some f => simpa [hrendered] using hmem
        exact hkeys.1 (hkey ▸ List.mem_map_of_mem hc')

/-- What the rules make of a well-formed document are the shares of its components. -/
theorem generate_eq_shares {r : Registry} {a : Analysis} {d : Document} (h : d.WellFormed)
    (ha : Analysis.classify r d = .ok a) : generate r a d = shares r d.components := by
  have hfragments : (generate r a d).fragments = (shares r d.components).fragments := by
    rw [generate, fragments_foldl_add (ownKeys_nodup h) fun _ _ => List.not_mem_nil,
      List.nil_append]
    refine List.filterMap_congr fun c hc => ?_
    have hattempt := attempt?_eq_share? h ha hc
    rcases hshare : share? r c with _ | (e | f)
    · simp only [rendered?, hattempt, hshare, Option.map_none]
    · simp only [rendered?, hattempt, hshare, Option.map_none]
    · simp only [rendered?, hattempt, hshare, Option.map_some]
  have herrors : (generate r a d).errors = (shares r d.components).errors := by
    rw [errors_generate]
    refine List.filterMap_congr fun c hc => ?_
    have hattempt := attempt?_eq_share? h ha hc
    rcases hshare : share? r c with _ | (e | f)
    · simp only [report?, hattempt, hshare]
    · simp only [report?, hattempt, hshare]
    · simp only [report?, hattempt, hshare]
  show RuleOutput.mk (generate r a d).fragments (generate r a d).errors = _
  rw [hfragments, herrors]

end RuleOutput

/-! ### Replacing a component -/

theorem placeComponent_append_cons {before after : List Component} {old new : Component}
    (hbefore : new.name ∉ before.map Component.name) (hname : old.name = new.name) :
    placeComponent new (before ++ old :: after) = before ++ new :: after := by
  induction before with
  | nil => rw [List.nil_append, placeComponent, if_pos (by simp [hname]), List.nil_append]
  | cons first before ih =>
    rw [List.map_cons, List.mem_cons, not_or] at hbefore
    rw [List.cons_append, placeComponent, if_neg (by simpa using Ne.symm hbefore.1), ih hbefore.2,
      List.cons_append]

theorem modifySectionIn_append_cons {before after : List Section} {s : Section} {name : String}
    {f : Section → Section} (hbefore : name ∉ before.map Section.name) (hname : s.name = name) :
    modifySectionIn name f (before ++ s :: after) = before ++ f s :: after := by
  induction before with
  | nil => rw [List.nil_append, modifySectionIn, if_pos (by simp [hname]), List.nil_append]
  | cons first before ih =>
    rw [List.map_cons, List.mem_cons, not_or] at hbefore
    rw [List.cons_append, modifySectionIn, if_neg (by simpa using Ne.symm hbefore.1), ih hbefore.2,
      List.cons_append]

/-- A member of a list whose names are different splits the list, and its name does not stand in
front of it. -/
theorem exists_append_cons_of_nodup_map {α β : Type} {f : α → β} {l : List α} {x : α}
    (hnodup : (l.map f).Nodup) (hx : x ∈ l) :
    ∃ before after, l = before ++ x :: after ∧ f x ∉ before.map f := by
  obtain ⟨before, after, rfl⟩ := List.append_of_mem hx
  rw [List.map_append, List.map_cons, List.nodup_middle, List.nodup_cons, List.mem_append,
    not_or] at hnodup
  exact ⟨before, after, rfl, hnodup.1.1⟩

/-- A component keeps its section well formed if it takes the place of one with its name. -/
theorem Section.WellFormed.replace {s : Section} (h : s.WellFormed) {old new : Component}
    {before after : List Component} (hsplit : s.components = before ++ old :: after)
    (hplace : new.place = old.place) (hraw : new.rawText ≠ "") :
    Section.WellFormed { s with components := before ++ new :: after } := by
  obtain ⟨hsection, hname⟩ := Prod.mk.inj hplace
  have hnames := h.names_nodup
  have hhome := h.inSection
  have hlegal := h.isName
  have htext := h.rawText
  rw [hsplit] at hnames hhome hlegal htext
  simp only [List.forall_mem_append, List.forall_mem_cons] at hhome hlegal htext
  refine ⟨?_, ?_, ?_, ?_⟩
  · simpa only [List.map_append, List.map_cons, hname] using hnames
  · simpa only [List.forall_mem_append, List.forall_mem_cons, hsection] using hhome
  · simpa only [List.forall_mem_append, List.forall_mem_cons, hname] using hlegal
  · simp only [List.forall_mem_append, List.forall_mem_cons]
    exact ⟨htext.1, hraw, htext.2.2⟩

namespace Document

/-- A document with a component in the place of the one with its section and name. -/
def withComponent (d : Document) (c : Component) : Document :=
  d.modifySection c.inSection (·.put c)

variable {d : Document} {old new : Component}

/-- A component that takes the place of another changes one section, and in it one component. -/
theorem WellFormed.sections_withComponent (h : d.WellFormed) (hold : old ∈ d.components)
    (hplace : new.place = old.place) :
    ∃ front s back before after, d.sections = front ++ s :: back ∧ s.renders = true ∧
      s.components = before ++ old :: after ∧
      (d.withComponent new).sections =
        front ++ { s with components := before ++ new :: after } :: back := by
  obtain ⟨hsection, hname⟩ := Prod.mk.inj hplace
  obtain ⟨s, hs, hmem⟩ := List.mem_flatMap.1 hold
  obtain ⟨hs, hrenders⟩ := List.mem_filter.1 hs
  have hhome : s.name = new.inSection := by rw [hsection, (h.sections s hs).inSection old hmem]
  obtain ⟨front, back, hsections, hfront⟩ := exists_append_cons_of_nodup_map h.names_nodup hs
  obtain ⟨before, after, hcomponents, hbefore⟩ :=
    exists_append_cons_of_nodup_map (h.sections s hs).names_nodup hmem
  refine ⟨front, s, back, before, after, hsections, hrenders, hcomponents, ?_⟩
  rw [withComponent, Document.modifySection, hsections,
    modifySectionIn_append_cons (hhome ▸ hfront) hhome, Section.put, hcomponents,
    placeComponent_append_cons (hname ▸ hbefore) hname.symm]

/-- A component is replaced where it stands. -/
theorem WellFormed.components_withComponent (h : d.WellFormed) (hold : old ∈ d.components)
    (hplace : new.place = old.place) :
    ∃ before after, d.components = before ++ old :: after ∧
      (d.withComponent new).components = before ++ new :: after := by
  obtain ⟨front, s, back, before, after, hsections, hrenders, hcomponents, hnew⟩ :=
    h.sections_withComponent hold hplace
  have hlists : ∀ t : Section, t.renders = true →
      ((front ++ t :: back).filter Section.renders).flatMap Section.components =
        (front.filter Section.renders).flatMap Section.components ++ (t.components ++
          (back.filter Section.renders).flatMap Section.components) := by
    intro t ht
    rw [List.filter_append, List.filter_cons_of_pos ht, List.flatMap_append, List.flatMap_cons]
  refine ⟨(front.filter Section.renders).flatMap Section.components ++ before,
    after ++ (back.filter Section.renders).flatMap Section.components, ?_, ?_⟩
  · rw [components, hsections, hlists s hrenders, hcomponents]
    simp only [List.append_assoc, List.cons_append]
  · rw [components, hnew, hlists { s with components := before ++ new :: after } hrenders]
    simp only [List.append_assoc, List.cons_append]

/-- Replacing a component keeps a document in form. -/
theorem WellFormed.withComponent (h : d.WellFormed) (hold : old ∈ d.components)
    (hplace : new.place = old.place) (hraw : new.rawText ≠ "") :
    (d.withComponent new).WellFormed := by
  obtain ⟨front, s, back, before, after, hsections, -, hcomponents, hnew⟩ :=
    h.sections_withComponent hold hplace
  have hnames := h.names_nodup
  have hall := h.sections
  rw [hsections] at hnames hall
  constructor
  · rw [hnew]
    simpa only [List.map_append, List.map_cons] using hnames
  · rw [hnew]
    simp only [List.forall_mem_append, List.forall_mem_cons] at hall ⊢
    exact ⟨hall.1, hall.2.1.replace hcomponents hplace hraw, hall.2.2⟩

end Document

/-! ### The rules on a text -/

namespace RuleOutput

/-- What the rules make of a text that was read is made up of the shares of its components, in their
order and under different keys. A component without a pattern has no share. Any other component has
one, and if the rule of its pattern is total, this share is a fragment or a report on what the
component lacks.

A component that takes the place of another has its share there and leaves the shares of all others
as they are. If it has no text, the analysis stops at it. -/
theorem generate_exact_and_isolated (text : String) (d : Document) (r : Registry)
    (hread : Document.read text = .ok d) :
    ∃ a, Analysis.classify r d = .ok a ∧
      (d.components.map ownKey).Nodup ∧
      generate r a d = shares r d.components ∧
      (∀ c ∈ d.components,
        (a.patternFor c.name c.inSection = none → share? r c = none) ∧
        ∀ id, a.patternFor c.name c.inSection = some id →
          ∃ p ∈ r.patterns, p.id = id ∧ ∃ x, share? r c = some x ∧ (p.Total → p.Outcome c x)) ∧
      ∀ old ∈ d.components, ∀ new : Component, new.place = old.place →
        ∃ before after, d.components = before ++ old :: after ∧
          generate r a d = shares r before ++ shares r [old] ++ shares r after ∧
          (new.rawText = "" →
            Analysis.classify r (d.withComponent new) = .error { component := new.name }) ∧
          (new.rawText ≠ "" → ∃ a', Analysis.classify r (d.withComponent new) = .ok a' ∧
            generate r a' (d.withComponent new) =
              shares r before ++ shares r [new] ++ shares r after) := by
  have hd := Document.wellFormed_of_read hread
  have ha := Analysis.classify_eq r hd
  have hgenerate := generate_eq_shares hd ha
  refine ⟨_, ha, ownKeys_nodup hd, hgenerate, fun c hc => ?_, fun old hold new hplace => ?_⟩
  · rw [Analysis.patternFor_eq r hd hc, share?]
    cases hresolve : Analysis.resolve r c with
    | none => exact ⟨fun _ => rfl, nofun⟩
    | some m =>
      refine ⟨nofun, fun id hid => ?_⟩
      obtain rfl : m.1 = id := Option.some.inj hid
      obtain ⟨p, hp⟩ := Analysis.get?_of_resolve hresolve
      have hid : p.id = m.1 := by simpa using List.find?_some hp
      refine ⟨p, List.mem_of_find?_eq_some hp, hid, p.generate c, ?_, fun hp => hp.outcome c⟩
      rw [Option.bind_some, hp]
      rfl
  · obtain ⟨before, after, hcomponents, hnew⟩ := hd.components_withComponent hold hplace
    have hshares : ∀ c : Component, shares r (before ++ c :: after) =
        shares r before ++ shares r [c] ++ shares r after := by
      intro c
      rw [List.append_cons, shares_append, shares_append]
    refine ⟨before, after, hcomponents, ?_, ?_, ?_⟩
    · rw [hgenerate, hcomponents, hshares]
    · refine Analysis.classify_of_empty r hnew fun x hx => (hd.component ?_).2
      rw [hcomponents]
      exact List.mem_append_left _ hx
    · intro hraw
      have hd' := hd.withComponent hold hplace hraw
      have ha' := Analysis.classify_eq r hd'
      exact ⟨_, ha', by rw [generate_eq_shares hd' ha', hnew, hshares]⟩

/-- A card, a table without columns and a component without a pattern, in a section whose name has a
dot. -/
def dottedSection : String :=
  "## UI v1.0\na: \x7b\n  type: card_container\n  title: x\n\x7d\nb: \x7b\n  type: data_table\n" ++
    "  data_source: rows\n\x7d\nc: \x7b\n  note: 1\n\x7d\n"

/-- The table is reported for its columns. A table that gives them takes its place. -/
theorem generate_exact_and_isolated_dotted :
    ∃ d a old p x new a' before after, Document.read dottedSection = .ok d ∧
      Analysis.classify .standard d = .ok a ∧
      Assoc.keys (generate .standard a d).fragments = ["ui_v1.0.a"] ∧
      (generate .standard a d).errors = [.of "b" "data_table" ["columns"]] ∧
      old ∈ d.components ∧ a.patternFor old.name old.inSection = some "data_table" ∧
      p ∈ Registry.standard.patterns ∧ p.Total ∧ share? .standard old = some x ∧ p.Outcome old x ∧
      new.place = old.place ∧ new.rawText ≠ "" ∧ ¬ new.Lacks "columns" ∧
      Analysis.classify .standard (d.withComponent new) = .ok a' ∧
      generate .standard a' (d.withComponent new) =
        shares .standard before ++ shares .standard [new] ++ shares .standard after := by
  obtain ⟨d, hread, hd⟩ := Failure.exists_ok (x := Document.read dottedSection)
    (fun d => (Analysis.classify .standard d).toOption.any fun a =>
      Assoc.keys (generate .standard a d).fragments == ["ui_v1.0.a"] &&
        ((generate .standard a d).errors == [.of "b" "data_table" ["columns"]] &&
          d.components.any fun c => a.patternFor c.name c.inSection == some "data_table"))
    (by decide +kernel)
  obtain ⟨a, ha, -, -, hshare, hreplace⟩ :=
    generate_exact_and_isolated dottedSection d .standard hread
  rw [ha] at hd
  obtain ⟨hkeys, hd⟩ := Bool.and_eq_true_iff.1 hd
  obtain ⟨herrors, hd⟩ := Bool.and_eq_true_iff.1 hd
  obtain ⟨old, hold, hpattern⟩ := List.any_eq_true.1 hd
  rw [beq_iff_eq] at hkeys herrors hpattern
  obtain ⟨p, hp, -, x, hx, houtcome⟩ := (hshare old hold).2 _ hpattern
  have htotal : p.Total := fun c _ => refusal_of_mem_standard hp c
  let new : Component :=
    { old with properties := [("columns", .list [.text "id"])], rawText := "columns: [id]" }
  have hraw : new.rawText ≠ "" := show "columns: [id]" ≠ "" by decide
  have hgiven : ¬ new.Lacks "columns" := by
    rw [Component.lacks_iff, Bool.not_eq_false]
    rfl
  obtain ⟨before, after, -, -, -, hnew⟩ := hreplace old hold new rfl
  obtain ⟨a', ha', hgenerate⟩ := hnew hraw
  exact ⟨d, a, old, p, x, new, a', before, after, hread, ha, hkeys, herrors, hold, hpattern, hp,
    htotal, hx, houtcome htotal, rfl, hraw, hgiven, ha', hgenerate⟩

end RuleOutput

end PageCompiler
