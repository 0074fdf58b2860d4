import PageCompiler.Proofs.Compile.Outcome
import PageCompiler.Proofs.Fallback.Bundle
import PageCompiler.Proofs.Generation

/-!
# `PageCompiler.Proofs.Compile.Merge`: where each fragment of an artifact comes from

Fragments are merged in one pass that notes for which names the service's fragment is in place.
`slot` says without these notes what is put at a component: the service's fragment if it was asked
for and no component in front has the same name, else the rule's, else a placeholder. `slots` does
so for a list of components. `mergeFragments_eq` says that the pass amounts to it.
-/

set_option autoImplicit false

namespace PageCompiler.Compiler

section

variable (o : RuleOutput) (bundle : Option Bundle) (wanted : List String)

/-- The fragment that the service gives for a component, if it was asked for and no component in
front has the same name. `seen` holds the names in front. -/
def serviceFragment? (seen : List String) (c : Component) : Option Fragment :=
  if c.name ∈ wanted ∧ c.name ∉ seen then bundle.bind fun b => b.get? c.name else none

/-- What is put at a component. -/
def slot (seen : List String) (c : Component) : Fragment :=
  match serviceFragment? bundle wanted seen c, o.fragment? c with
  | some f, _ => f
  | none, some f => f
  | none, none => Assembly.placeholder c

/-- What is put at each of a list of components. -/
def slots (seen : List String) : List Component → List (Component × Fragment)
  | [] => []
  | c :: cs => (c, slot o bundle wanted seen c) :: slots (seen ++ [c.name]) cs

end

variable {o : RuleOutput} {bundle : Option Bundle} {wanted : List String}

theorem map_fst_slots (seen : List String) (cs : List Component) :
    (slots o bundle wanted seen cs).map Prod.fst = cs := by
  induction cs generalizing seen with
  | nil => rfl
  | cons c cs ih => rw [slots, List.map_cons, ih]

/-- Places are filled list by list. -/
theorem slots_append (seen : List String) (cs cs' : List Component) :
    slots o bundle wanted seen (cs ++ cs') =
      slots o bundle wanted seen cs ++
        slots o bundle wanted (seen ++ cs.map Component.name) cs' := by
  induction cs generalizing seen with
  | nil => simp [slots]
  | cons c cs ih => simp [slots, ih]

/-- A pair of `slots` is a component, and what is put there behind the components in front. -/
theorem mem_slots {seen : List String} {cs : List Component} {p : Component × Fragment} :
    p ∈ slots o bundle wanted seen cs ↔
      ∃ before after, cs = before ++ p.1 :: after ∧
        p.2 = slot o bundle wanted (seen ++ before.map Component.name) p.1 := by
  constructor
  · intro hp
    induction cs generalizing seen with
    | nil => cases hp
    | cons c cs ih =>
      rcases List.mem_cons.1 hp with rfl | hp
      · exact ⟨[], cs, rfl, by simp⟩
      · obtain ⟨before, after, rfl, hslot⟩ := ih hp
        exact ⟨c :: before, after, rfl, by simpa using hslot⟩
  · rintro ⟨before, after, rfl, hslot⟩
    rw [slots_append, slots, ← hslot]
    exact List.mem_append_right _ List.mem_cons_self

/-- The three things that can be put at a component. -/
theorem slot_cases (o : RuleOutput) (bundle : Option Bundle) (wanted seen : List String)
    (c : Component) :
    (∃ b, bundle = some b ∧ b.get? c.name = some (slot o bundle wanted seen c) ∧
      c.name ∈ wanted ∧ c.name ∉ seen) ∨
    (serviceFragment? bundle wanted seen c = none ∧
      o.fragment? c = some (slot o bundle wanted seen c)) ∨
    (serviceFragment? bundle wanted seen c = none ∧ o.fragment? c = none ∧
      slot o bundle wanted seen c = Assembly.placeholder c) := by
  unfold slot
  cases hservice : serviceFragment? bundle wanted seen c with
  | some f =>
    rw [serviceFragment?] at hservice
    split at hservice
    · rename_i hasked
      obtain ⟨b, hb, hf⟩ := Option.bind_eq_some_iff.1 hservice
      exact .inl ⟨b, hb, hf, hasked.1, hasked.2⟩
    · cases hservice
  | none =>
    cases hrule : o.fragment? c with
    | some f => exact .inr (.inl ⟨rfl, rfl⟩)
    | none => exact .inr (.inr ⟨rfl, rfl, rfl⟩)

/-- The service's fragment takes the place of the first component with its name. -/
theorem serviceFragment?_of_get? {b : Bundle} {seen : List String} {c : Component} {f : Fragment}
    (hf : b.get? c.name = some f) (hwanted : c.name ∈ wanted) (hseen : c.name ∉ seen) :
    serviceFragment? (some b) wanted seen c = some f := by
  rw [serviceFragment?, if_pos ⟨hwanted, hseen⟩]
  exact hf

theorem slot_of_service {seen : List String} {c : Component} {f : Fragment}
    (h : serviceFragment? bundle wanted seen c = some f) : slot o bundle wanted seen c = f := by
  rw [slot, h]

/-! ### One component -/

/-- The notes of a merge name the components in front whose fragment came from the service. -/
def Merge.Notes (bundle : Option Bundle) (wanted : List String) (m : Merge) (seen : List String) :
    Prop :=
  ∀ name ∈ wanted, (bundle.bind fun b => b.get? name).isSome = true →
    (name ∈ m.consumed ↔ name ∈ seen)

/-- What the pass finds open for the service at a component. -/
theorem serviceFragment?_eq {m : Merge} {seen : List String} (hnotes : m.Notes bundle wanted seen)
    (c : Component) :
    serviceFragment? bundle wanted seen c =
      if m.consumed.contains c.name then none
      else if wanted.contains c.name then bundle.bind fun b => b.get? c.name else none := by
  unfold serviceFragment?
  by_cases hwanted : c.name ∈ wanted
  · cases hget : bundle.bind fun b => b.get? c.name with
    | none => simp
    | some f =>
      have hiff := hnotes c.name hwanted (by rw [hget]; rfl)
      by_cases hseen : c.name ∈ seen
      · simp [hseen, hiff.2 hseen]
      · simp [hwanted, hseen, mt hiff.1 hseen]
  · simp [hwanted]

/-- What one step of the merge adds depends only on the names seen before. -/
theorem placeComponent_eq {m : Merge} {seen : List String} (hnotes : m.Notes bundle wanted seen)
    (c : Component) :
    placeComponent o bundle wanted m c =
      { fragments := m.fragments ++ [slot o bundle wanted seen c],
        unresolved :=
          if serviceFragment? bundle wanted seen c = none ∧ o.fragment? c = none
          then m.unresolved ++ [c.name] else m.unresolved,
        consumed :=
          if serviceFragment? bundle wanted seen c = none then m.consumed
          else c.name :: m.consumed } := by
  have hservice := serviceFragment?_eq hnotes c
  unfold placeComponent slot
  cases hconsumed : m.consumed.contains c.name with
  | true =>
    rw [hconsumed, if_pos rfl] at hservice
    rw [hservice]
    cases o.fragment? c <;> simp
  | false =>
    rw [hconsumed, if_neg (by simp)] at hservice
    rw [hservice]
    cases (if wanted.contains c.name then bundle.bind fun b => b.get? c.name else none) with
    | some f => simp
    | none => cases o.fragment? c <;> simp

/-- One more name has been seen behind a step of the merge. -/
theorem notes_placeComponent {m : Merge} {seen : List String}
    (hnotes : m.Notes bundle wanted seen) (c : Component) :
    (placeComponent o bundle wanted m c).Notes bundle wanted (seen ++ [c.name]) := by
  intro name hwanted hget
  have hname := hnotes name hwanted hget
  rw [placeComponent_eq hnotes, List.mem_append, List.mem_singleton]
  by_cases hservice : serviceFragment? bundle wanted seen c = none
  · rw [if_pos hservice, hname]
    refine ⟨.inl, ?_⟩
    rintro (hseen | rfl)
    · exact hseen
    · -- The service was asked for this name and gave it, so a component in front has it.
      by_contra hseen
      rw [serviceFragment?, if_pos ⟨hwanted, hseen⟩] at hservice
      rw [hservice] at hget
      cases hget
  · rw [if_neg hservice, List.mem_cons, hname, or_comm]

/-! ### All components -/

/-- The fragments that the rules and the service have for a component carry its name, and are
marked with where they come from. -/
structure Labelled (o : RuleOutput) (bundle : Option Bundle) (c : Component) : Prop where
  rule : ∀ {f}, o.fragment? c = some f → f.component = c.name ∧ f.source = .rule
  service : ∀ {b f}, bundle = some b → b.get? c.name = some f →
    f.component = c.name ∧ f.source = .fallback

/-- Fragments carry the names of their components. -/
theorem labelled_generate {d : Document} (hd : d.WellFormed)
    (hbundle : ∀ b, bundle = some b → b.WellFormed) (r : Registry) (a : Analysis) :
    ∀ c ∈ d.components, Labelled (RuleOutput.generate r a d) bundle c := by
  intro c hc
  refine ⟨?_, ?_⟩
  · intro f hf
    rw [RuleOutput.fragment?_generate hd hc] at hf
    exact RuleOutput.rendered?_eq_some hf
  · intro b f hb hf
    obtain ⟨hmem, hname⟩ := Bundle.get?_eq_some hf
    exact ⟨hname, (hbundle b hb).source f hmem⟩

theorem Labelled.slot_component {c : Component} (h : Labelled o bundle c) (seen : List String) :
    (slot o bundle wanted seen c).component = c.name := by
  obtain ⟨b, hb, hf, -⟩ | ⟨-, hf⟩ | ⟨-, -, hf⟩ := slot_cases o bundle wanted seen c
  · exact (h.service hb hf).1
  · exact (h.rule hf).1
  · rw [hf]
    rfl

/-- A placeholder stands exactly where neither the service nor a rule has a fragment. -/
theorem Labelled.slot_source {c : Component} (h : Labelled o bundle c) (seen : List String) :
    (slot o bundle wanted seen c).source = .placeholder ↔
      serviceFragment? bundle wanted seen c = none ∧ o.fragment? c = none := by
  obtain ⟨b, rfl, hf, hwanted, hseen⟩ | ⟨-, hf⟩ | ⟨hservice, hrule, hf⟩ :=
    slot_cases o bundle wanted seen c
  · simp [(h.service rfl hf).2, serviceFragment?_of_get? hf hwanted hseen]
  · simp [(h.rule hf).2, hf]
  · simp [hservice, hrule, hf, Assembly.placeholder]

/-- The names of the components that have a placeholder. -/
def pending (fragments : List Fragment) : List String :=
  (fragments.filter fun f => f.source == .placeholder).map Fragment.component

/-- The pass over the components puts at each of them what `slots` says. -/
theorem foldl_placeComponent {cs : List Component} (hlabel : ∀ c ∈ cs, Labelled o bundle c)
    {m : Merge} {seen : List String} (hnotes : m.Notes bundle wanted seen) :
    (cs.foldl (placeComponent o bundle wanted) m).fragments =
        m.fragments ++ (slots o bundle wanted seen cs).map Prod.snd ∧
      (cs.foldl (placeComponent o bundle wanted) m).unresolved =
        m.unresolved ++ pending ((slots o bundle wanted seen cs).map Prod.snd) := by
  induction cs generalizing m seen with
  | nil => simp [slots, pending]
  | cons c cs ih =>
    obtain ⟨hc, hcs⟩ := List.forall_mem_cons.1 hlabel
    -- The notes stay true when the name of the component joins the names in front.
    obtain ⟨hfragments, hunresolved⟩ := ih hcs (notes_placeComponent (o := o) hnotes c)
    rw [List.foldl_cons, hfragments, hunresolved, placeComponent_eq hnotes, slots]
    refine ⟨by simp, ?_⟩
    by_cases hsource : (slot o bundle wanted seen c).source = .placeholder
    · simp [pending, hsource, (hc.slot_source seen).1 hsource, hc.slot_component]
    · rw [if_neg (mt (hc.slot_source seen).2 hsource)]
      simp [pending, hsource]

/-- The fragments of the service that name no component. -/
def extras (bundle : Option Bundle) (cs : List Component) : List Fragment :=
  ((bundle.map Bundle.fragments).getD []).filter fun f =>
    !(cs.map Component.name).contains f.component

/-- Unless the service does it all, a merge is what stands at the components, and then what the
service has besides. -/
theorem mergeFragments_eq {cs : List Component} (hlabel : ∀ c ∈ cs, Labelled o bundle c)
    {strategy : Strategy} (hstrategy : ¬(strategy = .manualOnly ∧ bundle.isSome = true))
    (wanted : List String) :
    mergeFragments cs strategy o bundle wanted =
      ((slots o bundle wanted [] cs).map Prod.snd ++ extras bundle cs,
        (pending ((slots o bundle wanted [] cs).map Prod.snd)).eraseDups) := by
  have hstart : Merge.Notes bundle wanted ⟨[], [], []⟩ [] := by
    intro name _ _
    simp
  obtain ⟨hfragments, hunresolved⟩ := foldl_placeComponent (o := o) hlabel hstart
  unfold mergeFragments
  split
  · exact absurd ⟨rfl, rfl⟩ hstrategy
  · simp only [hfragments, hunresolved, List.nil_append]
    rfl

end PageCompiler.Compiler
