import PageCompiler.Generation
import PageCompiler.Proofs.Assoc
import PageCompiler.Proofs.Document.Invariant

/-!
# `PageCompiler.Proofs.Generation`: what the rules render of a document

Fragments are kept under a key made of section and name. Names hold no dot, so a key tells the two
apart (`key_inj`), and a component finds its own fragment under its key and no other
(`fragment?_generate`). A component that could not be rendered is reported once, in order
(`errors_generate`).
-/

set_option autoImplicit false

namespace PageCompiler

/-- The standard rules refuse no component. -/
theorem refusal_of_mem_standard {p : Pattern} (hp : p ∈ Registry.standard.patterns)
    (c : Component) : p.refusal c = none := by
  have hp : p ∈ Registry.standardPatterns := hp
  simp only [Registry.standardPatterns, List.mem_cons, List.not_mem_nil, or_false] at hp
  rcases hp with rfl | rfl | rfl | rfl | rfl | rfl | rfl | rfl | rfl | rfl | rfl | rfl | rfl | rfl |
    rfl | rfl | rfl | rfl
  all_goals rfl

namespace RuleOutput

/-- What stands in front of the first dot, and what stands behind it. -/
theorem takeWhile_dot {a x : List Char} (h : '.' ∉ a) :
    (a ++ '.' :: x).takeWhile (· != '.') = a ∧ (a ++ '.' :: x).dropWhile (· != '.') = '.' :: x := by
  have ha : ∀ c ∈ a, (c != '.') = true := by
    intro c hc
    rw [bne_iff_ne]
    rintro rfl
    exact h hc
  rw [List.takeWhile_append_of_pos ha, List.dropWhile_append_of_pos ha]
  simp

/-- A key tells section and name apart. -/
theorem key_inj {s t m n : String} (hm : Bundle.isName m.toList = true)
    (hn : Bundle.isName n.toList = true) (h : key s m = key t n) : s = t ∧ m = n := by
  have hdot : ∀ {name : String}, Bundle.isName name.toList = true → '.' ∉ name.toList.reverse := by
    intro name hname hmem
    exact absurd (isNameChar_of_mem_name hname (List.mem_reverse.1 hmem)) (by decide)
  -- The section may hold dots, so the cut is made at the last one.
  have hlist : m.toList.reverse ++ '.' :: s.toList.reverse =
      n.toList.reverse ++ '.' :: t.toList.reverse := by
    have h := congrArg (fun k : String => k.toList.reverse) h
    simpa [key] using h
  obtain ⟨hm₁, hm₂⟩ := takeWhile_dot (hdot hm) (x := s.toList.reverse)
  obtain ⟨hn₁, hn₂⟩ := takeWhile_dot (hdot hn) (x := t.toList.reverse)
  rw [hlist] at hm₁ hm₂
  have hname := List.reverse_injective (hm₁.symm.trans hn₁)
  have hsection := List.reverse_injective (List.cons.inj (hm₂.symm.trans hn₂)).2
  exact ⟨String.toList_injective hsection, String.toList_injective hname⟩

variable {r : Registry} {a : Analysis}

/-! ### One component -/

/-- The fragment that the rule gives for a component. -/
def rendered? (r : Registry) (a : Analysis) (c : Component) : Option Fragment :=
  match attempt? r a c with
  | some (.ok f) => some f
  | _ => none

/-- The report that the rule gives on a component. -/
def report? (r : Registry) (a : Analysis) (c : Component) : Option MissingFields :=
  match attempt? r a c with
  | some (.error e) => some e
  | _ => none

/-- What a pattern renders from a component. -/
theorem eq_of_generate {p : Pattern} {c : Component} {f : Fragment} (h : p.generate c = .ok f) :
    f = { component := c.name, markup := p.render c, source := .rule, patternId := some p.id,
          state := p.state c } := by
  unfold Pattern.generate at h
  split at h
  · exact (Except.ok.inj h).symm
  · cases h
  · cases h

/-- What a pattern renders carries the name of the component, and is marked as rendered by a
rule. -/
theorem generate_ok {p : Pattern} {c : Component} {f : Fragment} (h : p.generate c = .ok f) :
    f.component = c.name ∧ f.source = .rule := by
  rw [eq_of_generate h]
  exact ⟨rfl, rfl⟩

/-- A component that takes a registered pattern is rendered or reported. -/
theorem attempt?_of_report? {c : Component} {id : String} {p : Pattern}
    (hid : a.knownPatternFor c.name c.inSection = some id) (hp : r.get? id = some p)
    (hreport : report? r a c = none) : ∃ f, attempt? r a c = some (.ok f) := by
  have hattempt : attempt? r a c = some (p.generate c) := by
    rw [attempt?, hid]
    show (r.get? id).bind _ = _
    rw [hp]
    rfl
  unfold report? at hreport
  rw [hattempt] at hreport ⊢
  cases hgenerate : p.generate c with
  | ok f => exact ⟨f, rfl⟩
  | error e =>
    rw [hgenerate] at hreport
    cases hreport

theorem rendered?_eq_some_iff {c : Component} {f : Fragment} :
    rendered? r a c = some f ↔ attempt? r a c = some (.ok f) := by
  unfold rendered?
  split
  · rename_i f' hattempt
    simp [hattempt]
  · rename_i hattempt
    exact iff_of_false (by simp) (hattempt f)

theorem rendered?_eq_some {c : Component} {f : Fragment} (h : rendered? r a c = some f) :
    f.component = c.name ∧ f.source = .rule := by
  obtain ⟨id, _, h⟩ := Option.bind_eq_some_iff.1 (rendered?_eq_some_iff.1 h)
  obtain ⟨p, _, h⟩ := Option.bind_eq_some_iff.1 h
  exact generate_ok (Option.some.inj h)

/-! ### One component after another -/

/-- A component that is added keeps the fragments of all others. -/
theorem get?_add (o : RuleOutput) (c : Component) (k : String) :
    Assoc.get? (add r a o c).fragments k =
      match attempt? r a c with
      | some (.ok f) => if key c.inSection c.name = k then some f else Assoc.get? o.fragments k
      | _ => Assoc.get? o.fragments k := by
  unfold add
  cases attempt? r a c with
  | none => rfl
  | some x =>
    cases x with
    | error e => rfl
    | ok f => exact Assoc.get?_insert _ _ _ _

/-- Components with other keys leave a fragment where it is. -/
theorem get?_foldl_add {cs : List Component} {k : String}
    (h : ∀ c ∈ cs, key c.inSection c.name ≠ k) (o : RuleOutput) :
    Assoc.get? (cs.foldl (add r a) o).fragments k = Assoc.get? o.fragments k := by
  induction cs generalizing o with
  | nil => rfl
  | cons c cs ih =>
    obtain ⟨hc, hcs⟩ := List.forall_mem_cons.1 h
    rw [List.foldl_cons, ih hcs, get?_add]
    split
    · rw [if_neg hc]
    · rfl

/-- Errors are reported component by component. -/
theorem errors_foldl_add (cs : List Component) (o : RuleOutput) :
    (cs.foldl (add r a) o).errors = o.errors ++ cs.filterMap (report? r a) := by
  induction cs generalizing o with
  | nil => simp
  | cons c cs ih =>
    rw [List.foldl_cons, ih]
    unfold add report?
    cases hc : attempt? r a c with
    | none => simp [hc]
    | some x =>
      cases x with
      | error e => simp [hc]
      | ok f => simp [hc]

/-- The reports on the components of a document, in order. -/
theorem errors_generate (r : Registry) (a : Analysis) (d : Document) :
    (generate r a d).errors = d.components.filterMap (report? r a) := by
  rw [generate, errors_foldl_add]
  rfl

/-- A component of a well-formed document finds its own fragment. -/
theorem fragment?_generate {d : Document} (h : d.WellFormed) {c : Component}
    (hc : c ∈ d.components) : (generate r a d).fragment? c = rendered? r a c := by
  have hkey : ∀ c' ∈ d.components, c'.place ≠ c.place →
      key c'.inSection c'.name ≠ key c.inSection c.name := by
    intro c' hc' hplace heq
    obtain ⟨hsection, hname⟩ := key_inj (h.component hc').1 (h.component hc).1 heq
    exact hplace (Prod.ext hsection hname)
  -- What stands in front of the component and behind it has other keys.
  obtain ⟨before, after, hsplit, hbefore, hafter⟩ := h.split hc
  have hfront : ∀ c' ∈ before, key c'.inSection c'.name ≠ key c.inSection c.name :=
    fun c' hc' => hkey c' (by rw [hsplit]; simp [hc']) (hbefore c' hc')
  have hback : ∀ c' ∈ after, key c'.inSection c'.name ≠ key c.inSection c.name :=
    fun c' hc' => hkey c' (by rw [hsplit]; simp [hc']) (hafter c' hc')
  rw [fragment?, generate, hsplit, List.foldl_append, List.foldl_cons, get?_foldl_add hback,
    get?_add, get?_foldl_add hfront, rendered?]
  split
  · rw [if_pos rfl]
  · rfl

end RuleOutput

end PageCompiler
