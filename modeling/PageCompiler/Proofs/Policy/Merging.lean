import PageCompiler.Policy.Apply
import PageCompiler.Proofs.Assoc

/-!
# `PageCompiler.Proofs.Policy.Merging`: members that get one name

A policy gives each member of a script its canonical name. Two members could get the same name in
two ways: an alias stands next to its canonical name, or two aliases of one name stand next to each
other. `Policy.apply` refuses the first. `members_apart_iff` says that the second is the only way
that is left.
-/

set_option autoImplicit false

namespace PageCompiler

namespace Policy

/-- The name that a policy gives to a member. A name that is no alias stays. -/
def canonicalName (p : Policy) (name : String) : String :=
  (Assoc.get? p.identifierAliases name).getD name

theorem canonicalName_of_some {p : Policy} {old target : String}
    (h : Assoc.get? p.identifierAliases old = some target) : p.canonicalName old = target := by
  rw [canonicalName, h]
  rfl

theorem canonicalName_of_none {p : Policy} {name : String}
    (h : Assoc.get? p.identifierAliases name = none) : p.canonicalName name = name := by
  rw [canonicalName, h]
  rfl

/-- A policy is refused for members that get one name exactly if there are conflicts. -/
theorem apply_ne_conflict_iff {p : Policy} {a : Artifact} :
    (∀ pairs, p.apply a ≠ .error (.conflict pairs)) ↔ p.conflicts a.script = [] := by
  unfold apply
  cases hconflicts : p.conflicts a.script with
  | nil =>
    simp only [iff_true]
    intro pairs
    cases p.renameSelectors a.style.toList with
    | error e => simp
    | ok style => simp
  | cons pair pairs => simp

/-- The markup of a page under canonical names. -/
def canonicalMarkup (p : Policy) (markup : List Char) : List Char :=
  p.replaceMarkers (p.renameClasses (mapCode (Rename.run p.identifierAliases) markup))

/-- The script of a page under canonical names. -/
def canonicalScript (p : Policy) (script : List Char) : List Char :=
  p.withHeader (Rename.run p.identifierAliases script)

/-- A policy is applied where it finds no conflict and can rename the classes of the style. -/
theorem apply_eq_ok_iff {p : Policy} {a b : Artifact} :
    p.apply a = .ok b ↔ p.conflicts a.script = [] ∧
      ∃ style, p.renameSelectors a.style.toList = .ok style ∧
        b = { a with
          markup := String.ofList (p.canonicalMarkup a.markup.toList)
          script := String.ofList (p.canonicalScript a.script.toList)
          style := String.ofList (p.replaceMarkers style) } := by
  unfold apply
  cases hconflicts : p.conflicts a.script with
  | nil =>
    cases hstyle : p.renameSelectors a.style.toList with
    | error e => simp
    | ok style =>
      simp only [Except.ok.injEq, true_and, exists_eq_left']
      exact eq_comm
  | cons pair pairs => simp

/-- Where nothing is refused, an alias and its canonical name are not both declared. -/
theorem not_mem_of_conflicts_nil {p : Policy} {script old target : String}
    (h : p.conflicts script = []) (halias : Assoc.get? p.identifierAliases old = some target)
    (hold : old ∈ Directive.scriptKeys script) : target ∉ Directive.scriptKeys script := by
  intro htarget
  have hpair : (old, target) ∈ p.conflicts script := by
    refine List.mem_filter.2 ⟨Assoc.mem_of_get? halias, ?_⟩
    simp [hold, htarget]
  rw [h] at hpair
  cases hpair

/-- No two aliases of one name are among the names. -/
def OneAliasEach (p : Policy) (names : List String) : Prop :=
  ∀ old ∈ names, ∀ old' ∈ names, ∀ target,
    Assoc.get? p.identifierAliases old = some target →
      Assoc.get? p.identifierAliases old' = some target → old = old'

end Policy

/-- If a policy is not refused, then the members of the script keep names of their own exactly if no
two of them are aliases of one name. -/
theorem members_apart_iff (p : Policy) (a : Artifact)
    (hcalm : ∀ pairs, p.apply a ≠ .error (.conflict pairs)) :
    (∀ m ∈ Directive.scriptKeys a.script, ∀ n ∈ Directive.scriptKeys a.script,
      p.canonicalName m = p.canonicalName n → m = n) ↔
    p.OneAliasEach (Directive.scriptKeys a.script) := by
  have hconflicts := Policy.apply_ne_conflict_iff.1 hcalm
  constructor
  · intro happart old hold old' hold' target halias halias'
    refine happart old hold old' hold' ?_
    rw [Policy.canonicalName_of_some halias, Policy.canonicalName_of_some halias']
  · intro hone m hm n hn heq
    cases hm' : Assoc.get? p.identifierAliases m with
    | none =>
      rw [Policy.canonicalName_of_none hm'] at heq
      cases hn' : Assoc.get? p.identifierAliases n with
      | none => rw [heq, Policy.canonicalName_of_none hn']
      | some target =>
        -- Only `n` is an alias, and its canonical name `m` is declared: this was refused.
        rw [Policy.canonicalName_of_some hn'] at heq
        exact absurd (heq ▸ hm) (Policy.not_mem_of_conflicts_nil hconflicts hn' hn)
    | some target =>
      rw [Policy.canonicalName_of_some hm'] at heq
      cases hn' : Assoc.get? p.identifierAliases n with
      | none =>
        rw [Policy.canonicalName_of_none hn'] at heq
        exact absurd (heq ▸ hn) (Policy.not_mem_of_conflicts_nil hconflicts hm' hm)
      | some target' =>
        rw [Policy.canonicalName_of_some hn'] at heq
        exact hone m hm n hn target hm' (heq ▸ hn')

/-- A page with this script and nothing else. -/
def scriptOnly (script : String) : Artifact :=
  { title := "", markup := "", script, style := "", degraded := false, strategyUsed := .automatic,
    unresolved := [] }

/-- Two aliases of different names stay apart. -/
theorem members_apart_iff_two_steps :
    (∀ pairs, Policy.default.apply (scriptOnly "goNext: 1,\ngoBack: 2,") ≠
      .error (.conflict pairs)) ∧
    Directive.scriptKeys (scriptOnly "goNext: 1,\ngoBack: 2,").script = ["goNext", "goBack"] ∧
    ∀ m ∈ ["goNext", "goBack"], ∀ n ∈ ["goNext", "goBack"],
      Policy.default.canonicalName m = Policy.default.canonicalName n → m = n := by
  have hkeys : Directive.scriptKeys (scriptOnly "goNext: 1,\ngoBack: 2,").script =
      ["goNext", "goBack"] := by
    decide
  have hcalm : ∀ pairs, Policy.default.apply (scriptOnly "goNext: 1,\ngoBack: 2,") ≠
      .error (.conflict pairs) := by
    rw [Policy.apply_ne_conflict_iff, Policy.conflicts, hkeys]
    decide
  have happart := members_apart_iff _ _ hcalm
  rw [hkeys] at happart
  refine ⟨hcalm, hkeys, happart.2 ?_⟩
  intro old hold old' hold' target halias halias'
  simp only [List.mem_cons, List.not_mem_nil, or_false] at hold hold'
  rcases hold with rfl | rfl <;> rcases hold' with rfl | rfl
  · rfl
  · cases halias
    exact absurd halias' (by decide)
  · cases halias
    exact absurd halias' (by decide)
  · rfl

/-- Two aliases of one name are merged and not refused. -/
example :
    Policy.default.conflicts "onSubmit: 1,\nhandleSubmit: 2," = [] ∧
    Directive.scriptKeys "onSubmit: 1,\nhandleSubmit: 2," = ["onSubmit", "handleSubmit"] ∧
    Policy.default.canonicalName "onSubmit" = Policy.default.canonicalName "handleSubmit" := by
  decide

end PageCompiler
