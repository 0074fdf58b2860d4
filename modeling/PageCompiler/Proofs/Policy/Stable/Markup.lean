import PageCompiler.Proofs.Policy.Merging
import PageCompiler.Proofs.Policy.Plain

/-!
# `PageCompiler.Proofs.Policy.Stable.Markup`: markup that a policy leaves as it is

A policy goes over the markup four times: over values of directives, over what stands between double
braces, over lists of classes and over markers. Each pass leaves the markup as it is exactly if it
changes nothing that it finds (`replaceAll_quotedAttr_eq_self_iff`,
`replaceAll_interpolation_eq_self_iff`).
`canonicalMarkup_eq_self_iff` says the same of all passes together: no pass takes back what another
one changed, since renaming lowers the number of aliases and no pass raises it.
-/

set_option autoImplicit false

namespace PageCompiler.Policy

open Text

/-! ### Values between quotes -/

section Quoted

variable {name? : List Char → Option (List Char × List Char)} {takes : String → Bool}
  (hreads : ReadsNames name? takes)

include hreads

/-- An attribute is made of a part without quotes, and of a value between quotes. -/
theorem quotedAttr_eq_some {before : Option Char} {s lead value rest : List Char}
    (h : quotedAttr name? before s = some ((lead, value), rest)) :
    ∃ x, '"' ∉ x ∧ '"' ∉ value ∧ lead = x ++ ['"'] ∧ s = x ++ '"' :: (value ++ '"' :: rest) := by
  unfold quotedAttr at h
  split at h
  · cases h
  · simp only [Option.bind_eq_bind, Option.bind_eq_some_iff] at h
    obtain ⟨⟨w, s₁⟩, hw, ⟨eq, s₂⟩, heq, ⟨value', rest'⟩, hvalue, hsome⟩ := h
    cases hsome
    obtain ⟨rfl, -, hwordy⟩ := hreads.word hw
    obtain ⟨gap, gap', rfl, hgap, hgap', rfl⟩ := equals?_eq_some heq
    have hblank : ∀ {gap : List Char}, (∀ c ∈ gap, isBlank c = true) → '"' ∉ gap :=
      fun hgap hmem => absurd (hgap _ hmem) (by decide)
    have hquote : '"' ∉ w := fun hmem => absurd (hwordy _ hmem) (by decide)
    obtain ⟨hclosed, rfl⟩ := quotedValue?_eq_some_iff.1 hvalue
    refine ⟨w ++ (gap ++ '=' :: gap'), ?_, hclosed, by simp, by simp⟩
    simp only [List.mem_append, List.mem_cons, not_or]
    exact ⟨hquote, hblank hgap, by decide, hblank hgap'⟩

theorem quotedAttr_nil (before : Option Char) : quotedAttr name? before [] = none := by
  cases hnone : quotedAttr name? before [] with
  | none => rfl
  | some found =>
    obtain ⟨⟨lead, value⟩, rest⟩ := found
    obtain ⟨x, -, -, -, hnil⟩ := quotedAttr_eq_some hreads hnone
    simp at hnil

variable {f : List Char → List Char}

/-- A pass over values leaves the markup as it is exactly if it changes no value. -/
theorem replaceAll_quotedAttr_eq_self_iff (hf : ∀ v, '"' ∉ v → '"' ∉ f v) (m : List Char) :
    replaceAll (quotedAttr name?) (fun (lead, value) => lead ++ f value ++ ['"']) m = m ↔
      ∀ a ∈ findAll (quotedAttr name?) m, f a.2 = a.2 := by
  rw [replaceAll_eq, findAll_eq,
    @scanFrom_eq_self_iff _ _ _ (fun a => a.1 ++ a.2 ++ ['"']) (quotedAttr_nil hreads) ?_]
  · refine forall₂_congr fun a _ => ?_
    show a.1 ++ f a.2 ++ ['"'] = a.1 ++ a.2 ++ ['"'] ↔ f a.2 = a.2
    rw [List.append_left_inj, List.append_right_inj]
  · intro before s a rest hfound
    obtain ⟨lead, value⟩ := a
    obtain ⟨x, hx, hvalue, rfl, rfl⟩ := quotedAttr_eq_some hreads hfound
    refine ⟨by simp, by simp, fun y z heq => ?_⟩
    have heq : x ++ '"' :: (f value ++ '"' :: y) = x ++ '"' :: (value ++ '"' :: z) := by
      simpa using heq
    obtain ⟨-, heq⟩ := append_cons_inj hx hx heq
    obtain ⟨hsame, -⟩ := append_cons_inj (hf value hvalue) hvalue heq
    show x ++ ['"'] ++ f value ++ ['"'] = x ++ ['"'] ++ value ++ ['"']
    rw [hsame]

/-- A pass over values changes some of the stretches between quotes. -/
inductive Requoted (f : List Char → List Char) : List Char → List Char → Prop
  | plain {x : List Char} (hx : '"' ∉ x) : Requoted f x x
  | kept {x s t : List Char} (hx : '"' ∉ x) (h : Requoted f s t) :
      Requoted f (x ++ '"' :: s) (x ++ '"' :: t)
  | changed {x v s t : List Char} (hx : '"' ∉ x) (hv : '"' ∉ v) (h : Requoted f s t) :
      Requoted f (x ++ '"' :: (v ++ '"' :: s)) (x ++ '"' :: (f v ++ '"' :: t))

omit hreads in
theorem Requoted.cons {s t : List Char} (h : Requoted f s t) (c : Char) :
    Requoted f (c :: s) (c :: t) := by
  by_cases hc : '"' = c
  · subst hc
    exact @kept f [] s t (by simp) h
  · have hmem : ∀ {x : List Char}, '"' ∉ x → '"' ∉ c :: x := by
      intro x hx
      rw [List.mem_cons, not_or]
      exact ⟨hc, hx⟩
    cases h with
    | plain hx => exact .plain (hmem hx)
    | kept hx h => exact .kept (hmem hx) h
    | changed hx hv h => exact .changed (hmem hx) hv h

/-- A pass over values changes only what stands between quotes. -/
theorem requoted_scanFrom (f : List Char → List Char) (before : Option Char) (m : List Char) :
    Requoted f m
      (scanFrom (quotedAttr name?) (putFound fun (lead, value) => lead ++ f value ++ ['"'])
        before m) := by
  induction hn : m.length using Nat.strongRecOn generalizing m before with
  | ind n ih =>
    subst hn
    cases hr : quotedAttr name? before m with
    | none =>
      cases m with
      | nil =>
        rw [scanFrom_nil hr]
        exact .plain (by simp)
      | cons c m =>
        rw [scanFrom_plain hr]
        exact (ih _ (by simp) (some c) m rfl).cons c
    | some found =>
      obtain ⟨⟨lead, value⟩, rest⟩ := found
      obtain ⟨x, hx, hvalue, rfl, rfl⟩ := quotedAttr_eq_some hreads hr
      have hsplit :
          x ++ '"' :: (value ++ '"' :: rest) = (x ++ ['"'] ++ value ++ ['"']) ++ rest := by
        simp
      have hlength : rest.length < (x ++ '"' :: (value ++ '"' :: rest)).length := by
        simp only [List.length_append, List.length_cons]
        omega
      have hrest := ih _ hlength (behind before (x ++ ['"'] ++ value ++ ['"'])) rest rfl
      have hscan := @scanFrom_found _ _ _ (putFound fun (lead, value) => lead ++ f value ++ ['"'])
        before _ _ rest (by simp) (hsplit ▸ hr)
      rw [hsplit, hscan, ← hsplit]
      have hwhole := Requoted.changed hx hvalue hrest
      simpa [putFound] using hwhole

end Quoted

/-! ### Code -/

/-- Renaming in the values of directives is an edit. -/
theorem edited_directives {aliases : Assoc String} (h : Rename.Regular aliases) (m : List Char) :
    Edited (renamed aliases) none m (replaceAll (quotedAttr directiveName?)
      (fun (lead, value) => lead ++ Rename.run aliases value ++ ['"']) m) := by
  rw [replaceAll_eq]
  refine edited_scanFrom (quotedAttr_nil readsNames_directive) ?_ none m
  intro before s a rest hfound
  obtain ⟨lead, value⟩ := a
  obtain ⟨x, -, -, rfl, rfl⟩ := quotedAttr_eq_some readsNames_directive hfound
  refine ⟨x ++ ['"'] ++ value ++ ['"'], by simp, by simp, fun t ht => ?_⟩
  have hvalue : Edited (renamed aliases) (some '"') value (Rename.run aliases value) :=
    edited_run h value fun hb => absurd hb (by decide)
  have hrest : Edited (renamed aliases) (behind (some '"') value) ('"' :: rest) ('"' :: t) := by
    refine .keep _ '"' ?_
    simpa using ht
  have hwhole := hvalue.append (renamed_append (by decide) rest) hrest
  have hwhole := Edited.append_left x (Edited.keep (behind before x) '"' hwhole)
  simpa using hwhole

section Passes

variable {p : Policy} (h : p.Plain)

include h

/-- Renaming between double braces leaves the markup as it is exactly if nothing there is
renamed. -/
theorem replaceAll_interpolation_eq_self_iff (m : List Char) :
    replaceAll interpolation
        (fun code =>
          '\x7b' :: '\x7b' :: Rename.run p.identifierAliases code ++ ['\x7d', '\x7d']) m =
      m ↔ ∀ code ∈ findAll interpolation m, Rename.run p.identifierAliases code = code := by
  rw [replaceAll_eq, findAll_eq,
    @scanFrom_eq_self_iff _ _ _ (fun code => '\x7b' :: '\x7b' :: code ++ ['\x7d', '\x7d'])
      (fun _ => rfl) ?_]
  · refine forall₂_congr fun code _ => ?_
    rw [List.append_left_inj, List.cons_inj_right, List.cons_inj_right]
  · intro before s code rest hfound
    unfold interpolation at hfound
    rw [Option.bind_eq_bind, Option.bind_eq_some_iff] at hfound
    obtain ⟨s₁, h₁, h₂⟩ := hfound
    obtain rfl := after?_eq_some.1 h₁
    obtain rfl := upTo?_eq_some h₂
    refine ⟨by simp, by simp, fun y z heq => ?_⟩
    have heq : Rename.run p.identifierAliases code ++ '\x7d' :: ('\x7d' :: y) =
        code ++ '\x7d' :: ('\x7d' :: z) := by
      simpa using heq
    -- Renaming keeps all braces, so the code ends at the same brace.
    obtain ⟨hsame, -⟩ := append_cons_inj_of_count (h.count_run (by decide) code) heq
    rw [hsame]

/-! ### Classes -/

/-- The text of the canonical classes of a value. -/
def classText (p : Policy) (v : List Char) : List Char :=
  [' '].intercalate (p.canonicalClasses v)

omit h in
/-- A canonical class stands in the list, or replaces one that does. -/
theorem mem_canonicalClasses {v token : List Char} (htoken : token ∈ p.canonicalClasses v) :
    token ∈ fields v ∨ ∃ e ∈ p.classAliases, token ∈ fields e.2.toList := by
  rw [canonicalClasses, List.mem_eraseDups, List.mem_flatMap] at htoken
  obtain ⟨field, hfield, htoken⟩ := htoken
  split at htoken
  next target hget => exact .inr ⟨_, Assoc.mem_of_get? hget, htoken⟩
  next =>
    rw [List.mem_singleton.1 htoken]
    exact .inl hfield

omit h in
/-- Renamed classes hold no quote. -/
theorem quote_not_mem_classText
    (hquotes : ∀ e ∈ p.classAliases, ∀ token ∈ fields e.2.toList, '"' ∉ token) {v : List Char}
    (hv : '"' ∉ v) : '"' ∉ p.classText v := by
  intro hmem
  refine forall_mem_intercalate (P := (· ≠ '"')) (by decide) ?_ '"' hmem rfl
  rintro token htoken c hc rfl
  rcases mem_canonicalClasses htoken with hfield | ⟨e, he, hfield⟩
  · exact hv (mem_fields hfield _ hc).1
  · exact hquotes e he token hfield hc

/-- Tokens without old markers. -/
theorem replaceMarkers_intercalate {tokens : List (List Char)}
    (htokens : ∀ token ∈ tokens, p.replaceMarkers token = token) :
    p.replaceMarkers ([' '].intercalate tokens) = [' '].intercalate tokens := by
  induction tokens with
  | nil => rfl
  | cons token tokens ih =>
    obtain ⟨htoken, hrest⟩ := List.forall_mem_cons.1 htokens
    cases tokens with
    | nil => simpa using htoken
    | cons next tokens =>
      rw [List.intercalate_cons_cons, List.append_assoc, List.singleton_append,
        replaceMarkers_eq_self_iff h.isMarker (by decide) (by decide)]
      exact ⟨htoken, ih hrest⟩

/-- A text without old markers has fields without. -/
theorem replaceMarkers_of_mem_fields {v token : List Char} (hv : p.replaceMarkers v = v)
    (htoken : token ∈ fields v) : p.replaceMarkers token = token := by
  have hwalk : ∀ (s current : List Char),
      p.replaceMarkers (current.reverse ++ s) = current.reverse ++ s →
      ∀ token ∈ fieldsFrom current s, p.replaceMarkers token = token := by
    intro s
    induction s with
    | nil =>
      intro current hs token htoken
      rw [fieldsFrom] at htoken
      split at htoken
      · cases htoken
      · rw [List.mem_singleton.1 htoken]
        simpa using hs
    | cons c s ih =>
      intro current hs token htoken
      rw [fieldsFrom] at htoken
      split at htoken
      next hc =>
        have hmark : c ∉ "vue@".toList := by
          intro hmem
          have hnone : ∀ c ∈ "vue@".toList, isBlank c = false := by decide
          rw [hnone c hmem] at hc
          cases hc
        have hversion : isVersionChar c = false := isVersionChar_of_isBlank hc
        obtain ⟨hcurrent, hs⟩ := (replaceMarkers_eq_self_iff h.isMarker hmark hversion).1 hs
        split at htoken
        · exact ih [] hs token htoken
        · rcases List.mem_cons.1 htoken with rfl | htoken
          · exact hcurrent
          · exact ih [] hs token htoken
      next =>
        refine ih (c :: current) ?_ token htoken
        rw [List.reverse_cons, List.append_assoc]
        exact hs
  exact hwalk v [] hv token htoken

/-- Canonical classes hold no old markers if the classes do not. -/
theorem replaceMarkers_classText {v : List Char} (hv : p.replaceMarkers v = v) :
    p.replaceMarkers (p.classText v) = p.classText v := by
  refine replaceMarkers_intercalate h fun token htoken => ?_
  rcases mem_canonicalClasses htoken with hfield | ⟨e, he, hfield⟩
  · exact replaceMarkers_of_mem_fields h hv hfield
  · refine replaceMarkers_of_not_mem p fun hmem => ?_
    exact absurd (((h.classes e he).2 token hfield).2 _ hmem) (by decide)

/-- The pass over classes puts in no old markers. -/
theorem Requoted.replaceMarkers_eq {s t : List Char} (hrequoted : Requoted p.classText s t)
    (hs : p.replaceMarkers s = s) : p.replaceMarkers t = t := by
  have hcut : ∀ {x s : List Char}, p.replaceMarkers (x ++ '"' :: s) = x ++ '"' :: s ↔
      p.replaceMarkers x = x ∧ p.replaceMarkers s = s :=
    replaceMarkers_eq_self_iff h.isMarker (by decide) (by decide)
  induction hrequoted with
  | plain => exact hs
  | kept hx hrequoted ih =>
    obtain ⟨hxs, hs⟩ := hcut.1 hs
    exact hcut.2 ⟨hxs, ih hs⟩
  | changed hx hv hrequoted ih =>
    obtain ⟨hxs, hs⟩ := hcut.1 hs
    obtain ⟨hvs, hs⟩ := hcut.1 hs
    exact hcut.2 ⟨hxs, hcut.2 ⟨replaceMarkers_classText h hvs, ih hs⟩⟩

/-- The pass over classes puts in no aliases of variables. -/
theorem Requoted.aliasWords_le {s t : List Char} (hrequoted : Requoted p.classText s t) :
    Rename.aliasWords p.identifierAliases [] t ≤ Rename.aliasWords p.identifierAliases [] s := by
  have hquote : isIdentChar '"' = false := by decide
  induction hrequoted with
  | plain => exact Nat.le_refl _
  | kept hx hrequoted ih =>
    rw [Rename.aliasWords_append_cons hquote, Rename.aliasWords_append_cons hquote]
    omega
  | @changed x v s t hx hv hrequoted ih =>
    have hclasses := aliasWords_canonicalClasses_le h.names h.apart v
    rw [Rename.aliasWords_append_cons hquote, Rename.aliasWords_append_cons hquote,
      Rename.aliasWords_append_cons hquote, Rename.aliasWords_append_cons hquote]
    unfold classText
    omega

/-! ### All passes -/

/-- Markup of which the passes leave every part as it is: the values of directives, the code between
double braces and the lists of classes. -/
structure MarkupKept (p : Policy) (m : List Char) : Prop where
  directives : ∀ a ∈ findAll (quotedAttr directiveName?) m,
    Rename.run p.identifierAliases a.2 = a.2
  interpolations : ∀ code ∈ findAll interpolation m, Rename.run p.identifierAliases code = code
  classes : p.classAliases ≠ [] → ∀ a ∈ findAll (quotedAttr className?) m, p.classText a.2 = a.2

theorem quote_not_mem_run {v : List Char} (hv : '"' ∉ v) :
    '"' ∉ Rename.run p.identifierAliases v := by
  rw [← List.count_eq_zero, h.count_run (by decide), List.count_eq_zero]
  exact hv

/-- A pass over class attributes keeps markup if it keeps each value. -/
theorem renameClasses_eq_self_iff (m : List Char) :
    p.renameClasses m = m ↔
      (p.classAliases ≠ [] → ∀ a ∈ findAll (quotedAttr className?) m, p.classText a.2 = a.2) := by
  unfold renameClasses
  cases hempty : p.classAliases with
  | nil => simp
  | cons e rest =>
    simp only [List.isEmpty_cons, Bool.false_eq_true, if_false, ne_eq, reduceCtorEq,
      not_false_eq_true, true_imp_iff]
    refine replaceAll_quotedAttr_eq_self_iff readsNames_class
      (fun v hv => quote_not_mem_classText ?_ hv) m
    intro e he token htoken hmem
    exact absurd (((h.classes e he).2 token htoken).2 _ hmem) (by decide)

omit h in
/-- The pass over classes changes some values. -/
theorem requoted_renameClasses (m : List Char) :
    Requoted p.classText m (p.renameClasses m) ∨ p.renameClasses m = m := by
  unfold renameClasses
  split
  · exact .inr rfl
  · rw [replaceAll_eq]
    exact .inl (requoted_scanFrom readsNames_class p.classText none m)

/-- Markup without old markers is left as it is exactly if every part of it is. -/
theorem canonicalMarkup_eq_self_iff (hchecked : p.badTarget? = none) {m : List Char}
    (hm : p.replaceMarkers m = m) : p.canonicalMarkup m = m ↔ p.MarkupKept m := by
  obtain ⟨htargets, -⟩ := badTarget?_eq_none_iff.1 hchecked
  have htargets : ∀ e ∈ p.identifierAliases, Assoc.has p.identifierAliases e.2 = false :=
    fun e he => (htargets e he).2
  have hdirectives := replaceAll_quotedAttr_eq_self_iff readsNames_directive
    (fun v hv => quote_not_mem_run h hv) m
  have hinterpolations := replaceAll_interpolation_eq_self_iff h m
  have hclasses := renameClasses_eq_self_iff h m
  unfold canonicalMarkup mapCode
  simp only
  constructor
  · intro hsame
    -- Going around, the number of aliases stays the same, so nothing is renamed.
    have hfirst := Rename.aliasWords_renamed h.names htargets (edited_directives h.names m)
      (fun _ => (rfl : ([] : List Char) = []))
    generalize hbound : replaceAll (quotedAttr directiveName?)
      (fun (lead, value) => lead ++ Rename.run p.identifierAliases value ++ ['"']) m = bound
      at hsame hfirst hdirectives
    have hsecond := Rename.aliasWords_renamed h.names htargets (edited_interpolation h.names bound)
      (fun _ => (rfl : ([] : List Char) = []))
    generalize hcode : replaceAll interpolation (fun code =>
      '\x7b' :: '\x7b' :: Rename.run p.identifierAliases code ++ ['\x7d', '\x7d']) bound = code
      at hsame hsecond
    have hthird : Rename.aliasWords p.identifierAliases [] (p.renameClasses code) ≤
        Rename.aliasWords p.identifierAliases [] code := by
      rcases requoted_renameClasses code with hrequoted | heq
      · exact Requoted.aliasWords_le h hrequoted
      · rw [heq]
    have hlast := h.aliasWords_replaceMarkers (p.renameClasses code)
    rw [hsame] at hlast
    have hbound' : bound = m := hfirst.2 (by omega)
    subst hbound'
    have hcode' : code = bound := hsecond.2 (by omega)
    subst hcode'
    have hkept : p.replaceMarkers (p.renameClasses code) = p.renameClasses code := by
      rcases requoted_renameClasses code with hrequoted | heq
      · exact hrequoted.replaceMarkers_eq h hm
      · rw [heq, hm]
    exact ⟨hdirectives.1 rfl, hinterpolations.1 hcode, hclasses.1 (hkept.symm.trans hsame)⟩
  · intro hsettled
    rw [hdirectives.2 hsettled.directives, hinterpolations.2 hsettled.interpolations,
      hclasses.2 hsettled.classes, hm]

end Passes

end PageCompiler.Policy
