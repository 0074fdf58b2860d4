import PageCompiler.Proofs.Policy.Edits

/-!
# `PageCompiler.Proofs.Policy.Marker`: runtime markers

A marker is the name of the runtime, a sign and a version, which goes as far as it can. Replacing
markers can be done piece by piece wherever a character stands that no marker holds
(`replaceMarkers_append_cons`). Done twice it is the same as done once (`replaceMarkers_idem`): a
new marker stands where one stood before, and none arises anywhere else.
-/

set_option autoImplicit false

namespace PageCompiler.Policy

open Text

/-- A text that is a marker as a whole. -/
def IsMarker (m : List Char) : Prop :=
  ∃ version, version ≠ [] ∧ (∀ c ∈ version, isVersionChar c = true) ∧ m = "vue@".toList ++ version

/-- Such a text is found as a whole. -/
theorem isMarker_iff {m : List Char} : IsMarker m ↔ marker none m = some ((), []) := by
  rw [marker_eq_some_iff]
  simp only [followedBy_nil, List.append_nil, true_and]
  rfl

instance (m : List Char) : Decidable (IsMarker m) :=
  decidable_of_iff _ isMarker_iff.symm

theorem isVersionChar_of_isBlank {c : Char} (h : isBlank c = true) : isVersionChar c = false := by
  rw [isVersionChar, isWord_of_isBlank h, Bool.false_or, Bool.or_eq_false_iff, beq_eq_false_iff_ne,
    beq_eq_false_iff_ne]
  refine ⟨?_, ?_⟩
  · rintro rfl
    exact absurd h (by decide)
  · rintro rfl
    exact absurd h (by decide)

/-- Markers start with one letter. -/
theorem marker_cons_ne {before : Option Char} {c : Char} {s : List Char} (hc : c ≠ 'v') :
    marker before (c :: s) = none := by
  rw [marker, show "vue@".toList = 'v' :: "ue@".toList from rfl, after?_cons_ne _ _ hc]
  rfl

/-- A marker does not go beyond a character that no marker holds. -/
theorem marker_append_stop {d : Char} (hd : d ∉ "vue@".toList) (hversion : isVersionChar d = false)
    (before : Option Char) (x s : List Char) :
    marker before (x ++ d :: s) = (marker before x).map fun (a, rest) => (a, rest ++ d :: s) := by
  rw [marker, marker, after?_append_stop hd x s]
  cases after? "vue@".toList x with
  | none => rfl
  | some t =>
    simp only [Option.map_some, Option.bind_eq_bind, Option.bind_some]
    rw [span1?_append_stop hversion t s]
    cases span1? isVersionChar t with
    | none => rfl
    | some found => rfl

/-- A text is made of markers and of characters at which no marker starts. -/
theorem marker_induction {P : List Char → Prop} (nil : P [])
    (found : ∀ version rest, version ≠ [] → (∀ c ∈ version, isVersionChar c = true) →
      followedBy isVersionChar rest = false → P rest → P ("vue@".toList ++ (version ++ rest)))
    (plain : ∀ c s, marker none (c :: s) = none → P s → P (c :: s)) (s : List Char) : P s := by
  refine found_induction (r := marker) ?_ nil ?_ plain s
  · intro s a rest h
    obtain ⟨version, -, -, -, rfl⟩ := marker_eq_some_iff.1 h
    exact ⟨"vue@".toList ++ version, by simp, (List.append_assoc _ _ _).symm⟩
  · intro s a rest h ih
    obtain ⟨version, hne, hversion, hrest, rfl⟩ := marker_eq_some_iff.1 h
    exact found version rest hne hversion hrest ih

section Replace

variable (p : Policy)

@[simp] theorem replaceMarkers_nil : p.replaceMarkers [] = [] := rfl

/-- A marker is replaced as a whole. -/
theorem replaceMarkers_marker {version rest : List Char} (hne : version ≠ [])
    (hversion : ∀ c ∈ version, isVersionChar c = true)
    (hrest : followedBy isVersionChar rest = false) :
    p.replaceMarkers ("vue@".toList ++ (version ++ rest)) =
      p.runtimeMarker.toList ++ p.replaceMarkers rest := by
  have hfound : marker none (("vue@".toList ++ version) ++ rest) = some ((), rest) :=
    marker_eq_some_iff.2 ⟨version, hne, hversion, hrest, List.append_assoc _ _ _⟩
  rw [← List.append_assoc]
  exact replaceAll_found (fun _ _ _ => rfl) (by simp) hfound

theorem replaceMarkers_plain {c : Char} {s : List Char} (h : marker none (c :: s) = none) :
    p.replaceMarkers (c :: s) = c :: p.replaceMarkers s :=
  replaceAll_plain (fun _ _ _ => rfl) h

/-- Without the sign of a marker nothing is replaced. -/
theorem replaceMarkers_of_not_mem {s : List Char} (h : '@' ∉ s) : p.replaceMarkers s = s := by
  induction s using marker_induction with
  | nil => rfl
  | found version rest => exact absurd (List.mem_append_left _ (by decide)) h
  | plain c s hc ih => rw [replaceMarkers_plain p hc, ih (mt (List.mem_cons_of_mem c) h)]

/-- Markers are replaced on both sides of a character that no marker holds. -/
theorem replaceMarkers_append_cons {d : Char} (hd : d ∉ "vue@".toList)
    (hversion : isVersionChar d = false) (x s : List Char) :
    p.replaceMarkers (x ++ d :: s) = p.replaceMarkers x ++ d :: p.replaceMarkers s := by
  have hmove : ∀ {before x a rest}, marker before x = some (a, rest) →
      ∃ m, m ≠ [] ∧ x = m ++ rest := by
    intro before x a rest hfound
    obtain ⟨version, -, -, -, rfl⟩ := marker_eq_some_iff.1 hfound
    exact ⟨"vue@".toList ++ version, by simp, (List.append_assoc _ _ _).symm⟩
  rw [replaceMarkers, replaceMarkers, replaceMarkers, replaceAll_eq, replaceAll_eq, replaceAll_eq,
    scanFrom_stop (fun _ => rfl) (marker_append_stop hd hversion) hmove,
    scanFrom_behind (fun _ _ _ => rfl) (some d) none]
  rfl

end Replace

/-! ### Replacing markers twice -/

section Twice

variable {p : Policy} (hmarker : IsMarker p.runtimeMarker.toList)

include hmarker

/-- A text starts as it did. -/
theorem head?_replaceMarkers (s : List Char) : (p.replaceMarkers s).head? = s.head? := by
  induction s using marker_induction with
  | nil => rfl
  | found version rest hne hversion hrest ih =>
    obtain ⟨version', -, -, hm⟩ := hmarker
    rw [replaceMarkers_marker p hne hversion hrest, hm]
    rfl
  | plain c s hc ih =>
    rw [replaceMarkers_plain p hc]
    rfl

theorem followedBy_replaceMarkers (q : Char → Bool) (s : List Char) :
    followedBy q (p.replaceMarkers s) = followedBy q s := by
  have hhead := head?_replaceMarkers hmarker s
  cases s with
  | nil => rfl
  | cons c s =>
    obtain ⟨t, ht⟩ := List.head?_eq_some_iff.1 hhead
    rw [ht]
    rfl

/-- A character at which no marker starts comes from itself. -/
theorem exists_of_replaceMarkers_cons {d : Char} {s t : List Char} (hd : d ≠ 'v')
    (h : p.replaceMarkers s = d :: t) : ∃ s', s = d :: s' ∧ t = p.replaceMarkers s' := by
  have hhead := head?_replaceMarkers hmarker s
  rw [h] at hhead
  obtain ⟨s', rfl⟩ := List.head?_eq_some_iff.1 hhead.symm
  rw [replaceMarkers_plain p (marker_cons_ne hd)] at h
  exact ⟨s', rfl, (List.cons.inj h).2.symm⟩

/-- Where no marker starts, none does once the markers behind are replaced. -/
theorem marker_replaceMarkers {c : Char} {s : List Char} (h : marker none (c :: s) = none) :
    marker none (c :: p.replaceMarkers s) = none := by
  by_contra hsome
  obtain ⟨answer, hsome⟩ := Option.ne_none_iff_exists'.1 hsome
  obtain ⟨version, hne, hversion, hrest, hs⟩ := marker_eq_some_iff.1 hsome
  have hs : c :: p.replaceMarkers s = 'v' :: 'u' :: 'e' :: '@' :: (version ++ answer.2) := hs
  obtain ⟨rfl, htail⟩ := List.cons.inj hs
  obtain ⟨s₁, rfl, h₁⟩ := exists_of_replaceMarkers_cons hmarker (by decide) htail
  obtain ⟨s₂, rfl, h₂⟩ := exists_of_replaceMarkers_cons hmarker (by decide) h₁.symm
  obtain ⟨s₃, rfl, h₃⟩ := exists_of_replaceMarkers_cons hmarker (by decide) h₂.symm
  -- What follows the sign starts with a character of a version, now and before.
  have hfollowed : followedBy isVersionChar s₃ = true := by
    rw [← followedBy_replaceMarkers hmarker, ← h₃]
    obtain ⟨d, version, rfl⟩ := List.exists_cons_of_ne_nil hne
    exact hversion d (by simp)
  obtain ⟨run, rest, rfl, hrun, hend⟩ := exists_run isVersionChar s₃
  have hrunNe : run ≠ [] := by
    rintro rfl
    rw [List.nil_append, hend] at hfollowed
    cases hfollowed
  have hfound : marker none ('v' :: 'u' :: 'e' :: '@' :: (run ++ rest)) = some ((), rest) :=
    marker_eq_some_iff.2 ⟨run, hrunNe, hrun, hend, rfl⟩
  rw [hfound] at h
  cases h

/-- Markers that are replaced stay as they are. -/
theorem replaceMarkers_idem (s : List Char) :
    p.replaceMarkers (p.replaceMarkers s) = p.replaceMarkers s := by
  induction s using marker_induction with
  | nil => rfl
  | found version rest hne hversion hrest ih =>
    obtain ⟨version', hne', hversion', hm⟩ := id hmarker
    have hend : followedBy isVersionChar (p.replaceMarkers rest) = false := by
      rw [followedBy_replaceMarkers hmarker, hrest]
    rw [replaceMarkers_marker p hne hversion hrest, hm, List.append_assoc,
      replaceMarkers_marker p hne' hversion' hend, ih, hm, List.append_assoc]
  | plain c s hc ih =>
    rw [replaceMarkers_plain p hc, replaceMarkers_plain p (marker_replaceMarkers hmarker hc), ih]

/-- Markers neither take nor put in a character that no marker holds. -/
theorem count_replaceMarkers {d : Char} (hd : d ∉ "vue@".toList)
    (hversion : isVersionChar d = false) (s : List Char) :
    (p.replaceMarkers s).count d = s.count d := by
  have hnot : ∀ {version : List Char}, (∀ c ∈ version, isVersionChar c = true) →
      d ∉ "vue@".toList ++ version := by
    intro version hall hmem
    rcases List.mem_append.1 hmem with hmem | hmem
    · exact hd hmem
    · rw [hall d hmem] at hversion
      cases hversion
  obtain ⟨version, -, hall, hm⟩ := hmarker
  refine (edited_replaceMarkers p s).count_eq ?_
  rintro before old new rest ⟨rfl, version', rfl, hall'⟩
  rw [hm]
  exact ⟨hnot hall', hnot hall⟩

/-- Where all markers are replaced on both sides of a character that no marker holds. -/
theorem replaceMarkers_eq_self_iff {d : Char} (hd : d ∉ "vue@".toList)
    (hversion : isVersionChar d = false) {x s : List Char} :
    p.replaceMarkers (x ++ d :: s) = x ++ d :: s ↔
      p.replaceMarkers x = x ∧ p.replaceMarkers s = s := by
  rw [replaceMarkers_append_cons p hd hversion]
  constructor
  · exact append_cons_inj_of_count (count_replaceMarkers hmarker hd hversion x)
  · rintro ⟨hx, hs⟩
    rw [hx, hs]

end Twice

end PageCompiler.Policy
