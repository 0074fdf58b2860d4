import PageCompiler.Proofs.Policy.Merging
import PageCompiler.Proofs.Policy.Plain
import PageCompiler.Proofs.Policy.Script

/-!
# `PageCompiler.Proofs.Policy.Stable.Script`: a script that a policy leaves as it is

A policy renames in a script, replaces its markers, removes its headers and puts one in front.
`canonicalScript_eq_self_iff` says when the second application of a policy changes nothing: no alias
is left in the code, and the header in front is the only one. Removing a header can break both, for
it moves what stands behind the header to the start of a line, and it may take a quote away.
-/

set_option autoImplicit false

namespace PageCompiler.Policy

open Text Directive

/-! ### Removing headers -/

/-- A text without its headers, behind a character. -/
def unheaded (before : Option Char) (s : List Char) : List Char :=
  scanFrom header (putFound fun _ => []) before s

/-- The headers of a text, behind a character. -/
def headers (before : Option Char) (s : List Char) : List Unit :=
  scanFrom header keepFound before s

/-- A text has a header at its start, or none up to the end of its first line. -/
theorem header_cases (before : Option Char) (s : List Char) :
    (∃ m d rest, s = m ++ d :: rest ∧ '/' ∈ m ∧ d ∈ ['/', ' ', '\t', '\n'] ∧
      unheaded before s = unheaded (some d) rest ∧ headers before s = () :: headers (some d) rest) ∨
    (unheaded before s = s ∧ headers before s = []) ∨
    ∃ l rest, s = l ++ '\n' :: rest ∧ unheaded before s = l ++ '\n' :: unheaded (some '\n') rest ∧
      headers before s = headers (some '\n') rest := by
  unfold unheaded headers
  cases hheader : header before s with
  | some found =>
    obtain ⟨⟨⟩, rest⟩ := found
    obtain ⟨m, d, rfl, hm, hd⟩ := header_eq_some hheader
    refine .inl ⟨m, d, rest, rfl, hm, hd, ?_⟩
    have hsplit : m ++ d :: rest = (m ++ [d]) ++ rest := by simp
    rw [hsplit] at hheader ⊢
    rw [scanFrom_found (by simp) hheader, scanFrom_found (by simp) hheader, behind_append]
    exact ⟨rfl, rfl⟩
  | none =>
    right
    obtain ⟨l, rest, rfl, hl, hrest⟩ := exists_run (· != '\n') s
    have hfeed : '\n' ∉ l := fun hmem => absurd (hl _ hmem) (by decide)
    have hdull : Dull header before l rest := by
      cases l with
      | nil => exact dull_nil
      | cons c l =>
        obtain ⟨hc, hfeed⟩ := not_or.1 (mt List.mem_cons.2 hfeed)
        refine dull_cons.2 ⟨hheader, lineWise_header.dull ?_ hfeed rest⟩
        simpa [atLineStart] using Ne.symm hc
    rw [scanFrom_dull hdull, scanFrom_dull hdull, flatMap_putFound, flatMap_keepFound,
      List.nil_append]
    cases rest with
    | nil =>
      left
      rw [scanFrom_nil (header_nil _), scanFrom_nil (header_nil _)]
      exact ⟨rfl, rfl⟩
    | cons c rest =>
      right
      rw [followedBy_cons, bne_eq_false_iff_eq] at hrest
      subst hrest
      rw [scanFrom_plain (header_lineFeed _ _), scanFrom_plain (header_lineFeed _ _)]
      exact ⟨l, rest, rfl, rfl, rfl⟩

/-- Removing headers takes slashes away, unless there are no headers. -/
theorem count_unheaded (before : Option Char) (s : List Char) :
    (unheaded before s).count '/' ≤ s.count '/' ∧
      ((unheaded before s).count '/' = s.count '/' → headers before s = []) ∧
      (headers before s = [] → unheaded before s = s) := by
  induction hn : s.length using Nat.strongRecOn generalizing s before with
  | ind n ih =>
    subst hn
    rcases header_cases before s with ⟨m, d, rest, rfl, hm, -, hbody, hheaders⟩ |
      ⟨hbody, hheaders⟩ | ⟨l, rest, rfl, hbody, hheaders⟩
    · rw [hbody, hheaders]
      have hlength : rest.length < (m ++ d :: rest).length := by
        simp only [List.length_append, List.length_cons]
        omega
      obtain ⟨hle, -, -⟩ := ih _ hlength (some d) rest rfl
      have hslash : 0 < m.count '/' := List.count_pos_iff.2 hm
      have hmore : (unheaded (some d) rest).count '/' < (m ++ d :: rest).count '/' := by
        rw [List.count_append, List.count_cons]
        omega
      exact ⟨Nat.le_of_lt hmore, fun hsame => absurd hsame (Nat.ne_of_lt hmore), by simp⟩
    · rw [hbody, hheaders]
      exact ⟨Nat.le_refl _, fun _ => rfl, fun _ => rfl⟩
    · rw [hbody, hheaders]
      have hlength : rest.length < (l ++ '\n' :: rest).length := by
        simp only [List.length_append, List.length_cons]
        omega
      obtain ⟨hle, hsame, hnone⟩ := ih _ hlength (some '\n') rest rfl
      simp only [List.count_append, List.count_cons]
      refine ⟨by omega, fun heq => hsame (by omega), fun hempty => ?_⟩
      rw [hnone hempty]

section Marked

variable {p : Policy} (hmarker : IsMarker p.runtimeMarker.toList)

include hmarker

/-- Removing headers puts no markers together. -/
theorem replaceMarkers_unheaded (before : Option Char) {s : List Char}
    (hs : p.replaceMarkers s = s) :
    p.replaceMarkers (unheaded before s) = unheaded before s := by
  have hends : ∀ d ∈ ['/', ' ', '\t', '\n'], d ∉ "vue@".toList ∧ isVersionChar d = false := by
    decide
  induction hn : s.length using Nat.strongRecOn generalizing s before with
  | ind n ih =>
    subst hn
    rcases header_cases before s with ⟨m, d, rest, rfl, -, hd, hbody, -⟩ | ⟨hbody, -⟩ |
      ⟨l, rest, rfl, hbody, -⟩
    · obtain ⟨hd, hversion⟩ := hends d hd
      obtain ⟨-, hrest⟩ := (replaceMarkers_eq_self_iff hmarker hd hversion).1 hs
      rw [hbody]
      refine ih _ ?_ (some d) hrest rfl
      simp only [List.length_append, List.length_cons]
      omega
    · rw [hbody, hs]
    · have hcut : ∀ {x s : List Char}, p.replaceMarkers (x ++ '\n' :: s) = x ++ '\n' :: s ↔
          p.replaceMarkers x = x ∧ p.replaceMarkers s = s :=
        replaceMarkers_eq_self_iff hmarker (by decide) (by decide)
      obtain ⟨hl, hrest⟩ := hcut.1 hs
      rw [hbody]
      refine hcut.2 ⟨hl, ih _ ?_ (some '\n') hrest rfl⟩
      simp only [List.length_append, List.length_cons]
      omega

/-- Line feeds at the start may go. -/
theorem replaceMarkers_dropWhile {s : List Char} (hs : p.replaceMarkers s = s) :
    p.replaceMarkers (s.dropWhile (· == '\n')) = s.dropWhile (· == '\n') := by
  induction s with
  | nil => rfl
  | cons c s ih =>
    rw [List.dropWhile_cons]
    split
    next hc =>
      obtain rfl := beq_iff_eq.1 hc
      exact ih ((replaceMarkers_eq_self_iff hmarker (x := []) (by decide) (by decide)).1 hs).2
    next => exact hs

theorem star_not_mem_marker : '*' ∉ p.runtimeMarker.toList := by
  obtain ⟨version, -, hversion, hm⟩ := hmarker
  rw [hm, List.mem_append, not_or]
  exact ⟨by decide, fun hmem => absurd (hversion _ hmem) (by decide)⟩

/-- The header of a policy holds the marker of the policy. -/
theorem replaceMarkers_runtimeHeader :
    p.replaceMarkers (Artifact.runtimeHeader p.runtimeMarker).toList =
      (Artifact.runtimeHeader p.runtimeMarker).toList := by
  have hkept : p.replaceMarkers p.runtimeMarker.toList = p.runtimeMarker.toList := by
    obtain ⟨version, hne, hversion, hm⟩ := hmarker
    have hself := replaceMarkers_marker p hne hversion (followedBy_nil _)
    rw [List.append_nil, replaceMarkers_nil, List.append_nil, ← hm] at hself
    exact hself
  have hcut : ∀ {x s : List Char}, p.replaceMarkers (x ++ ' ' :: s) = x ++ ' ' :: s ↔
      p.replaceMarkers x = x ∧ p.replaceMarkers s = s :=
    replaceMarkers_eq_self_iff hmarker (by decide) (by decide)
  have htext : (Artifact.runtimeHeader p.runtimeMarker).toList =
      "/* runtime:".toList ++ ' ' :: (p.runtimeMarker.toList ++ ' ' :: "*/".toList) := by
    simp [Artifact.runtimeHeader, String.toList_append]
  rw [htext]
  exact hcut.2 ⟨replaceMarkers_of_not_mem p (by decide),
    hcut.2 ⟨hkept, replaceMarkers_of_not_mem p (by decide)⟩⟩

/-! ### A script with a header in front -/

/-- The script with a header in front of a text. -/
def headed (p : Policy) (body : List Char) : List Char :=
  (Artifact.runtimeHeader p.runtimeMarker).toList ++ '\n' :: body

theorem replaceMarkers_headed (body : List Char) :
    p.replaceMarkers (p.headed body) = p.headed (p.replaceMarkers body) := by
  rw [headed, replaceMarkers_append, replaceMarkers_runtimeHeader hmarker, headed]

/-- A walk over the headers of a script passes the first. -/
theorem scanFrom_headed {β : Type} (g : Piece Unit → List β) (body : List Char) :
    scanFrom header g none (p.headed body) =
      g (.found ()) ++ scanFrom header g (some '\n') body := by
  have hfound := header_runtimeHeader (star_not_mem_marker hmarker) body
  have hsplit : p.headed body =
      ((Artifact.runtimeHeader p.runtimeMarker).toList ++ ['\n']) ++ body := by
    rw [headed, List.append_assoc, List.singleton_append]
  rw [← headed, hsplit] at hfound
  rw [hsplit, scanFrom_found (by simp) hfound, behind_append]
  rfl

/-- The headers of a script with a header in front. -/
theorem findAll_header_headed (body : List Char) :
    findAll header (p.headed body) = () :: headers (some '\n') body := by
  rw [findAll_eq, scanFrom_headed hmarker]
  rfl

/-- A canonical script has a header and a body, which starts with no line feed and holds no old
marker. -/
theorem exists_body (s : List Char) :
    ∃ body, p.canonicalScript s = p.headed body ∧ p.replaceMarkers body = body ∧
      body.dropWhile (· == '\n') = body := by
  have hidem : ∀ z : List Char,
      (z.dropWhile (· == '\n')).dropWhile (· == '\n') = z.dropWhile (· == '\n') := by
    intro z
    obtain ⟨run, rest, rfl, hrun, hrest⟩ := exists_run (· == '\n') z
    rw [dropWhile_run hrun hrest]
    exact dropWhile_run (List.forall_mem_nil _) hrest
  refine ⟨_, rfl, replaceMarkers_dropWhile hmarker ?_, hidem _⟩
  rw [replaceAll_eq]
  exact replaceMarkers_unheaded hmarker none (replaceMarkers_idem hmarker _)

end Marked

/-! ### Applying a policy to its own script -/

section Plain

variable {p : Policy} (h : p.Plain)

include h

theorem run_headed (body : List Char) :
    Rename.run p.identifierAliases (p.headed body) =
      p.headed (Rename.run p.identifierAliases body) :=
  run_runtimeHeader h.names (star_not_mem_marker h.isMarker) body

/-- Behind its header a policy goes on with the body. -/
theorem canonicalScript_headed (body : List Char) :
    p.canonicalScript (p.headed body) = p.headed ((unheaded (some '\n')
      (p.replaceMarkers (Rename.run p.identifierAliases body))).dropWhile (· == '\n')) := by
  rw [canonicalScript, run_headed h, withHeader, replaceMarkers_headed h.isMarker, replaceAll_eq,
    scanFrom_headed h.isMarker]
  rfl

omit h in
/-- As long as no line feed goes, a text starts with none. -/
theorem dropWhile_eq_self_of_count {s : List Char}
    (hcount : (s.dropWhile (· == '\n')).count '\n' = s.count '\n') :
    s.dropWhile (· == '\n') = s := by
  cases s with
  | nil => rfl
  | cons c s =>
    rw [List.dropWhile_cons] at hcount ⊢
    split at hcount
    next hc =>
      have hle : (s.dropWhile (· == '\n')).count '\n' ≤ s.count '\n' :=
        (List.dropWhile_sublist _).count_le _
      rw [List.count_cons, if_pos hc] at hcount
      omega
    next hc => rw [if_neg hc]

/-- The policy leaves a script that it made as it is exactly if no alias is left in the code and no
header but the first. -/
theorem canonicalScript_eq_self_iff (hchecked : p.badTarget? = none) {s script : List Char}
    (hscript : script = p.canonicalScript s) :
    p.canonicalScript script = script ↔
      Rename.run p.identifierAliases script = script ∧ (findAll header script).length = 1 := by
  obtain ⟨body, hbody, hmarkers, hstart⟩ := exists_body h.isMarker s
  rw [hscript, hbody, canonicalScript_headed h, findAll_header_headed h.isMarker, List.length_cons,
    Nat.add_eq_right, List.length_eq_zero_iff]
  have hinj : ∀ {x y : List Char}, p.headed x = p.headed y ↔ x = y := by
    intro x y
    rw [headed, headed, List.append_cancel_left_eq, List.cons_inj_right]
  rw [run_headed h, hinj, hinj]
  have hslashes : (p.replaceMarkers (Rename.run p.identifierAliases body)).count '/' =
      body.count '/' := by
    rw [count_replaceMarkers h.isMarker (by decide) (by decide), h.count_run (by decide)]
  have hfeeds : (p.replaceMarkers (Rename.run p.identifierAliases body)).count '\n' =
      body.count '\n' := by
    rw [count_replaceMarkers h.isMarker (by decide) (by decide), h.count_run (by decide)]
  obtain ⟨hle, hnone, hkept⟩ :=
    count_unheaded (some '\n') (p.replaceMarkers (Rename.run p.identifierAliases body))
  constructor
  · intro hsame
    -- All slashes are still there, so no header was removed, and all line feeds.
    have hdrop := (List.dropWhile_sublist (l := unheaded (some '\n')
      (p.replaceMarkers (Rename.run p.identifierAliases body))) (· == '\n')).count_le '/'
    rw [hsame] at hdrop
    have hheaders := hnone (by omega)
    rw [hkept hheaders] at hsame
    have hfeed := dropWhile_eq_self_of_count (by rw [hsame, hfeeds])
    rw [hfeed] at hsame
    -- So nothing but names and markers can have changed, and the aliases are as many as before.
    obtain ⟨htargets, -⟩ := badTarget?_eq_none_iff.1 hchecked
    have hwords := Rename.aliasWords_renamed h.names (fun e he => (htargets e he).2)
      (@edited_run _ h.names body none (by simp [precededBy]))
      (fun _ => (rfl : ([] : List Char) = []))
    have hmarked := h.aliasWords_replaceMarkers (Rename.run p.identifierAliases body)
    rw [hsame] at hmarked hheaders
    exact ⟨hwords.2 (by omega), hheaders⟩
  · rintro ⟨hnames, hheaders⟩
    rw [hnames, hmarkers] at hkept ⊢
    rw [hkept hheaders, hstart]

end Plain

end PageCompiler.Policy
