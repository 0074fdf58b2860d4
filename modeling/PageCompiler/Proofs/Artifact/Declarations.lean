import PageCompiler.Proofs.Artifact.References
import PageCompiler.Proofs.Block.Readers
import PageCompiler.Proofs.Document.Reading

/-!
# `PageCompiler.Proofs.Artifact.Declarations`: the declarations that state can start from

An artifact is put together from any fragments, under any strategy and with any registry. What can
stand in the way are the declarations of the data model alone: a map without a default, whose type
is a list or a map and no word, gives no value to start from (`Unkinded`). A property of a section
is never such a map, since a brace behind its key would have opened a block
(`fields?_of_mem_properties`). So assembly fails exactly at the first block of the data model, or
the first member of its container of state, that is declared like this (`assemble_ok_iff_kinded`).
-/

set_option autoImplicit false

namespace PageCompiler

open Text

/-! ### What is assigned is no map -/

namespace Scalar

theorem fields?_of_ofLiteral {l : Decimal.Literal} {v : Value} (h : ofLiteral l = .ok v) :
    v.fields? = none := by
  unfold ofLiteral at h
  split at h
  · split at h
    · cases h
      rfl
    · cases h
  · cases h
    rfl

/-- No scalar is a map. -/
theorem fields?_of_read {s : List Char} {v : Value} (h : read s = .ok v) : v.fields? = none := by
  simp only [read] at h
  split at h
  · cases h
    rfl
  · split at h
    · cases h
      rfl
    · split at h
      · cases h
        rfl
      · split at h
        · exact fields?_of_ofLiteral h
        · cases h
          rfl

end Scalar

namespace Block

theorem trim_cons_of_not_blank {c : Char} (h : isBlank c = false) (s : List Char) :
    ∃ rest, trim (c :: s) = c :: rest := by
  rw [trim, trimLeft, dropWhile_of_head h]
  exact ⟨_, dropRightWhile_append_cons (a := []) h⟩

/-- A value without commas behind it keeps its first character, if anything is left. -/
theorem inlineBody_cons {c : Char} (h : isBlank c = false) (s : List Char) :
    trim (dropRightWhile (· == ',') (trim (c :: s))) = [] ∨
      ∃ rest, trim (dropRightWhile (· == ',') (trim (c :: s))) = c :: rest := by
  obtain ⟨body, hbody⟩ := trim_cons_of_not_blank h s
  obtain ⟨commas, hcommas, -⟩ := exists_dropRightWhile_append (· == ',') (c :: body)
  rw [hbody]
  cases hleft : dropRightWhile (· == ',') (c :: body) with
  | nil => exact .inl rfl
  | cons d left =>
    rw [hleft] at hcommas
    obtain ⟨rfl, -⟩ := List.cons.inj hcommas
    exact .inr (trim_cons_of_not_blank h left)

/-- A value in brackets is a list. -/
theorem fields?_of_readValue {s t : List Char} {v : Value} {rest : Rest s}
    (h : readValue s = .ok (v, rest)) (hs : s = '[' :: t) : v.fields? = none := by
  subst hs
  have hforget : forget (readValue ('[' :: t)) = .ok (v, rest.1) := by rw [h, forget_ok]
  rw [forget_readValue] at hforget
  obtain ⟨p, -, hp⟩ := Failure.map_ok hforget
  rw [← (Prod.mk.inj hp).1]
  rfl

/-- A value that does not start with a brace is no map. -/
theorem fields?_of_readInline {s : List Char} {v : Value} (h : readInline s = .ok v)
    (hblank : ∀ c, s.head? = some c → isBlank c = false) (hbrace : s.head? ≠ some '\x7b') :
    v.fields? = none := by
  cases s with
  | nil => exact Scalar.fields?_of_read (s := []) h
  | cons c s =>
    rcases inlineBody_cons (hblank c rfl) s with hbody | ⟨rest, hbody⟩
    · simp only [readInline, hbody] at h
      exact Scalar.fields?_of_read h
    · cases hopen : (c == '[' || c == '\x7b') with
      | false =>
        rw [readInline_of_scalar hbody hopen] at h
        exact Scalar.fields?_of_read h
      | true =>
        have hc : c = '[' := by
          rcases Bool.or_eq_true_iff.1 hopen with hc | hc
          · exact beq_iff_eq.1 hc
          · exact absurd (congrArg some (beq_iff_eq.1 hc)) hbrace
        subst hc
        simp only [readInline, hbody, hopen, if_true] at h
        -- What is broken inside of the brackets is kept as a text.
        split at h
        · cases h
        · cases h
          rfl
        next hvalue =>
          split at h
          · cases h
            exact fields?_of_readValue hvalue hbody
          · cases h
            rfl

end Block

namespace Reader

/-- What a line assigns is no map: the brace would open a block. -/
theorem fields?_of_assignment {line value : List Char} {key : String} {v : Value}
    (h : classify line = .assignment key value) (hread : Block.readInline value = .ok v) :
    v.fields? = none := by
  have hkey := key?_of_classify_assignment h
  refine Block.fields?_of_readInline hread ?_ ?_
  · unfold key? at hkey
    split at hkey
    · split at hkey
      next value' _ =>
        cases hkey
        intro c hc
        have hhead := List.head?_dropWhile_not isBlank value'
        rw [hc] at hhead
        exact hhead
      · cases hkey
    · cases hkey
  · intro hbrace
    rw [classify_of_key? hkey, if_pos hbrace] at h
    cases h

/-- A change to one section keeps what is said of all properties, if it does so there. -/
theorem properties_modifySection {d : Document} {P : String × Value → Prop} {name : String}
    {f : Section → Section} (h : ∀ s ∈ d.sections, ∀ e ∈ s.properties, P e)
    (hf : ∀ s, (∀ e ∈ s.properties, P e) → ∀ e ∈ (f s).properties, P e) :
    ∀ s ∈ (d.modifySection name f).sections, ∀ e ∈ s.properties, P e := by
  intro s hs
  rcases mem_modifySectionIn hs with hs | rfl
  · exact h s hs
  · apply hf
    cases hfind : d.sections.find? fun s => s.name == name with
    | none => exact fun _ he => absurd he List.not_mem_nil
    | some s => exact h s (List.mem_of_find?_eq_some hfind)

/-- No line and no block adds a map to the properties of a section. -/
theorem ReadTo.fields?_of_mem_properties {done : List (List Char)} {st : State}
    (h : ReadTo done st) :
    ∀ s ∈ st.document.sections, ∀ e ∈ s.properties, e.2.fields? = none := by
  induction h with
  | start => exact nofun
  | line h hsaid heffect ih =>
    generalize hline : classify (trim _) = said at hsaid heffect
    cases heffect with
    | blank hst | comment hst | freeText hst =>
      subst hst
      exact ih
    | heading hst =>
      subst hst
      exact properties_modifySection ih fun _ hs => hs
    | opening hsettle => exact absurd rfl (hsaid _)
    | assignment hread hst =>
      subst hst
      unfold State.assign
      split
      · exact ih
      · refine properties_modifySection ih fun s hs e he => ?_
        rcases Assoc.mem_insert he with rfl | he
        · exact fields?_of_assignment hline hread
        · exact hs e he
  | block h hopening hown hclose ih =>
    obtain ⟨c, -, -, rfl⟩ := close_ok hclose
    refine properties_modifySection ?_ fun _ hs => hs
    exact properties_modifySection ih fun _ hs => hs

end Reader

theorem Document.fields?_of_mem_properties {text : String} {d : Document}
    (h : Document.read text = .ok d) :
    ∀ s ∈ d.sections, ∀ e ∈ s.properties, e.2.fields? = none := by
  obtain ⟨st, hread, rfl⟩ := Document.read_ok_iff.1 h
  exact hread.fields?_of_mem_properties

/-! ### Declarations without a value to start from -/

namespace Assembly

/-- A declaration that state cannot start from: it has no default, and its type is no word. -/
inductive Unkinded : Value → KindError → Prop where
  | list {fields : Fields} {items : List Value} (hdefault : Assoc.get? fields "default" = none)
    (htype : Assoc.get? fields "type" = some (.list items)) : Unkinded (.map fields) .list
  | map {fields members : Fields} (hdefault : Assoc.get? fields "default" = none)
    (htype : Assoc.get? fields "type" = some (.map members)) : Unkinded (.map fields) .map

/-- State can start from every declaration but these. -/
theorem startValue_error_iff {v : Value} {e : KindError} :
    startValue v = .error e ↔ Unkinded v e := by
  constructor
  · intro h
    unfold startValue at h
    split at h
    next fields =>
      split at h
      · cases h
      next hdefault =>
        split at h
        · cases h
        next items htype =>
          cases h
          exact .list hdefault htype
        next members htype =>
          cases h
          exact .map hdefault htype
        · cases h
        · cases h
    · cases h
  · intro h
    cases h with
    | list hdefault htype => simp only [startValue, hdefault, htype]
    | map hdefault htype => simp only [startValue, hdefault, htype]

/-- A declaration that state can start from. -/
def Kinded (v : Value) : Prop :=
  ∀ e, ¬ Unkinded v e

theorem startValue_of_fields? {v : Value} (h : v.fields? = none) : startValue v = .ok v := by
  cases v with
  | map fields => cases h
  | _ => rfl

/-- A declaration with its value to start from. -/
theorem started_eq (entries : Fields) :
    started entries = entries.mapM fun entry => (startValue entry.2).map (entry.1, ·) :=
  rfl

theorem exists_started_iff {entries : Fields} :
    (∃ pairs, started entries = .ok pairs) ↔ ∀ entry ∈ entries, Kinded entry.2 := by
  rw [started_eq, Failure.exists_mapM_ok_iff]
  simp only [Failure.exists_ok_iff, Ne, Failure.map_eq_error_iff, startValue_error_iff, Kinded]

/-- Declarations fail at the first one that state cannot start from. -/
theorem started_error_iff {entries : Fields} {e : KindError} :
    started entries = .error e ↔
      ∃ before name v after, entries = before ++ (name, v) :: after ∧
        (∀ entry ∈ before, Kinded entry.2) ∧ Unkinded v e := by
  simp only [started_eq, Failure.mapM_error_iff, Failure.exists_ok_iff, Ne,
    Failure.map_eq_error_iff, startValue_error_iff, Kinded, Prod.exists]

/-- Values that are no maps are what they start from. -/
theorem started_of_fields? {entries : Fields} (h : ∀ entry ∈ entries, entry.2.fields? = none) :
    started entries = .ok entries := by
  have hok : started entries = .ok (entries.map id) := by
    rw [started_eq]
    refine Failure.mapM_ok fun entry hentry => ?_
    rw [startValue_of_fields? (h entry hentry)]
    rfl
  rw [hok, List.map_id]

/-- What the blocks of the data model declare. -/
def declaredInBlocks (d : Document) : Fields :=
  match d.section? "data_model" with
  | none => []
  | some s => s.components.flatMap blockDeclarations

/-- Only blocks can declare what state cannot start from. -/
theorem declarations_error_iff {d : Document} {e : KindError}
    (h : ∀ s ∈ d.sections, ∀ entry ∈ s.properties, entry.2.fields? = none) :
    declarations d = .error e ↔ started (declaredInBlocks d) = .error e := by
  unfold declarations declaredInBlocks
  cases hsection : d.section? "data_model" with
  | none => exact ⟨nofun, nofun⟩
  | some s =>
    have hown := started_of_fields? (h s (List.mem_of_find?_eq_some hsection))
    simp only [hown]
    exact Failure.map_eq_error_iff

/-- All else that an artifact is put together from cannot fail. -/
theorem assemble_error_iff {d : Document} {fragments : List Fragment} {strategy : Strategy}
    {degraded : Bool} {unresolved : List String} {r : Registry} {givenMethods givenStyle : String}
    {e : KindError} :
    Artifact.assemble d fragments strategy degraded unresolved r givenMethods givenStyle =
      .error e ↔ declarations d = .error e := by
  simp only [Artifact.assemble, script_eq, bind_assoc, pure_bind]
  exact Failure.map_eq_error_iff

/-- The document of a text is put together with any fragments, under any strategy and with any
registry, exactly if state can start from each of the declarations in the blocks of its data model.
Otherwise the first that it cannot start from is what is reported. -/
theorem assemble_ok_iff_kinded {text : String} {d : Document} (h : Document.read text = .ok d)
    (fragments : List Fragment) (strategy : Strategy) (degraded : Bool) (unresolved : List String)
    (r : Registry) (givenMethods givenStyle : String) :
    let assembled :=
      Artifact.assemble d fragments strategy degraded unresolved r givenMethods givenStyle
    ((∃ a, assembled = .ok a) ↔ ∀ entry ∈ declaredInBlocks d, Kinded entry.2) ∧
      ∀ e, assembled = .error e ↔
        ∃ before name v after, declaredInBlocks d = before ++ (name, v) :: after ∧
          (∀ entry ∈ before, Kinded entry.2) ∧ Unkinded v e := by
  intro assembled
  have herror : ∀ e, assembled = .error e ↔ started (declaredInBlocks d) = .error e := by
    intro e
    rw [assemble_error_iff, declarations_error_iff (Document.fields?_of_mem_properties h)]
  constructor
  · rw [← exists_started_iff, Failure.exists_ok_iff, Failure.exists_ok_iff]
    exact forall_congr' fun e => not_congr (herror e)
  · intro e
    rw [herror, started_error_iff]

/-- A list in the place of a type stops assembly, and does not if there is a default as well. -/
theorem assemble_ok_iff_kinded_listType :
    (∃ d, Document.read "## Data Model\nitems: \x7b\n  type: [a]\n\x7d\n## UI Components\n" =
        .ok d ∧
      Artifact.assemble d [] .automatic false [] Registry.standard "" "" = .error .list) ∧
    ∃ d, Document.read "## Data Model\nitems: \x7b\n  type: [a]\n  default: 3\n\x7d\n" = .ok d ∧
      ∃ a, Artifact.assemble d [] .automatic false [] Registry.standard "" "" = .ok a := by
  constructor
  · obtain ⟨d, hd, hlist⟩ := Failure.exists_ok
      (x := Document.read "## Data Model\nitems: \x7b\n  type: [a]\n\x7d\n## UI Components\n")
      (fun d => match started (declaredInBlocks d) with
        | .error e => e == .list
        | .ok _ => false) (by decide +kernel)
    refine ⟨d, hd, ((assemble_ok_iff_kinded hd [] _ _ _ _ _ _).2 .list).2 ?_⟩
    rw [← started_error_iff]
    cases hstarted : started (declaredInBlocks d) with
    | error e =>
      rw [hstarted] at hlist
      rw [beq_iff_eq.1 hlist]
    | ok pairs =>
      rw [hstarted] at hlist
      cases hlist
  · obtain ⟨d, hd, hok⟩ := Failure.exists_ok
      (x := Document.read "## Data Model\nitems: \x7b\n  type: [a]\n  default: 3\n\x7d\n")
      (fun d => (started (declaredInBlocks d)).toOption.any fun _ => true) (by decide +kernel)
    obtain ⟨pairs, hpairs, -⟩ := Failure.exists_ok _ hok
    refine ⟨d, hd, (assemble_ok_iff_kinded hd [] _ _ _ _ _ _).1.2 ?_⟩
    exact exists_started_iff.1 ⟨pairs, hpairs⟩

end Assembly

end PageCompiler
