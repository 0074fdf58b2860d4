import PageCompiler.CommandLine.Disk
import PageCompiler.Proofs.Failure

/-!
# `PageCompiler.Proofs.CommandLine.Disk`: where paths lead

A path leads to one location, its `destination`, if it can be followed at all. Whether it can
depends only on which locations are directories (`walk_mono`). `Reaches` says that a path can be
followed to a directory. Then the paths to the files in it can be followed too
(`Reaches.locate_child`).

Making directories takes nothing away: where something was, it stays, and what is new is a directory
(`grows_makeDirectories`).
-/

set_option autoImplicit false

namespace PageCompiler.Disk

/-! ### Nodes -/

/-- The content of the file at a location. -/
def content? (d : Disk) (l : Location) : Option (List UInt8) :=
  match d.node? l with
  | some (.file content) => some content
  | _ => none

theorem node?_nil (d : Disk) : d.node? [] = some .directory := rfl

theorem node?_of_ne_nil (d : Disk) {l : Location} (hl : l ≠ []) :
    d.node? l = (d.entries.find? fun entry => entry.1 == l).map (·.2) := by
  rw [node?, if_neg (by simpa using hl)]

/-- Erasing changes one location. -/
theorem node?_erase (d : Disk) {l : Location} (hl : l ≠ []) (l' : Location) :
    (d.erase l).node? l' = if l' = l then none else d.node? l' := by
  by_cases hnil : l' = []
  · rw [hnil, if_neg (Ne.symm hl), node?_nil, node?_nil]
  · rw [node?_of_ne_nil _ hnil, node?_of_ne_nil _ hnil, erase, List.find?_filter]
    by_cases heq : l' = l
    · simp [heq]
    · rw [if_neg heq]
      congr 2
      funext entry
      by_cases hentry : entry.1 = l'
      · simp [hentry, heq]
      · simp [hentry]

/-- Putting changes one location. -/
theorem node?_put (d : Disk) {l : Location} (hl : l ≠ []) (n : Node) (l' : Location) :
    (d.put l n).node? l' = if l' = l then some n else d.node? l' := by
  by_cases hnil : l' = []
  · rw [hnil, if_neg (Ne.symm hl), node?_nil, node?_nil]
  · have herase := d.node?_erase hl l'
    rw [node?_of_ne_nil _ hnil] at herase
    rw [node?_of_ne_nil _ hnil, put, List.find?_cons]
    by_cases heq : l' = l
    · simp [heq]
    · rw [if_neg heq] at herase ⊢
      rw [beq_false_of_ne (Ne.symm heq)]
      exact herase

/-! ### Following paths -/

/-- Where steps lead from a location on. -/
def resolve (here : Location) : List String → Location
  | [] => here
  | step :: rest =>
    if step == ".." then resolve here.dropLast rest else resolve (here ++ [step]) rest

/-- Where a path starts. -/
def origin (d : Disk) (p : Path) : Location :=
  if p.absolute then [] else d.workingDirectory

/-- The location to which a path leads if it can be followed. -/
def destination (d : Disk) (p : Path) : Location :=
  resolve (d.origin p) p.parts

theorem destination_congr {d d' : Disk} (h : d'.workingDirectory = d.workingDirectory) (p : Path) :
    d'.destination p = d.destination p := by
  rw [destination, destination, origin, origin, h]

theorem resolve_append (here : Location) (s t : List String) :
    resolve here (s ++ t) = resolve (resolve here s) t := by
  induction s generalizing here with
  | nil => rfl
  | cons step s ih =>
    rw [List.cons_append, resolve, resolve]
    split
    · exact ih _
    · exact ih _

/-- A path is followed piece by piece. -/
theorem walk_append (d : Disk) (here : Location) (s t : List String) :
    d.walk here (s ++ t) = d.walk here s >>= fun l => d.walk l t := by
  induction s generalizing here with
  | nil => rfl
  | cons step s ih =>
    rw [List.cons_append, walk, walk]
    cases d.node? here with
    | none => rfl
    | some n =>
      cases n with
      | file content => rfl
      | directory =>
        simp only
        split
        · exact ih _
        · split
          · rfl
          · exact ih _

/-- Steps that can be followed lead to where they resolve. -/
theorem eq_resolve_of_walk {d : Disk} {here l : Location} {steps : List String}
    (h : d.walk here steps = .ok l) : l = resolve here steps := by
  induction steps generalizing here with
  | nil => exact (Except.ok.inj h).symm
  | cons step steps ih =>
    rw [walk] at h
    rw [resolve]
    split at h
    · cases h
    · cases h
    · split at h
      next hup =>
        rw [if_pos hup]
        exact ih h
      next hup =>
        rw [if_neg hup]
        split at h
        · cases h
        · exact ih h

/-- Steps can still be followed as long as no directory is lost. -/
theorem walk_mono {d d' : Disk}
    (hdirs : ∀ l, d.node? l = some .directory → d'.node? l = some .directory) {here l : Location}
    {steps : List String} (h : d.walk here steps = .ok l) : d'.walk here steps = .ok l := by
  induction steps generalizing here with
  | nil => exact h
  | cons step steps ih =>
    rw [walk] at h ⊢
    split at h
    · cases h
    · cases h
    next hhere =>
      rw [hdirs here hhere]
      simp only
      split at h
      next hup =>
        rw [if_pos hup]
        exact ih h
      next hup =>
        rw [if_neg hup]
        split at h
        · cases h
        next hshort =>
          rw [if_neg hshort]
          exact ih h

theorem locate_eq_walk {d : Disk} {p : Path} (h : p.text.utf8ByteSize ≤ maxPathBytes) :
    d.locate p = d.walk (d.origin p) p.parts := by
  rw [locate, if_neg (by omega)]
  rfl

theorem walk_of_locate {d : Disk} {p : Path} {l : Location} (h : d.locate p = .ok l) :
    d.walk (d.origin p) p.parts = .ok l := by
  unfold locate at h
  split at h
  · cases h
  · exact h

/-- A path leads to a directory. -/
structure Reaches (d : Disk) (p : Path) : Prop where
  walk : d.walk (d.origin p) p.parts = .ok (d.destination p)
  directory : d.node? (d.destination p) = some .directory

/-- Nothing that a path goes through is lost. -/
theorem Reaches.mono {d d' : Disk} {p : Path} (h : d.Reaches p)
    (hwork : d'.workingDirectory = d.workingDirectory)
    (hdirs : ∀ l, d.node? l = some .directory → d'.node? l = some .directory) : d'.Reaches p := by
  have horigin : d'.origin p = d.origin p := by rw [origin, origin, hwork]
  refine ⟨?_, ?_⟩
  · rw [horigin, destination_congr hwork]
    exact walk_mono hdirs h.walk
  · rw [destination_congr hwork]
    exact hdirs _ h.directory

theorem destination_child (d : Disk) (p : Path) {name : String} (hname : name ≠ "..") :
    d.destination (p.child name) = d.destination p ++ [name] := by
  have horigin : d.origin (p.child name) = d.origin p := rfl
  rw [destination, horigin, Path.child, resolve_append, resolve, if_neg (by simpa using hname)]
  rfl

/-- A path to a file leads through its directory. -/
theorem reaches_of_locate_child {d : Disk} {p : Path} {name : String} (hname : name ≠ "..")
    {l : Location} (h : d.locate (p.child name) = .ok l) :
    d.Reaches p ∧ l = d.destination p ++ [name] := by
  have hl : l = d.destination p ++ [name] := by
    rw [← d.destination_child p hname]
    exact eq_resolve_of_walk (walk_of_locate h)
  have hwalk : d.walk (d.origin p) (p.parts ++ [name]) = .ok l := walk_of_locate h
  rw [walk_append] at hwalk
  obtain ⟨home, hdirectory, hstep⟩ := Failure.bind_ok hwalk
  obtain rfl : home = d.destination p := eq_resolve_of_walk hdirectory
  refine ⟨⟨hdirectory, ?_⟩, hl⟩
  rw [walk] at hstep
  split at hstep
  · cases hstep
  · cases hstep
  next hnode => exact hnode

/-- In a directory that is reached, every file has its place. -/
theorem Reaches.locate_child {d : Disk} {p : Path} (h : d.Reaches p) {name : String}
    (hname : name ≠ "..") (hshort : name.utf8ByteSize ≤ maxNameBytes)
    (htext : (p.child name).text.utf8ByteSize ≤ maxPathBytes) :
    d.locate (p.child name) = .ok (d.destination p ++ [name]) := by
  have hwalk : d.walk (d.origin (p.child name)) p.parts = .ok (d.destination p) := h.walk
  rw [locate_eq_walk htext]
  show d.walk (d.origin (p.child name)) (p.parts ++ [name]) = _
  rw [walk_append, hwalk]
  show d.walk (d.destination p) [name] = _
  rw [Disk.walk, h.directory]
  simp only
  rw [if_neg (by simpa using hname), if_neg (by omega)]
  rfl

/-! ### Making directories -/

/-- What was there stays, and what is new is a directory. -/
structure Grows (d d' : Disk) : Prop where
  workingDirectory : d'.workingDirectory = d.workingDirectory
  node : ∀ l, d'.node? l = d.node? l ∨ d.node? l = none ∧ d'.node? l = some .directory

theorem Grows.refl (d : Disk) : d.Grows d :=
  ⟨rfl, fun _ => .inl rfl⟩

/-- Growing twice is growing. -/
theorem Grows.trans {d d' d'' : Disk} (h : d.Grows d') (h' : d'.Grows d'') : d.Grows d'' := by
  refine ⟨h'.workingDirectory.trans h.workingDirectory, fun l => ?_⟩
  rcases h'.node l with hsame | ⟨hnone, hdirectory⟩
  · rw [hsame]
    exact h.node l
  · refine .inr ⟨?_, hdirectory⟩
    rcases h.node l with hsame | ⟨-, hold⟩
    · rw [← hsame, hnone]
    · rw [hold] at hnone
      cases hnone

theorem Grows.content? {d d' : Disk} (h : d.Grows d') (l : Location) :
    d'.content? l = d.content? l := by
  unfold Disk.content?
  rcases h.node l with hsame | ⟨hnone, hdirectory⟩
  · rw [hsame]
  · rw [hnone, hdirectory]

/-- Making a directory takes nothing away. -/
theorem grows_ensureDirectory {d d' : Disk} {p : Path} (h : d.ensureDirectory p = .ok d') :
    d.Grows d' := by
  unfold ensureDirectory at h
  split at h
  next made hmade =>
    cases h
    unfold makeDirectory at hmade
    split at hmade
    · cases hmade
    next l hl =>
      split at hmade
      · cases hmade
      next hnew =>
        cases hmade
        rw [Bool.not_eq_true, Option.isSome_eq_false_iff, Option.isNone_iff_eq_none] at hnew
        have hne : l ≠ [] := by
          rintro rfl
          rw [node?_nil] at hnew
          cases hnew
        refine ⟨rfl, fun l' => ?_⟩
        rw [node?_put d hne]
        by_cases heq : l' = l
        · rw [if_pos heq, heq]
          exact .inr ⟨hnew, rfl⟩
        · rw [if_neg heq]
          exact .inl rfl
  next =>
    split at h
    · cases h
      exact .refl d
    · cases h

/-- Making all directories of a path takes nothing away. -/
theorem grows_makeDirectoriesFrom (d : Disk) (p : Path) (n : Nat) :
    d.Grows (d.makeDirectoriesFrom p n).1 := by
  induction n with
  | zero =>
    rw [makeDirectoriesFrom]
    split
    next hmade => exact grows_ensureDirectory hmade
    next => exact .refl d
  | succ n ih =>
    rw [makeDirectoriesFrom]
    split
    next hmade => exact grows_ensureDirectory hmade
    next =>
      split
      · split
        next hbelow =>
          rw [hbelow] at ih
          exact ih
        next d' hbelow =>
          rw [hbelow] at ih
          split
          next hmade => exact ih.trans (grows_ensureDirectory hmade)
          next => exact ih
      · exact .refl d

theorem grows_makeDirectories (d : Disk) (p : Path) : d.Grows (d.makeDirectories p).1 :=
  d.grows_makeDirectoriesFrom p _

end PageCompiler.Disk
