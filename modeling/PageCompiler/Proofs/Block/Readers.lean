import PageCompiler.Block

/-!
# `PageCompiler.Proofs.Block.Readers`: the readers step by step

A reader gives back its rest with the proof that it is shorter than what it was given, so the type
of an outcome depends on the text. `forget` drops the proof. Without it, each reader satisfies a
plain equation in terms of the others, and proofs about readers rewrite with these equations.
-/

set_option autoImplicit false

namespace PageCompiler.Block

open Text

/-- An outcome without the proof that the rest is shorter. -/
def forget {α : Type} {s : List Char} (o : Outcome α s) : Except Stop (α × List Char) :=
  o.map fun p => (p.1, p.2.1)

@[simp] theorem forget_error {α : Type} {s : List Char} (e : Stop) :
    forget (.error e : Outcome α s) = .error e :=
  rfl

@[simp] theorem forget_ok {α : Type} {s : List Char} (a : α) (r : Rest s) :
    forget (.ok (a, r) : Outcome α s) = .ok (a, r.1) :=
  rfl

theorem forget_readQuoted (quote : Char) (s : List Char) :
    forget (readQuoted quote s) =
      match scanQuoted quote s with
      | some (inner, rest) => .ok (String.ofList (Scalar.unescape quote inner), rest)
      | none => .error (.broken .unterminatedString (quote :: s)) := by
  unfold readQuoted
  split
  · rename_i inner rest h
    simp only [h, forget_ok]
  · rename_i h
    simp only [h, forget_error]

/-- Reading a value, without the proof that it advances. -/
theorem forget_readValue (s : List Char) :
    forget (readValue s) =
      match s.dropWhile isGap with
      | [] => .error (.broken .expectedValue [])
      | c :: rest =>
        if c == '\x7b' then (forget (readMembers [] rest)).map fun p => (.map p.1, p.2)
        else if c == '[' then (forget (readItems [] rest)).map fun p => (.list p.1, p.2)
        else if Scalar.isQuote c then (forget (readQuoted c rest)).map fun p => (.text p.1, p.2)
        else forget (readBare (c :: rest)) := by
  rw [readValue]
  split
  · rename_i h
    simp only [h, forget_error]
  · rename_i c rest h
    simp only [h]
    split
    · cases readMembers [] rest with
      | error e => rfl
      | ok p => rfl
    · split
      · cases readItems [] rest with
        | error e => rfl
        | ok p => rfl
      · split
        · cases readQuoted c rest with
          | error e => rfl
          | ok p => rfl
        · cases readBare (c :: rest) with
          | error e => rfl
          | ok p => rfl

/-- The key of a member with the colon behind it and the white space around the colon. -/
def readLabel (s : List Char) : Except Stop (String × List Char) :=
  match forget (readKey s) with
  | .error e => .error e
  | .ok (key, r) =>
    match r.dropWhile isInlineGap with
    | ':' :: t => .ok (key, t.dropWhile isInlineGap)
    | stopped => .error (.broken .expectedColon stopped)

/-- Reading members, without the proof that it advances. -/
theorem forget_readMembers (done : Fields) (s : List Char) :
    forget (readMembers done s) =
      match skipSeparators s with
      | [] => .error (.broken .unterminatedBlock [])
      | c :: rest =>
        if c == '\x7d' then .ok (done, rest)
        else
          match readLabel (c :: rest) with
          | .error e => .error e
          | .ok (key, t) =>
            match forget (readValue t) with
            | .error e => .error e
            | .ok (v, u) => forget (readMembers (Assoc.insert done key v) u) := by
  rw [readMembers]
  split
  · rename_i h
    simp only [h, forget_error]
  · rename_i c rest h
    simp only [h, readLabel]
    split
    · rfl
    · cases readKey (c :: rest) with
      | error e => rfl
      | ok p =>
        obtain ⟨key, r, hr⟩ := p
        simp only [forget_ok]
        split
        · rename_i t hc
          simp only [hc]
          cases readValue (t.dropWhile isInlineGap) with
          | error e => rfl
          | ok q =>
            obtain ⟨v, u, hu⟩ := q
            simp only [forget_ok]
            cases readMembers (Assoc.insert done key v) u with
            | error e => rfl
            | ok w => rfl
        · simp only [forget_error]

/-- Reading items, without the proof that it advances. -/
theorem forget_readItems (done : List Value) (s : List Char) :
    forget (readItems done s) =
      match skipSeparators s with
      | [] => .error (.broken .unterminatedList [])
      | c :: rest =>
        if c == ']' then .ok (done, rest)
        else
          match forget (readValue (c :: rest)) with
          | .error e => .error e
          | .ok (v, r) => forget (readItems (done ++ [v]) r) := by
  rw [readItems]
  split
  · rename_i h
    simp only [h, forget_error]
  · rename_i c rest h
    simp only [h]
    split
    · rfl
    · cases readValue (c :: rest) with
      | error e => rfl
      | ok p =>
        obtain ⟨v, r, hr⟩ := p
        simp only [forget_ok]
        cases readItems (done ++ [v]) r with
        | error e => rfl
        | ok q => rfl

/-- The closing brace ends the members. -/
theorem readMembers_close {done : Fields} {s rest : List Char}
    (h : skipSeparators s = '\x7d' :: rest) : forget (readMembers done s) = .ok (done, rest) := by
  rw [forget_readMembers, h]
  rfl

/-- One member is read, then the others. -/
theorem readMembers_step {done : Fields} {s rest r t t' u : List Char} {c : Char} {key : String}
    {v : Value} (h : skipSeparators s = c :: rest) (hc : c ≠ '\x7d')
    (hkey : forget (readKey (c :: rest)) = .ok (key, r))
    (hcolon : r.dropWhile isInlineGap = ':' :: t) (ht : t.dropWhile isInlineGap = t')
    (hvalue : forget (readValue t') = .ok (v, u)) :
    forget (readMembers done s) = forget (readMembers (Assoc.insert done key v) u) := by
  subst ht
  rw [forget_readMembers, h]
  simp only [if_neg (show ¬(c == '\x7d') = true by simpa using hc), readLabel, hkey, hcolon, hvalue]

/-- The closing bracket ends the items. -/
theorem readItems_close {done : List Value} {s rest : List Char}
    (h : skipSeparators s = ']' :: rest) : forget (readItems done s) = .ok (done, rest) := by
  rw [forget_readItems, h]
  rfl

/-- One item is read, then the others. -/
theorem readItems_step {done : List Value} {s rest r : List Char} {c : Char} {v : Value}
    (h : skipSeparators s = c :: rest) (hc : c ≠ ']')
    (hvalue : forget (readValue (c :: rest)) = .ok (v, r)) :
    forget (readItems done s) = forget (readItems (done ++ [v]) r) := by
  rw [forget_readItems, h]
  simp only [if_neg (show ¬(c == ']') = true by simpa using hc), hvalue]

/-- Members are read from the first character that is no separator. -/
theorem forget_readMembers_congr (done : Fields) {s t : List Char}
    (h : skipSeparators s = skipSeparators t) :
    forget (readMembers done s) = forget (readMembers done t) := by
  rw [forget_readMembers, forget_readMembers, h]

/-- Items are read from the first character that is no separator. -/
theorem forget_readItems_congr (done : List Value) {s t : List Char}
    (h : skipSeparators s = skipSeparators t) :
    forget (readItems done s) = forget (readItems done t) := by
  rw [forget_readItems, forget_readItems, h]

/-- A block whose members are followed by nothing of note. -/
theorem readBlock_of_members {rest r : List Char} {fields : Fields}
    (h : forget (readMembers [] rest) = .ok (fields, r)) (hend : endsCleanly r = true) :
    readBlock ('\x7b' :: rest) = .ok fields := by
  unfold readBlock
  cases hread : readMembers [] rest with
  | error e =>
    rw [hread] at h
    cases h
  | ok p =>
    obtain ⟨fields', r', hr'⟩ := p
    rw [hread, forget_ok] at h
    obtain ⟨rfl, rfl⟩ := Prod.mk.inj (Except.ok.inj h)
    simp only [hread]
    exact if_pos hend

/-- An assigned value that opens a bracket and is followed by nothing of note. -/
theorem readInline_of_value {s : List Char} {c : Char} {t r : List Char} {v : Value}
    (hbody : trim (dropRightWhile (· == ',') (trim s)) = c :: t)
    (hc : (c == '[' || c == '\x7b') = true) (h : forget (readValue (c :: t)) = .ok (v, r))
    (hend : endsCleanly r = true) : readInline s = .ok v := by
  unfold readInline
  generalize trim (dropRightWhile (· == ',') (trim s)) = body at hbody ⊢
  subst hbody
  simp only [hc, if_true]
  cases hread : readValue (c :: t) with
  | error e =>
    rw [hread] at h
    cases h
  | ok p =>
    obtain ⟨v', r', hr'⟩ := p
    rw [hread, forget_ok] at h
    obtain ⟨rfl, rfl⟩ := Prod.mk.inj (Except.ok.inj h)
    exact if_pos hend

/-- An assigned value that opens no bracket is a scalar. -/
theorem readInline_of_scalar {s : List Char} {c : Char} {t : List Char}
    (hbody : trim (dropRightWhile (· == ',') (trim s)) = c :: t)
    (hc : (c == '[' || c == '\x7b') = false) : readInline s = Scalar.read (c :: t) := by
  simp only [readInline, hbody, hc]
  rfl

end PageCompiler.Block
