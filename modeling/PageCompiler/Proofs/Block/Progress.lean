import PageCompiler.Proofs.Block.Leftover
import PageCompiler.Proofs.Failure

/-!
# `PageCompiler.Proofs.Block.Progress`: the readers of a block get on and come to an end

A position in a text is the number of characters before it, and a reader at a position is given the
text from there on. `Advances` says how a reader at a position may end: behind that position and
inside of the text, or by stopping at a position that is not before it. It follows from where the
readers end (`Advances.of_ends`).

That the readers come to an end must not rest on the types of their outcomes, which ask for a
shorter rest. So `valueWithin`, `membersWithin` and `itemsWithin` read without any such promise and
give up when a number of calls inside of each other is used up. Twice the length of the text and two
more are enough (`membersWithin_eq`): every round of a loop and every bracket takes a character.
-/

set_option autoImplicit false

namespace PageCompiler.Block

open Text

/-! ### Positions -/

/-- How a reader at position `p` of a text may end. -/
def Advances {α : Type} (text : List Char) (p : Nat) : Except Stop (α × List Char) → Prop
  | .ok (_, rest) => ∃ q, p < q ∧ q ≤ text.length ∧ rest = text.drop q
  | .error (.broken _ rest) => ∃ q, p ≤ q ∧ q ≤ text.length ∧ rest = text.drop q
  | .error (.numeral e) => ∃ q, p ≤ q ∧ q ≤ text.length ∧
      Scalar.read ((text.drop q).takeWhile (!endsBare ·)) = .error e ∧
      Decimal.maxIntegerDigits < e.digits

/-- An end of what stands behind a position stands behind a position that is not before it. -/
theorem exists_drop_of_suffix {text rest : List Char} {p : Nat} (hp : p ≤ text.length)
    (h : rest <:+ text.drop p) : ∃ q, p ≤ q ∧ q ≤ text.length ∧ rest = text.drop q := by
  obtain ⟨front, hfront⟩ := h
  have hlength := congrArg List.length hfront
  rw [List.length_append, List.length_drop] at hlength
  refine ⟨p + front.length, by omega, by omega, ?_⟩
  rw [← List.drop_drop, ← hfront, List.drop_left]

/-- Only an integer of too many digits is refused. -/
theorem digits_of_read {s : List Char} {e : NumeralTooLong} (h : Scalar.read s = .error e) :
    Decimal.maxIntegerDigits < e.digits := by
  simp only [Scalar.read, Scalar.ofLiteral] at h
  repeat' split at h
  all_goals cases h
  exact Nat.lt_of_not_le ‹_›

/-- A reader that ends behind a character of the rest has advanced. -/
theorem Advances.of_ends {α : Type} {last : Char → Prop} {text : List Char} {p : Nat}
    {o : Except Stop (α × List Char)} (hp : p ≤ text.length) (h : Ends last (text.drop p) o) :
    Advances text p o := by
  cases o with
  | ok r =>
    obtain ⟨c, -, hrest⟩ := h
    obtain ⟨q, hpq, hq, hdrop⟩ := exists_drop_of_suffix hp hrest
    -- The character in front of the rest stands at `q`, so the rest starts one position later.
    have hless : q < text.length := by
      have hlength := congrArg List.length hdrop
      rw [List.length_cons, List.length_drop] at hlength
      omega
    rw [List.drop_eq_getElem_cons hless] at hdrop
    exact ⟨q + 1, by omega, hless, (List.cons.inj hdrop).2⟩
  | error e =>
    cases e with
    | broken reason rest => exact exists_drop_of_suffix hp h
    | numeral e =>
      obtain ⟨t, ht, hread⟩ := h
      obtain ⟨q, hpq, hq, rfl⟩ := exists_drop_of_suffix hp ht
      exact ⟨q, hpq, hq, hread, digits_of_read hread⟩

/-- What is left behind separators and comments starts with neither. -/
theorem skip_stops {inComment : Bool} {s t : List Char} {c : Char}
    (h : skip inComment s = c :: t) :
    (isGap c || c == ',') = false ∧ atComment (c :: t) = false := by
  fun_induction skip inComment s with
  | case1 => cases h
  | case2 _ _ _ ih => exact ih h
  | case3 _ _ _ ih => exact ih h
  | case4 _ _ _ _ _ ih => exact ih h
  | case5 _ _ _ _ _ _ ih => exact ih h
  | case6 _ _ _ _ hseparator hcomment =>
    obtain ⟨rfl, rfl⟩ := List.cons.inj h
    exact ⟨Bool.eq_false_iff.2 hseparator, Bool.eq_false_iff.2 hcomment⟩

/-! ### Blocks and lists from their opening bracket on -/

/-- Reads a block from its opening brace on. -/
def readObject (s : List Char) : Except Stop (Fields × List Char) :=
  match s with
  | '\x7b' :: rest => forget (readMembers [] rest)
  | _ => .error (.broken .expectedOpenBrace s)

/-- Reads a list from its opening bracket on. -/
def readList (s : List Char) : Except Stop (List Value × List Char) :=
  match s with
  | '[' :: rest => forget (readItems [] rest)
  | _ => .error (.broken .expectedOpenBracket s)

theorem ends_readObject (s : List Char) : Ends (· = '\x7d') s (readObject s) := by
  unfold readObject
  split
  · exact (ends_readMembers [] _).extend (List.suffix_cons _ _)
  · exact List.suffix_refl s

theorem ends_readList (s : List Char) : Ends (· = ']') s (readList s) := by
  unfold readList
  split
  · exact (ends_readItems [] _).extend (List.suffix_cons _ _)
  · exact List.suffix_refl s

/-! ### Reading with a bounded number of calls -/

mutual

/-- Reads one value, if `n` calls inside of each other are enough. -/
def valueWithin (n : Nat) (s : List Char) : Option (Except Stop (Value × List Char)) :=
  match n with
  | 0 => none
  | n + 1 =>
    match s.dropWhile isGap with
    | [] => some (.error (.broken .expectedValue []))
    | c :: rest =>
      if c == '\x7b' then (membersWithin n [] rest).map (·.map fun p => (.map p.1, p.2))
      else if c == '[' then (itemsWithin n [] rest).map (·.map fun p => (.list p.1, p.2))
      else if Scalar.isQuote c then
        some ((forget (readQuoted c rest)).map fun p => (.text p.1, p.2))
      else some (forget (readBare (c :: rest)))

/-- Reads members up to the closing brace, if `n` calls inside of each other are enough. -/
def membersWithin (n : Nat) (done : Fields) (s : List Char) :
    Option (Except Stop (Fields × List Char)) :=
  match n with
  | 0 => none
  | n + 1 =>
    match skipSeparators s with
    | [] => some (.error (.broken .unterminatedBlock []))
    | c :: rest =>
      if c == '\x7d' then some (.ok (done, rest))
      else
        match readLabel (c :: rest) with
        | .error e => some (.error e)
        | .ok (key, t) =>
          (valueWithin n t).bind fun
            | .error e => some (.error e)
            | .ok (v, u) => membersWithin n (Assoc.insert done key v) u

/-- Reads items up to the closing bracket, if `n` calls inside of each other are enough. -/
def itemsWithin (n : Nat) (done : List Value) (s : List Char) :
    Option (Except Stop (List Value × List Char)) :=
  match n with
  | 0 => none
  | n + 1 =>
    match skipSeparators s with
    | [] => some (.error (.broken .unterminatedList []))
    | c :: rest =>
      if c == ']' then some (.ok (done, rest))
      else
        (valueWithin n (c :: rest)).bind fun
          | .error e => some (.error e)
          | .ok (v, r) => itemsWithin n (done ++ [v]) r

end

-- The induction is on the number of calls. From items to a value no character need be taken, so the
-- bounds for members and items are one above the bound for a value.
mutual

/-- Twice as many calls as characters are enough to read a value. -/
theorem valueWithin_eq {n : Nat} {s : List Char} (h : 2 * s.length < n) :
    valueWithin n s = some (forget (readValue s)) := by
  obtain ⟨k, rfl⟩ := Nat.exists_eq_add_of_lt h
  rw [valueWithin, forget_readValue]
  cases hs : s.dropWhile isGap with
  | nil => rfl
  | cons c t =>
    have hshort : t.length < s.length :=
      (hs ▸ List.dropWhile_suffix isGap : c :: t <:+ s).length_le
    simp only
    split
    · rw [membersWithin_eq (by omega)]
      rfl
    · split
      · rw [itemsWithin_eq (by omega)]
        rfl
      · split
        · rfl
        · rfl
termination_by n

/-- They are enough to read the members of a block. -/
theorem membersWithin_eq {n : Nat} {done : Fields} {s : List Char} (h : 2 * s.length + 1 < n) :
    membersWithin n done s = some (forget (readMembers done s)) := by
  obtain ⟨k, rfl⟩ := Nat.exists_eq_add_of_lt h
  rw [membersWithin, forget_readMembers]
  cases hs : skipSeparators s with
  | nil => rfl
  | cons c t =>
    have hskip : c :: t <:+ s := hs ▸ skip_suffix false s
    simp only
    split
    · rfl
    · have hlabel := (ends_readLabel (c :: t)).extend hskip
      cases hread : readLabel (c :: t) with
      | error e => rfl
      | ok p =>
        rw [hread] at hlabel
        obtain ⟨d, -, hr⟩ := hlabel
        have hshort : p.2.length < s.length := hr.length_le
        have hvalue := (ends_readValue p.2).extend ((List.suffix_cons d p.2).trans hr)
        simp only
        rw [valueWithin_eq (by omega)]
        cases hread : forget (readValue p.2) with
        | error e => rfl
        | ok q =>
          rw [hread] at hvalue
          obtain ⟨d, -, hu⟩ := hvalue
          have hless : q.2.length < s.length := hu.length_le
          exact membersWithin_eq (by omega)
termination_by n

/-- They are enough to read the items of a list. -/
theorem itemsWithin_eq {n : Nat} {done : List Value} {s : List Char} (h : 2 * s.length + 1 < n) :
    itemsWithin n done s = some (forget (readItems done s)) := by
  obtain ⟨k, rfl⟩ := Nat.exists_eq_add_of_lt h
  rw [itemsWithin, forget_readItems]
  cases hs : skipSeparators s with
  | nil => rfl
  | cons c t =>
    have hskip : c :: t <:+ s := hs ▸ skip_suffix false s
    have hshort := hskip.length_le
    simp only
    split
    · rfl
    · rw [valueWithin_eq (by omega)]
      have hvalue := (ends_readValue (c :: t)).extend hskip
      cases hread : forget (readValue (c :: t)) with
      | error e => rfl
      | ok p =>
        rw [hread] at hvalue
        obtain ⟨d, -, hr⟩ := hvalue
        have hless : p.2.length < s.length := hr.length_le
        exact itemsWithin_eq (by omega)
termination_by n

end

/-- Every reader gets on from every position of a text, or stops inside of the text. The separators
end at a position that is not before it, in front of something else. And reading comes to an end,
within a number of calls that the length of the text bounds. -/
theorem readers_advance (text : List Char) (p : Nat) (hp : p ≤ text.length) :
    Advances text p (forget (readValue (text.drop p))) ∧
    Advances text p (readObject (text.drop p)) ∧
    Advances text p (readList (text.drop p)) ∧
    (∀ c rest, text.drop p = c :: rest → Advances text p (forget (readQuoted c rest))) ∧
    Advances text p (forget (readBare (text.drop p))) ∧
    (∃ q, p ≤ q ∧ q ≤ text.length ∧ skipSeparators (text.drop p) = text.drop q ∧
      ∀ c rest, text.drop q = c :: rest →
        (isGap c || c == ',') = false ∧ atComment (c :: rest) = false) ∧
    ∀ n, 2 * (text.length - p) + 1 < n →
      valueWithin n (text.drop p) = some (forget (readValue (text.drop p))) ∧
      (∀ done, membersWithin n done (text.drop p) =
        some (forget (readMembers done (text.drop p)))) ∧
      ∀ done, itemsWithin n done (text.drop p) = some (forget (readItems done (text.drop p))) := by
  refine ⟨.of_ends hp (ends_readValue _), .of_ends hp (ends_readObject _),
    .of_ends hp (ends_readList _), fun c rest hdrop => ?_, .of_ends hp (ends_readBare _), ?_,
    fun n hn => ?_⟩
  · exact .of_ends hp ((ends_readQuoted c rest).extend (hdrop ▸ List.suffix_refl _))
  · obtain ⟨q, hpq, hq, hskip⟩ := exists_drop_of_suffix hp (skip_suffix false (text.drop p))
    exact ⟨q, hpq, hq, hskip, fun c rest hdrop => skip_stops (hskip.trans hdrop)⟩
  · rw [← List.length_drop] at hn
    exact ⟨valueWithin_eq (by omega), fun _ => membersWithin_eq hn, fun _ => itemsWithin_eq hn⟩

/-- A block in an open list, with a comment and a text that nothing closes. Read as a block it stops
at that text, read as a list where it starts, and 40 calls are enough to find out. Behind the first
member the separators and the comment are passed. -/
theorem readers_advance_unclosed :
    let text := "[\x7b a: 1, # b\n c: \"d".toList
    1 ≤ text.length ∧
      readObject (text.drop 1) = .error (.broken .unterminatedString (text.drop 17)) ∧
      Advances text 1 (readObject (text.drop 1)) ∧
      readList (text.drop 1) = .error (.broken .expectedOpenBracket (text.drop 1)) ∧
      Advances text 1 (readList (text.drop 1)) ∧
      valueWithin 40 (text.drop 1) = some (.error (.broken .unterminatedString (text.drop 17))) ∧
      Advances text 1 (forget (readValue (text.drop 1))) ∧
      7 ≤ text.length ∧ ∃ q, 7 ≤ q ∧ skipSeparators (text.drop 7) = text.drop q ∧ q = 14 := by
  intro text
  have hp : 1 ≤ text.length := by decide
  have hp' : 7 ≤ text.length := by decide
  obtain ⟨hvalue, hobject, hlist, -, -, -, hcalls⟩ := readers_advance text 1 hp
  obtain ⟨-, -, -, -, -, ⟨q, hpq, hq, hskip, -⟩, -⟩ := readers_advance text 7 hp'
  obtain ⟨e, hstop, he⟩ := Failure.exists_error (x := forget (readValue (text.drop 1)))
    (fun e => decide (e = .broken .unterminatedString (text.drop 17))) (by decide +kernel)
  obtain ⟨e', hstop', he'⟩ := Failure.exists_error (x := readObject (text.drop 1))
    (fun e => decide (e = .broken .unterminatedString (text.drop 17))) (by decide +kernel)
  rw [of_decide_eq_true he] at hstop
  rw [of_decide_eq_true he'] at hstop'
  refine ⟨hp, hstop', hobject, rfl, hlist, ?_, hvalue, hp', q, hpq, hskip, ?_⟩
  · rw [(hcalls 40 (by decide)).1, hstop]
  · have hleft : (skipSeparators (text.drop 7)).length = 5 := by decide +kernel
    have hlength : text.length = 19 := rfl
    rw [hskip, List.length_drop] at hleft
    omega

end PageCompiler.Block
