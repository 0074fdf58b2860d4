import Mathlib.Data.List.TakeWhile
import PageCompiler.Decimal.Layout
import PageCompiler.Decimal.Literal
import PageCompiler.Proofs.Text.Lines

/-!
# `PageCompiler.Proofs.Decimal`: numbers in decimal

An integer in decimal is a minus sign, if it is negative, and ASCII digits. `parse?_toString` reads
it as a literal of these parts, and `digitsValue_toDigits` gives its digits their value back. A
floating-point number takes a few characters more (`mem_write`).
-/

set_option autoImplicit false

namespace PageCompiler.Decimal

open Text

/-- The decimal digits of ASCII. -/
def asciiDigits : List Char :=
  ['0', '1', '2', '3', '4', '5', '6', '7', '8', '9']

theorem mem_asciiDigits {c : Char} (h : c.isDigit = true) : c ∈ asciiDigits := by
  have hlo : 48 ≤ c.toNat := of_decide_eq_true (Bool.and_eq_true_iff.1 h).1
  have hhi : c.toNat ≤ 57 := of_decide_eq_true (Bool.and_eq_true_iff.1 h).2
  have hc : c = Char.ofNat c.toNat := (Char.ofNat_toNat c).symm
  generalize c.toNat = n at hlo hhi hc
  subst hc
  have hn : n = 48 ∨ n = 49 ∨ n = 50 ∨ n = 51 ∨ n = 52 ∨ n = 53 ∨ n = 54 ∨ n = 55 ∨ n = 56 ∨
      n = 57 := by omega
  rcases hn with rfl | rfl | rfl | rfl | rfl | rfl | rfl | rfl | rfl | rfl <;> decide

theorem mem_asciiDigits_of_mem_toDigits {c : Char} {n : Nat} (h : c ∈ Nat.toDigits 10 n) :
    c ∈ asciiDigits :=
  mem_asciiDigits (Nat.isDigit_of_mem_toDigits (by decide) (by decide) h)

theorem isDigit_of_mem_asciiDigits : ∀ c ∈ asciiDigits, isDigit c = true := by decide

theorem toDigits_ne_nil (n : Nat) : Nat.toDigits 10 n ≠ [] :=
  List.ne_nil_of_length_pos Nat.length_toDigits_pos

/-- The characters of an integer in decimal. -/
theorem toList_toString (n : Int) :
    (toString n).toList =
      if n < 0 then '-' :: Nat.toDigits 10 n.natAbs else Nat.toDigits 10 n.natAbs := by
  rw [Int.toString_eq_repr, Int.repr_eq_if]
  by_cases hn : n < 0
  · rw [if_neg (by omega), if_pos hn]
    simp [Nat.toList_repr, show (-n).toNat = n.natAbs by omega]
  · rw [if_pos (by omega), if_neg hn]
    simp [Nat.toList_repr, show n.toNat = n.natAbs by omega]

theorem mem_toString {c : Char} {n : Int} (h : c ∈ (toString n).toList) :
    c ∈ '-' :: asciiDigits := by
  rw [toList_toString] at h
  split at h
  · rcases List.mem_cons.1 h with rfl | h
    · exact List.mem_cons_self
    · exact List.mem_cons_of_mem _ (mem_asciiDigits_of_mem_toDigits h)
  · exact List.mem_cons_of_mem _ (mem_asciiDigits_of_mem_toDigits h)

/-- An integer in decimal starts with a minus sign or a digit. -/
theorem head_toString (n : Int) :
    ∃ c t, (toString n).toList = c :: t ∧ c ∈ '-' :: asciiDigits := by
  rw [toList_toString]
  split
  · exact ⟨'-', _, rfl, by decide⟩
  · cases hds : Nat.toDigits 10 n.natAbs with
    | nil => exact absurd hds (toDigits_ne_nil _)
    | cons c t =>
      have hc : c ∈ Nat.toDigits 10 n.natAbs := by simp [hds]
      exact ⟨c, t, rfl, List.mem_cons_of_mem _ (mem_asciiDigits_of_mem_toDigits hc)⟩

/-- Digits of ASCII have the value that core gives them. -/
theorem digitsValue_eq_ofDigitChars {s : List Char} (h : ∀ c ∈ s, c ∈ asciiDigits) :
    digitsValue s = Nat.ofDigitChars 10 s 0 := by
  have hvalue : ∀ c ∈ asciiDigits, (digitValue? c).getD 0 = c.toNat - '0'.toNat := by decide
  -- The accumulators stay equal, so the claim is about every start of the fold.
  suffices hfold : ∀ n : Nat,
      s.foldl (fun n c => 10 * n + (digitValue? c).getD 0) n = Nat.ofDigitChars 10 s n from hfold 0
  induction s with
  | nil => intro n; rfl
  | cons c s ih =>
    intro n
    rw [List.foldl_cons, Nat.ofDigitChars_cons, hvalue c (h c (by simp)),
      ih (fun d hd => h d (by simp [hd]))]

theorem digitsValue_toDigits (n : Nat) : digitsValue (Nat.toDigits 10 n) = n := by
  rw [digitsValue_eq_ofDigitChars fun _ => mem_asciiDigits_of_mem_toDigits]
  exact Nat.ofDigitChars_ten_toDigits

/-- A text that starts with a digit has no sign. -/
theorem takeSign_of_digit {c : Char} {s : List Char} (h : c ∈ asciiDigits) :
    takeSign (c :: s) = (false, c :: s) := by
  have hsign : c ≠ '-' ∧ c ≠ '+' := by
    revert c
    decide
  rw [takeSign.eq_def]
  split
  · rename_i heq
    cases heq
    exact absurd rfl hsign.1
  · rename_i heq
    cases heq
    exact absurd rfl hsign.2
  · rfl

/-- Digits with a sign in front are a literal without point and exponent. -/
theorem parse?_digits {s ds : List Char} {negative : Bool} (hs : takeSign s = (negative, ds))
    (hds : ∀ c ∈ ds, c ∈ asciiDigits) (hne : ds ≠ []) :
    Literal.parse? s =
      some { negative, whole := ds, fraction := none, exponent := none } := by
  have hdigit : ∀ c ∈ ds, isDigit c = true := fun c hc => isDigit_of_mem_asciiDigits c (hds c hc)
  have htake : ds.takeWhile isDigit = ds := List.takeWhile_eq_self_iff.2 hdigit
  have hdrop : ds.dropWhile isDigit = [] := List.dropWhile_eq_nil_iff.2 hdigit
  rw [Literal.parse?, hs]
  simp only [htake, hdrop, List.isEmpty_iff, hne, if_false]
  rfl

/-- The parts of an integer in decimal. -/
def literalOf (n : Int) : Literal :=
  { negative := decide (n < 0), whole := Nat.toDigits 10 n.natAbs, fraction := none,
    exponent := none }

/-- The parts of an integer in decimal denote it. -/
theorem toInt_literalOf (n : Int) : (literalOf n).toInt = n := by
  rw [literalOf, Literal.toInt, digitsValue_toDigits]
  by_cases hn : n < 0
  · rw [decide_eq_true hn, if_pos rfl]
    omega
  · rw [decide_eq_false hn, if_neg (by simp)]
    omega

/-- An integer in decimal is read as a literal. -/
theorem parse?_toString (n : Int) : Literal.parse? (toString n).toList = some (literalOf n) := by
  have hds : ∀ c ∈ Nat.toDigits 10 n.natAbs, c ∈ asciiDigits :=
    fun _ => mem_asciiDigits_of_mem_toDigits
  refine parse?_digits ?_ hds (toDigits_ne_nil _)
  rw [toList_toString]
  by_cases hn : n < 0
  · rw [if_pos hn, decide_eq_true hn]
    rfl
  · rw [if_neg hn, decide_eq_false hn]
    cases hdigits : Nat.toDigits 10 n.natAbs with
    | nil => exact absurd hdigits (toDigits_ne_nil _)
    | cons c s => exact takeSign_of_digit (hds c (by simp [hdigits]))

/-! ### Floating-point numbers -/

/-- The characters of numbers with digits. -/
def numberChars : List Char :=
  '.' :: 'e' :: '+' :: '-' :: asciiDigits

theorem mem_numberChars_of_mem_toDigits {c : Char} {n : Nat} (h : c ∈ Nat.toDigits 10 n) :
    c ∈ numberChars := by
  simp [numberChars, mem_asciiDigits_of_mem_toDigits h]

theorem mem_zeros {c : Char} {n : Nat} (h : c ∈ (zeros n).toList) : c ∈ numberChars := by
  obtain ⟨-, rfl⟩ : n ≠ 0 ∧ c = '0' := by simpa [zeros] using h
  decide

/-- A number in plain form has only characters of numbers. -/
theorem mem_positional {ds : List Char} (hds : ∀ c ∈ ds, c ∈ numberChars) (before : Int) :
    ∀ c ∈ (positional ds before).toList, c ∈ numberChars := by
  have hpoint : ∀ c ∈ ['.'], c ∈ numberChars := by decide
  have hfraction : ∀ c ∈ ['.', '0'], c ∈ numberChars := by decide
  have hwhole : ∀ c ∈ ['0', '.'], c ∈ numberChars := by decide
  have hzeros : ∀ n, ∀ c ∈ (zeros n).toList, c ∈ numberChars := fun n c hc => mem_zeros hc
  unfold positional
  split
  · simp only [String.toList_append, String.toList_ofList, List.forall_mem_append]
    exact ⟨⟨hwhole, hzeros _⟩, hds⟩
  · dsimp only
    split
    · simp only [String.toList_append, String.toList_ofList, List.forall_mem_append]
      exact ⟨⟨hds, hzeros _⟩, hfraction⟩
    · simp only [String.toList_append, String.toList_ofList, List.forall_mem_append]
      exact ⟨⟨fun c hc => hds c (List.mem_of_mem_take hc), hpoint⟩,
        fun c hc => hds c (List.mem_of_mem_drop hc)⟩

/-- So has a number with an exponent. -/
theorem mem_scientific {ds : List Char} (hds : ∀ c ∈ ds, c ∈ numberChars) (width : Nat)
    (exponent : Int) : ∀ c ∈ (scientific width ds exponent).toList, c ∈ numberChars := by
  have hpoint : ∀ c ∈ ['.'], c ∈ numberChars := by decide
  have hzero : ∀ c ∈ ['0'], c ∈ numberChars := by decide
  have hmark : ∀ c ∈ ['e'], c ∈ numberChars := by decide
  have hsign : ∀ c ∈ (if exponent < 0 then "-" else "+").toList, c ∈ numberChars := by
    split
    · decide
    · decide
  unfold scientific
  simp only [String.toList_append, String.toList_ofList, List.forall_mem_append]
  refine ⟨⟨⟨⟨?_, hmark⟩, hsign⟩, fun c hc => mem_zeros hc⟩,
    fun c hc => mem_numberChars_of_mem_toDigits hc⟩
  match ds with
  | [] => exact hzero
  | [d] =>
    simpa using hds
  | d :: e :: rest =>
    simp only [String.toList_append, String.toList_ofList, List.forall_mem_append]
    obtain ⟨hd, hrest⟩ := List.forall_mem_cons.1 hds
    exact ⟨⟨List.forall_mem_singleton.2 hd, hpoint⟩, hrest⟩

/-- The characters of a written number. -/
theorem mem_write (f : Layout) (x : Float) : ∀ c ∈ (f.write x).toList,
    c ∈ numberChars ∨ c ∈ f.infinity.toList ∨ c ∈ f.nan.toList := by
  have hsign : ∀ negative : Bool, ∀ c ∈ (if negative = true then "-" else "").toList,
      c ∈ numberChars := by decide
  have hdigits : ∀ d, ∀ c ∈ (f.writeDigits d).toList, c ∈ numberChars := by
    intro d
    have hds : ∀ c ∈ Nat.toDigits 10 d.digits, c ∈ numberChars :=
      fun c hc => mem_numberChars_of_mem_toDigits hc
    unfold Layout.writeDigits
    dsimp only
    split
    · exact mem_positional hds _
    · exact mem_scientific hds _ _
  unfold Layout.write
  cases Binary.ofFloat x with
  | nan => exact fun c hc => .inr (.inr hc)
  | infinite negative =>
    rw [Layout.writeBinary, String.toList_append, List.forall_mem_append]
    exact ⟨fun c hc => .inl (hsign negative c hc), fun c hc => .inr (.inl hc)⟩
  | finite negative m q =>
    rw [Layout.writeBinary, String.toList_append, List.forall_mem_append]
    exact ⟨fun c hc => .inl (hsign negative c hc), fun c hc => .inl (hdigits _ c hc)⟩

end PageCompiler.Decimal
