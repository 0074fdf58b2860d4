import PageCompiler.Proofs.Text.Stretch

/-!
# `PageCompiler.Proofs.Text.Delimiter`: texts between delimiters

A delimiter is a text whose first character stands nowhere else in it, such as an opening bracket
and a name. Two delimiters with the same first character do not overlap. So a delimiter that is put
behind a text makes no place where it starts within that text (`infix_append_delimiter_iff`), and
the search for its first place finds it where it was put (`upTo?_delimiter`). A walk that looks for
things that start with a delimiter finds none in a text without it (`dull_of_delimiter`).
-/

set_option autoImplicit false

namespace PageCompiler.Text

section Places

variable {d : Char} {q : List Char}

theorem prefix_iff_after? {p s : List Char} : p <+: s ↔ (after? p s).isSome = true := by
  rw [Option.isSome_iff_exists]
  constructor
  · rintro ⟨rest, rfl⟩
    exact ⟨rest, after?_append p rest⟩
  · rintro ⟨rest, h⟩
    exact ⟨rest, (after?_eq_some.1 h).symm⟩

theorem after?_eq_none_of_absent {p s : List Char} (h : ¬p <:+: s) : after? p s = none := by
  rw [Option.eq_none_iff_forall_ne_some]
  rintro rest hrest
  rw [after?_eq_some] at hrest
  exact h ⟨[], rest, hrest.symm⟩

/-- A delimiter that starts within a text ends within it, if the next one starts behind it. -/
theorem prefix_append_delimiter_iff (hd : d ∉ q) {c : Char} {b s : List Char} :
    d :: q <+: c :: b ++ d :: s ↔ d :: q <+: c :: b := by
  rw [List.cons_append, List.cons_prefix_cons, List.cons_prefix_cons, prefix_iff_after?,
    prefix_iff_after?, after?_append_stop hd, Option.isSome_map]

theorem infix_append_delimiter_iff (hd : d ∉ q) {a b : List Char} :
    d :: q <:+: a ++ d :: b ↔ d :: q <:+: a ∨ d :: q <:+: d :: b := by
  induction a with
  | nil => simp
  | cons c a ih =>
    rw [List.cons_append, List.infix_cons_iff, List.infix_cons_iff, ih, ← List.cons_append,
      prefix_append_delimiter_iff hd, or_assoc]

/-- At no place of a text without a delimiter it is found, even if the next one starts behind it. -/
theorem after?_delimiter_eq_none (hd : d ∉ q) {a b : List Char} {c : Char}
    (h : ¬d :: q <:+: a ++ c :: b) (s : List Char) : after? (d :: q) (c :: b ++ d :: s) = none := by
  rw [← Option.not_isSome_iff_eq_none, ← prefix_iff_after?, prefix_append_delimiter_iff hd]
  intro hstart
  exact h (hstart.isInfix.trans (List.suffix_append a _).isInfix)

end Places

/-- The text up to the first place where something is found, and what follows. -/
theorem untilMatch?_append {stop : List Char → Option (List Char)} {x m s : List Char} (hm : m ≠ [])
    (hx : ∀ a c b, x = a ++ c :: b → stop (c :: b ++ (m ++ s)) = none)
    (hfound : stop (m ++ s) = some s) : untilMatch? stop (x ++ (m ++ s)) = some (x, s) := by
  induction x with
  | nil =>
    obtain ⟨c, m, rfl⟩ := List.exists_cons_of_ne_nil hm
    rw [List.cons_append] at hfound
    rw [List.nil_append, List.cons_append, untilMatch?, hfound]
  | cons c x ih =>
    have hc := hx [] c x rfl
    rw [List.cons_append] at hc
    have hrest := ih fun a e b h => hx (c :: a) e b (by rw [h]; rfl)
    rw [List.cons_append, untilMatch?, hc, hrest]
    rfl

theorem upTo?_eq_untilMatch? (stop s : List Char) : upTo? stop s = untilMatch? (after? stop) s := by
  induction s with
  | nil => rfl
  | cons c s ih => rw [upTo?, untilMatch?, ih]

/-- A search fails exactly if the text stands nowhere. -/
theorem upTo?_eq_none_iff {p : List Char} (hne : p ≠ []) (s : List Char) :
    upTo? p s = none ↔ ¬p <:+: s := by
  induction s with
  | nil => simp [upTo?, hne]
  | cons c s ih =>
    rw [upTo?, List.infix_cons_iff, prefix_iff_after?]
    cases after? p (c :: s) with
    | some rest => simp
    | none => simpa using ih

/-- A search goes up to the first place. -/
theorem not_infix_of_upTo? {p s inner rest : List Char} (hne : p ≠ [])
    (h : upTo? p s = some (inner, rest)) : ¬p <:+: inner := by
  fun_induction upTo? p s generalizing inner with
  | case1 => cases h
  | case2 c s rest' hfound =>
    cases h
    simpa using hne
  | case3 c s hnone ih =>
    rw [Option.map_eq_some_iff] at h
    obtain ⟨⟨inner', rest'⟩, hrest, heq⟩ := h
    obtain ⟨rfl, rfl⟩ := Prod.mk.inj heq
    rw [List.infix_cons_iff, not_or]
    refine ⟨fun hstart => ?_, ih hrest⟩
    -- The text up to the place is a part of the whole.
    have hwhole : c :: inner' <+: c :: s := by
      rw [upTo?_eq_some hrest]
      exact List.prefix_append (c :: inner') (p ++ rest')
    have hfound := prefix_iff_after?.1 (hstart.trans hwhole)
    rw [hnone] at hfound
    cases hfound

/-- A delimiter is found where it was put behind a text without it. -/
theorem upTo?_delimiter {d : Char} {q x : List Char} (hd : d ∉ q) (hx : ¬d :: q <:+: x)
    (s : List Char) : upTo? (d :: q) (x ++ (d :: q ++ s)) = some (x, s) := by
  rw [upTo?_eq_untilMatch?]
  refine untilMatch?_append (List.cons_ne_nil d q) ?_ (after?_append _ s)
  rintro a c b rfl
  exact after?_delimiter_eq_none hd hx (q ++ s)

section Walk

variable {α : Type} {r : Recogniser α}

/-- What starts with a fixed text is not found in a text without it. -/
theorem dull_of_absent {p x : List Char}
    (hr : ∀ before s, after? p s = none → r before s = none) (hx : ¬p <:+: x)
    (before : Option Char) : Dull r before x [] := by
  rintro a c b rfl
  refine hr _ _ (after?_eq_none_of_absent fun hinfix => hx ?_)
  rw [List.append_nil] at hinfix
  exact hinfix.trans (List.suffix_append a _).isInfix

/-- What starts with a delimiter is not found in a text without it, even if the next delimiter
starts behind that text. -/
theorem dull_of_delimiter {d : Char} {q x : List Char} (hd : d ∉ q)
    (hr : ∀ before s, after? (d :: q) s = none → r before s = none) (hx : ¬d :: q <:+: x)
    (before : Option Char) (s : List Char) : Dull r before x (d :: s) := by
  rintro a c b rfl
  exact hr _ _ (after?_delimiter_eq_none hd hx s)

end Walk

end PageCompiler.Text
