import PageCompiler.Artifact.Assembly
import PageCompiler.Proofs.Artifact.Captures
import PageCompiler.Proofs.Failure
import PageCompiler.Proofs.Json.Literal
import PageCompiler.Proofs.Policy.Merging
import PageCompiler.Proofs.Policy.Script
import PageCompiler.Proofs.Text.Blank

/-!
# `PageCompiler.Proofs.Artifact.Script`: the script of a page declares what its markup refers to

The script of a page has one line for each member of its state and a stub for each handler that is
no state. All its lines are such that a policy goes through them one by one (`Row`). So every name
that the markup refers to is declared, before and after a policy is applied (`script_declares`).
-/

set_option autoImplicit false

namespace PageCompiler

open Text Directive

/-! ### Rows -/

namespace Rename

/-- A line of a script that is renamed by itself. -/
structure Row (aliases : Assoc String) (l : List Char) (key : Option (List Char)) : Prop where
  line : Line l key
  separate : Separate aliases l

variable {aliases : Assoc String} (h : Regular aliases)

include h

/-- A line that starts with a name and a colon or parenthesis declares the name. -/
theorem row_declares (gap name rest : List Char) {c : Char} (hgap : ∀ d ∈ gap, isBlank d = true)
    (hname : IsIdent name) (hc : c ∈ [':', '(']) (hrest : Json.Inline aliases rest) :
    Row aliases (gap ++ (name ++ c :: rest)) (some name) where
  line := .declares hgap hname hc hrest.feed
  separate := by
    have hmarks : ∀ c ∈ [':', '('], isIdentChar c = false ∧ isQuietStart c = false := by decide
    obtain ⟨hident, hquiet⟩ := hmarks c hc
    have hfront : Closed aliases (gap ++ name) := by
      refine closed_of_words h fun d hd => ?_
      exact (List.mem_append.1 hd).imp (hgap d) (hname.chars d)
    rw [← List.append_assoc]
    exact (hfront.append_mark h hident hquiet hrest.closed).separate h

/-- A line that starts with a fixed word declares nothing. -/
theorem row_leads (gap gap' rest : List Char) {w : String} {c : Char}
    (hgap : ∀ d ∈ gap, Policy.isSpace d = true) (hw : w ∈ leadWords)
    (hgap' : ∀ d ∈ gap', Policy.isSpace d = true) (hc : c ∈ ['.', '\x7b'])
    (hrest : Json.Inline aliases rest) :
    Row aliases (gap ++ (w.toList ++ (gap' ++ c :: rest))) none where
  line := .leads hgap hw hgap' hc hrest.feed
  separate := by
    have hmarks : ∀ c ∈ ['.', '\x7b'], isIdentChar c = false ∧ isQuietStart c = false := by decide
    have hwords : ∀ w ∈ leadWords, ∀ d ∈ w.toList, isIdentChar d = true := by decide
    obtain ⟨hident, hquiet⟩ := hmarks c hc
    have hfront : Closed aliases (gap ++ w.toList ++ gap') := by
      refine closed_of_words h fun d hd => ?_
      simp only [List.mem_append] at hd
      rcases hd with (hd | hd) | hd
      · exact .inl (isBlank_of_spaces hgap d hd)
      · exact .inr (hwords w hw d hd)
      · exact .inl (isBlank_of_spaces hgap' d hd)
    rw [← List.append_assoc, ← List.append_assoc]
    exact (hfront.append_mark h hident hquiet hrest.closed).separate h

theorem row_closes (gap rest : List Char) (hgap : ∀ d ∈ gap, Policy.isSpace d = true)
    (hrest : Json.Inline aliases rest) : Row aliases (gap ++ '\x7d' :: rest) none where
  line := .closes hgap hrest.feed
  separate := by
    have hfront : Closed aliases gap :=
      closed_of_words h fun d hd => .inl (isBlank_of_spaces hgap d hd)
    exact (hfront.append_mark h (by decide) (by decide) hrest.closed).separate h

theorem row_comments (gap rest : List Char) (hgap : ∀ d ∈ gap, Policy.isSpace d = true)
    (hrest : '\n' ∉ rest) : Row aliases (gap ++ '/' :: '/' :: rest) none where
  line := .comments hgap hrest
  separate := separate_comment h (isBlank_of_spaces hgap) hrest

end Rename

/-! ### The lines of a script -/

namespace Assembly

open Rename

theorem toList_intercalate_feed (ls : List String) (last : String) :
    ("\n".intercalate (ls ++ [last])).toList = feed (ls.map String.toList) ++ last.toList := by
  induction ls with
  | nil => simp
  | cons l ls ih =>
    rw [List.cons_append, String.intercalate_cons_of_ne_nil (by simp), String.toList_append,
      String.toList_append, ih]
    simp

section Rows

variable {aliases : Assoc String} (h : Regular aliases)

include h

/-- The line of a member of the state. -/
theorem row_data {name : String} (hname : IsIdent name.toList) (v : Value) :
    Row aliases ("      " ++ name ++ ": " ++ Json.literal v ++ ",").toList (some name.toList) := by
  have hrest : Json.Inline aliases (' ' :: ((Json.literal v).toList ++ [','])) :=
    (Json.inline_write h v).between h (by decide) (by decide)
  have hrow := row_declares h "      ".toList name.toList _ (by decide) hname
    (List.mem_cons_self : ':' ∈ [':', '(']) hrest
  simpa [String.toList_append] using hrow

/-- The lines of a stub. -/
theorem rows_handlerStub {descriptions : Assoc String}
    (hdescriptions : ∀ e ∈ descriptions, '\n' ∉ e.2.toList) {name : String}
    (hname : IsIdent name.toList) :
    (∀ l ∈ handlerStub descriptions name, ∃ key, Row aliases l.toList key) ∧
      ∃ l ∈ handlerStub descriptions name, Row aliases l.toList (some name.toList) := by
  have hplain : ∀ x ∈ ["...args) \x7b", ",", "debug", " ...args);"],
      Json.Inline aliases x.toList := by
    have hchars : ∀ x ∈ ["...args) \x7b", ",", "debug", " ...args);"],
        ∀ c ∈ x.toList, isQuietStart c = false ∧ c ≠ '\n' := by decide
    exact fun x hx => Json.inline_of_plain h (hchars x hx)
  have hname : Row aliases ("    " ++ name ++ "(...args) \x7b").toList (some name.toList) := by
    have hrow := row_declares h "    ".toList name.toList "...args) \x7b".toList (by decide) hname
      (List.mem_cons_of_mem ':' List.mem_cons_self : '(' ∈ [':', '(']) (hplain _ (by simp))
    simpa [String.toList_append] using hrow
  have hreport : Row aliases
      ("      console.debug(" ++ Json.quote true ("[apml] " ++ name) ++ ", ...args);").toList
      none := by
    have hrest := (hplain "debug" (by simp)).append_mark (c := '(') h (by decide)
      ((Json.inline_quote h true ("[apml] " ++ name)).append_mark (c := ',') h (by decide)
        (hplain " ...args);" (by simp)))
    have hrow := row_leads h "      ".toList [] _ (by decide)
      (List.mem_cons_of_mem _ (List.mem_cons_of_mem _ List.mem_cons_self) : "console" ∈ leadWords)
      (List.forall_mem_nil _) (List.mem_cons_self : '.' ∈ ['.', '\x7b']) hrest
    simpa [String.toList_append] using hrow
  have hclose : Row aliases "    \x7d,".toList none := by
    have hrow := row_closes h "    ".toList ",".toList (by decide) (hplain _ (by simp))
    simpa using hrow
  have hcomment : ∀ text, Assoc.get? descriptions name = some text →
      Row aliases ("    // " ++ text).toList none := by
    intro text htext
    have hrow := row_comments h "    ".toList (' ' :: text.toList) (by decide)
      (by simp [hdescriptions _ (Assoc.mem_of_get? htext)])
    simpa [String.toList_append] using hrow
  unfold handlerStub
  refine ⟨?_, _, List.mem_append_right _ List.mem_cons_self, hname⟩
  intro l hl
  rcases List.mem_append.1 hl with hl | hl
  · cases hget : Assoc.get? descriptions name with
    | none =>
      rw [hget] at hl
      cases hl
    | some text =>
      rw [hget] at hl
      rw [List.mem_singleton.1 hl]
      exact ⟨none, hcomment text hget⟩
  · simp only [List.mem_cons, List.not_mem_nil, or_false] at hl
    rcases hl with rfl | rfl | rfl
    · exact ⟨_, hname⟩
    · exact ⟨_, hreport⟩
    · exact ⟨_, hclose⟩

/-- The fixed lines of a script behind its first. -/
theorem rows_fixed : ∀ l ∈ ["\ncreateApp(\x7b", "  data() \x7b", "    return \x7b", "    \x7d;",
    "  \x7d,", "  methods: \x7b"], ∃ key, Row aliases l.toList key := by
  have hplain : ∀ x ∈ ["\x7b", ") \x7b", "", ";", ",", " \x7b"], Json.Inline aliases x.toList := by
    have hchars : ∀ x ∈ ["\x7b", ") \x7b", "", ";", ",", " \x7b"],
        ∀ c ∈ x.toList, isQuietStart c = false ∧ c ≠ '\n' := by decide
    exact fun x hx => Json.inline_of_plain h (hchars x hx)
  have hidents : ∀ x ∈ ["createApp", "data", "methods"], IsIdent x.toList := by decide
  have hcolon : ':' ∈ [':', '('] := List.mem_cons_self
  have hparen : '(' ∈ [':', '('] := List.mem_cons_of_mem _ List.mem_cons_self
  intro l hl
  simp only [List.mem_cons, List.not_mem_nil, or_false] at hl
  rcases hl with rfl | rfl | rfl | rfl | rfl | rfl
  · have hrow := row_declares h ['\n'] _ _ (by decide) (hidents "createApp" (by simp)) hparen
      (hplain "\x7b" (by simp))
    exact ⟨_, by simpa using hrow⟩
  · have hrow := row_declares h [' ', ' '] _ _ (by decide) (hidents "data" (by simp)) hparen
      (hplain ") \x7b" (by simp))
    exact ⟨_, by simpa using hrow⟩
  · have hrow := row_leads h "    ".toList [' '] _ (by decide)
      (List.mem_cons_of_mem _ List.mem_cons_self : "return" ∈ leadWords) (by decide)
      (List.mem_cons_of_mem _ List.mem_cons_self : '\x7b' ∈ ['.', '\x7b']) (hplain "" (by simp))
    exact ⟨_, by simpa using hrow⟩
  · have hrow := row_closes h "    ".toList _ (by decide) (hplain ";" (by simp))
    exact ⟨_, by simpa using hrow⟩
  · have hrow := row_closes h "  ".toList _ (by decide) (hplain "," (by simp))
    exact ⟨_, by simpa using hrow⟩
  · have hrow := row_declares h [' ', ' '] _ _ (by decide) (hidents "methods" (by simp)) hcolon
      (hplain " \x7b" (by simp))
    exact ⟨_, by simpa using hrow⟩

/-- The first line of a script behind its header. -/
theorem row_first : Row aliases "const \x7b createApp \x7d = Vue;".toList none := by
  have hrow := row_leads h [] [' '] " createApp \x7d = Vue;".toList (List.forall_mem_nil _)
    (List.mem_cons_self : "const" ∈ leadWords) (by decide)
    (List.mem_cons_of_mem _ List.mem_cons_self : '\x7b' ∈ ['.', '\x7b'])
    (Json.inline_of_plain h (by decide))
  simpa using hrow

end Rows

/-! ### What a script declares -/

/-- Descriptions of handlers stay on one line. -/
theorem feed_not_mem_handlerDescriptions (d : Document) :
    ∀ e ∈ handlerDescriptions d, '\n' ∉ e.2.toList := by
  intro e he
  unfold handlerDescriptions at he
  split at he
  · cases he
  · obtain ⟨c, -, hc⟩ := List.mem_filterMap.1 he
    split at hc
    next t _ =>
      split at hc
      · cases hc
      · cases hc
        rw [String.toList_ofList]
        intro hmem
        have hblank : ∀ part ∈ fields t.toList, ∀ c ∈ part, c ≠ '\n' := by
          rintro part hpart c hc rfl
          exact absurd (mem_fields hpart _ hc).2 (by decide)
        exact forall_mem_intercalate (P := (· ≠ '\n')) (by decide) hblank _ hmem rfl
    next => cases hc

/-- An entry goes to the end if its name is new. -/
theorem addDefault_eq (state : Fields) (name : String) (v : Value) :
    addDefault state name v =
      if name ∈ Assoc.keys state then state else state ++ [(name, v)] := by
  unfold addDefault
  by_cases hname : name ∈ Assoc.keys state
  · rw [if_pos (Assoc.has_iff.2 hname), if_pos hname]
  · rw [if_neg (mt Assoc.has_iff.1 hname), if_neg hname, Assoc.insert_of_not_mem hname]

theorem mem_keys_addDefault {state : Fields} {key name : String} {v : Value} :
    name ∈ Assoc.keys (addDefault state key v) ↔ name ∈ Assoc.keys state ∨ name = key := by
  rw [addDefault_eq]
  split
  next hkey =>
    constructor
    · exact .inl
    · rintro (h | rfl)
      · exact h
      · exact hkey
  next =>
    rw [Assoc.keys, List.map_append, List.mem_append]
    exact or_congr_right List.mem_singleton

/-- A name stays once it has a value, and gets one if it is added. -/
theorem mem_keys_foldl_addDefault {pairs state : Fields} {name : String} :
    name ∈ Assoc.keys (pairs.foldl (fun state (name, v) => addDefault state name v) state) ↔
      name ∈ Assoc.keys state ∨ name ∈ Assoc.keys pairs := by
  induction pairs generalizing state with
  | nil => simp [Assoc.keys]
  | cons entry pairs ih =>
    obtain ⟨key, v⟩ := entry
    rw [List.foldl_cons, ih, mem_keys_addDefault, or_assoc]
    exact or_congr_right List.mem_cons.symm

/-- The state of a page has a member for the title, for each declaration and each name that a
fragment starts with a value, and for what the markup binds and loops over. -/
theorem mem_keys_state {d : Document} {fragments : List Fragment} {markup : String} {s : Fields}
    (h : state d fragments markup = .ok s) :
    ∃ declared, declaredState d = .ok declared ∧ ∀ name, name ∈ Assoc.keys s ↔
      name = "appTitle" ∨ name ∈ Assoc.keys (declared ++ fragments.flatMap Fragment.state) ∨
        name ∈ models markup ∨ name ∈ loops markup := by
  obtain ⟨declared, hdeclared, h⟩ := Failure.bind_ok h
  cases h
  refine ⟨declared, hdeclared, fun name => ?_⟩
  rw [mem_keys_foldl_addDefault]
  simp only [Assoc.keys, List.map_append, List.map_map, List.mem_append, Function.comp_def,
    List.map_id', List.map_cons, List.map_nil, List.mem_singleton, or_assoc]

/-- The lines of a script behind its first, up to the last. -/
def bodyLines (d : Document) (s : Fields) (markup : String) : List String :=
  ["\ncreateApp(\x7b", "  data() \x7b", "    return \x7b"] ++
    s.map (fun (name, v) => "      " ++ name ++ ": " ++ Json.literal v ++ ",") ++
    ["    \x7d;", "  \x7d,", "  methods: \x7b"] ++ methodLines d s markup "" ++ ["  \x7d,"]

/-- The last line of a script. -/
def lastLine : String :=
  "\x7d).mount('#app');"

/-- The script of a page without given methods, character by character. -/
theorem toList_script {d : Document} {fragments : List Fragment} {markup text : String}
    {s : Fields} (hstate : state d fragments markup = .ok s)
    (h : script d fragments markup "" = .ok text) :
    text.toList = (Artifact.runtimeHeader Artifact.runtime).toList ++ '\n' ::
      (feed ("const \x7b createApp \x7d = Vue;".toList ::
        (bodyLines d s markup).map String.toList) ++ lastLine.toList) := by
  rw [script, hstate] at h
  obtain rfl := Except.ok.inj h
  have hend : ["  \x7d,", "\x7d).mount('#app');"] = ["  \x7d,"] ++ [lastLine] := rfl
  simp only [hend, ← List.append_assoc]
  rw [toList_intercalate_feed, bodyLines]
  -- The empty line in front of the second joins it.
  simp only [List.map_append, List.map_cons, List.cons_append, List.nil_append, List.map_nil,
    feed_cons]
  simp

/-- Where no methods are given, there is a stub for every handler that is no state. -/
theorem methodLines_empty (d : Document) (s : Fields) (markup : String) :
    methodLines d s markup "" = ((handlers markup).filter fun name =>
      !Assoc.has s name).flatMap (handlerStub (handlerDescriptions d)) := by
  have hnone : methods "" = [] := by decide
  have hblank : allBlank "".toList = true := rfl
  rw [methodLines, if_pos hblank, hnone]
  simp

/-- Every line of a script is a row, and every member of the state and every handler that is no
state has its own. -/
theorem rows_bodyLines {aliases : Assoc String} (h : Regular aliases) (d : Document) {s : Fields}
    {markup : String} (hstate : ∀ name ∈ Assoc.keys s, IsIdent name.toList)
    (hhandlers : ∀ name ∈ handlers markup, IsIdent name.toList) :
    (∀ l ∈ bodyLines d s markup, ∃ key, Row aliases l.toList key) ∧
      ∀ name, name ∈ Assoc.keys s ∨ name ∈ handlers markup →
        ∃ l ∈ bodyLines d s markup, Row aliases l.toList (some name.toList) := by
  have hstub := fun (name : String) (hname : name ∈ handlers markup) =>
    rows_handlerStub h (feed_not_mem_handlerDescriptions d) (hhandlers name hname)
  have hdata : ∀ e ∈ s, Row aliases
      ("      " ++ e.1 ++ ": " ++ Json.literal e.2 ++ ",").toList (some e.1.toList) :=
    fun e he => row_data h (hstate e.1 (List.mem_map_of_mem he)) e.2
  have hfixed := rows_fixed h
  unfold bodyLines
  rw [methodLines_empty]
  constructor
  · simp only [List.forall_mem_append, List.forall_mem_map]
    refine ⟨⟨⟨⟨?_, fun e he => ⟨_, hdata e he⟩⟩, ?_⟩, ?_⟩, ?_⟩
    · exact fun l hl => hfixed l (by simp at hl ⊢; tauto)
    · exact fun l hl => hfixed l (by simp at hl ⊢; tauto)
    · intro l hl
      obtain ⟨name, hname, hl⟩ := List.mem_flatMap.1 hl
      exact (hstub name (List.mem_filter.1 hname).1).1 l hl
    · exact fun l hl => hfixed l (by simp at hl ⊢; tauto)
  · intro name hname
    by_cases hmem : name ∈ Assoc.keys s
    · obtain ⟨e, he, rfl⟩ := List.mem_map.1 hmem
      refine ⟨_, ?_, hdata e he⟩
      simp only [List.mem_append]
      exact .inl (.inl (.inl (.inr (List.mem_map_of_mem he))))
    · have hname := hname.resolve_left hmem
      obtain ⟨l, hl, hrow⟩ := (hstub name hname).2
      refine ⟨l, ?_, hrow⟩
      simp only [List.mem_append]
      refine .inl (.inr (List.mem_flatMap.2 ⟨name, List.mem_filter.2 ⟨hname, ?_⟩, hl⟩))
      simpa using mt Assoc.has_iff.1 hmem

/-- The lines of a script are such that the default policy goes through them one by one. -/
theorem lines_bodyLines (d : Document) {s : Fields} {markup : String}
    (hkeys : ∀ name ∈ Assoc.keys s, IsIdent name.toList)
    (hhandlers : ∀ name ∈ handlers markup, IsIdent name.toList) :
    Line "const \x7b createApp \x7d = Vue;".toList none ∧
      (∀ l ∈ (bodyLines d s markup).map String.toList, ∃ key, Line l key) ∧
      (∀ l ∈ "const \x7b createApp \x7d = Vue;".toList :: (bodyLines d s markup).map String.toList,
        Rename.Separate Policy.default.identifierAliases l) ∧
      Line lastLine.toList none := by
  obtain ⟨hrows, -⟩ := rows_bodyLines Markup.regular_default d hkeys hhandlers
  have hfirst := row_first Markup.regular_default
  have hlast : Line lastLine.toList none := by
    have hline := Line.closes (List.forall_mem_nil _) (by decide : '\n' ∉ ").mount('#app');".toList)
    simpa [lastLine] using hline
  refine ⟨hfirst.line, ?_, ?_, hlast⟩
  · rw [List.forall_mem_map]
    intro l hl
    obtain ⟨key, hrow⟩ := hrows l hl
    exact ⟨key, hrow.line⟩
  · rw [List.forall_mem_cons, List.forall_mem_map]
    refine ⟨hfirst.separate, fun l hl => ?_⟩
    obtain ⟨key, hrow⟩ := hrows l hl
    exact hrow.separate

/-- The script of a page declares every name that its markup refers to, and its canonical form once
the default policy is applied. -/
theorem script_declares {d : Document} {fragments : List Fragment} {markup text : String}
    {s : Fields} (hstate : state d fragments markup = .ok s)
    (h : script d fragments markup "" = .ok text)
    (hkeys : ∀ name ∈ Assoc.keys s, IsIdent name.toList)
    (hhandlers : ∀ name ∈ handlers markup, IsIdent name.toList) :
    ∀ name ∈ referred markup, name ∈ scriptKeys text ∧
      Policy.default.canonicalName name ∈ scriptKeys (String.ofList (Policy.default.withHeader
        (Rename.run Policy.default.identifierAliases text.toList))) := by
  obtain ⟨-, hdeclared⟩ := rows_bodyLines Markup.regular_default d hkeys hhandlers
  obtain ⟨hfirst, hlines, hseparate, hlast⟩ := lines_bodyLines d hkeys hhandlers
  have htext := toList_script hstate h
  obtain ⟨_, -, hmembers⟩ := mem_keys_state hstate
  intro name hname
  obtain ⟨l, hl, hrow⟩ := hdeclared name (by
    unfold referred at hname
    simp only [List.mem_append] at hname
    rcases hname with (hname | hname) | hname
    · exact .inr hname
    · exact .inl ((hmembers name).2 (.inr (.inr (.inl hname))))
    · exact .inl ((hmembers name).2 (.inr (.inr (.inr hname)))))
  have hl := List.mem_map_of_mem (f := String.toList) hl
  constructor
  · have hkey : String.ofList name.toList ∈ scriptKeys (String.ofList text.toList) := by
      have hhead : '\n' ∉ (Artifact.runtimeHeader Artifact.runtime).toList.tail := by decide
      rw [htext]
      refine mem_scriptKeys hhead ?_ (List.mem_cons_of_mem _ hl) hrow.line _
      exact List.forall_mem_cons.2 ⟨⟨none, hfirst⟩, hlines⟩
    rwa [String.ofList_toList, String.ofList_toList] at hkey
  · have hkey := Policy.mem_scriptKeys_withHeader hfirst hlines hseparate hlast hl hrow.line
    rw [← htext] at hkey
    rwa [Rename.canonical, String.ofList_toList, String.ofList_toList] at hkey

end Assembly

end PageCompiler
