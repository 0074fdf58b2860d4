import PageCompiler.Proofs.Artifact.Script
import PageCompiler.Proofs.Markup.EndTag
import PageCompiler.Proofs.Policy.References

/-!
# `PageCompiler.Proofs.Artifact.Enclosure`: a script and a style inside of their elements

Script and style of a page stand in elements of raw text, so neither may hold the end tag of its
element. The style is made of fixed rules and holds no tag at all (`lt_not_mem_style`). Into the
script go texts of the document: members of the state and descriptions of handlers.
`holdsEnd_script` says that nothing else matters: the script holds its end tag exactly if one of
these texts does. A policy makes no new end tags (`holdsEnd_of_withHeader`), and takes none away if
all members of the state are variables (`holdsEnd_withHeader`).
-/

set_option autoImplicit false

namespace PageCompiler

open Text Markup Directive

/-- Handlers are variables. -/
theorem Directive.isIdent_of_mem_handlers {markup name : String} (h : name ∈ handlers markup) :
    IsIdent name.toList := by
  obtain ⟨before, s, rest, hfound⟩ := exists_of_mem_findAll (List.mem_eraseDups.1 h)
  unfold handler at hfound
  simp only [Option.bind_eq_bind, Option.bind_eq_some_iff] at hfound
  obtain ⟨s₁, -, ⟨_, s₂⟩, -, s₃, -, ⟨found, s₄⟩, hident, hfound⟩ := hfound
  obtain ⟨-, hname, -⟩ := ident?_eq_some.1 hident
  have heq : name = String.ofList found := by
    simp only at hfound
    split at hfound
    · exact (Prod.mk.inj (Option.some.inj hfound)).1.symm
    · exact (Prod.mk.inj (Option.some.inj hfound)).1.symm
    · cases hfound
  rw [heq, String.toList_ofList]
  exact hname

/-! ### The script as it is put together -/

theorem Value.anyFieldText_of_mem {p : String → Bool} {fields : Fields} {key : String} {v : Value}
    (hmem : (key, v) ∈ fields) (h : v.anyText p = true) : anyFieldText p fields = true := by
  induction fields with
  | nil => cases hmem
  | cons entry fields ih =>
    obtain ⟨key', v'⟩ := entry
    rw [anyFieldText]
    rcases List.mem_cons.1 hmem with heq | hmem
    · cases heq
      simp [h]
    · simp [ih hmem]

/-- The end tags of lines are those of each line. -/
theorem Markup.holdsEnd_feed {tag : String} (htag : ('\n').toLower ∉ '<' :: '/' :: tag.toList)
    (ls : List (List Char)) (last : List Char) :
    holdsEnd tag (feed ls ++ last) = (ls.any (holdsEnd tag) || holdsEnd tag last) := by
  induction ls with
  | nil => simp
  | cons l ls ih =>
    rw [feed_cons, List.append_assoc, List.cons_append, holdsEnd_append_cons htag, ih,
      List.any_cons, Bool.or_assoc]

namespace Assembly

/-- Some text of a document that goes into the script satisfies `p`: a name or a text in the state,
or the description of a handler that gets a stub. -/
def reaches (p : String → Bool) (d : Document) (state : Fields) (markup : String) : Bool :=
  Value.anyFieldText p state ||
    (handlers markup).any fun name =>
      !Assoc.has state name && (Assoc.get? (handlerDescriptions d) name).any p

/-- A value stays once a name has it. -/
theorem mem_foldl_addDefault {pairs state : Fields} {entry : String × Value} (h : entry ∈ state) :
    entry ∈ pairs.foldl (fun state (name, v) => addDefault state name v) state := by
  induction pairs generalizing state with
  | nil => exact h
  | cons pair pairs ih =>
    refine ih ?_
    show entry ∈ addDefault state pair.1 pair.2
    unfold addDefault
    split
    · exact h
    next hhas =>
      rw [Assoc.insert_of_not_mem (mt Assoc.has_iff.2 hhas)]
      exact List.mem_append_left _ h

/-- The title of a document goes into the script. -/
theorem reaches_of_title {p : String → Bool} {d : Document} {fragments : List Fragment}
    {markup : String} {s : Fields} (hstate : state d fragments markup = .ok s)
    (htitle : p d.title = true) : reaches p d s markup = true := by
  have hmem : ("appTitle", Value.text d.title) ∈ s := by
    obtain ⟨declared, -, h⟩ := Failure.bind_ok hstate
    cases h
    exact mem_foldl_addDefault (List.mem_singleton.2 rfl)
  have htext : (Value.text d.title).anyText p = true := by
    rw [Value.anyText]
    exact htitle
  rw [reaches, Value.anyFieldText_of_mem hmem htext, Bool.true_or]

/-- The line of a member of the state. -/
theorem holdsEnd_data (name : String) (v : Value) :
    holdsEnd "script" ("      " ++ name ++ ": " ++ Json.literal v ++ ",").toList =
      (holdsEnd "script" name.toList || v.anyText fun s => holdsEnd "script" s.toList) := by
  have hnil : holdsEnd "script" [] = false := by decide
  have hline : ("      " ++ name ++ ": " ++ Json.literal v ++ ",").toList =
      "      ".toList ++ (name.toList ++ ':' :: ([' '] ++ ((Json.literal v).toList ++ [',']))) := by
    simp [String.toList_append]
  rw [hline, holdsEnd_append_left (by decide), holdsEnd_append_cons (by decide),
    holdsEnd_append_left (by decide), holdsEnd_append_cons (by decide), hnil, Bool.or_false,
    Json.literal, Json.holdsEnd_write]

/-- A variable holds no sign of a tag. -/
theorem lt_not_mem_of_isIdent {name : List Char} (h : IsIdent name) : '<' ∉ name :=
  fun hmem => absurd (h.chars _ hmem) (by decide)

/-- The lines of a stub hold an end tag exactly if the description does. -/
theorem any_holdsEnd_handlerStub {descriptions : Assoc String} {name : String}
    (hname : IsIdent name.toList) :
    (handlerStub descriptions name).any (fun l => holdsEnd "script" l.toList) =
      (Assoc.get? descriptions name).any fun s => holdsEnd "script" s.toList := by
  have hlt := lt_not_mem_of_isIdent hname
  have hhead : holdsEnd "script" ("    " ++ name ++ "(...args) \x7b").toList = false := by
    refine holdsEnd_of_not_mem ?_
    simp only [String.toList_append, List.mem_append, not_or]
    exact ⟨⟨by decide, hlt⟩, by decide⟩
  have hcall : holdsEnd "script"
      ("      console.debug(" ++ Json.quote true ("[apml] " ++ name) ++ ", ...args);").toList =
        false := by
    have hquoted : holdsEnd "script" (Json.quote true ("[apml] " ++ name)).toList = false := by
      rw [Json.holdsEnd_quote]
      refine holdsEnd_of_not_mem ?_
      rw [String.toList_append, List.mem_append, not_or]
      exact ⟨by decide, hlt⟩
    have hline : ("      console.debug(" ++ Json.quote true ("[apml] " ++ name) ++
        ", ...args);").toList = "      console.debug(".toList ++
          ((Json.quote true ("[apml] " ++ name)).toList ++ ',' :: " ...args);".toList) := by
      simp [String.toList_append]
    rw [hline, holdsEnd_append_left (by decide), holdsEnd_append_cons (by decide), hquoted]
    decide
  have hend : holdsEnd "script" "    \x7d,".toList = false := by decide
  unfold handlerStub
  simp only [List.any_append, List.any_cons, List.any_nil, hhead, hcall, hend, Bool.or_false]
  cases Assoc.get? descriptions name with
  | none => rfl
  | some text =>
    show (holdsEnd "script" ("    // " ++ text).toList || false) = holdsEnd "script" text.toList
    rw [Bool.or_false, String.toList_append, holdsEnd_append_left (by decide)]

/-- The lines of the state hold an end tag exactly if one of its names or texts does. -/
theorem any_holdsEnd_state (s : Fields) :
    (s.map fun (name, v) => "      " ++ name ++ ": " ++ Json.literal v ++ ",").any
        (fun l => holdsEnd "script" l.toList) =
      Value.anyFieldText (fun t => holdsEnd "script" t.toList) s := by
  induction s with
  | nil => rfl
  | cons entry s ih =>
    obtain ⟨name, v⟩ := entry
    rw [List.map_cons, List.any_cons, ih, holdsEnd_data, Value.anyFieldText]

/-- The lines of a script hold its end tag exactly if a text that reaches them does. -/
theorem any_holdsEnd_bodyLines {d : Document} {s : Fields} {markup : String} :
    (bodyLines d s markup).any (fun l => holdsEnd "script" l.toList) =
      reaches (fun t => holdsEnd "script" t.toList) d s markup := by
  have hstubs : (methodLines d s markup "").any (fun l => holdsEnd "script" l.toList) =
      (handlers markup).any fun name => !Assoc.has s name &&
        (Assoc.get? (handlerDescriptions d) name).any fun t => holdsEnd "script" t.toList := by
    rw [methodLines_empty, List.any_flatMap, List.any_filter, Bool.eq_iff_iff, List.any_eq_true,
      List.any_eq_true]
    refine exists_congr fun name => and_congr_right fun hname => ?_
    rw [any_holdsEnd_handlerStub (isIdent_of_mem_handlers hname)]
  have hopening : ["\ncreateApp(\x7b", "  data() \x7b", "    return \x7b"].any
      (fun l => holdsEnd "script" l.toList) = false := by decide
  have hbetween : ["    \x7d;", "  \x7d,", "  methods: \x7b"].any
      (fun l => holdsEnd "script" l.toList) = false := by decide
  have hend : ["  \x7d,"].any (fun l => holdsEnd "script" l.toList) = false := by decide
  rw [bodyLines, List.any_append, List.any_append, List.any_append, List.any_append, hopening,
    hbetween, hend, hstubs, any_holdsEnd_state, Bool.false_or, Bool.or_false, Bool.or_false,
    reaches]

/-- The script of a page holds its end tag exactly if one of the texts does that go into it. -/
theorem holdsEnd_script {d : Document} {fragments : List Fragment} {markup text : String}
    {s : Fields} (hstate : state d fragments markup = .ok s)
    (h : script d fragments markup "" = .ok text) :
    holdsEnd "script" text.toList = reaches (fun t => holdsEnd "script" t.toList) d s markup := by
  have hfirst : holdsEnd "script" "const \x7b createApp \x7d = Vue;".toList = false := by
    exact holdsEnd_of_not_mem (by decide)
  have hlast : holdsEnd "script" lastLine.toList = false := holdsEnd_of_not_mem (by decide)
  have hheader : holdsEnd "script" (Artifact.runtimeHeader Artifact.runtime).toList = false :=
    holdsEnd_of_not_mem (by decide)
  rw [toList_script hstate h, holdsEnd_append_cons (by decide), hheader, Bool.false_or,
    holdsEnd_feed (by decide), hlast, Bool.or_false, List.any_cons, hfirst, Bool.false_or,
    List.any_map]
  exact any_holdsEnd_bodyLines

end Assembly

/-! ### The style -/

/-- No text of a rule holds the start of a tag. -/
def Markup.Rule.isTagless (r : Rule) : Bool :=
  !r.selector.toList.contains '<' &&
    r.declarations.all fun (name, value) =>
      !name.toList.contains '<' && !value.toList.contains '<'

/-- A style sheet holds no tag if no text of its rules does. -/
theorem Markup.lt_not_mem_styleSheet {rules : List Rule}
    (h : (rules.all Rule.isTagless) = true) : '<' ∉ (styleSheet rules).toList := by
  rw [styleSheet, String.toList_intercalate]
  intro hmem
  refine forall_mem_intercalate (P := (· ≠ '<')) (by decide) ?_ '<' hmem rfl
  rintro part hpart c hc rfl
  obtain ⟨line, hline, rfl⟩ := List.mem_map.1 hpart
  obtain ⟨r, hr, hline⟩ := List.mem_flatMap.1 hline
  have htagless := List.all_eq_true.1 h r hr
  simp only [Rule.isTagless, Bool.and_eq_true, List.all_eq_true, Bool.not_eq_true',
    List.contains_eq_mem, decide_eq_false_iff_not] at htagless
  obtain ⟨hselector, hdeclarations⟩ := htagless
  rcases List.mem_cons.1 hline with rfl | hline
  · rw [String.toList_append, List.mem_append] at hc
    exact hc.elim hselector (absurd · (by decide))
  rcases List.mem_append.1 hline with hline | hline
  · obtain ⟨⟨name, value⟩, hentry, rfl⟩ := List.mem_map.1 hline
    obtain ⟨hname, hvalue⟩ := hdeclarations (name, value) hentry
    simp only [String.toList_append, List.mem_append] at hc
    rcases hc with (((hc | hc) | hc) | hc) | hc
    · exact absurd hc (by decide)
    · exact hname hc
    · exact absurd hc (by decide)
    · exact hvalue hc
    · exact absurd hc (by decide)
  · rw [List.mem_singleton.1 hline] at hc
    exact absurd hc (by decide)

/-- The styles of the standard patterns. -/
theorem Registry.standardPatterns_styles :
    standardPatterns.map Pattern.style =
      [Pattern.formStyle, Pattern.dialogStyle, Pattern.tableStyle, Pattern.wizardStyle,
       Pattern.listStyle, Pattern.formStyle, Pattern.emailStyle, "", Pattern.progressStyle,
       Pattern.panelStyle, Pattern.panelStyle, Pattern.panelStyle] ++
        List.replicate 6 Pattern.cardStyle :=
  rfl

/-- No standard style opens a tag. -/
theorem Registry.lt_not_mem_style : ∀ p ∈ standardPatterns, '<' ∉ p.style.toList := by
  have hnone : '<' ∉ "".toList := by decide
  have hform : '<' ∉ Pattern.formStyle.toList := lt_not_mem_styleSheet (by decide +kernel)
  have hdialog : '<' ∉ Pattern.dialogStyle.toList := lt_not_mem_styleSheet (by decide +kernel)
  have htable : '<' ∉ Pattern.tableStyle.toList := lt_not_mem_styleSheet (by decide +kernel)
  have hwizard : '<' ∉ Pattern.wizardStyle.toList := lt_not_mem_styleSheet (by decide +kernel)
  have hlist : '<' ∉ Pattern.listStyle.toList := lt_not_mem_styleSheet (by decide +kernel)
  have hemail : '<' ∉ Pattern.emailStyle.toList := lt_not_mem_styleSheet (by decide +kernel)
  have hprogress : '<' ∉ Pattern.progressStyle.toList := lt_not_mem_styleSheet (by decide +kernel)
  have hpanel : '<' ∉ Pattern.panelStyle.toList := lt_not_mem_styleSheet (by decide +kernel)
  have hcard : '<' ∉ Pattern.cardStyle.toList := lt_not_mem_styleSheet (by decide +kernel)
  have hall : ∀ style ∈ standardPatterns.map Pattern.style, '<' ∉ style.toList := by
    rw [standardPatterns_styles]
    simp only [List.replicate, List.cons_append, List.nil_append, List.forall_mem_cons]
    exact ⟨hform, hdialog, htable, hwizard, hlist, hform, hemail, hnone, hprogress, hpanel, hpanel,
      hpanel, hcard, hcard, hcard, hcard, hcard, hcard, by simp⟩
  intro p hp
  exact hall p.style (List.mem_map_of_mem hp)

namespace Assembly

/-- A block of a style was there before or is one of those added. -/
theorem mem_foldl_addStyle {styles blocks : List String} {b : String}
    (h : b ∈ styles.foldl addStyle blocks) : b ∈ blocks ∨ b ∈ styles := by
  induction styles generalizing blocks with
  | nil => exact .inl h
  | cons style styles ih =>
    rcases ih h with hb | hb
    · unfold addStyle at hb
      split at hb
      · exact .inl hb
      · rcases List.mem_append.1 hb with hb | hb
        · exact .inl hb
        · exact .inr (List.mem_cons.2 (.inl (List.mem_singleton.1 hb)))
    · exact .inr (List.mem_cons_of_mem style hb)

/-- The style of a page for which no rules are given from outside holds no tag. -/
theorem lt_not_mem_style (fragments : List Fragment) :
    '<' ∉ (style .standard fragments "").toList := by
  rw [style, String.toList_intercalate]
  intro hmem
  refine forall_mem_intercalate (P := (· ≠ '<')) (by decide) ?_ '<' hmem rfl
  rintro block hblock c hc rfl
  obtain ⟨b, hb, rfl⟩ := List.mem_map.1 hblock
  rcases mem_foldl_addStyle hb with hb | hb
  · rw [List.mem_singleton.1 hb] at hc
    exact lt_not_mem_styleSheet (by decide +kernel) hc
  rcases List.mem_append.1 hb with hb | hb
  · obtain ⟨f, -, hf⟩ := List.mem_filterMap.1 hb
    obtain ⟨p, hp, rfl⟩ := Option.map_eq_some_iff.1 hf
    obtain ⟨id, -, hp⟩ := Option.bind_eq_some_iff.1 hp
    exact Registry.lt_not_mem_style p (List.mem_of_find?_eq_some hp) hc
  · rw [List.mem_singleton.1 hb] at hc
    exact absurd hc (by decide)

end Assembly

namespace Policy

/-- Renaming selectors puts no tag into a style. -/
theorem lt_not_mem_renameSelectors {style renamed : List Char}
    (h : Policy.default.renameSelectors style = .ok renamed) (hstyle : '<' ∉ style) :
    '<' ∉ renamed := by
  have hfill : ∀ e ∈ Policy.default.classAliases,
      ((Template.parse ('.' :: ['.'].intercalate (fields e.2.toList))).toOption.all fun parts =>
        !(Template.fill ('.' :: e.1.toList) parts).contains '<') = true := by
    decide
  unfold renameSelectors at h
  generalize Policy.default.classAliases = aliases at h hfill
  induction aliases generalizing style with
  | nil =>
    cases h
    exact hstyle
  | cons entry aliases ih =>
    obtain ⟨old, target⟩ := entry
    obtain ⟨hentry, hrest⟩ := List.forall_mem_cons.1 hfill
    rw [List.foldlM_cons] at h
    obtain ⟨next, hnext, h⟩ := Failure.bind_ok h
    refine ih ?_ h hrest
    obtain ⟨parts, hparts, hnext⟩ := Failure.bind_ok hnext
    cases hnext
    rw [hparts] at hentry
    have hnew : '<' ∉ Template.fill ('.' :: old.toList) parts := by
      simpa [Except.toOption] using hentry
    intro hmem
    refine (edited_selector old _ style).forall_mem (P := (· ≠ '<')) ?_ ?_ '<' hmem rfl
    · rintro c hc rfl
      exact hstyle hc
    · rintro before _ new rest ⟨-, rfl, -⟩ c hc rfl
      exact hnew hc

end Policy

/-! ### The script under a policy -/

namespace Policy

/-- No default alias and no canonical name starts like the name of the script element. -/
theorem aliases_unlike_script : ∀ e ∈ Policy.default.identifierAliases,
    (e.1.toList.map Char.toLower).take 2 ≠ ['s', 'c'] ∧ 2 ≤ e.1.toList.length ∧
      (e.2.toList.map Char.toLower).take 2 ≠ ['s', 'c'] ∧ 2 ≤ e.2.toList.length ∧
        IsIdent e.1.toList ∧ IsIdent e.2.toList := by
  decide

/-- Two texts of which one starts like the name of the script element. -/
theorem append_ne_script {x w u v : List Char} (hlength : 2 ≤ x.length)
    (hx : (x.map Char.toLower).take 2 ≠ ['s', 'c']) (hw : w.map Char.toLower = "script".toList) :
    x ++ u ≠ w ++ v := by
  intro heq
  apply hx
  have htake := congrArg (fun z => (z.map Char.toLower).take 2) heq
  simp only [List.map_append, hw] at htake
  rw [List.take_append_of_le_length (by simpa using hlength)] at htake
  simpa using htake

/-- Renaming keeps end tags and makes no new ones. -/
theorem holdsEnd_run (s : List Char) :
    holdsEnd "script" (Rename.run Policy.default.identifierAliases s) = holdsEnd "script" s := by
  refine (holdsEnd_congr fun y hy => ?_).symm
  have hmem := hy.mem_script
  obtain ⟨w, rfl, hw⟩ := hy.exists_cons
  have hedited : Edited (renamed Policy.default.identifierAliases) none s
      (Rename.run Policy.default.identifierAliases s) :=
    edited_run regular_default s (by simp [precededBy])
  have halias : ∀ {before : Option Char} {old new rest : List Char},
      renamed Policy.default.identifierAliases before old new rest →
        ∃ e ∈ Policy.default.identifierAliases, e.1.toList = old ∧ e.2.toList = new := by
    rintro before old new rest ⟨target, hget, rfl, -⟩
    exact ⟨_, Assoc.mem_of_get? hget, by simp, rfl⟩
  refine hedited.infix_iff ?_ ?_
  · intro before old new rest hold
    obtain ⟨e, he, rfl, rfl⟩ := halias hold
    obtain ⟨-, -, -, -, hold', hnew⟩ := aliases_unlike_script e he
    exact ⟨Assembly.lt_not_mem_of_isIdent hold', Assembly.lt_not_mem_of_isIdent hnew⟩
  · intro a b hab hb old new rest hold u v
    obtain ⟨e, he, rfl, rfl⟩ := halias hold
    obtain ⟨hold₂, holdLength, hnew₂, hnewLength, hold', hnew⟩ := aliases_unlike_script e he
    obtain ⟨-, -, -, hbefore, -⟩ := hold
    -- A name starts behind the slash or not at all, and then it is unlike that of the element.
    cases a with
    | nil =>
      rw [List.nil_append] at hab
      subst hab
      have hslash : ∀ {x : List Char}, IsIdent x → x ++ u ≠ '/' :: w ++ v := by
        intro x hx heq
        obtain ⟨c, x, rfl⟩ := List.exists_cons_of_ne_nil hx.ne_nil
        obtain ⟨rfl, -⟩ := List.cons.inj heq
        exact absurd (hx.chars '/' (by simp)) (by decide)
      exact ⟨hslash hold', hslash hnew⟩
    | cons c a =>
      obtain rfl : '/' = c := (List.cons.inj hab).1
      obtain rfl : w = a ++ b := (List.cons.inj hab).2
      rcases List.eq_nil_or_concat a with rfl | ⟨a, c, rfl⟩
      · exact ⟨append_ne_script holdLength hold₂ hw, append_ne_script hnewLength hnew₂ hw⟩
      · have hletters : ∀ c ∈ "</scriptSCRIPT".toList, c.toLower ∈ "script".toList →
            isIdentChar c = true := by decide
        have hlower : c.toLower ∈ "script".toList := by
          rw [← hw]
          exact List.mem_map_of_mem (by simp)
        have hc := hletters c (hmem c (by simp)) hlower
        simp [precededBy, hc] at hbefore

/-- Replacing markers keeps end tags and makes no new ones. -/
theorem holdsEnd_replaceMarkers (s : List Char) :
    holdsEnd "script" (Policy.default.replaceMarkers s) = holdsEnd "script" s := by
  refine (holdsEnd_congr fun y hy => ?_).symm
  have hv : 'v' ∉ y := hy.not_mem (by decide)
  obtain ⟨w, rfl, hw⟩ := hy.exists_cons
  refine (edited_replaceMarkers Policy.default s).infix_iff ?_ ?_
  · rintro before old new rest ⟨rfl, version, rfl, hversion⟩
    refine ⟨?_, by decide⟩
    rw [List.mem_append, not_or]
    exact ⟨by decide, fun hmem => absurd (hversion _ hmem) (by decide)⟩
  · rintro a b hab hb old new rest ⟨rfl, version, rfl, -⟩ u v
    -- A marker starts with a letter that is not in the tag.
    obtain ⟨c, b, rfl⟩ := List.exists_cons_of_ne_nil hb
    have hc : 'v' ≠ c := by
      rintro rfl
      exact hv (List.mem_cons_of_mem _ (by simp [hab]))
    exact ⟨fun heq => hc (List.cons.inj heq).1, fun heq => hc (List.cons.inj heq).1⟩

/-- Markers put no tag into a text. -/
theorem lt_not_mem_replaceMarkers {s : List Char} (h : '<' ∉ s) :
    '<' ∉ Policy.default.replaceMarkers s := by
  intro hmem
  refine (edited_replaceMarkers Policy.default s).forall_mem (P := (· ≠ '<')) ?_ ?_ '<' hmem rfl
  · rintro c hc rfl
    exact h hc
  · rintro before old _ rest ⟨rfl, -⟩ c hc rfl
    exact absurd hc (by decide)

/-- The header of a policy in front of a script makes no new end tags. -/
theorem holdsEnd_of_withHeader {s : List Char}
    (h : holdsEnd "script" (Policy.default.withHeader s) = true) : holdsEnd "script" s = true := by
  have hheader : '<' ∉ (Artifact.runtimeHeader Policy.default.runtimeMarker).toList := by
    decide
  rw [withHeader, holdsEnd_append_cons (by decide), holdsEnd_of_not_mem hheader, Bool.false_or] at h
  obtain ⟨y, hy, hinfix⟩ := holdsEnd_iff.1 h
  have hinfix := hinfix.trans (List.dropWhile_suffix _).isInfix
  rw [replaceAll_eq] at hinfix
  have hcut : ∀ {before : Option Char} {s : List Char} {found : Unit} {rest : List Char},
      header before s = some (found, rest) → ∃ m, m ≠ [] ∧ s = m ++ rest := by
    intro before s found rest hfound
    obtain ⟨m, d, rfl, -⟩ := header_eq_some hfound
    exact ⟨m ++ [d], by simp, by simp⟩
  have hkept := infix_of_scanFrom_lineWise lineWise_header header_nil hcut
    (hy.not_mem (by decide)) hy.ne_nil hinfix
  rw [← holdsEnd_replaceMarkers]
  exact holdsEnd_iff.2 ⟨y, hy, hkept⟩

end Policy

/-- If all members of the state are variables, a policy takes no end tag out of a script. -/
theorem Assembly.holdsEnd_withHeader {d : Document} {fragments : List Fragment}
    {markup text : String} {s : Fields} (hstate : state d fragments markup = .ok s)
    (h : script d fragments markup "" = .ok text)
    (hkeys : ∀ name ∈ Assoc.keys s, IsIdent name.toList) :
    holdsEnd "script" (Policy.default.withHeader
        (Rename.run Policy.default.identifierAliases text.toList)) =
      holdsEnd "script" text.toList := by
  obtain ⟨hfirst, hlines, hseparate, hlast⟩ := lines_bodyLines d hkeys fun name hname =>
    isIdent_of_mem_handlers hname
  have hsame := Policy.withHeader_run_feed hfirst hlines hseparate hlast
  rw [← toList_script hstate h] at hsame
  rw [hsame, Policy.holdsEnd_replaceMarkers, Policy.holdsEnd_run]

end PageCompiler
