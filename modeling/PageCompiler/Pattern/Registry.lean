import PageCompiler.Pattern.Card
import PageCompiler.Pattern.Dialog
import PageCompiler.Pattern.Form
import PageCompiler.Pattern.Panel
import PageCompiler.Pattern.Steps
import PageCompiler.Pattern.Table

/-!
# `PageCompiler.Pattern.Registry`: the patterns in use

A registry is a list of patterns with different, non-empty ids. Its order matters: where several
patterns answer to the words of a component, the first one is taken.
-/

set_option autoImplicit false

namespace PageCompiler

/-- The patterns in use, in order. -/
structure Registry where
  patterns : List Pattern
  ids_nodup : (patterns.map Pattern.id).Nodup
  ids_ne_empty : ∀ id ∈ patterns.map Pattern.id, id ≠ ""

/-- Why a pattern cannot be registered. -/
inductive RegistryError where
  | emptyId
  | duplicateId (id : String)
  deriving DecidableEq, Repr

/-- What is said about a pattern that cannot be registered. -/
def RegistryError.message : RegistryError → String
  | .emptyId => "Pattern id must be a non-empty string"
  | .duplicateId id => "Duplicate pattern id: " ++ id

namespace Registry

/-- The ids in order. -/
def ids (r : Registry) : List String :=
  r.patterns.map Pattern.id

/-- The pattern of an id. -/
def get? (r : Registry) (id : String) : Option Pattern :=
  r.patterns.find? fun p => p.id == id

/-- A pattern has the id. -/
def has (r : Registry) (id : String) : Bool :=
  r.patterns.any fun p => p.id == id

/-- Adds a pattern at the end. -/
def add (r : Registry) (p : Pattern) : Except RegistryError Registry :=
  if he : p.id = "" then .error .emptyId
  else if hd : p.id ∈ r.patterns.map Pattern.id then .error (.duplicateId p.id)
  else
    .ok
      { patterns := r.patterns ++ [p]
        ids_nodup := by
          rw [List.map_append, List.nodup_append]
          refine ⟨r.ids_nodup, by simp, ?_⟩
          intro a ha b hb hab
          simp only [List.map_cons, List.map_nil, List.mem_singleton] at hb
          exact hd (hb ▸ hab ▸ ha)
        ids_ne_empty := by
          intro id hid
          rw [List.map_append, List.mem_append] at hid
          rcases hid with hid | hid
          · exact r.ids_ne_empty id hid
          · simp only [List.map_cons, List.map_nil, List.mem_singleton] at hid
            exact hid ▸ he }

/-- Adds patterns one after another. -/
def addAll (r : Registry) (ps : List Pattern) : Except RegistryError Registry :=
  ps.foldlM add r

/-- The patterns that every registry starts with. -/
def standardPatterns : List Pattern :=
  [Pattern.formInput, Pattern.modalDialog, Pattern.dataTable, Pattern.wizardComponent,
   Pattern.actionList, Pattern.textArea, Pattern.emailForm, Pattern.conditionalContent,
   Pattern.progressBar, Pattern.cardContainer, Pattern.scrollablePanel, Pattern.tabbedPanel,
   Pattern.welcomeCard, Pattern.scenarioCard, Pattern.followupCard, Pattern.breakthroughCard,
   Pattern.resultsCard, Pattern.thriveCard]

/-- The ids of the standard patterns. -/
theorem standardPatterns_ids :
    standardPatterns.map Pattern.id =
      ["form_input", "modal_dialog", "data_table", "wizard_component", "action_list", "text_area",
       "email_form", "conditional_content", "progress_bar", "card_container", "scrollable_panel",
       "tabbed_panel", "welcome_card", "scenario_card", "followup_card", "breakthrough_card",
       "results_card", "thrive_card"] :=
  rfl

/-- The registry of the standard patterns. -/
def standard : Registry where
  patterns := standardPatterns
  ids_nodup := by rw [standardPatterns_ids]; decide
  ids_ne_empty := by rw [standardPatterns_ids]; decide

/-- The standard patterns and some more. -/
def extended (extra : List Pattern) : Except RegistryError Registry :=
  standard.addAll extra

end Registry

end PageCompiler
