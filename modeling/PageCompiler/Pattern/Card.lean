import PageCompiler.Markup.Css
import PageCompiler.Pattern.Element

/-!
# `PageCompiler.Pattern.Card`: cards of a guided flow

Six patterns that tell a story card by card: a welcome, a scenario with options, a follow-up
question, a breakthrough, results, and a choice of domains. They share one style.
-/

set_option autoImplicit false

namespace PageCompiler.Pattern

open Markup

/-- The style of cards. -/
def cardStyle : String :=
  styleSheet
    [⟨".welcome-card, .scenario-card, .followup-card, " ++
        ".breakthrough-card, .results-card, .thrive-card",
      [("display", "flex"), ("flex-direction", "column"), ("gap", "12px")]⟩,
     ⟨".option-button, .domain-item",
      [("padding", "12px"), ("border", "1px solid #333"), ("border-radius", "6px"),
       ("cursor", "pointer")]⟩,
     ⟨".option-button:hover, .domain-item:hover", [("border-color", "#00ff88")]⟩,
     ⟨".domain-letter", [("font-size", "24px"), ("color", "#00ff88")]⟩]

/-- A property in an element of its own, if there is something to show. -/
def optionalText (c : Component) (key tag class_ : String) : List Block :=
  if c.shows key then [leaf tag [attr "class" class_] (c.prop key "")] else []

/-- A bound expression in an element of its own, if the component binds one. -/
def optionalBinding (c : Component) (key tag class_ : String) : List Block :=
  let binding := c.prop key ""
  if binding.isEmpty then [] else [leaf tag [attr "class" class_] (mustache binding)]

/-- A bound expression in a paragraph inside of a box, if the component binds one. -/
def optionalParagraph (c : Component) (key class_ : String) : List Block :=
  let binding := c.prop key ""
  if binding.isEmpty then []
  else
    [.line (.element "div" [attr "class" class_] [.element "p" [] [.text (mustache binding)]])]

/-- The button that leads on. -/
def cardAction (action text : String) : Block :=
  leaf "button" [attr "type" "button", attr "@click" action, attr "class" "btn btn-primary"] text

/-- The options of a question, if the component binds them. -/
def options (binding action class_ : String) : List Block :=
  if binding.isEmpty then []
  else
    [.block "div" [attr "class" class_]
      [.block "div"
        [attr "v-for" ("option in " ++ binding), attr ":key" "option.id",
         attr "class" "option-button", attr "@click" (action ++ "(option.id)")]
        [.line (.text (mustache "option.text"))]]]

/-- A box with the class of a card. -/
def cardBox (class_ : String) (children : List Block) : List Block :=
  [.block "div" [attr "class" class_] children]

/-- A welcome. -/
def welcomeMarkup (c : Component) : List Block :=
  cardBox "welcome-card"
    (leaf "h1" [attr "class" "welcome-title"] (c.prop "title" "") ::
      optionalText c "subtitle" "h2" "welcome-subtitle" ++
      optionalText c "description" "p" "welcome-description" ++
      optionalText c "meta_info" "div" "welcome-meta" ++
      [cardAction (c.prop "action" "start") (c.prop "action_text" "Start")])

/-- A scenario with options. -/
def scenarioMarkup (c : Component) : List Block :=
  cardBox "scenario-card"
    (leaf "h3" [attr "class" "scenario-title"] (mustache (c.prop "title_bind" "")) ::
      optionalBinding c "situation_bind" "p" "scenario-situation" ++
      optionalBinding c "question_bind" "p" "scenario-question" ++
      options (c.prop "options_bind" "") (c.prop "action" "answer_question") "scenario-options")

/-- A follow-up question. -/
def followupMarkup (c : Component) : List Block :=
  let previous := c.prop "previous_answer_bind" ""
  let reminder : List Block :=
    if previous.isEmpty then []
    else
      [.line (.element "div" [attr "class" "previous-answer"]
        [.element "small" [] [.text ("You chose: " ++ mustache previous)]])]
  cardBox "followup-card"
    (reminder ++
      leaf "p" [attr "class" "followup-question"] (mustache (c.prop "question_bind" "")) ::
      options (c.prop "options_bind" "") (c.prop "action" "answer_followup_question")
        "followup-options")

/-- A breakthrough. -/
def breakthroughMarkup (c : Component) : List Block :=
  let examples := c.prop "gap_examples_bind" ""
  let gaps : List Block :=
    if examples.isEmpty then []
    else
      [.block "div" [attr "class" "breakthrough-examples"]
        [.block "div"
          [attr "v-for" ("gap in " ++ examples), attr ":key" "gap.id", attr "class" "gap-example"]
          [.run
            [.element "strong" [] [.text (mustache "gap.scenario")],
             .text (": " ++ mustache "gap.description")]]]]
  cardBox "breakthrough-card"
    (leaf "h2" [attr "class" "breakthrough-title"] (c.prop "title" "") ::
      optionalParagraph c "pattern_analysis_bind" "breakthrough-analysis" ++
      gaps ++
      optionalText c "revelation_text" "p" "breakthrough-revelation" ++
      [cardAction (c.prop "action" "show_results") (c.prop "continue_text" "Continue")])

/-- Results. -/
def resultsMarkup (c : Component) : List Block :=
  let insights := orElse (c.prop "insights_bind" "") (c.prop "pattern_insights_bind" "")
  let found : List Block :=
    if insights.isEmpty then []
    else
      [.block "div" [attr "class" "results-insights"]
        [.block "div"
          [attr "v-for" ("insight in " ++ insights), attr ":key" "insight.id",
           attr "class" "insight-item"]
          [leaf "h4" [] (mustache "insight.title"),
           leaf "p" [] (mustache "insight.description")]]]
  cardBox "results-card"
    (leaf "h2" [attr "class" "results-title"] (c.prop "title" "") ::
      optionalParagraph c "summary_bind" "results-summary" ++
      found ++
      optionalText c "next_steps_text" "p" "results-next-steps" ++
      [cardAction (c.prop "action" "show_email_capture")
        (c.prop "button_text" "Get Full Analysis")])

/-- A choice of domains. -/
def thriveMarkup (c : Component) : List Block :=
  cardBox "thrive-card"
    (leaf "h2" [attr "class" "thrive-title"] (c.prop "title" "") ::
      optionalText c "description" "p" "thrive-description" ++
      [.block "div" [attr "class" "thrive-domains"]
        [.block "div"
          [attr "v-for" ("domain in " ++ c.prop "domains_bind" "thrive_domains"),
           attr ":key" "domain.letter", attr "class" "domain-item",
           attr "@click" (c.prop "action" "select_domain" ++ "(domain.letter)")]
          [leaf "div" [attr "class" "domain-letter"] (mustache "domain.letter"),
           .block "div" [attr "class" "domain-info"]
            [leaf "h4" [] (mustache "domain.name"),
             leaf "p" [] (mustache "domain.description")]]]] ++
      optionalText c "question" "p" "thrive-question")

/-- A card pattern. -/
def card (id : String) (required : List String) (markup : Component → List Block) : Pattern where
  id := id
  required := required
  keywords := []
  render c := layOut (markup c)
  style := cardStyle
  state _ := []

/-- A welcome. -/
def welcomeCard : Pattern := card "welcome_card" ["title"] welcomeMarkup

/-- A scenario with options. -/
def scenarioCard : Pattern := card "scenario_card" ["title_bind", "options_bind"] scenarioMarkup

/-- A follow-up question. -/
def followupCard : Pattern := card "followup_card" ["question_bind", "options_bind"] followupMarkup

/-- A breakthrough. -/
def breakthroughCard : Pattern := card "breakthrough_card" ["title"] breakthroughMarkup

/-- Results. -/
def resultsCard : Pattern := card "results_card" ["title"] resultsMarkup

/-- A choice of domains. -/
def thriveCard : Pattern := card "thrive_card" ["title"] thriveMarkup

end PageCompiler.Pattern
