import PageCompiler.Assoc

/-!
# `PageCompiler.Policy.Basic`: canonical names

A policy says how names are written in every compiled page: the marker of the runtime, and for
names of variables and of style classes the aliases that are replaced by canonical ones.
-/

set_option autoImplicit false

namespace PageCompiler

/-- The canonical names of compiled pages. -/
structure Policy where
  runtimeMarker : String
  /-- Aliases of variables and methods, each with its canonical name. -/
  identifierAliases : Assoc String
  /-- Aliases of style classes, each with the classes that replace it. -/
  classAliases : Assoc String
  deriving DecidableEq, Inhabited, Repr

/-- The policy in use unless another one is given. -/
def Policy.default : Policy :=
  { runtimeMarker := "vue@3",
    identifierAliases :=
      [("appName", "appTitle"), ("app_title", "appTitle"), ("onSubmit", "submitForm"),
       ("handleSubmit", "submitForm"), ("goNext", "nextStep"), ("goBack", "previousStep"),
       ("prevStep", "previousStep")],
    classAliases :=
      [("primary-btn", "btn btn-primary"), ("secondary-btn", "btn btn-secondary"),
       ("app-wrapper", "app-container"), ("modal-backdrop", "modal-overlay")] }

end PageCompiler
