import StepTree.Scope.Basic
import StepTree.Template

/-! # Text against a scope -/

namespace StepTree.Scope

/-- The text with the placeholders that have a value in the scope replaced. -/
def resolve (s : Scope) (text : String) : String := String.ofList (Template.expand s.lookup text.toList)

/-- The text with the secrets of the scope hidden. -/
def redact (s : Scope) (marker text : String) : String := Redaction.hide s.secrets marker text

/-- The value with the secrets of the scope hidden. -/
def redactValue (s : Scope) (marker : String) (value : Json) : Json := value.redact s.secrets marker

end StepTree.Scope
