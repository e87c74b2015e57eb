import StepTree.Library
import StepTree.Markup.Expansion
import StepTree.Workflow.Decoding

/-! # Bundles

A document holds several workflows under the key `workflows`, or is one workflow itself. A bundle is the
workflows of one document, each under the key by which it was declared, in order. -/

namespace StepTree

structure Bundle where
  /-- The workflows by key. -/
  entries : List (String × Workflow)

namespace Bundle

def workflows (b : Bundle) : List Workflow := b.entries.map (·.2)

/-- The first workflow that was declared. -/
def first? (b : Bundle) : Option Workflow := b.workflows.head?

/-- The workflow with a key, else the first with an identifier. -/
def get? (b : Bundle) (id : String) : Option Workflow :=
  (Ordered.get? id b.entries).orElse fun _ => b.workflows.find? fun w => w.id == id

/-- The workflows as a library. -/
def library (b : Bundle) : Except LibraryError Library := Library.ofWorkflows b.workflows

/-- The identifier of a workflow that has none and stands alone in its document. -/
def defaultId : String := "default"

/-- The workflow, with an identifier if it has none. -/
def identified (id : String) (w : Workflow) : Workflow := if Text.allBlank w.id then { w with id } else w

/-- The workflows under the key `workflows`; one without an identifier has its key as its identifier. -/
def several? (n : Node) : Option Bundle := do
  let f ← Fields.of? ["workflows"] n
  let entries ← f.required? "workflows" (Node.mapOf? Workflow.decode?)
  some ⟨entries.map fun (key, w) => (key, identified key w)⟩

/-- The workflow that a document is. -/
def single? (n : Node) : Option Bundle := do
  let w := identified defaultId (← Workflow.decode? n)
  some ⟨[(w.id, w)]⟩

open Markup.Shape in
/-- What is looked for in a step: the fields of its head, of which only retries are structures, and
everything else, because the kind of the step is not known yet. -/
def stepShape : Markup.Shape := fields [("retry", record RetryPolicy.fieldNames)] true

open Markup.Shape in
/-- What is looked for in a workflow. -/
def workflowShape : Markup.Shape :=
  fields [("workflow", anything), ("name", anything), ("description", anything),
    ("inputs", tableOf (record WorkflowInput.fieldNames)), ("variables", anything), ("steps", listOf stepShape)] false

/-- The workflows of a document. -/
def ofDocument? (d : Markup.Document) : Option Bundle :=
  (several? (d.node (.fields [("workflows", .tableOf workflowShape)] false))).orElse fun _ =>
    single? (d.node workflowShape)

/-- The workflows of the document that a text is. -/
def ofText? (s : List Char) : Option Bundle := (Markup.Document.ofText? s).bind ofDocument?

end Bundle

end StepTree
