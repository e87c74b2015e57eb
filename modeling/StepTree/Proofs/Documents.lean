import Mathlib.Data.List.Forall2
import StepTree.Bundle

/-! # Documents that declare workflows

A document that is a table can declare workflows under the key `workflows`. If all of them can be read, they are the
workflows of the document, in order, and one without an identifier has its key as its identifier. If one of them cannot,
or the declaration is no table, the document is not refused: its table is taken for a single workflow, in which the
declaration is a field that nobody knows. So where the table has no field of a workflow, the document is an empty
workflow. -/

namespace StepTree

/-! ### Keys of a markup table -/

namespace Node

/-- A node as it stands in a markup document, where nothing is decided about its type. -/
def isMarkup : Node → Bool
  | scalar _ => true
  | sequence .. => true
  | mapping .. => true
  | unreadable => true
  | _ => false

/-- The values under the keys of a table that are the text. -/
def valuesAt (name : String) (entries : List (Node × Node)) : List Node :=
  (entries.filter fun e => e.1.string? == some name).map (·.2)

theorem valuesAt_cons (name : String) (e : Node × Node) (rest : List (Node × Node)) :
    valuesAt name (e :: rest) = if e.1.string? = some name then e.2 :: valuesAt name rest else valuesAt name rest := by
  rw [valuesAt, List.filter_cons]
  by_cases h : e.1.string? = some name <;> simp [h, valuesAt]

/-- Reading all of a list is reading each of its items. -/
theorem mapM_eq_some {α β : Type} {read : α → Option β} {xs : List α} {ys : List β} :
    xs.mapM read = some ys ↔ List.Forall₂ (fun x y => read x = some y) xs ys := by
  induction xs generalizing ys with
  | nil =>
    rw [List.mapM_nil, List.forall₂_nil_left_iff]
    exact ⟨fun h => (Option.some.inj h).symm, fun h => congrArg some h.symm⟩
  | cons x rest ih =>
    rw [List.mapM_cons, List.forall₂_cons_left_iff]
    constructor
    · intro h
      obtain ⟨y, hy, h⟩ := Option.bind_eq_some_iff.mp h
      obtain ⟨ys', hys, h⟩ := Option.bind_eq_some_iff.mp h
      exact ⟨y, ys', hy, ih.mp hys, (Option.some.inj h).symm⟩
    · rintro ⟨y, ys', hy, hys, rfl⟩
      exact Option.bind_eq_some_iff.mpr ⟨y, hy, Option.bind_eq_some_iff.mpr ⟨ys', ih.mpr hys, rfl⟩⟩

end Node

namespace Fields
variable {names : List String} {name : String} {key : Node} {entries : List (Node × Node)}

theorem name?_of_markup (h : key.isMarkup = true) :
    name? names key = key.string?.map fun text => if text ∈ names then some text else none := by
  cases key with
  | scalar s => rfl
  | sequence => rfl
  | mapping => rfl
  | unreadable => rfl
  | _ => cases h

theorem collect?_of_not_text (markup : ∀ e ∈ entries, e.1.isMarkup = true) {e : Node × Node} (mem : e ∈ entries)
    (noText : e.1.string? = none) : collect? names entries = none := by
  induction entries with
  | nil => cases mem
  | cons first rest ih =>
    obtain ⟨hfirst, hrest⟩ := List.forall_mem_cons.mp markup
    rw [collect?, name?_of_markup hfirst]
    rcases List.mem_cons.mp mem with rfl | mem
    · rw [noText]
      rfl
    · rw [ih hrest mem]
      cases first.1.string? <;> rfl

/-- Of a table whose keys are texts a field is known if it is there once, and none may be there twice. -/
theorem collect?_single (markup : ∀ e ∈ entries, e.1.isMarkup = true)
    (texts : ∀ e ∈ entries, e.1.string?.isSome = true) :
    collect? [name] entries =
      match Node.valuesAt name entries with
      | [] => some []
      | [value] => some [(name, value)]
      | _ => none := by
  induction entries with
  | nil => rfl
  | cons first rest ih =>
    obtain ⟨hfirst, hmarkup⟩ := List.forall_mem_cons.mp markup
    obtain ⟨htext, htexts⟩ := List.forall_mem_cons.mp texts
    obtain ⟨text, htext⟩ := Option.isSome_iff_exists.mp htext
    obtain ⟨key, value⟩ := first
    rw [collect?, name?_of_markup hfirst, ih hmarkup htexts, Node.valuesAt_cons, htext]
    by_cases hname : text = name
    · subst hname
      cases Node.valuesAt text rest with
      | nil => simp
      | cons other others => cases others <;> simp
    · have hne : ¬some text = some name := fun heq => hname (Option.some.inj heq)
      rw [if_neg hne, Option.map_some, if_neg (by rwa [List.mem_singleton])]
      split <;> rfl

theorem collect?_of_unknown (markup : ∀ e ∈ entries, e.1.isMarkup = true)
    (unknown : ∀ e ∈ entries, ∃ text, e.1.string? = some text ∧ text ∉ names) : collect? names entries = some [] := by
  induction entries with
  | nil => rfl
  | cons first rest ih =>
    obtain ⟨hfirst, hmarkup⟩ := List.forall_mem_cons.mp markup
    obtain ⟨⟨text, htext, hnot⟩, hrest⟩ := List.forall_mem_cons.mp unknown
    rw [collect?, name?_of_markup hfirst, htext, ih hmarkup hrest, Option.map_some, if_neg hnot]
    rfl

end Fields

/-! ### Documents as tables -/

namespace Markup.Document
variable (d : Document) {tagged : Bool} {entries : List (Tree × Tree)}

theorem expand_isMarkup (levels : Nat) (shape : Shape) (left : Nat) (tree : Tree) :
    (d.expand levels shape left tree).1.isMarkup = true := by
  unfold expand
  split <;> rfl

/-- The keys of a table that is read are nodes of a markup document; a key that is written as a scalar stays one. -/
theorem keys_expandEntries (levels : Nat) (shape : Shape) (left : Nat) (entries : List (Tree × Tree)) :
    ∀ e ∈ (expandEntries (d.expand levels) shape left entries).1, e.1.isMarkup = true ∧
      ((∀ t ∈ entries, ∃ s, t.1 = .scalar s) → ∃ t ∈ entries, ∃ s, t.1 = .scalar s ∧ e.1 = .scalar s) := by
  induction entries generalizing left with
  | nil => exact List.forall_mem_nil _
  | cons first rest ih =>
    obtain ⟨key, value⟩ := first
    rw [expandEntries]
    dsimp only
    refine List.forall_mem_cons.mpr ⟨⟨d.expand_isMarkup _ _ _ _, fun scalars => ?_⟩, fun e he => ?_⟩
    · obtain ⟨s, hs⟩ := scalars _ List.mem_cons_self
      obtain rfl : key = .scalar s := hs
      refine ⟨_, List.mem_cons_self, s, rfl, ?_⟩
      unfold expand
      rfl
    · obtain ⟨hmarkup, hscalar⟩ := ih _ e he
      refine ⟨hmarkup, fun scalars => ?_⟩
      obtain ⟨t, ht, s, hs⟩ := hscalar fun t ht => scalars t (List.mem_cons_of_mem _ ht)
      exact ⟨t, List.mem_cons_of_mem _ ht, s, hs⟩

theorem node_of_table (table : d.tree = .table tagged entries) (shape : Shape) :
    ∃ top, d.node shape = .mapping tagged top ∧ ∀ e ∈ top, e.1.isMarkup = true ∧
      ((∀ t ∈ entries, ∃ s, t.1 = .scalar s) → ∃ t ∈ entries, ∃ s, t.1 = .scalar s ∧ e.1 = .scalar s) := by
  refine ⟨_, ?_, d.keys_expandEntries 127 shape d.allowance entries⟩
  unfold node
  rw [table]
  unfold maxLevels expand
  rfl

end Markup.Document

/-! ### Declarations -/

namespace Bundle

/-- What is looked for in a document that declares workflows. -/
def documentShape : Markup.Shape := .fields [("workflows", .tableOf workflowShape)] false

/-- The workflows that a table declares: its keys are texts, one of them is `workflows`, and the value under it is a
table of workflows. A key that comes again there counts with its last workflow. -/
inductive Declares (top : List (Node × Node)) : List (String × Workflow) → Prop
  | intro {value : Node} {named : List (String × Node)} {read : List (String × Workflow)}
    (texts : ∀ e ∈ top, e.1.string?.isSome = true) (once : Node.valuesAt "workflows" top = [value])
    (table : value.entries? = some named)
    (each : List.Forall₂ (fun e w => w.1 = e.1 ∧ Workflow.decode? e.2 = some w.2) named read) :
    Declares top (Ordered.ofList read)

theorem mapOf?_eq_some {value : Node} {declared : List (String × Workflow)} :
    Node.mapOf? Workflow.decode? value = some declared ↔
      ∃ named read, value.entries? = some named ∧
        List.Forall₂ (fun e w => w.1 = e.1 ∧ Workflow.decode? e.2 = some w.2) named read ∧
          declared = Ordered.ofList read := by
  have hread : ∀ (e : String × Node) (w : String × Workflow),
      ((Workflow.decode? e.2).map fun w => (e.1, w)) = some w ↔ w.1 = e.1 ∧ Workflow.decode? e.2 = some w.2 := by
    rintro ⟨key, n⟩ ⟨name, w⟩
    rw [Option.map_eq_some_iff]
    constructor
    · rintro ⟨w', hw', heq⟩
      cases heq
      exact ⟨rfl, hw'⟩
    · rintro ⟨rfl, hw⟩
      exact ⟨w, hw, rfl⟩
  unfold Node.mapOf?
  constructor
  · intro h
    obtain ⟨named, hnamed, h⟩ := Option.bind_eq_some_iff.mp h
    obtain ⟨read, hall, h⟩ := Option.bind_eq_some_iff.mp h
    refine ⟨named, read, hnamed, ?_, (Option.some.inj h).symm⟩
    exact (Node.mapM_eq_some.mp hall).imp fun e w => (hread e w).mp
  · rintro ⟨named, read, hnamed, hall, rfl⟩
    refine Option.bind_eq_some_iff.mpr ⟨named, hnamed, Option.bind_eq_some_iff.mpr ⟨read, ?_, rfl⟩⟩
    exact Node.mapM_eq_some.mpr (hall.imp fun e w => (hread e w).mpr)

/-- A table is read as several workflows if it declares some. -/
theorem several?_eq_some {tagged : Bool} {top : List (Node × Node)} (markup : ∀ e ∈ top, e.1.isMarkup = true)
    {b : Bundle} :
    several? (.mapping tagged top) = some b ↔
      ∃ declared, Declares top declared ∧ b = ⟨declared.map fun e => (e.1, identified e.1 e.2)⟩ := by
  have hfields : ∀ declared, (do
      let f ← Fields.of? ["workflows"] (.mapping tagged top)
      f.required? "workflows" (Node.mapOf? Workflow.decode?)) = some declared ↔ Declares top declared := by
    intro declared
    by_cases texts : ∀ e ∈ top, e.1.string?.isSome = true
    · rw [Fields.of?, Fields.collect?_single markup texts]
      constructor
      · intro h
        split at h
        · cases h
        · next value hvalue =>
          obtain ⟨named, read, hnamed, hall, rfl⟩ := mapOf?_eq_some.mp h
          exact .intro texts hvalue hnamed hall
        · cases h
      · rintro ⟨-, once, table, each⟩
        rw [once]
        exact mapOf?_eq_some.mpr ⟨_, _, table, each, rfl⟩
    · have hsome : ∃ e ∈ top, e.1.string? = none := by simpa using texts
      obtain ⟨e, he, hnone⟩ := hsome
      rw [Fields.of?, Fields.collect?_of_not_text markup he hnone]
      exact ⟨(nomatch ·), fun ⟨htexts, _, _, _⟩ => absurd htexts texts⟩
  constructor
  · intro h
    obtain ⟨f, hf, h⟩ := Option.bind_eq_some_iff.mp h
    obtain ⟨declared, hdeclared, h⟩ := Option.bind_eq_some_iff.mp h
    refine ⟨declared, (hfields declared).mp ?_, (Option.some.inj h).symm⟩
    exact Option.bind_eq_some_iff.mpr ⟨f, hf, hdeclared⟩
  · rintro ⟨declared, hdeclares, rfl⟩
    obtain ⟨f, hf, hdeclared⟩ := Option.bind_eq_some_iff.mp ((hfields declared).mpr hdeclares)
    exact Option.bind_eq_some_iff.mpr ⟨f, hf, Option.bind_eq_some_iff.mpr ⟨declared, hdeclared, rfl⟩⟩

theorem several?_eq_none {tagged : Bool} {top : List (Node × Node)} (markup : ∀ e ∈ top, e.1.isMarkup = true)
    (undeclared : ∀ declared, ¬Declares top declared) : several? (.mapping tagged top) = none := by
  refine Option.eq_none_iff_forall_ne_some.mpr fun b hb => ?_
  obtain ⟨declared, hdeclares, -⟩ := (several?_eq_some markup).mp hb
  exact undeclared declared hdeclares

/-- The bundle of a workflow that stands alone in its document. -/
def alone (w : Workflow) : Bundle := ⟨[((identified defaultId w).id, identified defaultId w)]⟩

theorem single?_eq (n : Node) : single? n = (Workflow.decode? n).map alone := by
  rw [single?]
  cases Workflow.decode? n <;> rfl

/-- A table without any field of a workflow is an empty workflow. -/
theorem decode?_of_unknown {tagged : Bool} {top : List (Node × Node)} (markup : ∀ e ∈ top, e.1.isMarkup = true)
    (unknown : ∀ e ∈ top, ∃ text, e.1.string? = some text ∧ text ∉ Workflow.fieldNames) :
    Workflow.decode? (.mapping tagged top) = some {} := by
  rw [Workflow.decode?, Fields.of?, Fields.collect?_of_unknown markup unknown]
  rfl

section Documents
variable {d : Markup.Document} {tagged : Bool} {entries : List (Markup.Tree × Markup.Tree)}

theorem ofDocument?_eq (d : Markup.Document) :
    ofDocument? d =
      (several? (d.node documentShape)).orElse fun _ => (Workflow.decode? (d.node workflowShape)).map alone := by
  rw [← single?_eq]
  rfl

theorem decode?_node_of_unknown (table : d.tree = .table tagged entries)
    (unknown : ∀ e ∈ entries, ∃ s, e.1 = .scalar s ∧ String.ofList s.text ∉ Workflow.fieldNames) :
    Workflow.decode? (d.node workflowShape) = some {} := by
  obtain ⟨top, htop, hkeys⟩ := d.node_of_table table workflowShape
  have hscalars : ∀ e ∈ entries, ∃ s, e.1 = .scalar s := fun e he => ⟨_, (unknown e he).choose_spec.1⟩
  rw [htop]
  refine decode?_of_unknown (fun e he => (hkeys e he).1) fun e he => ?_
  obtain ⟨t, ht, s, hs, hkey⟩ := (hkeys e he).2 hscalars
  obtain ⟨s', hs', hnot⟩ := unknown t ht
  obtain rfl : s = s' := Markup.Tree.scalar.inj (hs.symm.trans hs')
  exact ⟨String.ofList s.text, by rw [hkey]; rfl, hnot⟩

/-- A document that is a table comes to the workflows that it declares. If it declares none that can all be read, it
comes to the single workflow that its table is, if it is one; and a table whose keys are no fields of a workflow is
an empty workflow, so that such a document is never refused. -/
theorem declared_or_replaced (table : d.tree = .table tagged entries) :
    ∃ top, d.node documentShape = .mapping tagged top ∧
      (∀ b, ofDocument? d = some b ↔
        (∃ declared, Declares top declared ∧ b = ⟨declared.map fun e => (e.1, identified e.1 e.2)⟩) ∨
        ((∀ declared, ¬Declares top declared) ∧
          ∃ w, Workflow.decode? (d.node workflowShape) = some w ∧ b = alone w)) ∧
      ((∀ e ∈ entries, ∃ s, e.1 = .scalar s ∧ String.ofList s.text ∉ Workflow.fieldNames) →
        (∀ declared, ¬Declares top declared) → ofDocument? d = some ⟨[(defaultId, { id := defaultId })]⟩) := by
  obtain ⟨top, htop, hkeys⟩ := d.node_of_table table documentShape
  have hmarkup : ∀ e ∈ top, e.1.isMarkup = true := fun e he => (hkeys e he).1
  have hreplaced : (∀ declared, ¬Declares top declared) →
      ofDocument? d = (Workflow.decode? (d.node workflowShape)).map alone := by
    intro undeclared
    rw [ofDocument?_eq, htop, several?_eq_none hmarkup undeclared]
    rfl
  refine ⟨top, htop, fun b => ?_, fun unknown undeclared => ?_⟩
  · by_cases undeclared : ∀ declared, ¬Declares top declared
    · rw [hreplaced undeclared, Option.map_eq_some_iff]
      constructor
      · rintro ⟨w, hw, rfl⟩
        exact Or.inr ⟨undeclared, w, hw, rfl⟩
      · rintro (⟨declared, hdeclares, -⟩ | ⟨-, w, hw, rfl⟩)
        · exact absurd hdeclares (undeclared declared)
        · exact ⟨w, hw, rfl⟩
    · obtain ⟨declared, hdeclares⟩ : ∃ declared, Declares top declared := by simpa using undeclared
      have hseveral : several? (d.node documentShape) = ofDocument? d := by
        rw [ofDocument?_eq, htop, (several?_eq_some hmarkup).mpr ⟨declared, hdeclares, rfl⟩]
        rfl
      rw [← hseveral, htop, several?_eq_some hmarkup]
      exact ⟨Or.inl, fun h => h.resolve_right fun ⟨hnot, _⟩ => hnot declared hdeclares⟩
  · rw [hreplaced undeclared, decode?_node_of_unknown table unknown]
    rfl

end Documents

/-- A document declares one workflow, which has no identifier. -/
theorem declared_workflow_is_read :
    let word (text : String) : Markup.Tree := .scalar ⟨text.toList, .plain, .absent⟩
    let d : Markup.Document := ⟨.table false [(word "workflows", .table false [(word "main", .table false [])])], {}⟩
    let b : Bundle := ⟨[("main", { id := "main" })]⟩
    ∃ top, d.node documentShape = .mapping false top ∧ ofDocument? d = some b ∧
      ∃ declared, Declares top declared ∧ b = ⟨declared.map fun e => (e.1, identified e.1 e.2)⟩ := by
  intro word d b
  have hread : ofDocument? d = some b := rfl
  obtain ⟨top, htop, hiff, hempty⟩ := declared_or_replaced (d := d) rfl
  rcases (hiff b).mp hread with hdeclared | ⟨undeclared, -⟩
  · exact ⟨top, htop, hread, hdeclared⟩
  · have hdefault := hempty (List.forall_mem_singleton.mpr ⟨_, rfl, by decide⟩) undeclared
    have hkeys : b.entries.map (·.1) = ["default"] :=
      congrArg (fun b => b.entries.map (·.1)) (Option.some.inj (hread.symm.trans hdefault))
    exact absurd hkeys (by decide)

/-- The only workflow of a document has a step without a kind. -/
theorem broken_declaration_is_replaced :
    let text := "workflows:\n  main:\n    steps:\n      - id: x\n"
    ∃ b, ofText? text.toList = some b ∧ b.entries.map (fun e => (e.1, e.2.id, e.2.steps.length)) =
      [("default", "default", 0)] := by
  intro text
  have hread : (ofText? text.toList).map (fun b => b.entries.map fun e => (e.1, e.2.id, e.2.steps.length)) =
      some [("default", "default", 0)] := by
    decide +kernel
  exact Option.map_eq_some_iff.mp hread

end Bundle

end StepTree
