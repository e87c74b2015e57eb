import StepTree.Proofs.Capture

/-! # Texts handed to a called workflow

An input of a call in whose text a secret of the caller occurs is secret in the callee, and there it is the whole text
that is hidden. It stays hidden as long as the variable keeps it: the callee must not write another value to the name,
and a workflow that it calls in turn must be handed the whole text again. A part of the text that the callee or an
executor takes out of it, even the secret that it was hidden for, is recorded as it is. -/

namespace StepTree

open Setup

/-! ### Texts in joined messages -/

theorem infix_of_infix_append_cons {α : Type} {c : α} {text before after : List α} (h : text <:+: before ++ c :: after)
    (hc : c ∉ text) : text <:+: before ∨ text <:+: after := by
  obtain ⟨s, t, h⟩ := h
  rw [List.append_assoc] at h
  rcases List.append_eq_append_iff.mp h with ⟨x, rfl, hx⟩ | ⟨x, rfl, hx⟩
  · -- The text begins in the first part, and it cannot go on behind the separator.
    rcases List.append_eq_append_iff.mp hx with ⟨y, rfl, -⟩ | ⟨y, rfl, hy⟩
    · exact Or.inl ⟨s, y, by rw [List.append_assoc]⟩
    · cases y with
      | nil => exact Or.inl ⟨s, [], by simp⟩
      | cons d y =>
        obtain ⟨rfl, -⟩ := List.cons.inj hy
        exact absurd (List.mem_append_right x List.mem_cons_self) hc
  · cases x with
    | nil =>
      cases text with
      | nil => exact Or.inl List.nil_infix
      | cons d text =>
        obtain ⟨rfl, -⟩ := List.cons.inj hx
        exact absurd List.mem_cons_self hc
    | cons d x =>
      obtain ⟨-, hx⟩ := List.cons.inj hx
      exact Or.inr ⟨x, t, by rw [List.append_assoc]; exact hx.symm⟩

/-- The text cannot come about where the errors of the arms of a branch are put together. -/
structure Unjoined (text : String) : Prop where
  separator : ';' ∉ text.toList
  blank : text.toList.head? ≠ some ' '
  opening : ¬text.toList <:+: "no branch matched".toList

theorem Unjoined.not_infix {text before after : String} (h : Unjoined text) (left : ¬text.toList <:+: before.toList)
    (right : ¬text.toList <:+: after.toList) : ¬text.toList <:+: (before ++ "; " ++ after).toList := by
  intro hinfix
  have hparts : (before ++ "; " ++ after).toList = before.toList ++ ';' :: ' ' :: after.toList := by simp
  rw [hparts] at hinfix
  rcases infix_of_infix_append_cons hinfix h.separator with hbefore | hafter
  · exact left hbefore
  · rcases List.infix_cons_iff.mp hafter with hprefix | hafter
    · cases htext : text.toList with
      | nil => exact left (htext ▸ List.nil_infix)
      | cons c rest =>
        rw [htext] at hprefix
        obtain ⟨rfl, -⟩ := List.cons_prefix_cons.mp hprefix
        exact h.blank (by rw [htext]; rfl)
    · exact right hafter

theorem Unjoined.not_infix_intercalate {text : String} (h : Unjoined text) {parts : List String} (ne_nil : parts ≠ [])
    (each : ∀ part ∈ parts, ¬text.toList <:+: part.toList) : ¬text.toList <:+: ("; ".intercalate parts).toList := by
  induction parts with
  | nil => exact absurd rfl ne_nil
  | cons part rest ih =>
    obtain ⟨hpart, hrest⟩ := List.forall_mem_cons.mp each
    cases rest with
    | nil =>
      rw [String.intercalate_singleton]
      exact hpart
    | cons next rest =>
      rw [String.intercalate_cons_cons]
      exact h.not_infix hpart (ih (List.cons_ne_nil _ _) hrest)

/-! ### Records that hide a secret -/

/-- The text is in none of the strings that the record holds of its step. -/
structure Record.Withholds (r : Record) (text : String) : Prop where
  inputs : ∀ input ∈ r.head.resolvedInputs, ¬text.toList <:+: input.2.toList
  outputs : ¬r.Discloses text
  /-- A branch of which no arm is taken puts its error together from texts that were hidden one by one. -/
  error : r.head.stepKind ≠ .branch ∨ Unjoined text → ∀ error ∈ r.head.error, ¬text.toList <:+: error.toList
  arms : ∀ b ∈ r.branch, ∀ e ∈ b.selection.evaluated, ∀ error ∈ e.error, ¬text.toList <:+: error.toList
  items : ∀ l ∈ r.loop, ∀ i ∈ l.iterations, ∀ s ∈ i.head.itemValue.strings, ¬text.toList <:+: s.toList
  rounds : ∀ l ∈ r.loop, ∀ i ∈ l.iterations, ∀ error ∈ i.head.error, ¬text.toList <:+: error.toList

/-- A secret of the frames around stays one. -/
theorem Scope.mem_secrets_of_outer {s t : Scope} {text : String} (h : s.outer = t.stack) (isSecret : text ∈ t.secrets) :
    text ∈ s.secrets := by
  obtain ⟨f, hf, entry⟩ := mem_secrets.mp isSecret
  exact mem_secrets.mpr ⟨f, List.mem_cons_of_mem _ (h ▸ hf), entry⟩

section Records
variable {u : Setup} {m : Moment} {text : String}

theorem branch_error {arms : List Arm} {body : Nat → State → List Record × State} {s : Step} {st : State}
    {error : String} (h : (u.branch s.head.id arms body (u.begin s) st).1.head.error = some error) :
    ∃ errors ≠ [], (∀ e ∈ errors, st.scope.Hides u.settings.redactionMarker e) ∧
      error = "no branch matched" ++ "; " ++ "; ".intercalate errors := by
  rcases u.branch_cases s.head.id arms body (u.begin s) st with ⟨-, h'⟩ | ⟨-, -, h'⟩ | ⟨e, -, h'⟩
  · rw [h'] at h
    cases h
  · rw [h', noneTaken] at h
    split at h
    · cases h
    · next hne =>
      have hopening : "no branch matched; " = "no branch matched" ++ "; " := by decide
      rw [hopening] at h
      refine ⟨_, hne, fun text htext => ?_, (Option.some.inj h).symm⟩
      obtain ⟨e, he, herror⟩ := List.mem_filterMap.mp htext
      obtain ⟨a, -, i, rfl⟩ := Arm.mem_evaluateAll he
      exact evaluate_hides u st i a text herror
  · dsimp only at h'
    rw [h'] at h
    cases h

/-- The error of a step hides what is secret when the step is taken up. -/
theorem error_withholds {depth frame : Nat} {s : Step} {st : State} (isSecret : text ∈ st.scope.secrets)
    (apart : Redaction.Apart u.settings.redactionMarker text) (plain : s.tag ≠ .branch ∨ Unjoined text) :
    ∀ error ∈ (u.runStep (u.bodyWithin depth) frame s st).1.head.error, ¬text.toList <:+: error.toList := by
  intro error herror
  by_cases hbranch : s.tag = .branch ∧ gate s.head st = .begin
  · have hjoined : Unjoined text := plain.resolve_left fun hne => hne hbranch.1
    rw [runStep_of_begin hbranch.2, begun] at herror
    obtain ⟨head, kind⟩ := s
    cases kind with
    | branch arms =>
      rw [runKind] at herror
      obtain ⟨errors, hne, hides, rfl⟩ := branch_error (s := ⟨head, .branch arms⟩) herror
      exact hjoined.not_infix hjoined.opening
        (hjoined.not_infix_intercalate hne fun e he => hides e he text isSecret apart)
    | _ => cases hbranch.1
  · exact (runStep_conceals u depth frame s st).2 (fun htag hbegin => hbranch ⟨htag, hbegin⟩) error herror text isSecret
      apart

/-- A record of a run at all of whose moments a text is secret withholds it. -/
theorem Traced.withholds {r : Record} (h : Traced u m r) (apart : Redaction.Apart u.settings.redactionMarker text)
    (isSecret : ∀ {m'}, Reaches u m m' → text ∈ m'.state.scope.secrets) : r.Withholds text := by
  have hround : ∀ l ∈ r.loop, ∀ i ∈ l.iterations, ∃ now : State, text ∈ now.scope.secrets ∧
      i.Conceals u.settings.redactionMarker now.scope := by
    intro l hl i hi
    obtain ⟨_, _, ⟨reaches, -⟩, -, hconceals⟩ := (h.rounds l hl i hi).discreet
    have hopened := isSecret reaches
    rw [Moment.state, ← State.checkpoint_scope] at hopened
    exact ⟨_, Scope.mem_secrets_of_outer Repetition.opened_outer hopened, hconceals⟩
  have hitems : ∀ l ∈ r.loop, ∀ i ∈ l.iterations, ∀ s ∈ i.head.itemValue.strings, ¬text.toList <:+: s.toList := by
    intro l hl i hi s hs
    obtain ⟨now, hmem, hconceals⟩ := hround l hl i hi
    exact hconceals.item s hs text hmem apart
  have hrounds : ∀ l ∈ r.loop, ∀ i ∈ l.iterations, ∀ error ∈ i.head.error, ¬text.toList <:+: error.toList := by
    intro l hl i hi error herror
    obtain ⟨now, hmem, hconceals⟩ := hround l hl i hi
    exact hconceals.error error herror text hmem apart
  cases h.made with
  | skipped s reason =>
    exact {
      inputs := List.forall_mem_nil _
      outputs := by rintro ⟨output, houtput, -⟩; cases houtput
      error := fun _ error herror => by cases herror
      arms := fun b hb => by cases hb
      items := hitems
      rounds := hrounds }
  | @taken depth frame s now reaches =>
    have hmem := isSecret reaches
    obtain ⟨conceals, -⟩ := runStep_conceals u depth frame s now
    exact {
      inputs := fun input hinput => conceals.inputs input hinput text hmem apart
      outputs := by
        rintro ⟨output, houtput, s, hs, hinfix⟩
        exact conceals.outputs output houtput s hs text hmem apart hinfix
      error := fun plain => error_withholds hmem apart (by rwa [runStep_kind] at plain)
      arms := fun b hb e he error herror => conceals.arms b hb e he error herror text hmem apart
      items := hitems
      rounds := hrounds }

end Records

/-! ### Handing a text on -/

/-- The name stands for the text in the frame, and is secret. -/
def Frame.Holds (text name : String) (f : Frame) : Prop := Ordered.get? name f = some ⟨some (.str text), true⟩

theorem Frame.holds_keptByWrites (text name : String) : KeptByWrites (Holds text name) (· ≠ name) := by
  intro f other value hother h
  unfold Holds
  rw [Ordered.get?_insert_of_ne hother.symm]
  exact h

theorem Scope.mem_secrets_of_holds {s : Scope} {text name : String} (h : Frame.Holds text name s.root)
    (ne_empty : text ≠ "") : text ∈ s.secrets := mem_secrets_of_frame s.root_mem_stack h rfl rfl ne_empty

/-- One of the inputs is the whole text, and the workflow does not write to its name. -/
def Entrusts (text : String) (w : Workflow) (inputs : List (String × String)) : Prop :=
  ∃ before name after, inputs = before ++ (name, text) :: after ∧ name ∉ after.map (·.1) ∧
    name ∉ Step.writesAll w.steps

/-- Every workflow that a run from `m` enters is handed the whole text. -/
structure HandsOn (u : Setup) (text : String) (m : Moment) : Prop where
  entrusts : ∀ {depth frame : Nat} {head : StepHead} {spec : ActionSpec} {st : State} {id : String} {w : Workflow},
    Reaches u m (.step (depth + 1) frame ⟨head, .action spec⟩ st) → spec.actionType = callActionType →
      u.callee true st (resolved st head spec) = .ok (id, w) → Entrusts text w (resolved st head spec).inputs

/-- A variable of the root frame that is not written to any more holds the text. -/
def Moment.Guards (text : String) (m : Moment) : Prop := ∃ name, m.Rooted (Frame.Holds text name) (· ≠ name)

section Handing
variable {u : Setup} {m m' : Moment} {text secret : String}

/-- A callee that is handed a text in which a secret of the caller occurs guards it from the beginning. -/
theorem Entrusts.guards {w : Workflow} {a : Action} (h : Entrusts text w a.inputs) (st : State)
    (isSecret : secret ∈ st.scope.secrets) (inside : secret.toList <:+: text.toList) (id : String) (depth frame : Nat) :
    (Moment.sequence depth frame false w.steps (calleeState id w a st)).Guards text := by
  obtain ⟨before, name, after, hinputs, last, unwritten⟩ := h
  refine ⟨name, ?_, fun _ other hother heq => unwritten (heq ▸ hother)⟩
  have hflag : (st.scope.secrets.any fun secret => Text.occursIn secret.toList text.toList) = true :=
    List.any_eq_true.mpr ⟨secret, isSecret, Text.occursIn_iff.mpr inside⟩
  have hlast : name ∉ (after.map fun input => (input.1, (⟨some (.str input.2),
      st.scope.secrets.any fun secret => Text.occursIn secret.toList input.2.toList⟩ : Binding))).map (·.1) := by
    rw [List.map_map]
    exact last
  have hroot : (calleeState id w a st).scope.root =
      Frame.seeded (w.bindings st.scope.secrets a.inputs) w.secretInputs := by
    rw [calleeState, calleeScope_eq]
    rfl
  unfold Frame.Holds
  rw [hroot, Workflow.bindings, hinputs, List.map_append, List.map_cons, hflag, ← List.append_assoc,
    ← List.append_assoc, Frame.get?_seeded_last hlast, Bool.true_or]

theorem Moment.Guards.mem_secrets (h : m.Guards text) (ne_empty : text ≠ "") : text ∈ m.state.scope.secrets := by
  obtain ⟨name, hrooted⟩ := h
  exact Scope.mem_secrets_of_holds hrooted.root ne_empty

/-- A text that is handed on is guarded at every moment. -/
theorem Reaches.guards (h : Reaches u m m') (framed : m.Framed) (first : m.Guards text) (ne_empty : text ≠ "")
    (hands : HandsOn u text m) : m'.Guards text := by
  induction h with
  | refl => exact first
  | tail hreaches hlead ih =>
    have hframed := hreaches.invariant (fun _ _ => Leads.framed) framed
    rcases hlead.callStack hframed with heq | henters
    · obtain ⟨name, hrooted⟩ := ih
      exact ⟨name, hlead.rooted (Frame.holds_keptByWrites text name) hframed heq hrooted⟩
    · cases henters with
      | @intro depth _ head spec st id _ isCall enters =>
        exact (hands.entrusts hreaches isCall enters).guards (u.inside ⟨head, .action spec⟩ st) (ih.mem_secrets ne_empty)
          (List.infix_refl _) id depth _

/-- A text that is handed on is secret also while outputs are bound. -/
theorem Binds.mem_secrets {frame : Nat} {head : StepHead} {result : Json} {outputs : List (String × String)}
    {now : State} (h : Binds u m frame head result outputs now) (framed : m.Framed) (first : m.Guards text)
    (ne_empty : text ≠ "") (hands : HandsOn u text m) : text ∈ now.scope.secrets := by
  obtain ⟨depth, spec, st, reaches, -, hkeep⟩ := h.taken framed
  obtain ⟨name, hrooted⟩ := reaches.guards framed first ne_empty hands
  exact Scope.mem_secrets_of_holds (hkeep (Frame.holds_keptByWrites text name) hrooted).1 ne_empty

end Handing

/-! ### Workflows without calls -/

mutual

/-- A workflow is called somewhere in the step. -/
def Step.hasCall : Step → Bool
  | ⟨_, kind⟩ => kind.hasCall

def StepKind.hasCall : StepKind → Bool
  | .action spec => spec.actionType = callActionType
  | .group children => Step.anyCall children
  | .loop _ children => Step.anyCall children
  | .branch arms => Arm.anyCall arms

def Step.anyCall : List Step → Bool
  | [] => false
  | s :: rest => s.hasCall || Step.anyCall rest

def Arm.anyCall : List Arm → Bool
  | [] => false
  | a :: rest => a.hasCall || Arm.anyCall rest

def Arm.hasCall : Arm → Bool
  | ⟨_, _, children⟩ => Step.anyCall children

end

theorem Arm.anyCall_children {a : Arm} {arms : List Arm} (h : Arm.anyCall arms = false) (mem : a ∈ arms) :
    Step.anyCall a.children = false := by
  induction arms with
  | nil => cases mem
  | cons b rest ih =>
    obtain ⟨hb, hrest⟩ := Bool.or_eq_false_iff.mp h
    rcases List.mem_cons.mp mem with rfl | mem
    · cases a
      exact hb
    · exact ih hrest mem

/-- No workflow is called in what is left to run at this level. -/
def Moment.CallFree : Moment → Prop
  | .sequence _ _ _ steps _ => Step.anyCall steps = false
  | .step _ _ s _ => s.hasCall = false
  | .loop _ steps _ _ => Step.anyCall steps = false
  | .round _ steps _ _ _ _ => Step.anyCall steps = false
  | .pop _ => True

theorem Leads.callFree {u : Setup} {m m' : Moment} (h : Leads u m m') (hm : m.CallFree) : m'.CallFree := by
  cases h with
  | take => exact (Bool.or_eq_false_iff.mp hm).1
  | next => exact (Bool.or_eq_false_iff.mp hm).2
  | call _ isCall => exact absurd isCall (of_decide_eq_false hm)
  | group => exact hm
  | arm _ _ isArm => exact Arm.anyCall_children hm (List.mem_of_getElem? isArm)
  | loop => exact hm
  | rounds => exact hm
  | finish => trivial
  | giveUp => trivial
  | iteration => exact hm
  | close => trivial
  | again => exact hm

/-- Steps that call nothing have nobody to hand a text on to. -/
theorem handsOn_of_callFree {u : Setup} {depth frame : Nat} {stopped : Bool} {steps : List Step} {st : State}
    (text : String) (h : Step.anyCall steps = false) : HandsOn u text (.sequence depth frame stopped steps st) := by
  constructor
  intro depth frame head spec st id w reaches isCall
  have hfree := reaches.invariant (fun _ _ => Leads.callFree) h
  exact absurd isCall (of_decide_eq_false hfree)

/-! ### Calls -/

/-- A step calls a workflow. -/
structure Setup.Calls (u : Setup) (now : State) (head : StepHead) (spec : ActionSpec) (id : String) (w : Workflow) :
    Prop where
  begins : gate head now = .begin
  isCall : spec.actionType = callActionType
  enters : u.callee true now (resolved now head spec) = .ok (id, w)

/-- The record of a call holds what the steps of the callee come to. -/
theorem Setup.Calls.children {u : Setup} {now : State} {head : StepHead} {spec : ActionSpec} {id : String} {w : Workflow}
    (h : u.Calls now head spec id w) (depth frame : Nat) :
    (u.runStep (u.bodyWithin (depth + 1)) frame ⟨head, .action spec⟩ now).1.children =
      (u.runWithin depth w.steps
        (calleeState id w (resolved now head spec) (u.inside ⟨head, .action spec⟩ now))).1 := by
  have hsame : resolved (u.inside ⟨head, .action spec⟩ now) head spec = resolved now head spec := rfl
  have henters : u.callee true (u.inside ⟨head, .action spec⟩ now) (resolved now head spec) = .ok (id, w) := h.enters
  rw [runStep_of_begin h.begins, begun, runKind, act_of_call h.isCall, hsame, bodyWithin, call_of_ok henters]
  generalize u.runWithin depth w.steps _ = callee
  rcases u.callEnded_cases frame head (u.supplied head spec (u.begin ⟨head, .action spec⟩)
    (u.inside ⟨head, .action spec⟩ now)) id (u.inside ⟨head, .action spec⟩ now) callee with
    ⟨-, h⟩ | ⟨-, -, h⟩ | ⟨-, -, h⟩ <;> rw [h] <;> rfl

/-- A text in which a secret of the caller occurs, and which a workflow is handed whole by an input that it does not
write over, is secret while the steps of that workflow run, calls that they make left aside. If those hand it on as
well, then no record of the call has the text in one of its strings, and no write that the callee makes discloses it. -/
theorem entrusted_texts_stay_hidden {u : Setup} {now : State} {depth frame : Nat} {head : StepHead} {spec : ActionSpec}
    {id : String} {w : Workflow} {secret text : String} (calls : u.Calls now head spec id w)
    (isSecret : secret ∈ now.scope.secrets) (inside : secret.toList <:+: text.toList)
    (entrusts : Entrusts text w (resolved now head spec).inputs)
    (apart : Redaction.Apart u.settings.redactionMarker text) :
    let s : Step := ⟨head, .action spec⟩
    let began := calleeState id w (resolved now head spec) (u.inside s now)
    let m := Moment.sequence depth began.scope.currentFrame false w.steps began
    let callee := u.runWithin depth w.steps began
    (u.runStep (u.bodyWithin (depth + 1)) frame s now).1.children = callee.1 ∧
      (∀ m', Reaches u m m' → m'.state.callStack = began.callStack → text ∈ m'.state.scope.secrets) ∧
      (HandsOn u text m → (∀ r ∈ Record.walkAll callee.1, r.Withholds text) ∧
        ∀ c ∈ callee.2.changes.toList, c ∈ now.changes.toList ∨ ¬c.Discloses text) := by
  intro s began m callee
  have ne_empty : text ≠ "" := by
    rintro rfl
    exact Scope.ne_empty_of_mem_secrets isSecret (String.toList_eq_nil_iff.mp (List.infix_nil.mp inside))
  have hguards : m.Guards text := entrusts.guards (u.inside s now) isSecret inside id depth _
  refine ⟨calls.children depth frame, fun m' reaches same => ?level, fun hands => ?whole⟩
  case level =>
    obtain ⟨name, hrooted⟩ := hguards
    exact Scope.mem_secrets_of_holds
      (reaches.rooted (Frame.holds_keptByWrites text name) rfl hrooted same).root ne_empty
  case whole =>
    have hwrote : Wrote u m began callee := by
      rw [show callee = _ from u.runWithin_eq depth w.steps began]
      exact (run_writes u m depth).2 w.steps _ false began .refl
    refine ⟨fun r hr => ?_, fun c hc => (hwrote.logs.changes c hc).imp_right ?_⟩
    · exact (hwrote.records r hr).withholds apart fun reaches =>
        (reaches.guards rfl hguards ne_empty hands).mem_secrets ne_empty
    · rintro ⟨frame, head, result, o, rest, now, binds, rfl⟩
      have hmem := binds.next.mem_secrets rfl hguards ne_empty hands
      exact (change_conceals u frame head.id result now o).not_discloses hmem apart (List.infix_refl _)

/-- The secret itself is handed to a workflow that shows it to an action. -/
theorem entrusted_secret_stays_hidden :
    let use : Step := ⟨{ id := "use", inputs := [("key", "{{key}}")] }, .action ⟨"echo", []⟩⟩
    let w : Workflow := { steps := [use] }
    let u : Setup :=
      { executor := fun _ a => { result := .ok (.obj (a.inputs.map fun input => (input.1, .str input.2))) }
        library := [("each", w)] }
    let head : StepHead := { id := "hand", inputs := [("key", "{{token}}")] }
    let spec : ActionSpec := ⟨"workflow", [("workflowId", .str "each")]⟩
    let st : State := { scope := ⟨[("token", ⟨some (.str "sesame"), true⟩)], []⟩ }
    let out := u.runStep (u.bodyWithin 8) 0 ⟨head, .action spec⟩ st
    u.Calls st head spec "each" w ∧ "sesame" ∈ st.scope.secrets ∧
      Entrusts "sesame" w (resolved st head spec).inputs ∧
      Redaction.Apart Redaction.defaultMarker "sesame" ∧ out.1.children.length = 1 ∧
      ∀ r ∈ Record.walkAll out.1.children, r.Withholds "sesame" := by
  intro use w u head spec st out
  have hcalls : u.Calls st head spec "each" w := ⟨rfl, rfl, rfl⟩
  have hsecret : "sesame" ∈ st.scope.secrets := by decide +kernel
  have hinputs : (resolved st head spec).inputs = [("key", "sesame")] := by decide +kernel
  have hentrusts : Entrusts "sesame" w (resolved st head spec).inputs :=
    ⟨[], "key", [], hinputs, List.not_mem_nil, by decide +kernel⟩
  have hapart : Redaction.Apart Redaction.defaultMarker "sesame" := ⟨by decide, by simp [Redaction.defaultMarker]⟩
  obtain ⟨hchildren, -, hidden⟩ :=
    @entrusted_texts_stay_hidden u st 7 0 head spec "each" w "sesame" "sesame" hcalls hsecret (List.infix_refl _)
      hentrusts hapart
  have hfree : Step.anyCall w.steps = false := by decide +kernel
  refine ⟨hcalls, hsecret, hentrusts, hapart, rfl, fun r hr => ?_⟩
  rw [show out.1.children = _ from hchildren] at hr
  exact (hidden (handsOn_of_callFree "sesame" hfree)).1 r hr

/-- The workflow takes the secret out of a list that it is handed: the iteration and its action show it. -/
theorem decoded_secret_is_disclosed :
    let use : Step := ⟨{ id := "use", inputs := [("key", "{{key}}")] }, .action ⟨"echo", []⟩⟩
    let each : Step := ⟨{ id := "each" }, .loop { loopType := .forEach, source := some "{{keys}}", itemVar := "key" } [use]⟩
    let u : Setup :=
      { executor := fun _ a => { result := .ok (.obj (a.inputs.map fun input => (input.1, .str input.2))) }
        library := [("each", { steps := [each] })] }
    let head : StepHead := { id := "hand", inputs := [("keys", "[\"{{token}}\"]")] }
    let spec : ActionSpec := ⟨"workflow", [("workflowId", .str "each")]⟩
    let st : State := { scope := ⟨[("token", ⟨some (.str "sesame"), true⟩)], []⟩ }
    let out := u.runStep (u.bodyWithin 8) 0 ⟨head, .action spec⟩ st
    "sesame" ∈ st.scope.secrets ∧ (resolved st head spec).inputs = [("keys", "[\"sesame\"]")] ∧
      Redaction.Apart Redaction.defaultMarker "sesame" ∧
      (Record.walkAll out.1.children).map (fun r => r.head.resolvedInputs) = [[], [("key", "sesame")]] := by
  refine ⟨by decide +kernel, by decide +kernel, ⟨by decide, by simp [Redaction.defaultMarker]⟩, by decide +kernel⟩

end StepTree
