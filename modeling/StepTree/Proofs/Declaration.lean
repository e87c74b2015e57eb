import StepTree.Proofs.RootFrame

/-! # Names declared secret

A workflow declares inputs secret, and an environment may hold secret variables. The two differ: the mark of an input
goes to whatever value the name has when the run begins, while an environment variable is secret in its own right, so
that a later one of its name, or a variable of the workflow or of the request, is as public as it always was. Once a
name is secret in the root frame no step takes the mark away. -/

namespace StepTree

namespace Request

/-- One of the sources of variables has a value for the name. -/
def Supplies (q : Request) (name : String) : Prop :=
  name ∈ q.workflow.inputDefaults.map (·.1) ∨ name ∈ q.environment.map (·.name) ∨
    name ∈ q.workflow.vars.map (·.1) ∨ name ∈ q.vars.map (·.1)

/-- The request declares that the value of a name is secret. -/
inductive DeclaresSecret (q : Request) (name : String) : Prop
  /-- An input of the workflow says so, whichever source gives the value. -/
  | input (declared : name ∈ q.workflow.secretInputs) (supplied : q.Supplies name)
  /-- The environment says so of the value that it gives: of its last one of that name, if no variable of the workflow
  or of the request replaces it. -/
  | environment {before after : List EnvironmentVariable} {v : EnvironmentVariable}
    (entries : q.environment = before ++ v :: after) (named : v.name = name) (isSecret : v.isSecret = true)
    (last : name ∉ after.map (·.name)) (ofWorkflow : name ∉ q.workflow.vars.map (·.1))
    (ofRequest : name ∉ q.vars.map (·.1))

theorem mem_bindings {q : Request} {name : String} : name ∈ q.seed.bindings.map (·.1) ↔ q.Supplies name := by
  have hvars := @Ordered.mem_names_extend Json name q.workflow.vars q.vars
  simp only [Seed.bindings, seed, Supplies, List.map_append, List.mem_append, List.map_map, Function.comp_def, hvars]

/-- What the request declares is marked in the root frame before the first step. -/
theorem DeclaresSecret.marks {q : Request} {name : String} (h : q.DeclaresSecret name) :
    q.scope.root.marks name = true := by
  have hroot : q.scope.root = Frame.seeded q.seed.bindings q.workflow.secretInputs := by
    rw [q.scope_eq]
    rfl
  rw [hroot]
  cases h with
  | input declared supplied => exact Frame.marks_seeded_of_mem declared (mem_bindings.mpr supplied)
  | @environment before after v entries named isSecret last ofWorkflow ofRequest =>
    subst named
    have hvars : v.name ∉ (Ordered.extend q.workflow.vars q.vars).map (·.1) := fun h =>
      (Ordered.mem_names_extend.mp h).elim ofWorkflow ofRequest
    -- Behind the last write of the environment come later ones of other names, and the variables.
    have hbindings : q.seed.bindings =
        (q.workflow.inputDefaults.map (fun e => (e.1, .defined e.2)) ++
          before.map fun v => (v.name, ⟨some v.value, v.isSecret⟩)) ++
        (v.name, ⟨some v.value, v.isSecret⟩) :: (after.map (fun v => (v.name, ⟨some v.value, v.isSecret⟩)) ++
          (Ordered.extend q.workflow.vars q.vars).map fun e => (e.1, .defined e.2)) := by
      simp [Seed.bindings, seed, entries]
    have hlast : v.name ∉ (after.map (fun v => (v.name, (⟨some v.value, v.isSecret⟩ : Binding))) ++
        (Ordered.extend q.workflow.vars q.vars).map fun e => (e.1, Binding.defined e.2)).map (·.1) := by
      rw [List.map_append, List.mem_append, not_or, List.map_map, List.map_map]
      exact ⟨last, hvars⟩
    refine Frame.marks_eq_true.mpr ⟨_, by rw [hbindings, Frame.get?_seeded_last hlast], ?_⟩
    simp [isSecret]

end Request

/-- No name comes twice in the frame, and the name is bound secret there. -/
def Frame.Guards (name : String) (f : Frame) : Prop := (f.map (·.1)).Nodup ∧ f.marks name = true

theorem Frame.guards_keptByWrites (name : String) : KeptByWrites (Guards name) fun _ => True := by
  intro f other value _ h
  refine ⟨Ordered.nodup_names_insert h.1 _ _, ?_⟩
  rw [marks_insert]
  exact h.2

/-- A name whose value the request declares secret is bound in the root frame of the run at every point of it, each
time as a secret one, whichever source gave the value and whichever steps wrote to the name. While a called workflow
runs, the root frame is that of the moment of the call. -/
theorem declared_names_stay_secret (q : Request) (u : Setup) (signals : Signals) {name : String}
    (declares : q.DeclaresSecret name) {now : State}
    (visits : Visits (q.setup u) (.first (q.setup u) q.workflow.steps (q.opening (q.setup u) signals)) now)
    (outside : now.callStack = []) :
    (∃ b, (name, b) ∈ now.scope.root) ∧ ∀ b, (name, b) ∈ now.scope.root → b.isSecret = true := by
  have hnodup : (q.scope.root.map (·.1)).Nodup := by
    rw [q.scope_eq]
    exact Frame.nodup_seeded _ _
  obtain ⟨nodup, marks⟩ := visits.root (Frame.guards_keptByWrites name) ⟨hnodup, declares.marks⟩ outside
  obtain ⟨b, bound, isSecret⟩ := Frame.marks_eq_true.mp marks
  refine ⟨⟨b, Ordered.mem_of_get? bound⟩, fun b' hb' => ?_⟩
  obtain rfl := Option.some.inj (bound.symm.trans (Ordered.get?_of_mem_of_nodup nodup hb'))
  exact isSecret

/-- The environment gives the value of a secret input, and a step gives it another one. -/
theorem renewed_input_stays_secret :
    let renew : Step := ⟨{ id := "renew", outputs := [("token", "token")] }, .action ⟨"renew", []⟩⟩
    let q : Request :=
      { runId := "run", workflow := { inputs := [("token", { isSecret := true })], steps := [renew] }
        environment := [⟨"token", .str "sesame", false⟩] }
    let u : Setup := { executor := fun _ _ => { result := .ok (.obj [("token", .str "mellon")]) } }
    ∃ now, q.DeclaresSecret "token" ∧
      Visits (q.setup u) (.first (q.setup u) q.workflow.steps (q.opening (q.setup u) {})) now ∧
      now.callStack = [] ∧ now.scope.get? "token" = some (.str "mellon") ∧
      (∃ b, ("token", b) ∈ now.scope.root) ∧ ∀ b, ("token", b) ∈ now.scope.root → b.isSecret = true := by
  intro renew q u
  have hdeclares : q.DeclaresSecret "token" :=
    .input List.mem_cons_self (Or.inr (Or.inl List.mem_cons_self))
  have hrenewed : Reaches (q.setup u) (.first (q.setup u) q.workflow.steps (q.opening (q.setup u) {})) _ :=
    .tail .refl .next
  exact ⟨_, hdeclares, .moment hrenewed, rfl, rfl, declared_names_stay_secret q u {} hdeclares (.moment hrenewed) rfl⟩

/-- A variable of the workflow takes the place of a secret environment variable, and is not secret. -/
theorem replaced_variable_is_not_secret :
    let q : Request :=
      { runId := "run", workflow := { vars := [("token", .str "mellon")] }
        environment := [⟨"token", .str "sesame", true⟩] }
    let u : Setup := { executor := fun _ _ => { result := .ok .null } }
    let st := q.opening (q.setup u) {}
    (∃ v ∈ q.environment, v.name = "token" ∧ v.isSecret = true) ∧
      Visits (q.setup u) (.first (q.setup u) q.workflow.steps st) st ∧ st.callStack = [] ∧
      ∃ b, ("token", b) ∈ st.scope.root ∧ b.isSecret = false :=
  ⟨⟨_, List.mem_cons_self, rfl, rfl⟩, .moment .refl, rfl, ⟨some (.str "mellon"), false⟩, List.mem_cons_self, rfl⟩

-- A secret input to which no source gives a value is not bound when its mark would be set: what a step binds to the
-- name later is public.
example :
    let renew : Step := ⟨{ id := "renew", outputs := [("token", "token")] }, .action ⟨"renew", []⟩⟩
    let q : Request :=
      { runId := "run", workflow := { inputs := [("token", { isSecret := true })], steps := [renew] } }
    let u : Setup := { executor := fun _ _ => { result := .ok (.obj [("token", .str "mellon")]) } }
    "token" ∈ q.workflow.secretInputs ∧
      ∃ now, Visits (q.setup u) (.first (q.setup u) q.workflow.steps (q.opening (q.setup u) {})) now ∧
        now.callStack = [] ∧ now.scope.root = [("token", ⟨some (.str "mellon"), false⟩)] :=
  ⟨List.mem_cons_self, _, .moment (.tail .refl .next), rfl, rfl⟩

end StepTree
