import StepTree.Proofs.Condition.Query
import StepTree.Proofs.Overwriting

/-! # Secrets in messages

A loop source, a count or a comparison that fails over a secret string describes the string, and the message is redacted
afterwards. What is redacted is the string as it is, while the description escapes its characters and cuts it when it is
long. Of two runs that differ in the string alone, the records of the failed step are the same if the description shows
either string whole. -/

namespace StepTree

open Condition (EvalError Gapped Plain Query)

/-! ### Redaction by parts -/

namespace Redaction
variable {secrets secrets' : Secrets}

/-- If each secret at the start of one text is one at the start of the other, no more is found in the one. -/
theorem matchLength_le_matchLength {s s' : List Char}
    (h : ∀ secret ∈ secrets, secret ≠ "" → secret.toList <+: s → secret ∈ secrets' ∧ secret.toList <+: s') :
    matchLength secrets s ≤ matchLength secrets' s' := by
  cases hfound : matchLength secrets s with
  | zero => exact Nat.zero_le _
  | succ length =>
    obtain ⟨secret, hsecret, hbegins, hlength⟩ := exists_of_matchLength hfound
    have hne : secret ≠ "" := by
      rintro rfl
      cases hlength
    obtain ⟨hmem, hprefix⟩ := h secret hsecret hne hbegins
    exact hlength ▸ length_le_matchLength hmem hprefix

/-- Only the secrets that occur in a text count. -/
theorem hideFrom_congr {s : List Char}
    (same : ∀ secret : String, secret ≠ "" → secret.toList <:+: s → (secret ∈ secrets ↔ secret ∈ secrets'))
    (marker : List Char) (skip : Nat) : hideFrom secrets marker skip s = hideFrom secrets' marker skip s := by
  induction s generalizing skip with
  | nil => cases skip <;> rfl
  | cons c s ih =>
    have hrest := ih fun secret hne inside => same secret hne (inside.trans (List.suffix_cons c s).isInfix)
    cases skip with
    | succ skip => exact hrest skip
    | zero =>
      have hfound : matchLength secrets (c :: s) = matchLength secrets' (c :: s) := by
        refine Nat.le_antisymm (matchLength_le_matchLength fun secret hmem hne hbegins => ⟨?_, hbegins⟩)
          (matchLength_le_matchLength fun secret hmem hne hbegins => ⟨?_, hbegins⟩)
        · exact (same secret hne hbegins.isInfix).mp hmem
        · exact (same secret hne hbegins.isInfix).mpr hmem
      simp only [hideFrom, hfound, hrest]

/-- No secret begins in the one text and ends in the other one behind it. -/
def Uncrossed (secrets : Secrets) (before after : List Char) : Prop :=
  ∀ u v, u ≠ [] → v ≠ [] → u <:+ before → v <+: after → String.ofList (u ++ v) ∉ secrets

/-- Where no secret lies across the border of two texts, each is redacted on its own. -/
theorem hideFrom_append {before after : List Char} (uncrossed : Uncrossed secrets before after) (marker : List Char)
    {skip : Nat} (within : skip ≤ before.length) :
    hideFrom secrets marker skip (before ++ after) = hideFrom secrets marker skip before ++ hideFrom secrets marker 0 after := by
  induction before generalizing skip with
  | nil =>
    cases Nat.le_zero.mp within
    rfl
  | cons c before ih =>
    have hrest := @ih fun u v hu hv hbefore => uncrossed u v hu hv (hbefore.trans (List.suffix_cons c before))
    cases skip with
    | succ skip => exact hrest (Nat.le_of_succ_le_succ within)
    | zero =>
      have hfound : matchLength secrets (c :: before ++ after) = matchLength secrets (c :: before) := by
        refine Nat.le_antisymm (matchLength_le_matchLength fun secret hmem _ hbegins => ⟨hmem, ?_⟩)
          (matchLength_le_matchLength fun secret hmem _ hbegins => ⟨hmem, hbegins.trans (List.prefix_append _ _)⟩)
        rcases List.prefix_or_prefix_of_prefix hbegins (List.prefix_append (c :: before) after) with h | ⟨v, hv⟩
        · exact h
        · rw [← hv] at hbegins ⊢
          by_cases hnil : v = []
          · rw [hnil, List.append_nil]
          · refine absurd ?_ (uncrossed (c :: before) v (List.cons_ne_nil _ _) hnil List.suffix_rfl
              ((List.prefix_append_right_inj _).mp hbegins))
            rwa [hv, String.ofList_toList]
      have hlength := matchLength_le secrets (c :: before)
      rw [List.cons_append] at hfound ⊢
      rw [hideFrom, hideFrom, hfound]
      split
      · rw [hrest (Nat.zero_le _), List.cons_append]
      · next hmatch =>
        rw [hmatch] at hlength
        rw [hrest (Nat.le_of_succ_le_succ hlength), List.append_assoc]

theorem hideFrom_skip (marker skipped s : List Char) :
    hideFrom secrets marker skipped.length (skipped ++ s) = hideFrom secrets marker 0 s := by
  induction skipped with
  | nil => rfl
  | cons c rest ih => exact ih

/-- A secret is replaced where it stands, unless another one begins there and is longer. -/
theorem hideFrom_secret {secret : String} {after : List Char} (isSecret : secret ∈ secrets) (ne_empty : secret ≠ "")
    (longest : ∀ v, v ≠ [] → v <+: after → String.ofList (secret.toList ++ v) ∉ secrets) (marker : List Char) :
    hideFrom secrets marker 0 (secret.toList ++ after) = marker ++ hideFrom secrets marker 0 after := by
  have hbegins := length_le_matchLength isSecret (List.prefix_append secret.toList after)
  have hle : matchLength secrets (secret.toList ++ after) ≤ secret.toList.length := by
    cases hfound : matchLength secrets (secret.toList ++ after) with
    | zero => exact Nat.zero_le _
    | succ length =>
      obtain ⟨other, hother, hprefix, hlength⟩ := exists_of_matchLength hfound
      rw [← hlength]
      rcases List.prefix_or_prefix_of_prefix hprefix (List.prefix_append secret.toList after) with h | ⟨v, hv⟩
      · exact h.length_le
      · rw [← hv] at hprefix ⊢
        by_cases hnil : v = []
        · rw [hnil, List.append_nil]
        · refine absurd ?_ (longest v hnil ((List.prefix_append_right_inj _).mp hprefix))
          rwa [hv, String.ofList_toList]
  have hfound := Nat.le_antisymm hle hbegins
  cases hchars : secret.toList with
  | nil => exact absurd (String.toList_eq_nil_iff.mp hchars) ne_empty
  | cons c rest =>
    rw [hchars, List.cons_append] at hfound
    rw [List.cons_append, hideFrom, hfound]
    exact congrArg (marker ++ ·) (hideFrom_skip marker rest after)

/-- No secret that begins in front of a gap reaches into it, and none that begins with the text in a gap goes on behind
it. -/
def Parted (secrets : Secrets) (text : List Char) (g : Gapped) : Prop :=
  ∀ (before : Gapped) (chars : List Char) (after : Gapped), g = before ++ (chars.map some ++ none :: after) →
    Uncrossed secrets chars (text ++ after.fill text) ∧
      ∀ v, v ≠ [] → v <+: after.fill text → String.ofList (text ++ v) ∉ secrets

/-- A gap between quotation marks, where no secret has one in it. -/
theorem parted_of_quoted {text : List Char} (unquoted : ∀ secret ∈ secrets, '"' ∉ secret.toList)
    (front back : List Char) : Parted secrets text (front.map some ++ some '"' :: none :: (some '"' :: back.map some)) := by
  intro before chars after h
  rw [List.append_cons, ← List.append_assoc, List.append_cons_inj_of_notMem (by simp) (by simp)] at h
  obtain ⟨hfront, -, rfl⟩ := h
  constructor
  · intro u v hu _ hbefore _ hmem
    obtain ⟨u, c, rfl⟩ := (List.eq_nil_or_concat u).resolve_left hu
    obtain ⟨chars, rfl⟩ := hbefore
    have hquote : c = '"' := by simpa using (congrArg List.getLast? hfront).symm
    exact unquoted _ hmem (by simp [hquote])
  · intro v hv hbehind hmem
    cases v with
    | nil => exact hv rfl
    | cons c v =>
      rw [Gapped.fill_char, List.cons_prefix_cons] at hbehind
      exact unquoted _ hmem (by simp [hbehind.1])

/-- One text with a secret in its gaps and with another one is redacted alike, if what is around the gaps is. -/
theorem hideFrom_fill {a b : String} {g : Gapped} {marker : List Char} (isSecret : a ∈ secrets) (isSecret' : b ∈ secrets')
    (ne_empty : a ≠ "") (ne_empty' : b ≠ "") (parted : Parted secrets a.toList g) (parted' : Parted secrets' b.toList g)
    (same : ∀ chars : List Char, chars.map some <:+: g →
      hideFrom secrets marker 0 chars = hideFrom secrets' marker 0 chars) :
    hideFrom secrets marker 0 (g.fill a.toList) = hideFrom secrets' marker 0 (g.fill b.toList) := by
  -- What is left of the text is taken character by character, up to the next gap.
  have hleft (before : Gapped) (chars : List Char) (left : Gapped) (hg : g = before ++ (chars.map some ++ left)) :
      hideFrom secrets marker 0 (chars ++ left.fill a.toList) = hideFrom secrets' marker 0 (chars ++ left.fill b.toList) := by
    induction left generalizing before chars with
    | nil =>
      rw [Gapped.fill_nil, Gapped.fill_nil, List.append_nil]
      exact same chars ⟨before, [], by rw [hg, List.append_nil, List.append_nil]⟩
    | cons c left ih =>
      cases c with
      | some c =>
        have hrest := ih before (chars ++ [c]) (by rw [hg]; simp)
        rwa [List.append_assoc, List.append_assoc] at hrest
      | none =>
        obtain ⟨hfront, hlongest⟩ := parted before chars left hg
        obtain ⟨hfront', hlongest'⟩ := parted' before chars left hg
        have hchars := same chars ⟨before, none :: left, by rw [hg, List.append_assoc]⟩
        have hrest := ih (before ++ chars.map some ++ [none]) [] (by rw [hg]; simp)
        rw [Gapped.fill_gap, Gapped.fill_gap, hideFrom_append hfront marker (Nat.zero_le _),
          hideFrom_append hfront' marker (Nat.zero_le _), hideFrom_secret isSecret ne_empty hlongest,
          hideFrom_secret isSecret' ne_empty' hlongest', hchars]
        exact congrArg _ (congrArg _ hrest)
  exact hleft [] [] g rfl

end Redaction

/-! ### Scopes that differ in one secret -/

/-- A path leads from a string to the string itself or to nothing. -/
theorem Json.select?_str (path : List Char) :
    (∀ t, (str t).select? path = some (str t)) ∨ ∀ t, (str t).select? path = none := by
  unfold select?
  cases Path.parse? path with
  | none => exact Or.inr fun _ => rfl
  | some steps =>
    cases steps with
    | nil => exact Or.inl fun _ => rfl
    | cons a rest =>
      right
      intro t
      cases a <;> rfl

/-- An entry of written entries is the written one, or it is there whatever is written. -/
theorem Ordered.mem_of_mem_insert {α : Type} {name : String} {value : α} {entries : List (String × α)} {e : String × α}
    (h : e ∈ insert name value entries) : e = (name, value) ∨ ∀ other, e ∈ insert name other entries := by
  induction entries with
  | nil => exact Or.inl (List.mem_singleton.mp h)
  | cons first rest ih =>
    obtain ⟨n, v⟩ := first
    simp only [insert] at h ⊢
    split at h
    · next hn =>
      simp only [if_pos hn]
      rcases List.mem_cons.mp h with rfl | hrest
      · exact Or.inl (by rw [hn])
      · exact Or.inr fun _ => List.mem_cons_of_mem _ hrest
    · next hn =>
      simp only [if_neg hn]
      rcases List.mem_cons.mp h with rfl | hrest
      · exact Or.inr fun _ => List.mem_cons_self
      · exact (ih hrest).imp_right fun hall other => List.mem_cons_of_mem _ (hall other)

namespace Scope
variable (s : Scope) (frame : Nat) (name : String)

/-- The scope with a secret string bound to the name. -/
def bindSecret (text : String) : Scope := s.bindInFrame frame name ⟨some (.str text), true⟩

theorem binding?_bindSecret (n : String) :
    (∀ t, (s.bindSecret frame name t).binding? n = some ⟨some (.str t), true⟩) ∨
      ∀ t, (s.bindSecret frame name t).binding? n = (s.bindSecret frame name "").binding? n := by
  unfold binding? bindSecret
  simp only [stack_bindInFrame]
  generalize s.position frame = position
  induction s.stack generalizing position with
  | nil => exact Or.inr fun _ => by rw [List.modify_nil, List.modify_nil]
  | cons f outer ih =>
    cases position with
    | zero =>
      simp only [List.modify_zero_cons, List.findSome?_cons]
      by_cases hn : n = name
      · subst hn
        exact Or.inl fun t => by rw [Ordered.get?_insert_self]
      · exact Or.inr fun t => by rw [Ordered.get?_insert_of_ne hn, Ordered.get?_insert_of_ne hn]
    | succ position =>
      simp only [List.modify_succ_cons, List.findSome?_cons]
      cases Ordered.get? n f with
      | some b => exact Or.inr fun _ => rfl
      | none => exact ih position

theorem varies_bindSecret : Condition.Varies fun t => (s.bindSecret frame name t).lookup := by
  intro path
  simp only [lookup]
  split
  · exact Or.inr fun _ => rfl
  · simp only [get?]
    rcases s.binding?_bindSecret frame name
      (String.ofList ((Text.trim path).takeWhile fun c => c != '.' && c != '[')) with hstring | hsteady
    · simp only [hstring, Option.bind_eq_bind, Option.bind_some]
      split <;> refine (Json.select?_str _).imp_right fun h t => ?_ <;> rw [h t, h ""]
    · right
      intro t
      rw [hsteady t]

/-- The frames around the one that is written to stay. -/
theorem mem_stack_bindSecret {i : Nat} {f : Frame} (h : s.stack[i]? = some f) (t : String) :
    (if s.position frame = i then Ordered.insert name ⟨some (.str t), true⟩ f else f) ∈ (s.bindSecret frame name t).stack := by
  refine List.mem_of_getElem? (i := i) ?_
  rw [bindSecret, stack_bindInFrame, List.getElem?_modify, h]
  split <;> rfl

theorem mem_secrets_bindSecret {t : String} (ne_empty : t ≠ "") : t ∈ (s.bindSecret frame name t).secrets := by
  have hposition : s.position frame < s.stack.length := Nat.lt_succ_of_le (Nat.sub_le _ _)
  have hframe := s.mem_stack_bindSecret frame name (List.getElem?_eq_getElem hposition) t
  rw [if_pos rfl] at hframe
  exact mem_secrets_of_frame hframe (Ordered.get?_insert_self _ _ _) rfl rfl ne_empty

/-- What a scope hides beside the string it hides whatever the string is. -/
theorem secrets_bindSecret {t secret : String} (h : secret ∈ (s.bindSecret frame name t).secrets) :
    secret = t ∨ ∀ t', secret ∈ (s.bindSecret frame name t').secrets := by
  obtain ⟨f, hf, e, he, htext⟩ := mem_secrets.mp h
  rw [bindSecret, stack_bindInFrame] at hf
  obtain ⟨i, hi⟩ := List.mem_iff_getElem?.mp hf
  rw [List.getElem?_modify] at hi
  obtain ⟨f, hfound, rfl⟩ := Option.map_eq_some_iff.mp hi
  have hframe := s.mem_stack_bindSecret frame name hfound
  split at he
  · next hposition =>
    rcases Ordered.mem_of_mem_insert he with rfl | hkept
    · exact Or.inl (Option.some.inj (Binding.secretText?_eq_some.mp htext).2.1).symm
    · refine Or.inr fun t' => mem_secrets.mpr ⟨_, hframe t', e, ?_, htext⟩
      rw [if_pos hposition]
      exact hkept _
  · next hposition =>
    refine Or.inr fun t' => mem_secrets.mpr ⟨_, hframe t', e, ?_, htext⟩
    rwa [if_neg hposition]

/-- Where neither of two strings occurs, it does not matter which of them the scope hides. -/
theorem hideFrom_bindSecret {a b : String} {text : List Char} (ha : ¬a.toList <:+: text) (hb : ¬b.toList <:+: text)
    (marker : List Char) : Redaction.hideFrom (s.bindSecret frame name a).secrets marker 0 text =
      Redaction.hideFrom (s.bindSecret frame name b).secrets marker 0 text := by
  refine Redaction.hideFrom_congr (fun secret _ inside => ⟨fun h => ?_, fun h => ?_⟩) marker 0
  · rcases s.secrets_bindSecret frame name h with rfl | hall
    · exact absurd inside ha
    · exact hall b
  · rcases s.secrets_bindSecret frame name h with rfl | hall
    · exact absurd inside hb
    · exact hall a

end Scope

/-! ### Records -/

/-- The query fails where the name is bound to the string, over operands that are plain. In the message the string is in
the gaps alone, and no secret lies across their ends. -/
structure Complains (q : Query) (texts : List (List Char)) (scope : String → Scope) (g : Gapped) (t : String)
    (e : EvalError) : Prop where
  fails : q.Fails (scope t).lookup e
  plain : ∀ text ∈ texts, Plain (fun t => (scope t).lookup) t text
  ne_empty : t ≠ ""
  alone : ¬t.toList.map some <:+: g
  parted : Redaction.Parted (scope t).secrets t.toList g

/-! A loop over a token is the example that the theorem is tried on. -/

/-- The placeholder of the token. -/
def tokenSlot : Template.Slot := ⟨[], ['t', 'o', 'k', 'e', 'n'], [], by simp, by simp [Template.isBrace], rfl, by simp⟩

theorem tokenSlot_text : String.ofList tokenSlot.text = "\x7b\x7btoken\x7d\x7d" := by decide +kernel

theorem trim_token : Text.trim "\x7b\x7btoken\x7d\x7d".toList = tokenSlot.text := by decide +kernel

/-- The message of a loop over the token. -/
def tokenGap : Gapped :=
  (EvalError.notAnArray "\x7b\x7btoken\x7d\x7d" "string ").message.toList.map some ++ some '"' :: none :: [some '"']

theorem operand_token (t : String) : Condition.operand (Scope.empty.bindSecret 0 "token" t).lookup
    (Text.trim "\x7b\x7btoken\x7d\x7d".toList) = .ok (.value (.str t)) := by
  rw [trim_token]
  exact (Condition.Refers.placeholder tokenSlot).operand_of_selects rfl

theorem fills_over_token : Query.Fills (.items "\x7b\x7btoken\x7d\x7d") [Text.trim "\x7b\x7btoken\x7d\x7d".toList]
    (fun t => (Scope.empty.bindSecret 0 "token" t).lookup) tokenGap := by
  intro t e plain he
  have hwhole : Condition.ShownWhole t := by
    rcases plain _ List.mem_cons_self with hsame | ⟨w, hw, whole⟩
    · -- What the placeholder stands for is the token, so it is not the same for two of them.
      have hne := (hsame "sesame").trans (hsame "mellon").symm
      rw [operand_token, operand_token] at hne
      simp at hne
    · rw [operand_token] at hw
      cases hw
      exact whole
  rw [Query.Fails, Condition.evalArray_eq] at he
  have happend (source found more : String) : (EvalError.notAnArray source (found ++ more)).message =
      (EvalError.notAnArray source found).message ++ more := (String.append_assoc ..).symm
  have hdescribe : Condition.describe (.str t) = "string " ++ String.ofList ('"' :: (t.toList ++ ['"'])) := by
    rw [← String.ofList_toList (s := Condition.describe (.str t)), hwhole.describe_toList, String.ofList_append, String.ofList_toList]
  rw [Condition.demand_error (operand_token t) he, trim_token, tokenSlot_text, hdescribe, happend, String.toList_append,
    String.toList_ofList, tokenGap, Gapped.fill_append, Gapped.fill_chars]
  rfl

/-- A query that fails over a secret string has one message but for the string. Of two such runs the records of the
failed step are the same, if its operands are plain in both. -/
theorem failed_records_agree {q : Query} {texts : List (List Char)} (asks : q.Asks texts) (s : Scope) (frame : Nat)
    (name : String) :
    let scope := s.bindSecret frame name
    (∃ g, q.Fills texts (fun t => (scope t).lookup) g) ∧
    ∀ (u : Setup) (st : State) (r : Record) (g : Gapped) (a b : String) (ea eb : EvalError),
      q.Fills texts (fun t => (scope t).lookup) g → Complains q texts scope g a ea → Complains q texts scope g b eb →
        u.fail { st with scope := scope a } r (.evaluation ea) = u.fail { st with scope := scope b } r (.evaluation eb) := by
  refine ⟨asks.fills (s.varies_bindSecret frame name), fun u st r g a b ea eb fills first second => ?_⟩
  suffices hredact : (s.bindSecret frame name a).redact u.settings.redactionMarker ea.message =
      (s.bindSecret frame name b).redact u.settings.redactionMarker eb.message from
    congrArg (r.fail .evaluation) hredact
  unfold Scope.redact Redaction.hide
  rw [fills a ea first.plain first.fails, fills b eb second.plain second.fails]
  refine congrArg String.ofList (Redaction.hideFrom_fill (s.mem_secrets_bindSecret frame name first.ne_empty)
    (s.mem_secrets_bindSecret frame name second.ne_empty) first.ne_empty second.ne_empty first.parted second.parted
    fun chars inside => ?_)
  -- Between the gaps neither string is found.
  exact s.hideFrom_bindSecret frame name (fun h => first.alone ((h.map some).trans inside))
    (fun h => second.alone ((h.map some).trans inside)) _

/-- Over a short token of plain characters a loop fails with one message. -/
theorem loop_over_token_fails_alike :
    let u : Setup := { executor := fun _ _ => { result := .ok .null } }
    let st : State := { scope := .empty }
    let r := Record.pending ⟨{ id := "each" }, .group []⟩
    let scope := Scope.empty.bindSecret 0 "token"
    let e (found : String) : EvalError := .notAnArray "\x7b\x7btoken\x7d\x7d" found
    let first := u.fail { st with scope := scope "sesame" } r (.evaluation (e "string \"sesame\""))
    let second := u.fail { st with scope := scope "mellon" } r (.evaluation (e "string \"mellon\""))
    first = second ∧
      first.head.error = some "expected an array from '\x7b\x7btoken\x7d\x7d' but found string \"******\"" := by
  intro u st r scope e first second
  have hcomplains (t found : String) (hfails : Query.Fails (scope t).lookup (e found) (.items "\x7b\x7btoken\x7d\x7d"))
      (whole : Condition.ShownWhole t) (ne_empty : t ≠ "") (alone : ¬t.toList.map some <:+: tokenGap)
      (unquoted : ∀ secret ∈ (scope t).secrets, '"' ∉ secret.toList) :
      Complains (.items "\x7b\x7btoken\x7d\x7d") [Text.trim "\x7b\x7btoken\x7d\x7d".toList] scope tokenGap t (e found) := by
    refine ⟨hfails, fun text htext => ?_, ne_empty, alone, Redaction.parted_of_quoted unquoted _ []⟩
    rw [List.mem_singleton.mp htext]
    exact Or.inr ⟨t, operand_token t, whole⟩
  have hsesame := hcomplains "sesame" "string \"sesame\"" (by decide +kernel) ⟨by decide, by decide⟩ (by decide)
    (by decide +kernel) (by decide +kernel)
  have hmellon := hcomplains "mellon" "string \"mellon\"" (by decide +kernel) ⟨by decide, by decide⟩ (by decide)
    (by decide +kernel) (by decide +kernel)
  have hagree := (failed_records_agree (Query.Asks.items "\x7b\x7btoken\x7d\x7d") .empty 0 "token").2
  exact ⟨hagree u st r tokenGap "sesame" "mellon" _ _ fills_over_token hsesame hmellon, by decide +kernel⟩

/-- Of a long secret the description has the beginning only, and there the secret is not found. No more is it found where
a character of it is escaped, or in an array that it was read into. Where the text in front of it ends as it begins, it is
found too early. -/
theorem cut_and_escaped_secrets_are_shown :
    let u : Setup := { executor := fun _ _ => { result := .ok .null } }
    let st : State := { scope := .empty }
    let r := Record.pending ⟨{ id := "each" }, .group []⟩
    let scope := Scope.empty.bindSecret 0 "token"
    let records (q : Query) (refuse : String → EvalError) (t found shown : String) : Prop :=
      t ≠ "" ∧ ¬t.toList <:+: (refuse "").message.toList ∧ q.Fails (scope t).lookup (refuse found) ∧
        (u.fail { st with scope := scope t } r (.evaluation (refuse found))).head.error = some ((refuse "").message ++ shown)
    let loop := records (.items "\x7b\x7btoken\x7d\x7d") (.notAnArray "\x7b\x7btoken\x7d\x7d")
    let count (source : String) := records (.count source) (.invalidCount source)
    let long (c : Char) := String.ofList (List.replicate 80 c)
    let start (c : Char) := "string \"" ++ String.ofList (List.replicate 59 c) ++ "…"
    start 'a' ≠ start 'b' ∧ loop (long 'a') (start 'a') (start 'a') ∧ loop (long 'b') (start 'b') (start 'b') ∧
      loop "sesame\n" "string \"sesame\\n\"" "string \"sesame\\n\"" ∧
      loop "mellon\n" "string \"mellon\\n\"" "string \"mellon\\n\"" ∧
      count "[\x7b\x7btoken\x7d\x7d]" "1, 2" "array [1,2]" "array [1,2]" ∧
      count "[\x7b\x7btoken\x7d\x7d]" "3, 4" "array [3,4]" "array [3,4]" ∧
      count "xab\x7b\x7btoken\x7d\x7d" "abab" "string \"xababab\"" "string \"x******ab\"" ∧
      count "xab\x7b\x7btoken\x7d\x7d" "cdcd" "string \"xabcdcd\"" "string \"xab******\"" := by
  decide +kernel

end StepTree
