import StepTree.Proofs.Condition.Term
import StepTree.Proofs.Redaction

/-! # Parts of structured secrets

A secret binding is hidden by one text, that of its whole value. A path can lead into the value, and a part of an
object or an array has a shorter text, in which the text of the whole cannot occur. So a part is hidden only if it holds
another secret; the value as a whole always is. -/

namespace StepTree

/-! ### Texts of parts -/

namespace Json

theorem length_le_escaped (chars : List Char) : chars.length ≤ (chars.flatMap escapeChar).length := by
  have hchar : ∀ c, 1 ≤ (escapeChar c).length := by
    intro c
    unfold escapeChar
    repeat' split
    all_goals exact Nat.succ_le_succ (Nat.zero_le _)
  induction chars with
  | nil => exact Nat.le_refl _
  | cons c rest ih =>
    have hc := hchar c
    rw [List.flatMap_cons, List.length_append, List.length_cons]
    omega

theorem length_le_quote (s : String) : s.toList.length ≤ (quote s).length := by
  have hs := length_le_escaped s.toList
  rw [quote, List.length_cons, List.length_append]
  omega

/-- Inside other text a value stands as its compact text, but for null and strings. -/
theorem toList_plainText {value : Json} (not_null : value ≠ null) (not_str : ∀ s, value ≠ str s) :
    value.plainText.toList = value.text := by
  cases value with
  | null => exact absurd rfl not_null
  | str s => exact absurd rfl (not_str s)
  | _ => exact String.toList_ofList

theorem length_plainText_le (value : Json) : value.plainText.toList.length ≤ value.text.length := by
  cases value with
  | str s =>
    rw [plainText, text]
    exact length_le_quote s
  | null => exact Nat.zero_le _
  | _ => rw [toList_plainText (by simp) (by simp)]

theorem itemsText_cons {items : List Json} (ne_nil : items ≠ []) (item : Json) :
    itemsText (item :: items) = item.text ++ ',' :: itemsText items := by
  rw [itemsText]
  exact ne_nil

theorem entriesText_cons {entries : List (String × Json)} (ne_nil : entries ≠ []) (key : String) (value : Json) :
    entriesText ((key, value) :: entries) = quote key ++ ':' :: (value.text ++ ',' :: entriesText entries) := by
  rw [entriesText]
  exact ne_nil

theorem infix_itemsText {item : Json} {items : List Json} (h : item ∈ items) : item.text <:+: itemsText items := by
  induction items with
  | nil => cases h
  | cons first rest ih =>
    by_cases hrest : rest = []
    · subst hrest
      rw [List.mem_singleton.mp h]
      exact List.infix_refl _
    · rw [itemsText_cons hrest]
      rcases List.mem_cons.mp h with rfl | h
      · exact (List.prefix_append _ _).isInfix
      · exact (ih h).trans (((List.suffix_cons _ _).trans (List.suffix_append _ _)).isInfix)

theorem infix_entriesText {entries : List (String × Json)} {e : String × Json} (h : e ∈ entries) :
    quote e.1 <:+: entriesText entries ∧ e.2.text <:+: entriesText entries := by
  induction entries with
  | nil => cases h
  | cons first rest ih =>
    obtain ⟨key, value⟩ := first
    by_cases hrest : rest = []
    · subst hrest
      rw [List.mem_singleton.mp h, entriesText]
      exact ⟨(List.prefix_append _ _).isInfix, ((List.suffix_cons _ _).trans (List.suffix_append _ _)).isInfix⟩
    · rw [entriesText_cons hrest]
      rcases List.mem_cons.mp h with rfl | h
      · exact ⟨(List.prefix_append _ _).isInfix, ⟨quote key ++ [':'], ',' :: entriesText rest, by simp⟩⟩
      · have hsuffix : entriesText rest <:+: quote key ++ ':' :: (value.text ++ ',' :: entriesText rest) :=
          ⟨quote key ++ ':' :: (value.text ++ [',']), [], by simp⟩
        exact ⟨(ih h).1.trans hsuffix, (ih h).2.trans hsuffix⟩

variable {value inner : Json}

/-- Only a list or an object has parts. Its text stands for it, and is longer than the texts of its parts. -/
theorem access?_shortens {a : Access} (h : value.access? a = some inner) :
    inner.text.length < value.text.length ∧ value.plainText = String.ofList value.text := by
  rcases access?_cases h with ⟨items, rfl, hmem⟩ | ⟨entries, key, rfl, hmem⟩
  · have hle := (infix_itemsText hmem).length_le
    rw [text, List.length_cons, List.length_append]
    exact ⟨by omega, rfl⟩
  · have hle : inner.text.length ≤ (entriesText entries).length := (infix_entriesText hmem).2.length_le
    rw [text, List.length_cons, List.length_append]
    exact ⟨by omega, rfl⟩

theorem length_text_follow?_le {steps : List Access} (h : value.follow? steps = some inner) :
    inner.text.length ≤ value.text.length :=
  follow?_keeps (P := fun v => v.text.length ≤ value.text.length)
    (fun _ _ _ hstep hv => ((access?_shortens hstep).1.le).trans hv) h (Nat.le_refl _)

/-- What a path selects is the value itself, or a part whose text is shorter. -/
theorem select?_shortens {path : List Char} (h : value.select? path = some inner) :
    value = inner ∨ inner.plainText.toList.length < value.plainText.toList.length := by
  obtain ⟨steps, -, hsteps⟩ := Option.bind_eq_some_iff.mp h
  cases steps with
  | nil => exact Or.inl (Option.some.inj hsteps)
  | cons a rest =>
    unfold follow? at hsteps
    rw [List.foldlM_cons] at hsteps
    obtain ⟨next, hnext, hrest⟩ := Option.bind_eq_some_iff.mp hsteps
    obtain ⟨hshort, hvalue⟩ := access?_shortens hnext
    have hle := length_text_follow?_le hrest
    have hinner := length_plainText_le inner
    rw [hvalue, String.toList_ofList]
    exact Or.inr (by omega)

end Json

/-! ### Texts that are one placeholder -/

namespace Template

theorem piecesFrom_append (s rest : List Char) : piecesFrom s.length (s ++ rest) = pieces rest := by
  induction s with
  | nil => rfl
  | cons c s ih => exact ih

/-- A placeholder at the beginning of a text is a part of its own, and the rest is looked at by itself. -/
theorem pieces_written_append {inner : List Char} (h : ∀ c ∈ inner, isBrace c = false) (rest : List Char) :
    pieces (written inner ++ rest) = .placeholder inner :: pieces rest := by
  have hread := Condition.placeholder?_written h rest
  have hlength : inner.length + 3 = ('\x7b' :: (inner ++ ['\x7d', '\x7d'])).length := by simp
  rw [written, List.cons_append] at hread ⊢
  rw [pieces, piecesFrom, hread]
  dsimp only
  rw [hlength, piecesFrom_append]

theorem pieces_written {inner : List Char} (h : ∀ c ∈ inner, isBrace c = false) :
    pieces (written inner) = [.placeholder inner] := by
  have hpieces := pieces_written_append h []
  rwa [List.append_nil] at hpieces

end Template

namespace Scope
variable {s : Scope} {path : List Char} {b : Binding} {part : Json}

/-- The name in a path that is looked up first. -/
def rootName (path : List Char) : String := String.ofList ((Text.trim path).takeWhile fun c => c != '.' && c != '[')

/-- What a path leads to is the value of its first name, or selected from it. -/
theorem lookup_spec (root : s.binding? (rootName path) = some b) (selects : s.lookup path = some part) :
    Text.trim path ≠ [] ∧ ∃ whole rest, b.value = some whole ∧ whole.select? rest = some part := by
  unfold lookup at selects
  dsimp only at selects
  split at selects
  · cases selects
  · next hname =>
    obtain ⟨whole, hget, hrest⟩ := Option.bind_eq_some_iff.mp selects
    have hvalue : b.value = some whole := by
      have hroot : s.get? (rootName path) = some whole := hget
      rwa [get?, root] at hroot
    refine ⟨fun hnil => hname (by rw [hnil]; rfl), whole, ?_⟩
    split at hrest
    · exact ⟨_, hvalue, hrest⟩
    · exact ⟨_, hvalue, hrest⟩

theorem lookup_trim (s : Scope) (path : List Char) : s.lookup (Text.trim path) = s.lookup path := by
  rw [lookup, Text.trim_trim]
  rfl

theorem resolve_placeholder (s : Scope) (unbraced : ∀ c ∈ path, Template.isBrace c = false) :
    s.resolve (String.ofList (Template.written path)) =
      String.ofList (Template.expandPiece s.lookup (.placeholder path)) := by
  rw [resolve, String.toList_ofList, Template.expand, Template.pieces_written unbraced, List.flatMap_singleton]

theorem resolve_written (unbraced : ∀ c ∈ path, Template.isBrace c = false) (ne_nil : Text.trim path ≠ [])
    (selects : s.lookup path = some part) : s.resolve (String.ofList (Template.written path)) = part.plainText := by
  have hvalue : Template.valueOf s.lookup path = some part := by
    rw [Template.valueOf, if_neg (by rwa [List.isEmpty_iff]), lookup_trim, selects]
  rw [s.resolve_placeholder unbraced, Template.expandPiece, hvalue]
  exact String.ofList_toList

/-! ### What is hidden of a secret -/

/-- A text in which a secret occurs is not left whole in any redacted text. -/
theorem not_infix_redact {marker secret shown : String} (isSecret : secret ∈ s.secrets)
    (inside : secret.toList <:+: shown.toList) (apart : Redaction.Apart marker shown) (text : String) :
    ¬shown.toList <:+: (s.redact marker text).toList := fun h =>
  s.hides_redact marker text secret isSecret (apart.of_infix inside) (inside.trans h)

theorem mem_secrets_of_binding {name text : String} (bound : s.binding? name = some b)
    (isText : b.secretText? = some text) : text ∈ s.secrets := by
  obtain ⟨f, hf, hget⟩ := List.exists_of_findSome?_eq_some bound
  exact mem_secrets.mpr ⟨f, hf, (name, b), Ordered.mem_of_get? hget, isText⟩

end Scope

/-- What a path selects from a secret variable is hidden in every redacted text with its placeholder just if it is the
whole value, or a secret occurs in it that is not the text of the whole. -/
theorem part_of_secret_hidden_iff {s : Scope} {path : List Char} {b : Binding} {part : Json} {marker : String}
    (unbraced : ∀ c ∈ path, Template.isBrace c = false) (root : s.binding? (Scope.rootName path) = some b)
    (isSecret : b.isSecret = true) (selects : s.lookup path = some part) (ne_empty : part.plainText ≠ "")
    (apart : Redaction.Apart marker part.plainText) :
    (∀ text : String, Template.written path <:+: text.toList →
        ¬part.plainText.toList <:+: (s.redact marker (s.resolve text)).toList) ↔
      b.value = some part ∨
        ∃ secret ∈ s.secrets, b.secretText? ≠ some secret ∧ secret.toList <:+: part.plainText.toList := by
  obtain ⟨hpath, whole, rest, hvalue, hselect⟩ := Scope.lookup_spec root selects
  constructor
  · intro hidden
    by_contra hnone
    obtain ⟨hpart, hothers⟩ := not_or.mp hnone
    have hshort : part.plainText.toList.length < whole.plainText.toList.length :=
      (Json.select?_shortens hselect).resolve_left fun heq => hpart (hvalue.trans (congrArg some heq))
    -- The text of the whole does not fit into the part, and no other secret is in it: it is left as it is.
    have hclear : ∀ secret ∈ s.secrets, ¬secret.toList <:+: part.plainText.toList := by
      intro secret hmem hinfix
      by_cases hown : b.secretText? = some secret
      · obtain ⟨-, htext, -⟩ := Binding.secretText?_eq_some.mp hown
        rw [hvalue] at htext
        cases htext
        have hle := hinfix.length_le
        omega
      · exact hothers ⟨secret, hmem, hown, hinfix⟩
    refine hidden (String.ofList (Template.written path)) ?_ ?_
    · rw [String.toList_ofList]
    · rw [Scope.resolve_written unbraced hpath selects, Scope.redact, Redaction.hide_of_not_infix hclear]
  · rintro (hwhole | ⟨secret, hmem, -, hinfix⟩) text -
    · have hown : b.secretText? = some part.plainText :=
        Binding.secretText?_eq_some.mpr ⟨isSecret, by rw [hwhole]; rfl, ne_empty⟩
      exact Scope.not_infix_redact (Scope.mem_secrets_of_binding root hown) (List.infix_refl _) apart _
    · exact Scope.not_infix_redact hmem hinfix apart _

-- What an empty marker leaves of a text can be the secret that was cut out.
example : Redaction.hide ["ab"] "" "aabb" = "ab" := by decide +kernel

/-- A field of a secret object holds the text of another secret. -/
theorem part_with_secret_stays_hidden :
    let whole : Binding := ⟨some (.obj [("pin", .str "open sesame")]), true⟩
    let s : Scope := ⟨[("creds", whole), ("token", ⟨some (.str "sesame"), true⟩)], []⟩
    let path := "creds.pin".toList
    (∀ c ∈ path, Template.isBrace c = false) ∧ s.binding? (Scope.rootName path) = some whole ∧
      s.lookup path = some (.str "open sesame") ∧ Redaction.Apart Redaction.defaultMarker "open sesame" ∧
      ∀ text : String, Template.written path <:+: text.toList →
        ¬"open sesame".toList <:+: (s.redact Redaction.defaultMarker (s.resolve text)).toList := by
  intro whole s path
  have unbraced : ∀ c ∈ path, Template.isBrace c = false := by simp [path, Template.isBrace]
  have root : s.binding? (Scope.rootName path) = some whole := rfl
  have selects : s.lookup path = some (.str "open sesame") := rfl
  have apart : Redaction.Apart Redaction.defaultMarker "open sesame" := ⟨by decide, by simp [Redaction.defaultMarker]⟩
  have hidden := (part_of_secret_hidden_iff unbraced root rfl selects (by decide) apart).mpr
    (Or.inr ⟨"sesame", by decide +kernel, by decide +kernel, by decide⟩)
  exact ⟨unbraced, root, selects, apart, hidden⟩

/-- A field of a secret object is shown as it is. -/
theorem part_of_secret_is_disclosed :
    let whole : Binding := ⟨some (.obj [("pin", .str "1234")]), true⟩
    let s : Scope := ⟨[("creds", whole)], []⟩
    let path := "creds.pin".toList
    s.binding? (Scope.rootName path) = some whole ∧ s.lookup path = some (.str "1234") ∧
      Redaction.Apart Redaction.defaultMarker "1234" ∧
      s.redact Redaction.defaultMarker (s.resolve "\x7b\x7bcreds.pin\x7d\x7d") = "1234" :=
  ⟨rfl, rfl, ⟨by decide, by simp [Redaction.defaultMarker]⟩, by decide +kernel⟩

end StepTree
