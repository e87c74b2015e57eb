import StepTree.Proofs.Capture
import StepTree.Proofs.Encoding.Values
import StepTree.Proofs.Entrusting
import StepTree.Proofs.Parts

/-! # What a redacted value reveals

Redaction looks at the strings of a value one by one, and at its numbers as a whole. Keys and constants stay, and so do
numbers that are no secret as a whole. The text of a collection is not looked at either: there a secret can be seen that
none of the strings holds, when a character before it is escaped. -/

namespace StepTree.Json

/-! ### Parts -/

/-- A part of a value: the value itself, or a part of an item or of an entry. -/
inductive Within : Json → Json → Prop
  | self (value : Json) : Within value value
  | item {items : List Json} {j part : Json} (mem : j ∈ items) (inside : Within part j) : Within part (.arr items)
  | entry {entries : List (String × Json)} {e : String × Json} {part : Json} (mem : e ∈ entries)
    (inside : Within part e.2) : Within part (.obj entries)

/-- One of the objects in the value has the key. -/
def HasKey (key : String) (value : Json) : Prop :=
  ∃ entries, (obj entries).Within value ∧ key ∈ entries.map (·.1)

section
variable {part inner value : Json}

theorem Within.trans (h : part.Within inner) (h' : inner.Within value) : part.Within value := by
  induction h' with
  | self => exact h
  | item mem _ ih => exact .item mem (ih h)
  | entry mem _ ih => exact .entry mem (ih h)

theorem HasKey.mono {key : String} (h : HasKey key inner) (inside : inner.Within value) : HasKey key value := by
  obtain ⟨entries, hentries, hkey⟩ := h
  exact ⟨entries, hentries.trans inside, hkey⟩

@[simp] theorem within_arr {items : List Json} : part.Within (arr items) ↔ part = arr items ∨ ∃ j ∈ items, part.Within j := by
  constructor
  · rintro (_ | ⟨mem, inside⟩)
    · exact Or.inl rfl
    · exact Or.inr ⟨_, mem, inside⟩
  · rintro (rfl | ⟨j, mem, inside⟩)
    · exact .self _
    · exact .item mem inside

@[simp] theorem within_obj {entries : List (String × Json)} :
    part.Within (obj entries) ↔ part = obj entries ∨ ∃ e ∈ entries, part.Within e.2 := by
  constructor
  · rintro (_ | _ | ⟨mem, inside⟩)
    · exact Or.inl rfl
    · exact Or.inr ⟨_, mem, inside⟩
  · rintro (rfl | ⟨e, mem, inside⟩)
    · exact .self _
    · exact .entry mem inside

/-- A scalar has no part but itself. -/
theorem within_scalar (scalar : Condition.isComposite value = false) : part.Within value ↔ part = value := by
  refine ⟨fun h => ?_, fun h => h ▸ .self _⟩
  cases h with
  | self => rfl
  | item => cases scalar
  | entry => cases scalar

@[simp] theorem within_null : part.Within null ↔ part = null := within_scalar rfl

@[simp] theorem within_bool (b : Bool) : part.Within (bool b) ↔ part = bool b := within_scalar rfl

@[simp] theorem within_num (n : Number) : part.Within (num n) ↔ part = num n := within_scalar rfl

@[simp] theorem within_str (s : String) : part.Within (str s) ↔ part = str s := within_scalar rfl

end

/-! ### Texts -/

/-- The characters of a string as they stand between its quotes. -/
def escaped (s : String) : List Char := s.toList.flatMap escapeChar

theorem escaped_infix_quote (s : String) : escaped s <:+: quote s := ⟨['"'], ['"'], by simp [quote, escaped]⟩

theorem infix_text_arr (items : List Json) : itemsText items <:+: (arr items).text := ⟨['['], [']'], by simp [text]⟩

theorem infix_text_obj (entries : List (String × Json)) : entriesText entries <:+: (obj entries).text :=
  ⟨['\x7b'], ['\x7d'], by simp [text]⟩

theorem Within.text_infix {part value : Json} (h : part.Within value) : part.text <:+: value.text := by
  induction h with
  | self => exact List.infix_refl _
  | item mem _ ih => exact (ih.trans (infix_itemsText mem)).trans (infix_text_arr _)
  | entry mem _ ih => exact (ih.trans (infix_entriesText mem).2).trans (infix_text_obj _)

theorem HasKey.text_infix {key : String} {value : Json} (h : HasKey key value) : escaped key <:+: value.text := by
  obtain ⟨entries, inside, hkey⟩ := h
  obtain ⟨e, he, rfl⟩ := List.mem_map.mp hkey
  exact (((escaped_infix_quote e.1).trans (infix_entriesText he).1).trans (infix_text_obj _)).trans inside.text_infix

/-! ### Words between the punctuation -/

def punctuation : List Char := ['[', ']', '\x7b', '\x7d', ',', ':', '"']

/-- A text that is not empty and without the punctuation of collections and strings. -/
structure Unpunctuated (word : List Char) : Prop where
  ne_nil : word ≠ []
  free : ∀ c ∈ punctuation, c ∉ word

/-- The word is in the text of a key or of a scalar of the value. -/
inductive Spells (word : List Char) (value : Json) : Prop
  | key {key : String} (has : HasKey key value) (shown : word <:+: escaped key)
  | str {s : String} (inside : (str s).Within value) (shown : word <:+: escaped s)
  | null (inside : null.Within value) (shown : word <:+: null.text)
  | bool {b : Bool} (inside : (bool b).Within value) (shown : word <:+: (bool b).text)
  | num {n : Number} (inside : (num n).Within value) (shown : word <:+: numberText n)

section
variable {word : List Char} {value : Json}

theorem Spells.mono {part : Json} (h : Spells word part) (inside : part.Within value) : Spells word value := by
  cases h with
  | key has shown => exact .key (has.mono inside) shown
  | str h shown => exact .str (h.trans inside) shown
  | null h shown => exact .null (h.trans inside) shown
  | bool h shown => exact .bool (h.trans inside) shown
  | num h shown => exact .num (h.trans inside) shown

theorem Spells.text_infix (h : Spells word value) : word <:+: value.text := by
  cases h with
  | key has shown => exact shown.trans has.text_infix
  | str inside shown => exact (shown.trans (escaped_infix_quote _)).trans inside.text_infix
  | null inside shown => exact shown.trans inside.text_infix
  | bool inside shown => exact shown.trans inside.text_infix
  | num inside shown => exact shown.trans inside.text_infix

namespace Unpunctuated
variable (h : Unpunctuated word)
include h

/-- What holds no punctuation lies on one side of it. -/
theorem split {c : Char} (hc : c ∈ punctuation) {before after : List Char} (shown : word <:+: before ++ c :: after) :
    word <:+: before ∨ word <:+: after :=
  infix_of_infix_append_cons shown (h.free c hc)

theorem not_infix_nil : ¬word <:+: [] := fun hnil => h.ne_nil (List.infix_nil.mp hnil)

/-- The word is between two marks of punctuation if it is in the text with them. -/
theorem unwrap {c d : Char} (hc : c ∈ punctuation) (hd : d ∈ punctuation) {inner : List Char}
    (shown : word <:+: c :: (inner ++ [d])) : word <:+: inner := by
  have hopened : word <:+: [] ++ c :: (inner ++ [d]) := shown
  have hrest : word <:+: inner ++ [d] := (h.split hc hopened).resolve_left h.not_infix_nil
  exact (h.split hd hrest).resolve_right h.not_infix_nil

theorem of_quote {s : String} (shown : word <:+: quote s) : word <:+: escaped s :=
  h.unwrap (by simp [punctuation]) (by simp [punctuation]) shown

mutual

theorem spells : ∀ {value : Json}, word <:+: value.text → Spells word value
  | .null, shown => .null (.self _) shown
  | .bool b, shown => .bool (.self _) shown
  | .num n, shown => .num (.self _) shown
  | .str s, shown => .str (.self _) (h.of_quote shown)
  | .arr items, shown => by
    rw [text] at shown
    obtain ⟨j, hj, hspells⟩ := spells_items (h.unwrap (by simp [punctuation]) (by simp [punctuation]) shown)
    exact hspells.mono (.item hj (.self _))
  | .obj entries, shown => by
    rw [text] at shown
    obtain ⟨e, he, hspells⟩ := spells_entries (h.unwrap (by simp [punctuation]) (by simp [punctuation]) shown)
    rcases hspells with hkey | hvalue
    · exact .key ⟨entries, .self _, List.mem_map_of_mem he⟩ hkey
    · exact hvalue.mono (.entry he (.self _))

theorem spells_items : ∀ {items : List Json}, word <:+: itemsText items → ∃ j ∈ items, Spells word j
  | [], shown => absurd shown h.not_infix_nil
  | [item], shown => ⟨item, List.mem_singleton_self _, spells shown⟩
  | first :: second :: rest, shown => by
    rw [itemsText_cons (List.cons_ne_nil _ _)] at shown
    rcases h.split (by simp [punctuation]) shown with hfirst | hrest
    · exact ⟨first, List.mem_cons_self, spells hfirst⟩
    · obtain ⟨j, hj, hspells⟩ := spells_items hrest
      exact ⟨j, List.mem_cons_of_mem _ hj, hspells⟩

theorem spells_entries : ∀ {entries : List (String × Json)}, word <:+: entriesText entries →
    ∃ e ∈ entries, word <:+: escaped e.1 ∨ Spells word e.2
  | [], shown => absurd shown h.not_infix_nil
  | [(key, value)], shown => by
    rw [entriesText] at shown
    refine ⟨(key, value), List.mem_singleton_self _, ?_⟩
    exact (h.split (by simp [punctuation]) shown).imp h.of_quote spells
  | (key, value) :: second :: rest, shown => by
    rw [entriesText_cons (List.cons_ne_nil _ _)] at shown
    rcases h.split (by simp [punctuation]) shown with hkey | hrest
    · exact ⟨(key, value), List.mem_cons_self, Or.inl (h.of_quote hkey)⟩
    · rcases h.split (by simp [punctuation]) hrest with hvalue | hrest
      · exact ⟨(key, value), List.mem_cons_self, Or.inr (spells hvalue)⟩
      · obtain ⟨e, he, hspells⟩ := spells_entries hrest
        exact ⟨e, List.mem_cons_of_mem _ he, hspells⟩

end

end Unpunctuated

end

/-! ### Redacted values -/

section
variable {secrets : Secrets} {marker : String} {part value : Json}

theorem redact_eq_arr {items : List Json} (h : value.redact secrets marker = arr items) :
    ∃ originals, value = arr originals ∧ items = originals.map (redact secrets marker) := by
  cases value with
  | arr originals =>
    rw [redact, redactItems_eq] at h
    exact ⟨originals, rfl, (arr.inj h).symm⟩
  | num n =>
    rw [redact] at h
    split at h <;> cases h
  | _ => cases h

theorem redact_eq_obj {entries : List (String × Json)} (h : value.redact secrets marker = obj entries) :
    ∃ originals, value = obj originals ∧ entries = originals.map fun e => (e.1, e.2.redact secrets marker) := by
  cases value with
  | obj originals =>
    rw [redact, redactEntries_eq] at h
    exact ⟨originals, rfl, (obj.inj h).symm⟩
  | num n =>
    rw [redact] at h
    split at h <;> cases h
  | _ => cases h

theorem redact_eq_null (h : value.redact secrets marker = null) : value = null := by
  cases value with
  | null => rfl
  | num n =>
    rw [redact] at h
    split at h <;> cases h
  | _ => cases h

theorem redact_eq_str {s : String} (h : value.redact secrets marker = str s) :
    (∃ t, value = str t ∧ s = Redaction.hide secrets marker t) ∨ s = marker := by
  cases value with
  | str t => exact Or.inl ⟨t, rfl, (str.inj h).symm⟩
  | num n =>
    rw [redact] at h
    split at h
    · exact Or.inr (str.inj h).symm
    · cases h
  | _ => cases h

theorem redact_eq_bool {b : Bool} (h : value.redact secrets marker = bool b) : value = bool b := by
  cases value with
  | bool c => exact h
  | num n =>
    rw [redact] at h
    split at h <;> cases h
  | _ => cases h

/-- The numbers that stay are those that are no secret. -/
theorem redact_eq_num {n : Number} :
    value.redact secrets marker = num n ↔ value = num n ∧ String.ofList (numberText n) ∉ secrets := by
  constructor
  · intro h
    cases value with
    | num m =>
      rw [redact] at h
      split at h
      · cases h
      · next hnone =>
        cases h
        exact ⟨rfl, fun hmem => hnone (List.contains_iff_mem.mpr hmem)⟩
    | _ => cases h
  · rintro ⟨rfl, hkept⟩
    rw [redact, if_neg fun hmem => hkept (List.contains_iff_mem.mp hmem)]

/-- The parts of a redacted value are the redacted parts. -/
theorem within_redact_iff : part.Within (value.redact secrets marker) ↔
    ∃ j : Json, j.Within value ∧ part = j.redact secrets marker := by
  constructor
  · intro h
    generalize hmasked : value.redact secrets marker = masked at h
    induction h generalizing value with
    | self => exact ⟨value, .self value, hmasked.symm⟩
    | item mem _ ih =>
      obtain ⟨originals, rfl, rfl⟩ := redact_eq_arr hmasked
      obtain ⟨j, hj, rfl⟩ := List.mem_map.mp mem
      obtain ⟨original, inside, hpart⟩ := ih rfl
      exact ⟨original, .item hj inside, hpart⟩
    | entry mem _ ih =>
      obtain ⟨originals, rfl, rfl⟩ := redact_eq_obj hmasked
      obtain ⟨e, he, rfl⟩ := List.mem_map.mp mem
      obtain ⟨original, inside, hpart⟩ := ih rfl
      exact ⟨original, .entry he inside, hpart⟩
  · rintro ⟨j, inside, rfl⟩
    induction inside with
    | self => exact .self _
    | item mem _ ih =>
      rw [redact, redactItems_eq]
      exact .item (List.mem_map_of_mem mem) ih
    | entry mem _ ih =>
      rw [redact, redactEntries_eq]
      exact .entry (List.mem_map.mpr ⟨_, mem, rfl⟩) ih

theorem hasKey_redact_iff {key : String} : HasKey key (value.redact secrets marker) ↔ HasKey key value := by
  constructor
  · rintro ⟨entries, inside, hkey⟩
    obtain ⟨j, hj, hentries⟩ := within_redact_iff.mp inside
    obtain ⟨originals, rfl, rfl⟩ := redact_eq_obj hentries.symm
    exact ⟨originals, hj, by simpa [List.map_map, Function.comp_def] using hkey⟩
  · rintro ⟨entries, inside, hkey⟩
    refine ⟨entries.map fun e => (e.1, e.2.redact secrets marker), within_redact_iff.mpr ⟨_, inside, ?_⟩, ?_⟩
    · rw [redact, redactEntries_eq]
    · simpa [List.map_map, Function.comp_def] using hkey

theorem isComposite_redact : Condition.isComposite (value.redact secrets marker) = Condition.isComposite value := by
  cases value with
  | num n =>
    rw [redact]
    split <;> rfl
  | _ => rfl

/-- No string in a redacted value holds a secret. -/
theorem not_infix_of_within {secret s : String} (isSecret : secret ∈ secrets) (ne_empty : secret ≠ "")
    (apart : Redaction.Apart marker secret) (inside : (str s).Within (value.redact secrets marker)) :
    ¬secret.toList <:+: s.toList := by
  obtain ⟨j, -, hj⟩ := within_redact_iff.mp inside
  rcases redact_eq_str hj.symm with ⟨t, -, rfl⟩ | rfl
  · exact Redaction.not_infix_hide isSecret ne_empty apart t
  · exact Redaction.not_infix_marker ne_empty apart

end

/-- The text can be read in the value: in a key, or in the text of the value or of one of its parts. -/
inductive Reveals (text : List Char) (value : Json) : Prop
  | key {key : String} (has : HasKey key value) (shown : text <:+: key.toList)
  | part {part : Json} (inside : part.Within value) (shown : text <:+: part.plainText.toList)

section
variable {word : List Char} {part value : Json}

theorem Within.isComposite (h : part.Within value) (composite : Condition.isComposite part = true) :
    Condition.isComposite value = true := by
  cases h with
  | self => exact composite
  | item => rfl
  | entry => rfl

theorem HasKey.isComposite {key : String} (h : HasKey key value) : Condition.isComposite value = true := by
  obtain ⟨entries, inside, -⟩ := h
  exact inside.isComposite rfl

theorem plainText_of_isComposite (h : Condition.isComposite value = true) : value.plainText.toList = value.text := by
  cases value with
  | arr | obj => exact String.toList_ofList
  | _ => cases h

/-- In a collection all that its keys and scalars spell can be read. -/
theorem Spells.reveals (h : Spells word value) (composite : Condition.isComposite value = true) : Reveals word value :=
  .part (.self value) (by rw [plainText_of_isComposite composite]; exact h.text_infix)

/-- A word without punctuation is read in a key or a scalar. The text of a collection shows more of them than they show
by themselves: nulls, and escaped characters. -/
theorem reveals_iff (h : Unpunctuated word) :
    Reveals word value ↔
      (∃ key, HasKey key value ∧ (word <:+: key.toList ∨ word <:+: escaped key)) ∨
      (∃ s, (str s).Within value ∧ word <:+: s.toList) ∨
      (∃ b, (bool b).Within value ∧ word <:+: (bool b).text) ∨
      (∃ n, (num n).Within value ∧ word <:+: numberText n) ∨
      (Condition.isComposite value = true ∧
        (null.Within value ∧ word <:+: null.text ∨ ∃ s, (str s).Within value ∧ word <:+: escaped s)) := by
  constructor
  · intro reveals
    cases reveals with
    | key has shown => exact Or.inl ⟨_, has, Or.inl shown⟩
    | @part part inside shown =>
      have of_composite (composite : Condition.isComposite part = true) :
          Condition.isComposite value = true ∧ Spells word value := by
        rw [plainText_of_isComposite composite] at shown
        exact ⟨inside.isComposite composite, (h.spells shown).mono inside⟩
      cases part with
      | null => exact absurd shown h.not_infix_nil
      | bool b =>
        rw [toList_plainText (by simp) (by simp)] at shown
        exact Or.inr (Or.inr (Or.inl ⟨b, inside, shown⟩))
      | num n =>
        rw [toList_plainText (by simp) (by simp)] at shown
        exact Or.inr (Or.inr (Or.inr (Or.inl ⟨n, inside, shown⟩)))
      | str s => exact Or.inr (Or.inl ⟨s, inside, shown⟩)
      | arr | obj =>
        obtain ⟨composite, spells⟩ := of_composite rfl
        cases spells with
        | key has shown => exact Or.inl ⟨_, has, Or.inr shown⟩
        | str inside shown => exact Or.inr (Or.inr (Or.inr (Or.inr ⟨composite, Or.inr ⟨_, inside, shown⟩⟩)))
        | null inside shown => exact Or.inr (Or.inr (Or.inr (Or.inr ⟨composite, Or.inl ⟨inside, shown⟩⟩)))
        | bool inside shown => exact Or.inr (Or.inr (Or.inl ⟨_, inside, shown⟩))
        | num inside shown => exact Or.inr (Or.inr (Or.inr (Or.inl ⟨_, inside, shown⟩)))
  · rintro (⟨key, has, shown | shown⟩ | ⟨s, inside, shown⟩ | ⟨b, inside, shown⟩ | ⟨n, inside, shown⟩ |
      ⟨composite, ⟨inside, shown⟩ | ⟨s, inside, shown⟩⟩)
    · exact .key has shown
    · exact (Spells.key has shown).reveals has.isComposite
    · exact .part inside shown
    · exact .part inside (by rwa [toList_plainText (by simp) (by simp)])
    · exact .part inside (by rwa [toList_plainText (by simp) (by simp)])
    · exact (Spells.null inside shown).reveals composite
    · exact (Spells.str inside shown).reveals composite

end

/-- Redaction leaves a secret in no string and as no number. A secret without punctuation can be read in a redacted value
just if it is in a key, in a constant or in a number that is no secret, or if the value is a collection and the secret
appears in its text where a null is written or a character of a string is escaped. -/
theorem redacted_value_reveals_iff {value : Json} {secrets : Secrets} {marker secret : String}
    (isSecret : secret ∈ secrets) (ne_empty : secret ≠ "") (apart : Redaction.Apart marker secret) :
    (∀ s, (str s).Within (value.redact secrets marker) → ¬secret.toList <:+: s.toList) ∧
    (∀ n, (num n).Within (value.redact secrets marker) → String.ofList (numberText n) ≠ secret) ∧
    (Unpunctuated secret.toList →
      (Reveals secret.toList (value.redact secrets marker) ↔
        (∃ key, HasKey key value ∧ (secret.toList <:+: key.toList ∨ secret.toList <:+: escaped key)) ∨
        (∃ b, (bool b).Within value ∧ secret.toList <:+: (bool b).text) ∨
        (∃ n, (num n).Within value ∧ String.ofList (numberText n) ∉ secrets ∧ secret.toList <:+: numberText n) ∨
        (Condition.isComposite value = true ∧
          (null.Within value ∧ secret.toList <:+: null.text ∨
            ∃ s, (str s).Within (value.redact secrets marker) ∧ secret.toList <:+: escaped s)))) := by
  have strings (s : String) (inside : (str s).Within (value.redact secrets marker)) : ¬secret.toList <:+: s.toList :=
    not_infix_of_within isSecret ne_empty apart inside
  have number_iff (n : Number) : (num n).Within (value.redact secrets marker) ↔
      (num n).Within value ∧ String.ofList (numberText n) ∉ secrets := by
    rw [within_redact_iff]
    constructor
    · rintro ⟨j, inside, hj⟩
      obtain ⟨rfl, hkept⟩ := redact_eq_num.mp hj.symm
      exact ⟨inside, hkept⟩
    · rintro ⟨inside, hkept⟩
      exact ⟨_, inside, (redact_eq_num.mpr ⟨rfl, hkept⟩).symm⟩
  refine ⟨strings, fun n inside heq => ((number_iff n).mp inside).2 (heq ▸ isSecret), fun unpunctuated => ?_⟩
  have bool_iff (b : Bool) : (bool b).Within (value.redact secrets marker) ↔ (bool b).Within value := by
    rw [within_redact_iff]
    refine ⟨?_, fun inside => ⟨_, inside, rfl⟩⟩
    rintro ⟨j, inside, hj⟩
    rwa [redact_eq_bool hj.symm] at inside
  have null_iff : null.Within (value.redact secrets marker) ↔ null.Within value := by
    rw [within_redact_iff]
    refine ⟨?_, fun inside => ⟨_, inside, rfl⟩⟩
    rintro ⟨j, inside, hj⟩
    rwa [redact_eq_null hj.symm] at inside
  have hnone : ¬∃ s, (str s).Within (value.redact secrets marker) ∧ secret.toList <:+: s.toList :=
    fun ⟨s, inside, shown⟩ => strings s inside shown
  rw [reveals_iff unpunctuated, isComposite_redact, null_iff]
  simp only [hasKey_redact_iff, number_iff, bool_iff, hnone, false_or, and_assoc]

/-- A secret in a nested string cannot be read in the redacted value. -/
theorem nested_secret_is_not_revealed :
    let value : Json := .obj [("auth", .arr [.str "Bearer sesame", .null]), ("n", .num (.int 1))]
    ¬Reveals "sesame".toList (value.redact ["sesame"] Redaction.defaultMarker) := by
  intro value
  have apart : Redaction.Apart Redaction.defaultMarker "sesame" := ⟨by decide, by simp [Redaction.defaultMarker]⟩
  have unpunctuated : Unpunctuated "sesame".toList := ⟨by decide, by simp [punctuation]⟩
  have hmasked : value.redact ["sesame"] Redaction.defaultMarker =
      .obj [("auth", .arr [.str "Bearer ******", .null]), ("n", .num (.int 1))] := by rfl
  rw [(redacted_value_reveals_iff (List.mem_singleton_self _) (by decide) apart).2.2 unpunctuated, hmasked]
  have hkeys : ∀ key ∈ ["auth", "n"], ¬"sesame".toList <:+: key.toList ∧ ¬"sesame".toList <:+: escaped key := by
    decide +kernel
  have hnumber : ¬"sesame".toList <:+: numberText (.int 1) := by decide +kernel
  have hnull : ¬"sesame".toList <:+: text .null := by decide +kernel
  have hstring : ¬"sesame".toList <:+: escaped "Bearer ******" := by decide +kernel
  rintro (⟨key, ⟨entries, inside, hkey⟩, shown⟩ | ⟨b, inside, -⟩ | ⟨n, inside, -, shown⟩ |
    ⟨-, ⟨inside, shown⟩ | ⟨s, inside, shown⟩⟩)
  · simp [value] at inside
    subst inside
    exact shown.elim (hkeys key hkey).1 (hkeys key hkey).2
  · simp [value] at inside
  · simp [value] at inside
    subst inside
    exact hnumber shown
  · exact hnull shown
  · simp at inside
    subst inside
    exact hstring shown

/-- Constants, keys and whole objects that are secrets stay as they are. -/
theorem constant_is_revealed :
    let marker := Redaction.defaultMarker
    let flag : Json := .obj [("flag", .bool true)]
    let creds : Json := .obj [("creds", .obj [("pin", .num (.int 1234))])]
    let door : Json := .obj [("sesame", .num (.int 1))]
    (Redaction.Apart marker "true" ∧ flag.redact ["true"] marker = flag ∧ Reveals "true".toList flag) ∧
      (Redaction.Apart marker "\x7b\"pin\":1234\x7d" ∧ creds.redact ["\x7b\"pin\":1234\x7d"] marker = creds ∧
        Reveals "\x7b\"pin\":1234\x7d".toList creds) ∧
      (Redaction.Apart marker "sesame" ∧ door.redact ["sesame"] marker = door ∧ Reveals "sesame".toList door) := by
  intro marker flag creds door
  refine ⟨⟨⟨by decide, by simp [marker, Redaction.defaultMarker]⟩, rfl, ?_⟩,
    ⟨⟨by decide, by simp [marker, Redaction.defaultMarker]⟩, rfl, ?_⟩,
    ⟨⟨by decide, by simp [marker, Redaction.defaultMarker]⟩, rfl, ?_⟩⟩
  · exact .part (.entry (List.mem_singleton_self _) (.self (.bool true))) (List.infix_refl _)
  · exact .part (.entry (List.mem_singleton_self _) (.self (.obj [("pin", .num (.int 1234))]))) (List.infix_refl _)
  · exact .key ⟨_, .self _, List.mem_singleton_self _⟩ (List.infix_refl _)

end StepTree.Json
