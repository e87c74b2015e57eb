import Mathlib.Data.List.Infix
import StepTree.Scope.Rendering

/-! # What redaction hides

Where a secret begins in a text the marker is put, so none is left whole in a redacted text: not in what stays
of the text, and, if the marker shares no character with it, not across or inside a marker. What a scope hides is
told by its secret bindings. -/

namespace StepTree

/-! ### Texts -/

namespace Redaction

/-- The marker can neither hold a part of the secret nor be empty. -/
structure Apart (marker secret : String) : Prop where
  ne_empty : marker ≠ ""
  disjoint : ∀ c ∈ marker.toList, c ∉ secret.toList

theorem Apart.of_infix {marker secret text : String} (apart : Apart marker text)
    (inside : secret.toList <:+: text.toList) : Apart marker secret :=
  ⟨apart.ne_empty, fun c hc hsecret => apart.disjoint c hc (inside.subset hsecret)⟩

section
variable {secrets : Secrets}

theorem length_le_foldl_max {found : List (List Char)} {longest : Nat} :
    longest ≤ found.foldl (fun longest secret => max longest secret.length) longest ∧
      ∀ s ∈ found, s.length ≤ found.foldl (fun longest secret => max longest secret.length) longest := by
  induction found generalizing longest with
  | nil => exact ⟨Nat.le_refl _, List.forall_mem_nil _⟩
  | cons s rest ih =>
    obtain ⟨hbegin, hrest⟩ := @ih (max longest s.length)
    exact ⟨(Nat.le_max_left _ _).trans hbegin, List.forall_mem_cons.mpr ⟨(Nat.le_max_right _ _).trans hbegin, hrest⟩⟩

theorem length_le_matchLength {secret : String} (h : secret ∈ secrets) {s : List Char} (begins : secret.toList <+: s) :
    secret.toList.length ≤ matchLength secrets s := by
  refine length_le_foldl_max.2 secret.toList (List.mem_filter.mpr ⟨List.mem_map_of_mem h, ?_⟩)
  exact List.isPrefixOf_iff_prefix.mpr begins

theorem foldl_max_cases (found : List (List Char)) (longest : Nat) :
    found.foldl (fun longest secret => max longest secret.length) longest = longest ∨
      ∃ s ∈ found, found.foldl (fun longest secret => max longest secret.length) longest = s.length := by
  induction found generalizing longest with
  | nil => exact Or.inl rfl
  | cons s rest ih =>
    rw [List.foldl_cons]
    rcases ih (max longest s.length) with h | ⟨t, ht, h⟩
    · rw [h]
      rcases Nat.le_total s.length longest with hle | hle
      · exact Or.inl (Nat.max_eq_left hle)
      · exact Or.inr ⟨s, List.mem_cons_self, Nat.max_eq_right hle⟩
    · exact Or.inr ⟨t, List.mem_cons_of_mem s ht, h⟩

/-- What is found at the start of a text is a secret. -/
theorem exists_of_matchLength {s : List Char} {length : Nat} (h : matchLength secrets s = length + 1) :
    ∃ secret ∈ secrets, secret.toList <+: s ∧ secret.toList.length = length + 1 := by
  unfold matchLength at h
  rcases foldl_max_cases ((secrets.map String.toList).filter (·.isPrefixOf s)) 0 with hnone | ⟨chars, hchars, hlength⟩
  · cases hnone.symm.trans h
  · obtain ⟨hmem, hbegins⟩ := List.mem_filter.mp hchars
    obtain ⟨secret, hsecret, rfl⟩ := List.mem_map.mp hmem
    exact ⟨secret, hsecret, List.isPrefixOf_iff_prefix.mp hbegins, hlength.symm.trans h⟩

theorem matchLength_le (secrets : Secrets) (s : List Char) : matchLength secrets s ≤ s.length := by
  unfold matchLength
  refine List.foldlRecOn (motive := fun longest => longest ≤ s.length) _ _ (Nat.zero_le _) ?_
  intro longest hle secret hs
  exact Nat.max_le.mpr ⟨hle, (List.isPrefixOf_iff_prefix.mp (List.mem_filter.mp hs).2).length_le⟩

theorem hideFrom_of_length_le (marker : List Char) {skip : Nat} {s : List Char} (h : s.length ≤ skip) :
    hideFrom secrets marker skip s = [] := by
  induction s generalizing skip with
  | nil => cases skip <;> rfl
  | cons c s ih =>
    cases skip with
    | zero => cases h
    | succ skip => exact ih (Nat.le_of_succ_le_succ h)

/-- A text that is a secret is hidden as a whole. -/
theorem hide_of_mem {text : String} (h : text ∈ secrets) (ne_empty : text ≠ "") (marker : String) :
    hide secrets marker text = marker := by
  have hlength := Nat.le_antisymm (matchLength_le secrets text.toList) (length_le_matchLength h (List.prefix_refl _))
  unfold hide
  cases htext : text.toList with
  | nil => exact absurd (String.toList_eq_nil_iff.mp htext) ne_empty
  | cons c s =>
    rw [htext] at hlength
    rw [hideFrom, hlength]
    dsimp only [List.length_cons]
    rw [hideFrom_of_length_le marker.toList (Nat.le_refl _), List.append_nil, String.ofList_toList]

/-- A text without secrets stays as it is; the empty text hides nothing. -/
theorem hide_eq_self {text : String} (h : ∀ secret ∈ secrets, secret ≠ "" → ¬secret.toList <:+: text.toList)
    (marker : String) : hide secrets marker text = text := by
  -- Every rest of the text is redacted on its own, and a secret at its beginning would occur in the text.
  have hkept : ∀ s, s <:+ text.toList → hideFrom secrets marker.toList 0 s = s := by
    intro s hs
    induction s with
    | nil => rfl
    | cons c s ih =>
      rw [hideFrom]
      split
      · rw [ih ((List.suffix_cons c s).trans hs)]
      · next hfound =>
        obtain ⟨secret, hsecret, hbegins, hlength⟩ := exists_of_matchLength hfound
        have hne : secret ≠ "" := by
          rintro rfl
          cases hlength
        exact absurd (hbegins.isInfix.trans hs.isInfix) (h secret hsecret hne)
  rw [hide, hkept _ (List.suffix_refl _), String.ofList_toList]

theorem hide_of_not_infix {text : String} (h : ∀ secret ∈ secrets, ¬secret.toList <:+: text.toList) (marker : String) :
    hide secrets marker text = text :=
  hide_eq_self (fun secret hsecret _ => h secret hsecret) marker

end

section
variable {secrets : Secrets} {marker secret : List Char} (disjoint : ∀ c ∈ marker, c ∉ secret)
include disjoint

/-- What shares no character with the marker begins behind it. -/
theorem infix_of_infix_append {s : List Char} (h : secret <:+: marker ++ s) : secret <:+: s := by
  induction marker with
  | nil => exact h
  | cons m rest ih =>
    have hm : m ∉ secret := disjoint m List.mem_cons_self
    rcases List.infix_cons_iff.mp h with hprefix | hinfix
    · cases secret with
      | nil => exact List.nil_infix
      | cons c secret => exact absurd ((List.cons_prefix_cons.mp hprefix).1 ▸ List.mem_cons_self) hm
    · exact ih (fun c hc => disjoint c (List.mem_cons_of_mem m hc)) hinfix

/-- A redacted text begins with what shares no character with the marker only where the text itself does. -/
theorem prefix_of_prefix_hideFrom (ne_nil : marker ≠ []) {s : List Char} (h : secret <+: hideFrom secrets marker 0 s) :
    secret <+: s := by
  induction s generalizing secret with
  | nil => exact h
  | cons c s ih =>
    cases secret with
    | nil => exact List.nil_prefix
    | cons d secret =>
      rw [hideFrom] at h
      split at h
      · obtain ⟨rfl, hrest⟩ := List.cons_prefix_cons.mp h
        exact List.cons_prefix_cons.mpr ⟨rfl, ih (fun m hm hs => disjoint m hm (List.mem_cons_of_mem d hs)) hrest⟩
      · obtain ⟨m, rest, rfl⟩ := List.exists_cons_of_ne_nil ne_nil
        obtain ⟨rfl, -⟩ := List.cons_prefix_cons.mp h
        exact absurd List.mem_cons_self (disjoint d List.mem_cons_self)

/-- In a redacted text there is what shares no character with the marker only if it is in the text itself. -/
theorem infix_of_infix_hideFrom (ne_nil : marker ≠ []) {skip : Nat} {s : List Char}
    (h : secret <:+: hideFrom secrets marker skip s) : secret <:+: s := by
  induction s generalizing skip with
  | nil => cases skip <;> exact h
  | cons c s ih =>
    cases skip with
    | succ skip => exact (ih h).trans (List.suffix_cons c s).isInfix
    | zero =>
      rw [hideFrom] at h
      split at h
      · next hnone =>
        have hkept : hideFrom secrets marker 0 (c :: s) = c :: hideFrom secrets marker 0 s := by rw [hideFrom, hnone]
        rcases List.infix_cons_iff.mp h with hprefix | hrest
        · exact (prefix_of_prefix_hideFrom disjoint ne_nil (hkept ▸ hprefix)).isInfix
        · exact (ih hrest).trans (List.suffix_cons c s).isInfix
      · exact (ih (infix_of_infix_append disjoint h)).trans (List.suffix_cons c s).isInfix

end

/-- No secret is left in a redacted text. -/
theorem not_infix_hideFrom {secrets : Secrets} {marker secret : String} (h : secret ∈ secrets) (ne_empty : secret ≠ "")
    (apart : Apart marker secret) (skip : Nat) (s : List Char) :
    ¬secret.toList <:+: hideFrom secrets marker.toList skip s := by
  have hne : secret.toList ≠ [] := fun hnil => ne_empty (String.toList_eq_nil_iff.mp hnil)
  have hmarker : marker.toList ≠ [] := fun hnil => apart.ne_empty (String.toList_eq_nil_iff.mp hnil)
  induction s generalizing skip with
  | nil =>
    intro hinfix
    have hnil : hideFrom secrets marker.toList skip [] = [] := by cases skip <;> rfl
    rw [hnil] at hinfix
    exact hne (List.infix_nil.mp hinfix)
  | cons c s ih =>
    cases skip with
    | succ skip => exact ih skip
    | zero =>
      intro hinfix
      rw [hideFrom] at hinfix
      split at hinfix
      · next hnone =>
        have hkept : hideFrom secrets marker.toList 0 (c :: s) = c :: hideFrom secrets marker.toList 0 s := by
          rw [hideFrom, hnone]
        rcases List.infix_cons_iff.mp hinfix with hprefix | hrest
        · -- A secret that begins here would have been hidden.
          have hbegins := prefix_of_prefix_hideFrom apart.disjoint hmarker (hkept ▸ hprefix)
          have hlength := length_le_matchLength h hbegins
          rw [hnone] at hlength
          exact hne (List.eq_nil_of_length_eq_zero (Nat.le_zero.mp hlength))
        · exact ih 0 hrest
      · exact ih _ (infix_of_infix_append apart.disjoint hinfix)

theorem not_infix_hide {secrets : Secrets} {marker secret : String} (h : secret ∈ secrets) (ne_empty : secret ≠ "")
    (apart : Apart marker secret) (text : String) : ¬secret.toList <:+: (hide secrets marker text).toList := by
  rw [hide, String.toList_ofList]
  exact not_infix_hideFrom h ne_empty apart 0 _

theorem infix_of_infix_hide {secrets : Secrets} {marker secret text : String} (apart : Apart marker secret)
    (h : secret.toList <:+: (hide secrets marker text).toList) : secret.toList <:+: text.toList := by
  rw [hide, String.toList_ofList] at h
  exact infix_of_infix_hideFrom apart.disjoint (fun hnil => apart.ne_empty (String.toList_eq_nil_iff.mp hnil)) h

theorem not_infix_marker {marker secret : String} (ne_empty : secret ≠ "") (apart : Apart marker secret) :
    ¬secret.toList <:+: marker.toList := by
  intro hinfix
  have hnil : secret.toList <:+: [] := infix_of_infix_append apart.disjoint (by rwa [List.append_nil])
  exact ne_empty (String.toList_eq_nil_iff.mp (List.infix_nil.mp hnil))

end Redaction

/-! ### Values -/

namespace Json

mutual

/-- The strings in a value, without the keys of its objects. -/
def strings : Json → List String
  | str s => [s]
  | arr items => itemStrings items
  | obj entries => entryStrings entries
  | null => []
  | bool _ => []
  | num _ => []

def itemStrings : List Json → List String
  | [] => []
  | item :: items => strings item ++ itemStrings items

def entryStrings : List (String × Json) → List String
  | [] => []
  | (_, value) :: entries => strings value ++ entryStrings entries

end

section
variable {secrets : Secrets} {marker text : String}

mutual

/-- A string in a redacted value was redacted, or it is the marker. -/
theorem mem_strings_redact : ∀ {value : Json}, text ∈ (value.redact secrets marker).strings →
    (∃ s ∈ value.strings, text = Redaction.hide secrets marker s) ∨ text = marker
  | str s, h => by
    rw [redact, strings] at h
    exact Or.inl ⟨s, List.mem_singleton_self s, List.mem_singleton.mp h⟩
  | num n, h => by
    rw [redact] at h
    split at h
    · exact Or.inr (List.mem_singleton.mp h)
    · cases h
  | arr items, h => by
    rw [redact, strings] at h
    exact mem_itemStrings_redact h
  | obj entries, h => by
    rw [redact, strings] at h
    exact mem_entryStrings_redact h

theorem mem_itemStrings_redact : ∀ {items : List Json}, text ∈ itemStrings (redactItems secrets marker items) →
    (∃ s ∈ itemStrings items, text = Redaction.hide secrets marker s) ∨ text = marker
  | item :: items, h => by
    rw [redactItems, itemStrings] at h
    rw [itemStrings]
    rcases List.mem_append.mp h with h | h
    · exact (mem_strings_redact h).imp_left fun ⟨s, hs, htext⟩ => ⟨s, List.mem_append_left _ hs, htext⟩
    · exact (mem_itemStrings_redact h).imp_left fun ⟨s, hs, htext⟩ => ⟨s, List.mem_append_right _ hs, htext⟩

theorem mem_entryStrings_redact : ∀ {entries : List (String × Json)},
    text ∈ entryStrings (redactEntries secrets marker entries) →
    (∃ s ∈ entryStrings entries, text = Redaction.hide secrets marker s) ∨ text = marker
  | (key, value) :: entries, h => by
    rw [redactEntries, entryStrings] at h
    rw [entryStrings]
    rcases List.mem_append.mp h with h | h
    · exact (mem_strings_redact h).imp_left fun ⟨s, hs, htext⟩ => ⟨s, List.mem_append_left _ hs, htext⟩
    · exact (mem_entryStrings_redact h).imp_left fun ⟨s, hs, htext⟩ => ⟨s, List.mem_append_right _ hs, htext⟩

end

end

/-- Entries are ordered by key, and none is lost but for another one with the same key. -/
theorem mem_insertEntry_keys {α : Type} {key name : String} {value : α} {entries : List (String × α)} :
    name ∈ (insertEntry key value entries).map (·.1) ↔ name = key ∨ name ∈ entries.map (·.1) := by
  induction entries with
  | nil => simp [insertEntry]
  | cons e rest ih =>
    obtain ⟨k, v⟩ := e
    rw [insertEntry]
    split
    · simp
    · split
      · next hkey =>
        subst hkey
        simp
      · rw [List.map_cons, List.mem_cons, ih, List.map_cons, List.mem_cons, or_left_comm]

theorem mem_sortEntries_keys {α : Type} {name : String} {entries : List (String × α)} :
    name ∈ (sortEntries entries).map (·.1) ↔ name ∈ entries.map (·.1) := by
  have hfold : ∀ sorted : List (String × α),
      name ∈ (entries.foldl (fun sorted e => insertEntry e.1 e.2 sorted) sorted).map (·.1) ↔
        name ∈ sorted.map (·.1) ∨ name ∈ entries.map (·.1) := by
    induction entries with
    | nil => simp
    | cons e rest ih =>
      intro sorted
      rw [List.foldl_cons, ih, mem_insertEntry_keys, List.map_cons, List.mem_cons, or_assoc, or_left_comm]
  rw [sortEntries, hfold]
  simp

end Json

/-! ### Scopes -/

theorem Binding.secretText?_eq_some {b : Binding} {text : String} :
    b.secretText? = some text ↔ b.isSecret = true ∧ b.value.map Json.plainText = some text ∧ text ≠ "" := by
  unfold secretText?
  cases b.isSecret <;> simp [Option.filter_eq_some_iff]

namespace Scope
variable {s : Scope}

/-- What a scope hides are the texts of the secret bindings in any of its frames. -/
theorem mem_secrets {text : String} :
    text ∈ s.secrets ↔ ∃ f ∈ s.stack, ∃ entry ∈ f, entry.2.secretText? = some text := by
  unfold secrets
  rw [Json.mem_sortEntries_keys, List.map_map]
  simp

theorem ne_empty_of_mem_secrets {text : String} (h : text ∈ s.secrets) : text ≠ "" := by
  obtain ⟨f, -, entry, -, htext⟩ := mem_secrets.mp h
  exact (Binding.secretText?_eq_some.mp htext).2.2

/-- No secret of the scope with which the marker shares no character is in the text. -/
def Hides (s : Scope) (marker text : String) : Prop :=
  ∀ secret ∈ s.secrets, Redaction.Apart marker secret → ¬secret.toList <:+: text.toList

theorem hides_redact (s : Scope) (marker text : String) : s.Hides marker (s.redact marker text) :=
  fun _ h apart => Redaction.not_infix_hide h (ne_empty_of_mem_secrets h) apart text

theorem hides_redactValue {marker : String} {value : Json} :
    ∀ text ∈ (s.redactValue marker value).strings, s.Hides marker text := by
  intro text htext secret h apart
  rcases Json.mem_strings_redact htext with ⟨t, -, rfl⟩ | rfl
  · exact Redaction.not_infix_hide h (ne_empty_of_mem_secrets h) apart t
  · exact Redaction.not_infix_marker (ne_empty_of_mem_secrets h) apart

end Scope

end StepTree
