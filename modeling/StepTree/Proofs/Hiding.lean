import StepTree.Proofs.Redaction

/-! # Secrets that overlap

Secrets can hold one another, and they can overlap where they occur. They are searched for together, in one pass over
the text, or one after the other, the longest first. Both ways leave no secret whole, if the marker shares no character
with them. What is left of a secret that was cut into by another one can show, unless no two of the secrets can overlap:
then nothing of any occurrence is left. -/

namespace StepTree

namespace Text

theorem byteLength_append (s t : List Char) : byteLength (s ++ t) = byteLength s + byteLength t := by
  induction s with
  | nil => simp [byteLength]
  | cons c s ih =>
    simp only [byteLength, List.cons_append, List.map_cons, List.foldr_cons] at ih ⊢
    omega

theorem byteLength_pos {s : List Char} (h : s ≠ []) : 0 < byteLength s := by
  obtain ⟨c, rest, rfl⟩ := List.exists_cons_of_ne_nil h
  have hc := c.utf8Size_pos
  simp only [byteLength, List.map_cons, List.foldr_cons]
  omega

/-- A text that occurs in another one is shorter, unless it is all of it. -/
theorem byteLength_lt_of_infix {s t : List Char} (h : s <:+: t) (ne : s ≠ t) : byteLength s < byteLength t := by
  obtain ⟨before, after, rfl⟩ := h
  rw [byteLength_append, byteLength_append]
  by_cases hbefore : before = []
  · have hafter : after ≠ [] := by
      rintro rfl
      exact ne (by simp [hbefore])
    have hpos := byteLength_pos hafter
    omega
  · have hpos := byteLength_pos hbefore
    omega

end Text

namespace Redaction

/-! ### Two ways to search -/

/-- How the secrets are searched for in a text. -/
inductive Search where
  /-- All of them in one pass, as `Redaction.hide` does it. -/
  | together
  /-- One after the other, where one pass cannot take all of them. -/
  | inTurn

/-- The secrets that can occur, the longest first. -/
def longestFirst (secrets : Secrets) : Secrets :=
  (secrets.filter (· ≠ "")).mergeSort fun a b => Text.byteLength b.toList ≤ Text.byteLength a.toList

/-- The secrets that each pass over the text looks for. -/
def Search.passes (secrets : Secrets) : Search → List Secrets
  | .together => [secrets]
  | .inTurn => (longestFirst secrets).map fun secret => [secret]

/-- The text with the marker in place of each secret. -/
def Search.hide (search : Search) (secrets : Secrets) (marker text : String) : String :=
  (search.passes secrets).foldl (fun text pass => Redaction.hide pass marker text) text

theorem mem_longestFirst {secrets : Secrets} {secret : String} :
    secret ∈ longestFirst secrets ↔ secret ∈ secrets ∧ secret ≠ "" := by
  rw [longestFirst, List.mem_mergeSort, List.mem_filter]
  simp

theorem longestFirst_ordered (secrets : Secrets) :
    (longestFirst secrets).Pairwise fun a b => Text.byteLength b.toList ≤ Text.byteLength a.toList := by
  have hordered := @List.pairwise_mergeSort _
    (fun a b : String => decide (Text.byteLength b.toList ≤ Text.byteLength a.toList))
    (fun a b c hab hbc => by simp only [decide_eq_true_eq] at *; omega)
    (fun a b => by simp only [Bool.or_eq_true, decide_eq_true_eq]; omega) (secrets.filter (· ≠ ""))
  exact hordered.imp of_decide_eq_true

namespace Search
variable {secrets : Secrets} {search : Search}

theorem subset_of_mem_passes {pass : Secrets} (h : pass ∈ search.passes secrets) : pass ⊆ secrets := by
  cases search with
  | together =>
    obtain rfl := List.mem_singleton.mp h
    exact List.Subset.refl _
  | inTurn =>
    obtain ⟨secret, hsecret, rfl⟩ := List.mem_map.mp h
    exact List.cons_subset.mpr ⟨(mem_longestFirst.mp hsecret).1, List.nil_subset _⟩

theorem exists_pass {secret : String} (h : secret ∈ secrets) (ne_empty : secret ≠ "") :
    ∃ pass ∈ search.passes secrets, secret ∈ pass := by
  cases search with
  | together => exact ⟨secrets, List.mem_singleton_self _, h⟩
  | inTurn => exact ⟨[secret], List.mem_map_of_mem (mem_longestFirst.mpr ⟨h, ne_empty⟩), List.mem_singleton_self _⟩

theorem hide_eq_self {text : String} (clear : ∀ secret ∈ secrets, secret ≠ "" → ¬secret.toList <:+: text.toList)
    (marker : String) : search.hide secrets marker text = text := by
  refine List.foldlRecOn (motive := fun left => left = text) _ _ rfl ?_
  rintro _ rfl pass hpass
  exact Redaction.hide_eq_self (fun secret hsecret => clear secret (subset_of_mem_passes hpass hsecret)) marker

/-- The pass that looks for a secret removes it, and no other pass brings it back. -/
theorem not_infix_hide {marker secret : String} (h : secret ∈ secrets) (ne_empty : secret ≠ "")
    (apart : Apart marker secret) (text : String) : ¬secret.toList <:+: (search.hide secrets marker text).toList := by
  obtain ⟨pass, hpass, hsecret⟩ := search.exists_pass h ne_empty
  obtain ⟨before, after, hsplit⟩ := List.append_of_mem hpass
  rw [hide, hsplit, List.foldl_append, List.foldl_cons]
  refine List.foldlRecOn (motive := fun left : String => ¬secret.toList <:+: left.toList) _ _
    (Redaction.not_infix_hide hsecret ne_empty apart _) ?_
  exact fun left clear pass _ hinfix => clear (infix_of_infix_hide apart hinfix)

end Search

end Redaction

/-- With a marker that shares no character with them, no secret is left in a redacted text, whatever it is a part of or
overlaps with; so redacting once more changes nothing, as it does not change a text without secrets. -/
theorem Redaction.secrets_are_removed {secrets : Secrets} {marker : String}
    (apart : ∀ secret ∈ secrets, Apart marker secret) (search : Search) (text : String) :
    let hidden := search.hide secrets marker text
    (∀ secret ∈ secrets, secret ≠ "" → ¬secret.toList <:+: hidden.toList) ∧
      search.hide secrets marker hidden = hidden ∧
      ((∀ secret ∈ secrets, secret ≠ "" → ¬secret.toList <:+: text.toList) → hidden = text) := by
  intro hidden
  have removed : ∀ secret ∈ secrets, secret ≠ "" → ¬secret.toList <:+: hidden.toList :=
    fun secret h ne_empty => Search.not_infix_hide h ne_empty (apart secret h) text
  exact ⟨removed, Search.hide_eq_self removed marker, fun clear => Search.hide_eq_self clear marker⟩

/-- Of two secrets that overlap one is cut into by the other; what is left of it shows, but it is not there as a whole. -/
theorem Redaction.overlapping_secrets_are_removed :
    let secrets : Secrets := ["abc", "bcab", "cab", ""]
    (∀ secret ∈ secrets, Apart "***" secret) ∧ Search.together.hide secrets "***" "xabcaby" = "x***aby" ∧
      ∀ secret ∈ secrets, secret ≠ "" → ¬secret.toList <:+: "x***aby".toList := by
  have apart : ∀ secret ∈ ["abc", "bcab", "cab", ""], Apart "***" secret := by
    have disjoint : ∀ secret ∈ ["abc", "bcab", "cab", ""], ∀ c ∈ "***".toList, c ∉ secret.toList := by simp
    exact fun secret h => ⟨by decide, disjoint secret h⟩
  have hidden : Search.together.hide ["abc", "bcab", "cab", ""] "***" "xabcaby" = "x***aby" := by decide +kernel
  exact ⟨apart, hidden, hidden ▸ (secrets_are_removed apart .together "xabcaby").1⟩

namespace Redaction

/-! ### What is left of a text -/

/-- A character of a text while it is redacted. -/
structure Cell where
  char : Char
  /-- Where the character stands in the text; none if it is one of a marker. -/
  place : Option Nat

/-- The cells after the first `skip` ones, with those of the marker in place of each secret. -/
def hideCells (secrets : Secrets) (marker : List Char) : (skip : Nat) → List Cell → List Cell
  | _, [] => []
  | skip + 1, _ :: cells => hideCells secrets marker skip cells
  | 0, cell :: cells =>
    match matchLength secrets (cell.char :: cells.map Cell.char) with
    | 0 => cell :: hideCells secrets marker 0 cells
    | length + 1 => marker.map (⟨·, none⟩) ++ hideCells secrets marker length cells

/-- The characters of a text with their places, counted from `first` on. -/
def cells (first : Nat) (text : List Char) : List Cell := (text.zipIdx first).map fun (c, i) => ⟨c, some i⟩

/-- What is left of a text, and the markers in it. -/
def Search.trace (search : Search) (secrets : Secrets) (marker text : String) : List Cell :=
  (search.passes secrets).foldl (fun left pass => hideCells pass marker.toList 0 left) (cells 0 text.toList)

section
variable {secrets : Secrets} {marker : List Char}

theorem map_char_hideCells (skip : Nat) (left : List Cell) :
    (hideCells secrets marker skip left).map Cell.char = hideFrom secrets marker skip (left.map Cell.char) := by
  induction left generalizing skip with
  | nil => cases skip <;> rfl
  | cons cell left ih =>
    cases skip with
    | succ skip => exact ih skip
    | zero =>
      rw [hideCells, List.map_cons, hideFrom]
      cases matchLength secrets (cell.char :: left.map Cell.char) with
      | zero => exact congrArg (cell.char :: ·) (ih 0)
      | succ length =>
        have hmarker : (marker.map fun c => (⟨c, none⟩ : Cell)).map Cell.char = marker := by
          rw [List.map_map]
          exact List.map_id' marker
        dsimp only
        rw [List.map_append, ih, hmarker]

theorem map_char_cells (first : Nat) (text : List Char) : (cells first text).map Cell.char = text := by
  rw [cells, List.map_map]
  exact List.zipIdx_map_fst first text

theorem Search.map_char_trace (search : Search) (secrets : Secrets) (marker text : String) :
    (search.trace secrets marker text).map Cell.char = (search.hide secrets marker text).toList := by
  have hpasses : ∀ (passes : List Secrets) (left : List Cell) (text : String), left.map Cell.char = text.toList →
      (passes.foldl (fun left pass => hideCells pass marker.toList 0 left) left).map Cell.char =
        (passes.foldl (fun text pass => Redaction.hide pass marker text) text).toList := by
    intro passes
    induction passes with
    | nil => exact fun left text h => h
    | cons pass passes ih =>
      intro left text h
      refine ih _ _ ?_
      simp only [map_char_hideCells, h, Redaction.hide, String.toList_ofList]
  exact hpasses _ _ _ (map_char_cells 0 _)

/-- What is there after a pass was there before, or is a marker. -/
theorem mem_hideCells {skip : Nat} {left : List Cell} {cell : Cell} (h : cell ∈ hideCells secrets marker skip left) :
    cell ∈ left ∨ cell.place = none := by
  induction left generalizing skip with
  | nil => cases skip <;> cases h
  | cons first left ih =>
    cases skip with
    | succ skip => exact (ih h).imp_left (List.mem_cons_of_mem _)
    | zero =>
      rw [hideCells] at h
      split at h
      · rcases List.mem_cons.mp h with rfl | h
        · exact Or.inl List.mem_cons_self
        · exact (ih h).imp_left (List.mem_cons_of_mem _)
      · rcases List.mem_append.mp h with h | h
        · obtain ⟨c, -, rfl⟩ := List.mem_map.mp h
          exact Or.inr rfl
        · exact (ih h).imp_left (List.mem_cons_of_mem _)

/-- A pass keeps the order of what it leaves. -/
theorem placed_hideCells (skip : Nat) (left : List Cell) :
    List.Sublist ((hideCells secrets marker skip left).filter (·.place.isSome)) (left.filter (·.place.isSome)) := by
  induction left generalizing skip with
  | nil => cases skip <;> exact List.Sublist.refl _
  | cons cell left ih =>
    have hrest : List.Sublist (left.filter (·.place.isSome)) ((cell :: left).filter (·.place.isSome)) :=
      (List.sublist_cons_self cell left).filter _
    cases skip with
    | succ skip => exact (ih skip).trans hrest
    | zero =>
      rw [hideCells]
      split
      · rw [List.filter_cons, List.filter_cons]
        split
        · exact (ih 0).cons_cons cell
        · exact ih 0
      · have hmarker : (marker.map fun c => (⟨c, none⟩ : Cell)).filter (·.place.isSome) = [] := by simp
        rw [List.filter_append, hmarker]
        exact (ih _).trans hrest

/-- What is left of a text stands in its order, each character at its place. -/
theorem Search.placed_trace (search : Search) (secrets : Secrets) (marker text : String) :
    List.Sublist ((search.trace secrets marker text).filter (·.place.isSome)) (cells 0 text.toList) :=
  List.foldlRecOn (motive := fun left : List Cell => List.Sublist (left.filter (·.place.isSome)) (cells 0 text.toList)) _ _
    List.filter_sublist fun _ hleft _ _ => (placed_hideCells 0 _).trans hleft

theorem hideCells_append (used rest : List Cell) (skip : Nat) :
    hideCells secrets marker (used.length + skip) (used ++ rest) = hideCells secrets marker skip rest := by
  induction used with
  | nil => rw [List.length_nil, Nat.zero_add, List.nil_append]
  | cons cell used ih =>
    rw [List.length_cons, Nat.add_right_comm, List.cons_append]
    exact ih

end

/-! ### Occurrences -/

/-- No two secrets can overlap: an end of one is the beginning of one only if it is all of one of the two. -/
def OverlapFree (secrets : Secrets) : Prop :=
  ∀ a ∈ secrets, ∀ b ∈ secrets, ∀ u : List Char, u ≠ [] → u <:+ a.toList → u <+: b.toList →
    u = a.toList ∨ u = b.toList

instance (secrets : Secrets) : Decidable (OverlapFree secrets) :=
  decidable_of_iff
    (∀ a ∈ secrets, ∀ b ∈ secrets, ∀ u ∈ a.toList.tails, u ≠ [] → u <+: b.toList → u = a.toList ∨ u = b.toList)
    ⟨fun h a ha b hb u hne hsuffix => h a ha b hb u ((List.mem_tails u a.toList).mpr hsuffix) hne,
      fun h a ha b hb u hu hne => h a ha b hb u hne ((List.mem_tails u a.toList).mp hu)⟩

section
variable {r secret before rest after : List Char}

/-- A secret that begins before an occurrence of another one and goes on into it goes on to its end. -/
theorem le_length_of_overlap (free : ∀ u, u ≠ [] → u <:+ r → u <+: secret → u = r ∨ u = secret) (ne_nil : before ≠ [])
    (begins : r <+: before ++ (secret ++ after)) (goesOn : before.length < r.length) :
    before.length + secret.length ≤ r.length := by
  by_contra hpart
  have hlength : (r.drop before.length).length = r.length - before.length := List.length_drop
  have hrest : r.drop before.length <+: secret := by
    have hdrop := begins.drop before.length
    rw [List.drop_left] at hdrop
    exact List.prefix_of_prefix_length_le hdrop (List.prefix_append _ _) (by omega)
  rcases free _ (List.ne_nil_of_length_pos (by omega)) (List.drop_suffix _ _) hrest with h | h
  · have := congrArg List.length h
    have := List.length_pos_iff.mpr ne_nil
    omega
  · have := congrArg List.length h
    omega

/-- No secret that is as long begins inside an occurrence of another one. -/
theorem not_prefix_in_occurrence (free : ∀ u, u ≠ [] → u <:+ secret → u <+: r → u = secret ∨ u = r)
    (longer : Text.byteLength secret ≤ Text.byteLength r) (ne_nil : rest ≠ []) (inside : rest <:+ secret)
    (atStart : rest = secret → r.length < secret.length) : ¬r <+: rest ++ after := by
  intro begins
  rcases Nat.lt_or_ge rest.length r.length with hlong | hshort
  · -- It goes on behind the occurrence, and overlaps with it.
    have hbegin : rest <+: r := List.prefix_of_prefix_length_le (List.prefix_append _ _) begins hlong.le
    rcases free rest ne_nil inside hbegin with h | h
    · have := congrArg List.length h
      have := atStart h
      omega
    · have := congrArg List.length h
      omega
  · -- It lies in the occurrence, so it is shorter than the other one.
    have hinside : r <+: rest := List.prefix_of_prefix_length_le begins (List.prefix_append _ _) hshort
    have hne : r ≠ secret := by
      rintro rfl
      exact absurd (atStart (inside.eq_of_length (Nat.le_antisymm inside.length_le hshort))) (Nat.lt_irrefl _)
    have := Text.byteLength_lt_of_infix (hinside.isInfix.trans inside.isInfix) hne
    omega

end

section
variable {pass : Secrets} (marker : List Char) {secret : List Char}

/-- A pass comes to the beginning of an occurrence, or uses it up with a secret that was found before it and holds all
of it. -/
theorem hideCells_reaches
    (free : ∀ r ∈ pass, ∀ u, u ≠ [] → u <:+ r.toList → u <+: secret → u = r.toList ∨ u = secret)
    {occurrence : List Cell} (chars : occurrence.map Cell.char = secret) (after before : List Cell) {skip : Nat}
    (hskip : skip ≤ before.length) :
    ∃ begun, (∀ cell ∈ begun, cell ∈ before ∨ cell.place = none) ∧
      (hideCells pass marker skip (before ++ (occurrence ++ after)) =
          begun ++ hideCells pass marker 0 (occurrence ++ after) ∨
        ∃ rest, hideCells pass marker skip (before ++ (occurrence ++ after)) =
          begun ++ hideCells pass marker rest after) := by
  induction before generalizing skip with
  | nil =>
    obtain rfl := Nat.le_zero.mp hskip
    exact ⟨[], List.forall_mem_nil _, Or.inl rfl⟩
  | cons cell before ih =>
    have hsub : ∀ {begun : List Cell}, (∀ c ∈ begun, c ∈ before ∨ c.place = none) →
        ∀ c ∈ begun, c ∈ cell :: before ∨ c.place = none :=
      fun h c hc => (h c hc).imp_left (List.mem_cons_of_mem cell)
    cases skip with
    | succ skip =>
      obtain ⟨begun, hbegun, hreach⟩ := ih (Nat.le_of_succ_le_succ hskip)
      exact ⟨begun, hsub hbegun, hreach⟩
    | zero =>
      rw [List.cons_append, hideCells]
      cases hfound : matchLength pass (cell.char :: (before ++ (occurrence ++ after)).map Cell.char) with
      | zero =>
        obtain ⟨begun, hbegun, hreach⟩ := ih (Nat.zero_le _)
        refine ⟨cell :: begun, List.forall_mem_cons.mpr ⟨Or.inl List.mem_cons_self, hsub hbegun⟩, ?_⟩
        rcases hreach with h | ⟨rest, h⟩
        · exact Or.inl (congrArg (cell :: ·) h)
        · exact Or.inr ⟨rest, congrArg (cell :: ·) h⟩
      | succ length =>
        dsimp only
        have hput : ∀ c ∈ marker.map (fun c => (⟨c, none⟩ : Cell)), c ∈ cell :: before ∨ c.place = none := by
          intro c hc
          obtain ⟨_, -, rfl⟩ := List.mem_map.mp hc
          exact Or.inr rfl
        by_cases hshort : length ≤ before.length
        · obtain ⟨begun, hbegun, hreach⟩ := ih hshort
          refine ⟨_ ++ begun, List.forall_mem_append.mpr ⟨hput, hsub hbegun⟩, ?_⟩
          rcases hreach with h | ⟨rest, h⟩
          · exact Or.inl (by rw [h, List.append_assoc])
          · exact Or.inr ⟨rest, by rw [h, List.append_assoc]⟩
        · -- The secret that was found goes on into the occurrence, and so to its end.
          obtain ⟨r, hr, hbegins, hlength⟩ := exists_of_matchLength hfound
          have hall : (before ++ occurrence).length ≤ length := by
            rw [List.map_append, List.map_append, chars, ← List.cons_append, ← List.map_cons] at hbegins
            have hle := le_length_of_overlap (free r hr) (by simp) hbegins (by rw [List.length_map, List.length_cons]; omega)
            rw [List.length_map, List.length_cons, ← chars, List.length_map] at hle
            rw [List.length_append]
            omega
          obtain ⟨rest, rfl⟩ := Nat.exists_eq_add_of_le hall
          refine ⟨_, hput, Or.inr ⟨rest, ?_⟩⟩
          rw [← List.append_assoc, hideCells_append]

theorem hideCells_of_found {occurrence after : List Cell} (ne_nil : occurrence ≠ [])
    (found : occurrence.length ≤ matchLength pass ((occurrence ++ after).map Cell.char)) :
    ∃ rest, hideCells pass marker 0 (occurrence ++ after) =
      marker.map (⟨·, none⟩) ++ hideCells pass marker rest after := by
  obtain ⟨cell, others, rfl⟩ := List.exists_cons_of_ne_nil ne_nil
  obtain ⟨rest, hrest⟩ := Nat.exists_eq_add_of_le found
  rw [List.length_cons, Nat.add_right_comm, List.cons_append, List.map_cons] at hrest
  refine ⟨rest, ?_⟩
  rw [List.cons_append, hideCells, hrest]
  dsimp only
  rw [hideCells_append]

theorem hideCells_of_not_found {occurrence after : List Cell}
    (missed : ∀ cells, cells <:+ occurrence → cells ≠ [] → matchLength pass ((cells ++ after).map Cell.char) = 0) :
    hideCells pass marker 0 (occurrence ++ after) = occurrence ++ hideCells pass marker 0 after := by
  induction occurrence with
  | nil => rfl
  | cons cell rest ih =>
    have hhere := missed _ (List.suffix_refl _) (List.cons_ne_nil cell rest)
    rw [List.cons_append, List.map_cons] at hhere
    rw [List.cons_append, hideCells, hhere]
    exact congrArg (cell :: ·) (ih fun cells hcells => missed cells (hcells.trans (List.suffix_cons cell rest)))

/-- A pass that looks for nothing shorter than a secret uses an occurrence of it up, or leaves it as it is. -/
theorem hideCells_occurrence
    (free : ∀ r ∈ pass, ∀ u, u ≠ [] → u <:+ secret → u <+: r.toList → u = secret ∨ u = r.toList)
    (longer : ∀ r ∈ pass, Text.byteLength secret ≤ Text.byteLength r.toList) {occurrence : List Cell}
    (chars : occurrence.map Cell.char = secret) (ne_nil : occurrence ≠ []) (after : List Cell) :
    (∃ rest, hideCells pass marker 0 (occurrence ++ after) =
        marker.map (⟨·, none⟩) ++ hideCells pass marker rest after) ∨
      hideCells pass marker 0 (occurrence ++ after) = occurrence ++ hideCells pass marker 0 after := by
  have hlength : secret.length = occurrence.length := by rw [← chars, List.length_map]
  by_cases hall : occurrence.length ≤ matchLength pass ((occurrence ++ after).map Cell.char)
  · exact Or.inl (hideCells_of_found marker ne_nil hall)
  refine Or.inr (hideCells_of_not_found marker fun cells hcells hne => ?_)
  cases hfound : matchLength pass ((cells ++ after).map Cell.char) with
  | zero => rfl
  | succ n =>
    obtain ⟨r, hr, hbegins, hrlength⟩ := exists_of_matchLength hfound
    have hstart : cells.map Cell.char = secret → r.toList.length < secret.length := by
      intro heq
      have hcells' : cells = occurrence := hcells.eq_of_length (by rw [← hlength, ← heq, List.length_map])
      rw [hcells'] at hfound
      omega
    rw [List.map_append] at hbegins
    exact absurd hbegins (not_prefix_in_occurrence (free r hr) (longer r hr) (mt List.map_eq_nil_iff.mp hne)
      (chars ▸ hcells.map Cell.char) hstart)

end

/-- None of the cells of an occurrence is there. -/
def Gone (own : Cell → Prop) (left : List Cell) : Prop := ∀ cell ∈ left, ¬own cell

/-- The cells of an occurrence of a secret stand next to each other, and none of them stands elsewhere. -/
def Occurs (own : Cell → Prop) (secret : List Char) (left : List Cell) : Prop :=
  ∃ before occurrence after, left = before ++ (occurrence ++ after) ∧ occurrence.map Cell.char = secret ∧
    Gone own before ∧ Gone own after

section
variable {own : Cell → Prop} (placed : ∀ cell, own cell → cell.place ≠ none) {pass : Secrets} {marker : List Char}
  {left : List Cell}

theorem Gone.append {cells : List Cell} (hcells : Gone own cells) (hleft : Gone own left) :
    Gone own (cells ++ left) :=
  List.forall_mem_append.mpr ⟨hcells, hleft⟩

include placed in
theorem Gone.of_mem_or_marker {cells : List Cell} (gone : Gone own left)
    (h : ∀ cell ∈ cells, cell ∈ left ∨ cell.place = none) : Gone own cells :=
  fun cell hcell howns => (h cell hcell).elim (gone cell · howns) (placed cell howns)

include placed in
theorem Gone.hideCells (gone : Gone own left) (skip : Nat) : Gone own (hideCells pass marker skip left) :=
  gone.of_mem_or_marker placed fun _ => mem_hideCells

include placed in
theorem Gone.marker_hideCells (gone : Gone own left) (skip : Nat) :
    Gone own (marker.map (⟨·, none⟩) ++ Redaction.hideCells pass marker skip left) :=
  (gone.of_mem_or_marker placed (by simp)).append (gone.hideCells placed skip)

include placed in
theorem Gone.passes (gone : Gone own left) (passes : List Secrets) :
    Gone own (passes.foldl (fun left pass => Redaction.hideCells pass marker 0 left) left) :=
  List.foldlRecOn passes _ gone fun _ gone _ _ => gone.hideCells placed 0

end

theorem ne_nil_of_chars {secret : String} (ne_empty : secret ≠ "") {occurrence : List Cell}
    (chars : occurrence.map Cell.char = secret.toList) : occurrence ≠ [] := by
  rintro rfl
  exact ne_empty (String.toList_eq_nil_iff.mp chars.symm)

section
variable {own : Cell → Prop} (placed : ∀ cell, own cell → cell.place ≠ none) {secrets pass : Secrets}
  {marker : List Char} {secret : String} {left : List Cell} (apart : OverlapFree secrets)
  (isSecret : secret ∈ secrets)
include placed apart isSecret

/-- A pass that does not come to an occurrence has used it up. -/
theorem Occurs.gone_or_reached (h : Occurs own secret.toList left) (among : pass ⊆ secrets) :
    Gone own (hideCells pass marker 0 left) ∨
      ∃ begun occurrence after, hideCells pass marker 0 left = begun ++ hideCells pass marker 0 (occurrence ++ after) ∧
        occurrence.map Cell.char = secret.toList ∧ Gone own begun ∧ Gone own after := by
  obtain ⟨before, occurrence, after, rfl, chars, hbefore, hafter⟩ := h
  obtain ⟨begun, hbegun, h | ⟨rest, h⟩⟩ :=
    hideCells_reaches marker (fun r hr => apart r (among hr) secret isSecret) chars after before (Nat.zero_le _)
  · exact Or.inr ⟨begun, occurrence, after, h, chars, hbefore.of_mem_or_marker placed hbegun, hafter⟩
  · rw [h]
    exact Or.inl ((hbefore.of_mem_or_marker placed hbegun).append (hafter.hideCells placed _))

/-- A pass that looks for a secret uses up an occurrence of it. -/
theorem Occurs.gone (ne_empty : secret ≠ "") (h : Occurs own secret.toList left) (among : pass ⊆ secrets)
    (looked : secret ∈ pass) : Gone own (hideCells pass marker 0 left) := by
  rcases h.gone_or_reached placed apart isSecret among with hgone | ⟨begun, occurrence, after, h, chars, hbegun, hafter⟩
  · exact hgone
  · have hfound : occurrence.length ≤ matchLength pass ((occurrence ++ after).map Cell.char) := by
      rw [← List.length_map Cell.char, List.map_append, chars]
      exact length_le_matchLength looked (List.prefix_append _ _)
    obtain ⟨rest, hused⟩ := hideCells_of_found marker (ne_nil_of_chars ne_empty chars) hfound
    rw [h, hused]
    exact hbegun.append (hafter.marker_hideCells placed rest)

/-- A pass that looks for nothing shorter than a secret uses an occurrence of it up, or leaves it together. -/
theorem Occurs.gone_or_occurs (ne_empty : secret ≠ "") (h : Occurs own secret.toList left) (among : pass ⊆ secrets)
    (longer : ∀ r ∈ pass, Text.byteLength secret.toList ≤ Text.byteLength r.toList) :
    Gone own (hideCells pass marker 0 left) ∨ Occurs own secret.toList (hideCells pass marker 0 left) := by
  rcases h.gone_or_reached placed apart isSecret among with hgone | ⟨begun, occurrence, after, h, chars, hbegun, hafter⟩
  · exact Or.inl hgone
  · rcases hideCells_occurrence marker (fun r hr => apart secret isSecret r (among hr)) longer chars
      (ne_nil_of_chars ne_empty chars) after with ⟨rest, hused⟩ | hkept
    · rw [h, hused]
      exact Or.inl (hbegun.append (hafter.marker_hideCells placed rest))
    · rw [h, hkept]
      exact Or.inr ⟨begun, occurrence, _, rfl, chars, hbegun, hafter.hideCells placed 0⟩

/-- No character of an occurrence is left when the secrets have been searched for one after the other, the longest
first. -/
theorem Occurs.gone_in_turn (ne_empty : secret ≠ "") {ordered : Secrets} (hordered : ordered ⊆ secrets)
    (longestFirst : ordered.Pairwise fun a b => Text.byteLength b.toList ≤ Text.byteLength a.toList)
    (h : Occurs own secret.toList left) (looked : secret ∈ ordered) :
    Gone own ((ordered.map fun r => [r]).foldl (fun left pass => hideCells pass marker 0 left) left) := by
  induction ordered generalizing left with
  | nil => cases looked
  | cons r rest ih =>
    obtain ⟨hr, hrest⟩ := List.cons_subset.mp hordered
    obtain ⟨hfirst, hlater⟩ := List.pairwise_cons.mp longestFirst
    have hamong : [r] ⊆ secrets := List.cons_subset.mpr ⟨hr, List.nil_subset _⟩
    rw [List.map_cons, List.foldl_cons]
    rcases List.mem_cons.mp looked with rfl | looked
    · exact (h.gone placed apart isSecret ne_empty hamong (List.mem_singleton_self _)).passes placed _
    · have hlonger : ∀ t ∈ [r], Text.byteLength secret.toList ≤ Text.byteLength t.toList :=
        List.forall_mem_singleton.mpr (hfirst secret looked)
      rcases h.gone_or_occurs placed apart isSecret ne_empty hamong hlonger with hgone | hoccurs
      · exact hgone.passes placed _
      · exact ih hrest hlater hoccurs looked

theorem Occurs.gone_after (ne_empty : secret ≠ "") (search : Search) (h : Occurs own secret.toList left) :
    Gone own ((search.passes secrets).foldl (fun left pass => hideCells pass marker 0 left) left) := by
  cases search with
  | together => exact h.gone placed apart isSecret ne_empty (List.Subset.refl _) isSecret
  | inTurn =>
    exact h.gone_in_turn placed apart isSecret ne_empty (fun _ hr => (mem_longestFirst.mp hr).1)
      (longestFirst_ordered secrets) (mem_longestFirst.mpr ⟨isSecret, ne_empty⟩)

end

/-- The cell holds one of the characters that stand in the text from a place on. -/
def Cell.Within (first length : Nat) (cell : Cell) : Prop :=
  ∃ place, cell.place = some place ∧ first ≤ place ∧ place < first + length

theorem Cell.Within.place_ne_none {first length : Nat} {cell : Cell} (h : cell.Within first length) :
    cell.place ≠ none := by
  obtain ⟨place, hplace, -⟩ := h
  rw [hplace]
  exact Option.some_ne_none place

theorem within_of_mem_cells {first : Nat} {text : List Char} {cell : Cell} (h : cell ∈ cells first text) :
    cell.Within first text.length := by
  obtain ⟨⟨c, place⟩, hmem, rfl⟩ := List.mem_map.mp h
  obtain ⟨hfirst, hlast, -⟩ := List.mem_zipIdx hmem
  exact ⟨place, rfl, hfirst, hlast⟩

theorem cells_append (first : Nat) (s t : List Char) :
    cells first (s ++ t) = cells first s ++ cells (first + s.length) t := by
  rw [cells, List.zipIdx_append, List.map_append, cells, cells]

theorem occurs_cells (before secret after : List Char) :
    Occurs (Cell.Within before.length secret.length) secret (cells 0 (before ++ (secret ++ after))) := by
  refine ⟨cells 0 before, cells before.length secret, cells (before.length + secret.length) after, ?_,
    map_char_cells _ _, ?_, ?_⟩
  · rw [cells_append, cells_append, Nat.zero_add]
  · rintro cell hcell ⟨place, hplace, hfirst, -⟩
    obtain ⟨_, hplace', -, hlast⟩ := within_of_mem_cells hcell
    obtain rfl := Option.some.inj (hplace.symm.trans hplace')
    omega
  · rintro cell hcell ⟨place, hplace, -, hlast⟩
    obtain ⟨_, hplace', hfirst, -⟩ := within_of_mem_cells hcell
    obtain rfl := Option.some.inj (hplace.symm.trans hplace')
    omega

end Redaction

/-- Where no two of the secrets can overlap, though one can hold another, no character of any occurrence of a secret is
left in a redacted text: what is left stands outside of all of them, in its order, and the rest are markers. -/
theorem Redaction.occurrences_are_hidden {secrets : Secrets} (apart : OverlapFree secrets) (search : Search)
    (marker text : String) :
    let left := search.trace secrets marker text
    left.map Cell.char = (search.hide secrets marker text).toList ∧
      List.Sublist (left.filter (·.place.isSome)) (cells 0 text.toList) ∧
      ∀ secret ∈ secrets, ∀ before after, text.toList = before ++ (secret.toList ++ after) →
        ∀ cell ∈ left, ¬cell.Within before.length secret.toList.length := by
  refine ⟨search.map_char_trace secrets marker text, search.placed_trace secrets marker text, ?_⟩
  intro secret isSecret before after htext
  by_cases ne_empty : secret = ""
  · rintro cell - ⟨place, -, hfirst, hlast⟩
    rw [ne_empty] at hlast
    exact Nat.not_lt.mpr hfirst hlast
  · have hoccurs := occurs_cells before secret.toList after
    rw [← htext] at hoccurs
    exact hoccurs.gone_after (fun _ => Cell.Within.place_ne_none) apart isSecret ne_empty search

/-- A secret that begins and ends with others is hidden as a whole. -/
theorem Redaction.nested_secrets_are_hidden :
    let secrets : Secrets := ["open", "same", "open sesame"]
    OverlapFree secrets ∧ Search.together.hide secrets "*" "reopen sesames" = "re*s" ∧
      ∀ cell ∈ Search.together.trace secrets "*" "reopen sesames", ¬cell.Within "re".toList.length 11 := by
  have apart : OverlapFree ["open", "same", "open sesame"] := by decide +kernel
  have text : "reopen sesames".toList = "re".toList ++ ("open sesame".toList ++ "s".toList) := by decide +kernel
  refine ⟨apart, by decide +kernel, ?_⟩
  exact (occurrences_are_hidden apart .together "*" "reopen sesames").2.2 "open sesame" (by decide) _ _ text

end StepTree
