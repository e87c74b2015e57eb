import StepTree.Proofs.Parts

/-! # Texts with placeholders

A text can be written as plain parts with placeholders between them. A plain part may hold braces, but not two opening
ones next to each other. Then exactly the placeholders that were meant are found, from left to right and once, also
where a brace of a plain part stands next to them, and what is put in for one is never looked at again. -/

namespace StepTree

/-! ### Blanks around a text -/

namespace Text

theorem trim_blank_append {before : List Char} (h : ∀ c ∈ before, isBlank c = true) (s : List Char) :
    trim (before ++ s) = trim s := by
  rw [trim, trimStart, List.dropWhile_append_of_pos h]
  rfl

theorem trim_append_blank {after : List Char} (h : ∀ c ∈ after, isBlank c = true) (s : List Char) :
    trim (s ++ after) = trim s := by
  induction after generalizing s with
  | nil => rw [List.append_nil]
  | cons c rest ih =>
    obtain ⟨hc, hrest⟩ := List.forall_mem_cons.mp h
    rw [List.append_cons, ih hrest, trim_concat_of_blank hc]

end Text

namespace Template

/-! ### Texts as they are written -/

/-- A placeholder as it is written: a path, and blanks around it. -/
structure Slot where
  before : List Char
  /-- Empty in a blank placeholder. -/
  path : List Char
  after : List Char
  blankBefore : ∀ c ∈ before, Text.isBlank c = true
  unbraced : ∀ c ∈ path, isBrace c = false
  trimmed : Text.trim path = path
  blankAfter : ∀ c ∈ after, Text.isBlank c = true

/-- A part of a text in which no placeholder begins. -/
structure Plain where
  chars : List Char
  unopened : ¬['\x7b', '\x7b'] <:+: chars

/-- A text as it is written: plain parts, with a placeholder between each two of them. -/
structure Authored where
  lead : Plain
  rest : List (Slot × Plain)

namespace Slot
variable (p : Slot) (lookup : Lookup)

/-- What stands between the braces. -/
def inner : List Char := p.before ++ p.path ++ p.after

def text : List Char := written p.inner

/-- What the placeholder stands for; a blank one stands for nothing. -/
def value? : Option Json := if p.path = [] then none else lookup p.path

/-- What the placeholder is replaced by. -/
def filled : List Char :=
  match p.value? lookup with
  | some value => value.plainText.toList
  | none => p.text

theorem inner_unbraced : ∀ c ∈ p.inner, isBrace c = false := by
  have hblank : ∀ c, Text.isBlank c = true → isBrace c = false := by
    intro c hc
    cases hbrace : isBrace c with
    | false => rfl
    | true =>
      simp only [isBrace, Bool.or_eq_true, decide_eq_true_eq] at hbrace
      rcases hbrace with rfl | rfl <;> cases hc
  refine List.forall_mem_append.mpr ⟨List.forall_mem_append.mpr ⟨?_, p.unbraced⟩, ?_⟩
  · exact fun c hc => hblank c (p.blankBefore c hc)
  · exact fun c hc => hblank c (p.blankAfter c hc)

theorem trim_inner : Text.trim p.inner = p.path := by
  rw [inner, Text.trim_append_blank p.blankAfter, Text.trim_blank_append p.blankBefore, p.trimmed]

theorem valueOf_inner : valueOf lookup p.inner = p.value? lookup := by
  rw [valueOf, p.trim_inner, value?]
  simp only [List.isEmpty_iff]

theorem expandPiece_inner : expandPiece lookup (.placeholder p.inner) = p.filled lookup := by
  unfold expandPiece filled
  dsimp only
  rw [valueOf_inner]
  rfl

theorem missing?_inner :
    missing? lookup (.placeholder p.inner) = if (p.value? lookup).isNone then some p.path else none := by
  rw [missing?, valueOf_inner, p.trim_inner]

end Slot

namespace Authored

def text (t : Authored) : List Char := t.lead.chars ++ t.rest.flatMap fun e => e.1.text ++ e.2.chars

/-- The text with its placeholders filled in. -/
def filled (lookup : Lookup) (t : Authored) : List Char :=
  t.lead.chars ++ t.rest.flatMap fun e => e.1.filled lookup ++ e.2.chars

/-- The placeholders that stand for nothing. -/
def unfilled (lookup : Lookup) (t : Authored) : List Slot :=
  (t.rest.map (·.1)).filter fun p => (p.value? lookup).isNone

end Authored

/-! ### What is found in them -/

/-- A placeholder begins with two braces, and no third one. -/
theorem placeholder?_eq_none {s : List Char} (h : ¬['\x7b', '\x7b'] <+: s ∨ ['\x7b', '\x7b', '\x7b'] <+: s) :
    placeholder? s = none := by
  unfold placeholder?
  split
  · next rest =>
    rcases h with h | h
    · exact absurd (by simp) h
    · obtain ⟨t, rfl⟩ : ∃ t, rest = '\x7b' :: t := by
        obtain ⟨t, ht⟩ := h
        exact ⟨t, by simpa using ht.symm⟩
      rfl
  · rfl

/-- In a plain part no placeholder begins, at the end of the text or in front of a placeholder. -/
theorem pieces_plain_append {plain rest : List Char} (unopened : ¬['\x7b', '\x7b'] <:+: plain)
    (h : rest = [] ∨ ['\x7b', '\x7b'] <+: rest) : pieces (plain ++ rest) = plain.map .char ++ pieces rest := by
  induction plain with
  | nil => rfl
  | cons c plain ih =>
    have hnone : placeholder? (c :: (plain ++ rest)) = none := by
      refine placeholder?_eq_none (or_iff_not_imp_left.mpr fun hopens => ?_)
      have hopens := not_not.mp hopens
      obtain ⟨rfl, hnext⟩ := List.cons_prefix_cons.mp hopens
      cases plain with
      | nil =>
        -- The brace stands in front of the placeholder, whose own two come after it.
        rcases h with rfl | h
        · cases List.eq_nil_of_prefix_nil hnext
        · exact List.cons_prefix_cons.mpr ⟨rfl, h⟩
      | cons d plain =>
        obtain ⟨rfl, -⟩ := List.cons_prefix_cons.mp hnext
        exact absurd (List.IsPrefix.isInfix ⟨plain, rfl⟩) unopened
    have hrest : ¬['\x7b', '\x7b'] <:+: plain :=
      fun hopened => unopened (hopened.trans (List.suffix_cons c plain).isInfix)
    rw [List.cons_append, pieces, piecesFrom, hnone]
    exact congrArg (_ :: ·) (ih hrest)

namespace Authored

/-- The parts of a text are its plain characters and the placeholders that it is written with. -/
theorem pieces_text (t : Authored) :
    pieces t.text = t.lead.chars.map .char ++
      t.rest.flatMap fun e => .placeholder e.1.inner :: e.2.chars.map .char := by
  obtain ⟨lead, rest⟩ := t
  rw [text]
  dsimp only
  induction rest generalizing lead with
  | nil =>
    rw [List.flatMap_nil, pieces_plain_append lead.unopened (Or.inl rfl)]
    rfl
  | cons e rest ih =>
    rw [List.flatMap_cons, List.flatMap_cons, List.append_assoc, pieces_plain_append lead.unopened, Slot.text,
      pieces_written_append e.1.inner_unbraced, ih]
    · rfl
    · exact Or.inr ⟨_, rfl⟩

theorem expand_text (lookup : Lookup) (t : Authored) : expand lookup t.text = t.filled lookup := by
  have hplain : ∀ chars : List Char, (chars.map Piece.char).flatMap (expandPiece lookup) = chars := by
    intro chars
    rw [List.flatMap_map]
    exact List.flatMap_singleton' chars
  rw [expand, t.pieces_text, List.flatMap_append, hplain, List.flatMap_assoc, filled]
  refine congrArg (_ ++ ·) (List.flatMap_congr fun e _ => ?_)
  rw [List.flatMap_cons, hplain, e.1.expandPiece_inner]

theorem unresolved_text (lookup : Lookup) (t : Authored) :
    unresolved lookup t.text = (t.unfilled lookup).map (·.path) := by
  have hplain : ∀ chars : List Char, (chars.map Piece.char).filterMap (missing? lookup) = [] := by
    intro chars
    rw [List.filterMap_map]
    exact List.filterMap_eq_nil_iff.mpr fun c _ => rfl
  rw [unresolved, unfilled, ← List.filterMap_eq_map, List.filterMap_filter, List.filterMap_map,
    List.filterMap_eq_flatMap_toList _ t.rest, t.pieces_text, List.filterMap_append, hplain, List.nil_append,
    List.filterMap_flatMap]
  refine List.flatMap_congr fun e _ => ?_
  rw [List.filterMap_cons, e.1.missing?_inner, hplain]
  dsimp only [Function.comp_apply]
  cases (e.1.value? lookup).isNone <;> rfl

end Authored

end Template

/-- A text is expanded in one pass. Each of its placeholders is replaced by the text of the value that its path has in the
scope, and kept as it is written if it is blank or its path has none; the plain parts stay. The paths that are listed as
unresolved are those of the placeholders that are kept, in their order. -/
theorem Scope.resolve_authored (s : Scope) (t : Template.Authored) :
    s.resolve (String.ofList t.text) = String.ofList (t.filled s.lookup) ∧
      Template.unresolved s.lookup t.text = (t.unfilled s.lookup).map (·.path) := by
  refine ⟨?_, t.unresolved_text s.lookup⟩
  rw [resolve, String.toList_ofList, t.expand_text]

/-- Two placeholders with braces next to them. The first one is replaced by a value that looks like a placeholder, the
second one has no value. -/
theorem Scope.resolve_two_placeholders :
    let s : Scope := ⟨[("x", ⟨some (.str "\x7b\x7by\x7d\x7d"), false⟩), ("y", ⟨some (.str "z"), false⟩)], []⟩
    let x : Template.Slot :=
      ⟨[' '], ['x'], [' '], by simp [Text.isBlank], by simp [Template.isBrace], rfl, by simp [Text.isBlank]⟩
    let z : Template.Slot := ⟨[], ['z'], [], by simp, by simp [Template.isBrace], rfl, by simp⟩
    let t : Template.Authored := ⟨⟨['\x7b'], by decide⟩, [(x, ⟨['\x7d', ' '], by decide⟩), (z, ⟨['\x7d'], by decide⟩)]⟩
    String.ofList t.text = "\x7b\x7b\x7b x \x7d\x7d\x7d \x7b\x7bz\x7d\x7d\x7d" ∧
      s.resolve (String.ofList t.text) = "\x7b\x7b\x7by\x7d\x7d\x7d \x7b\x7bz\x7d\x7d\x7d" ∧
      Template.unresolved s.lookup t.text = [['z']] := by
  intro s x z t
  have hfilled : String.ofList (t.filled s.lookup) = "\x7b\x7b\x7by\x7d\x7d\x7d \x7b\x7bz\x7d\x7d\x7d" := by
    decide +kernel
  have hunfilled : (t.unfilled s.lookup).map (·.path) = [['z']] := by decide +kernel
  obtain ⟨hresolve, hunresolved⟩ := s.resolve_authored t
  exact ⟨by decide +kernel, hresolve.trans hfilled, hunresolved.trans hunfilled⟩

end StepTree
