import StepTree.Json.Printer

/-! # JSON text over several lines

Every item and every entry stands on a line of its own, indented by two blanks for each level. -/

namespace StepTree.Json

/-- The beginning of a line inside `depth` brackets. -/
def newLine (depth : Nat) : List Char := '\n' :: List.replicate (2 * depth) ' '

mutual

/-- The text of a value inside `depth` brackets. -/
def linesText (depth : Nat) : Json → List Char
  | arr [] => ['[', ']']
  | arr items => '[' :: (itemLines (depth + 1) items ++ newLine depth ++ [']'])
  | obj [] => ['\x7b', '\x7d']
  | obj entries => '\x7b' :: (entryLines (depth + 1) entries ++ newLine depth ++ ['\x7d'])
  | value => value.text

def itemLines (depth : Nat) : List Json → List Char
  | [] => []
  | [item] => newLine depth ++ item.linesText depth
  | item :: items => newLine depth ++ item.linesText depth ++ ',' :: itemLines depth items

def entryLines (depth : Nat) : List (String × Json) → List Char
  | [] => []
  | [(key, value)] => newLine depth ++ quote key ++ ':' :: ' ' :: value.linesText depth
  | (key, value) :: entries =>
    newLine depth ++ quote key ++ ':' :: ' ' :: (value.linesText depth ++ ',' :: entryLines depth entries)

end

end StepTree.Json
