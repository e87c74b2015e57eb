import StepTree.Shell.Glob
import StepTree.Shell.Program.Files

/-! # Programs for lines

Programs that count, choose, order and change the lines of files or of what comes in. -/

namespace StepTree.Shell.Program

/-- The complaint about a file that cannot be read. -/
def unread (name : String) (path : List Char) (f : FileFault) : String :=
  name ++ ": " ++ String.ofList path ++ ": " ++ f.message

/-- Goes on with a number, or complains about a text that is none. -/
def withCount (name kind : String) (text : List Char) (s : Session) (k : Nat → Session) : Session :=
  match Literal.digits? 10 text with
  | some n => k n
  | none => refuse s (name ++ ": invalid number of " ++ kind ++ ": " ++ named text) 1

/-! ### Counting -/

/-- What there is of lines, words, characters, bytes, and the length of the longest line. -/
structure Counts where
  lines : Nat := 0
  words : Nat := 0
  chars : Nat := 0
  bytes : Nat := 0
  longest : Nat := 0

namespace Counts

def isSpace (c : Char) : Bool := c = ' ' || ('\t' ≤ c && c ≤ '\r')

def ofText (text : List Char) : Counts :=
  let words := (text.foldl (fun (n, inside) c =>
    if isSpace c then (n, false) else (if inside then n else n + 1, true)) (0, false)).1
  { lines := text.count '\n', words, chars := text.length, bytes := text.length
    longest := ((Text.split '\n' text).map List.length).foldl max 0 }

def add (a b : Counts) : Counts :=
  { lines := a.lines + b.lines, words := a.words + b.words, chars := a.chars + b.chars, bytes := a.bytes + b.bytes
    longest := max a.longest b.longest }

end Counts

/-- Counts lines, words and bytes. -/
def count : Program := fun operands s =>
  let table : OptionTable :=
    { flags := ['l', 'w', 'c', 'm', 'L']
      long := [("lines", 'l'), ("words", 'w'), ("bytes", 'c'), ("chars", 'm'), ("max-line-length", 'L')] }
  withOptions "wc" table 1 operands s fun o =>
    let isStream (s : Session) : Bool := match s.channel? 0 with
      | some (_, .file ..) => false
      | _ => true
    let chosen (c : Counts) : List Nat :=
      if o.given.isEmpty then [c.lines, c.words, c.bytes]
      else (if o.has 'l' then [c.lines] else []) ++ (if o.has 'w' then [c.words] else []) ++
        (if o.has 'm' then [c.chars] else []) ++ (if o.has 'c' then [c.bytes] else []) ++
        if o.has 'L' then [c.longest] else []
    let paths := if o.operands.isEmpty then [['-']] else o.operands
    let fromStream := isStream s && paths.contains ['-']
    let results : Session × List (List Char ⊕ (List Char × Counts)) := paths.foldl (fun (s, found) path =>
      match content s path with
      | (s, .ok text) => (s, found ++ [.inr (path, Counts.ofText text)])
      | (s, .error f) => (s, found ++ [.inl (unread "wc" path f).toList])) (s.withStatus 0, [])
    let all := results.2.filterMap fun
      | .inr (_, c) => some c
      | .inl _ => none
    let total := all.foldl Counts.add {}
    let single := (chosen total).length = 1 && paths.length = 1
    let width := if single then 1 else max (toString total.bytes).length (if fromStream then 7 else 1)
    let written (c : Counts) : List Char := [' '].intercalate ((chosen c).map fun n =>
      let digits := (toString n).toList
      List.replicate (width - digits.length) ' ' ++ digits)
    let s := results.2.foldl (fun s found =>
      match found with
      | .inl complaint => refuse s (String.ofList complaint) 1
      | .inr (path, c) => s.printLine (written c ++ if o.operands.isEmpty then [] else ' ' :: path)) results.1
    if paths.length > 1 then s.printLine (written total ++ " total".toList) else s

/-! ### Beginnings and ends -/

/-- The number after a sign, and whether there was one of a kind. -/
def signedCount (sign : Char) (text : List Char) : Bool × List Char :=
  if text.head? = some sign then (true, text.drop 1) else (false, text)

/-- Prints a part of each file, under its name if there are several. -/
def parts (name : String) (o : Options) (s : Session) (k : List Char → List Char) : Session :=
  let several := (o.operands.length > 1 && !o.has 'q') || o.has 'v'
  let paths := if o.operands.isEmpty then [['-']] else o.operands
  (paths.foldl (fun (s, isFirst) path =>
    match content s path with
    | (s, .ok text) =>
      let title := if path = ['-'] then "standard input".toList else path
      let heading := "==> ".toList ++ title ++ " <==\n".toList
      let s := if several then s.print (if isFirst then heading else '\n' :: heading) else s
      (s.print (k text), false)
    | (s, .error .isDirectory) =>
      (refuse s (name ++ ": error reading " ++ named path ++ ": Is a directory") 1, isFirst)
    | (s, .error f) =>
      (refuse s (name ++ ": cannot open " ++ named path ++ " for reading: " ++ f.message) 1, isFirst))
    (s.withStatus 0, true)).1

/-- The pieces of a text that its lines are, with what ends them. -/
def rawLines (text : List Char) : List (List Char) :=
  let pieces := Text.split '\n' text
  (pieces.dropLast.map fun line => line ++ ['\n']) ++ (pieces.getLast?.toList.filter fun line => !line.isEmpty)

/-- A first operand that is a number after a dash means that number of lines. -/
def withDigits (operands : List (List Char)) : List (List Char) :=
  match operands with
  | ('-' :: c :: digits) :: rest =>
    if (c :: digits).all Char.isDigit then ['-', 'n'] :: (c :: digits) :: rest else operands
  | _ => operands

def portionTable : OptionTable :=
  { flags := ['q', 'v', 'f', 'z'], valued := ['n', 'c']
    long := [("lines", 'n'), ("bytes", 'c'), ("quiet", 'q'), ("verbose", 'v')] }

/-- Prints the beginning of files. -/
def head : Program := fun operands s =>
  withOptions "head" portionTable 1 (withDigits operands) s fun o =>
    let take {α : Type} (fromEnd : Bool) (n : Nat) (all : List α) : List α :=
      all.take (if fromEnd then all.length - n else n)
    match o.value? 'c' with
    | some text =>
      let (fromEnd, digits) := signedCount '-' text
      withCount "head" "bytes" digits s fun n => parts "head" o s (take fromEnd n)
    | none =>
      let (fromEnd, digits) := signedCount '-' ((o.value? 'n').getD ['1', '0'])
      withCount "head" "lines" digits s fun n => parts "head" o s fun text => (take fromEnd n (rawLines text)).flatMap id

/-- Prints the end of files. -/
def tail : Program := fun operands s =>
  withOptions "tail" portionTable 1 (withDigits operands) s fun o =>
    let take {α : Type} (fromStart : Bool) (n : Nat) (all : List α) : List α :=
      all.drop (if fromStart then n - 1 else all.length - n)
    let unsigned (text : List Char) : List Char := if text.head? = some '-' then text.drop 1 else text
    match o.value? 'c' with
    | some text =>
      let (fromStart, digits) := signedCount '+' text
      withCount "tail" "bytes" (unsigned digits) s fun n => parts "tail" o s (take fromStart n)
    | none =>
      let (fromStart, digits) := signedCount '+' ((o.value? 'n').getD ['1', '0'])
      withCount "tail" "lines" (unsigned digits) s fun n =>
        parts "tail" o s fun text => (take fromStart n (rawLines text)).flatMap id

/-! ### Order -/

/-- How lines are compared. -/
structure LineOrder where
  isReversed : Bool := false
  isNumeric : Bool := false
  /-- Letters after numbers stand for powers of 1024. -/
  hasUnits : Bool := false
  ignoresCase : Bool := false
  ignoresBlanks : Bool := false
  onlyWords : Bool := false
  deriving DecidableEq

/-- A part of lines by which they are ordered. -/
structure SortKey where
  firstField : Nat := 1
  firstChar : Nat := 1
  lastField : Option Nat := none
  lastChar : Nat := 0
  order : LineOrder := {}

namespace LineOrder

/-- The order with what a letter asks for. -/
def with? (o : LineOrder) (c : Char) : Option LineOrder :=
  match c with
  | 'r' => some { o with isReversed := true }
  | 'n' | 'g' => some { o with isNumeric := true }
  | 'h' => some { o with isNumeric := true, hasUnits := true }
  | 'f' => some { o with ignoresCase := true }
  | 'b' => some { o with ignoresBlanks := true }
  | 'd' => some { o with onlyWords := true }
  | _ => none

/-- The number at the beginning of a text, in units of 10 to the power of minus nine. -/
def numeric (o : LineOrder) (text : List Char) : Int :=
  let body := text.dropWhile fun c => c = ' ' || c = '\t'
  let (negative, body) := match body with
    | '-' :: rest => (true, rest)
    | _ => (false, body)
  let whole := body.takeWhile Char.isDigit
  let rest := body.drop whole.length
  let fraction := match rest with
    | '.' :: rest => rest.takeWhile Char.isDigit
    | _ => []
  let unit := (if fraction.isEmpty then rest else rest.drop (fraction.length + 1)).head?
  let power := if o.hasUnits then (unit.map fun c => "KMGTP".toList.idxOf c.toUpper + 1).getD 0 else 0
  let places := fraction.take 9
  let digits := whole ++ places ++ List.replicate (9 - places.length) '0'
  let n := digits.foldl (fun n c => n * 10 + (c.toNat - 48)) 0
  let n := if power ≤ 5 then n * Nat.pow 1024 power else n
  if negative then -(n : Int) else n

/-- The order of two parts of lines. -/
def compare (o : LineOrder) (a b : List Char) : Ordering :=
  let result :=
    if o.isNumeric then Ord.compare (o.numeric a) (o.numeric b)
    else
      let plain (text : List Char) : String :=
        let text := if o.onlyWords then text.filter fun c => c.isAlphanum || c = ' ' || c = '\t' else text
        String.ofList (if o.ignoresCase then text.map Char.toUpper else text)
      Ord.compare (plain a) (plain b)
  if o.isReversed then result.swap else result

end LineOrder

namespace SortKey

/-- The fields of a line: between separators, or each with the blanks before it. -/
def fields (separator : Option Char) (line : List Char) : List (List Char) :=
  match separator with
  | some c => Text.split c line
  | none => blankFields (line.length + 1) line
where
  blankFields : Nat → List Char → List (List Char)
    | 0, _ => []
    | _ + 1, [] => []
    | fuel + 1, line =>
      let isBlank (c : Char) : Bool := c = ' ' || c = '\t'
      let lead := line.takeWhile isBlank
      let word := (line.drop lead.length).takeWhile fun c => !isBlank c
      (lead ++ word) :: blankFields fuel (line.drop (lead.length + word.length))

/-- The part of a line that counts. -/
def part (separator : Option Char) (k : SortKey) (line : List Char) : List Char :=
  let all := fields separator line
  let joint := separator.toList
  let chosen := match k.lastField with
    | none => joint.intercalate (all.drop (k.firstField - 1))
    | some last =>
      let text := joint.intercalate ((all.take last).drop (k.firstField - 1))
      if k.lastChar = 0 || last > all.length then text
      else text.take (text.length - (((all[last - 1]?).getD []).length - k.lastChar))
  let text := if k.order.ignoresBlanks then chosen.dropWhile fun c => c = ' ' || c = '\t' else chosen
  text.drop (k.firstChar - 1)

/-- A field and a character in it, and what follows. -/
def position? (text : List Char) : Option (Nat × Option Nat × List Char) :=
  let digits := text.takeWhile Char.isDigit
  let rest := text.drop digits.length
  (Literal.digits? 10 digits).bind fun field =>
    match rest with
    | '.' :: more =>
      let digits := more.takeWhile Char.isDigit
      (Literal.digits? 10 digits).map fun c => (field, some c, more.drop digits.length)
    | _ => some (field, none, rest)

/-- A key as options give it; letters of its own take the place of those for all keys. -/
def ofText? (general : LineOrder) (text : List Char) : Option SortKey := do
  let (firstField, firstChar, rest) ← position? text
  let letters := rest.takeWhile Char.isAlpha
  let rest := rest.drop letters.length
  let (last, more) ← match rest with
    | [] => some (none, [])
    | ',' :: rest => do
      let (field, char, more) ← position? rest
      some (some (field, char.getD 0), more)
    | _ => none
  let all := letters ++ more
  let order ← all.foldlM LineOrder.with? {}
  if firstField = 0 then none
  else
    some
      { firstField, firstChar := firstChar.getD 1, lastField := last.map (·.1), lastChar := (last.map (·.2)).getD 0
        order := if all.isEmpty then general else order }

end SortKey

/-- Orders lines. -/
def sort : Program := fun operands s =>
  let table : OptionTable :=
    { flags := ['r', 'n', 'f', 'b', 'd', 'u', 's', 'c', 'C', 'm', 'g', 'h', 'z'], valued := ['k', 't', 'o', 'S', 'T']
      long := [("reverse", 'r'), ("numeric-sort", 'n'), ("ignore-case", 'f'), ("unique", 'u'), ("key", 'k'), ("check", 'c'),
        ("field-separator", 't'), ("output", 'o'), ("stable", 's'), ("human-numeric-sort", 'h')] }
  withOptions "sort" table 2 operands s fun o =>
    let general := o.given.foldl (fun order (c, _) => (order.with? c).getD order) ({} : LineOrder)
    let separator := (o.value? 't').bind List.head?
    let texts := o.given.filterMap fun (c, text) => if c = 'k' then some text else none
    let keys := texts.filterMap (SortKey.ofText? general)
    match texts.find? fun text => (SortKey.ofText? general text).isNone with
    | some text => refuse s ("sort: invalid number at field start: invalid count at start of " ++ named text) 2
    | none =>
      let byKeys (a b : List Char) : Ordering :=
        if keys.isEmpty then general.compare a b
        else keys.foldl (fun result k => result.then (k.order.compare (k.part separator a) (k.part separator b))) .eq
      let isPlain := o.has 'u' || o.has 's'
      let compare (a b : List Char) : Ordering :=
        let last := Ord.compare (String.ofList a) (String.ofList b)
        (byKeys a b).then (if isPlain then .eq else if general.isReversed then last.swap else last)
      let (s, all) := allLines o.operands s (fun path f =>
        "sort: cannot read: " ++ String.ofList path ++ ": " ++ f.message) 2
      if s.status = 2 then s
      else if o.has 'c' || o.has 'C' then
        let pairs := (List.range all.length).zip (all.zip (all.drop 1))
        match pairs.find? fun (_, a, b) => compare a b = .gt || (o.has 'u' && compare a b = .eq) with
        | some (n, _, line) =>
          let path := (o.operands.head?).getD ['-']
          let complaint := "sort: " ++ String.ofList path ++ ":" ++ toString (n + 2) ++ ": disorder: " ++ String.ofList line
          if o.has 'C' then s.withStatus 1 else refuse s complaint 1
        | none => s
      else
        let sorted := all.mergeSort fun a b => compare a b ≠ .gt
        let chosen := if o.has 'u' then
            (sorted.foldl (fun kept line =>
              match kept with
              | last :: _ => if byKeys last line = .eq then kept else line :: kept
              | [] => [line]) []).reverse
          else sorted
        match o.value? 'o' with
        | none => s.print (unlines chosen)
        | some path =>
          attempt s (fun f => "sort: open failed: " ++ String.ofList path ++ ": " ++ f.message)
            ((newPlace s path).map fun place => s.files.write place (toContent (unlines chosen)))

/-- Lines that follow each other and are alike, with their number. -/
def runs (alike : List Char → List Char → Bool) (all : List (List Char)) : List (Nat × List Char) :=
  (all.foldl (fun found line =>
    match found with
    | (n, first) :: others => if alike first line then (n + 1, first) :: others else (1, line) :: found
    | [] => [(1, line)]) []).reverse

/-- Prints lines that follow each other and are alike only once. -/
def unique : Program := fun operands s =>
  let table : OptionTable :=
    { flags := ['c', 'd', 'u', 'i', 'z'], valued := ['f', 's', 'w']
      long := [("count", 'c'), ("repeated", 'd'), ("unique", 'u'), ("ignore-case", 'i'), ("skip-fields", 'f'),
        ("skip-chars", 's'), ("check-chars", 'w')] }
  withOptions "uniq" table 1 operands s fun o =>
    let number (c : Char) : Nat := ((o.value? c).bind (Literal.digits? 10)).getD 0
    let key (line : List Char) : List Char :=
      let text := ((SortKey.fields none line).drop (number 'f')).flatMap id
      let text := text.drop (number 's')
      let text := if (o.value? 'w').isSome then text.take (number 'w') else text
      if o.has 'i' then text.map Char.toLower else text
    let (s, all) := allLines (o.operands.take 1) s (unread "uniq") 1
    if s.status = 1 then s
    else
      let found := (runs (fun a b => key a = key b) all).filter fun (n, _) =>
        (!o.has 'd' || n > 1) && (!o.has 'u' || n = 1)
      let written := unlines (found.map fun (n, line) =>
        let digits := (toString n).toList
        if o.has 'c' then List.replicate (7 - digits.length) ' ' ++ digits ++ ' ' :: line else line)
      match o.operands with
      | [_, path] =>
        attempt s (unread "uniq" path) ((newPlace s path).map fun place => s.files.write place (toContent written))
      | _ => s.print written

/-! ### Characters -/

/-- The characters between two bounds. -/
def between (first last : Char) : List Char :=
  (List.range (last.toNat + 1 - first.toNat)).map fun n => Char.ofNat (first.toNat + n)

/-- The bytes. -/
def allBytes : List Char := (List.range 256).map Char.ofNat

/-- The characters that are listed, of which backslashes and classes stand for others. -/
def characterSet : (fuel : Nat) → List Char → List Char
  | 0, _ => []
  | _ + 1, [] => []
  | fuel + 1, '[' :: ':' :: rest =>
    let name := rest.takeWhile Char.isAlpha
    match GlobItem.kind? (String.ofList name), rest.drop name.length with
    | some holds, ':' :: ']' :: more => allBytes.filter holds ++ characterSet fuel more
    | _, _ => '[' :: characterSet fuel (':' :: rest)
  | fuel + 1, s =>
    let (c, rest) := match s with
      | '\\' :: rest => (Format.escape? rest).getD (rest.head?.getD '\\', rest.drop 1)
      | c :: rest => (c, rest)
      | [] => (' ', [])
    match rest with
    | '-' :: d :: more => between c d ++ characterSet fuel more
    | _ => c :: characterSet fuel rest

/-- One of characters that follow each other and are alike, if they are listed. -/
def squeeze (set : List Char) (text : List Char) : List Char :=
  ((text.foldl (fun kept c =>
    match kept with
    | last :: _ => if last = c && set.contains c then kept else c :: kept
    | [] => [c]) []) : List Char).reverse

/-- Replaces or removes characters. -/
def translate : Program := fun operands s =>
  let table : OptionTable :=
    { flags := ['c', 'C', 'd', 's', 't']
      long := [("complement", 'c'), ("delete", 'd'), ("squeeze-repeats", 's'), ("truncate-set1", 't')] }
  withOptions "tr" table 1 operands s fun o =>
    let needsTwo := o.has 'd' = o.has 's'
    match o.operands with
    | [] => misuse s "tr" "missing operand" 1
    | first :: others =>
      let text := "missing operand after " ++ named first
      if others.isEmpty && needsTwo && !o.has 'd' then
        misuse s "tr" (text ++ "\nTwo strings must be given when translating.") 1
      else if others.isEmpty && needsTwo then
        misuse s "tr" (text ++ "\nTwo strings must be given when both deleting and squeezing repeats.") 1
      else
        let from1 := characterSet (first.length + 1) first
        let from1 := if o.has 'c' || o.has 'C' then allBytes.filter fun c => !from1.contains c else from1
        let second := (others.head?).getD []
        let to2 := characterSet (second.length + 1) second
        let (input, s) := s.readAll
        let replace (c : Char) : Char :=
          let n := (from1.length - 1) - from1.reverse.idxOf c
          if from1.contains c then (to2[n]?).getD ((to2.getLast?).getD c) else c
        let output :=
          if o.has 'd' then
            let kept := input.filter fun c => !from1.contains c
            if o.has 's' then squeeze to2 kept else kept
          else if others.isEmpty then squeeze from1 input
          else
            let changed := input.map replace
            if o.has 's' then squeeze to2 changed else changed
        (s.print output).withStatus 0

/-! ### Columns -/

/-- Ranges of numbers that are listed, each with an end that may be open. -/
def ranges? (text : List Char) : Option (List (Nat × Option Nat)) :=
  ((Text.split ',' text).flatMap (Text.split ' ')).mapM fun piece =>
    match Text.split '-' piece with
    | [one] => (Literal.digits? 10 one).map fun n => (n, some n)
    | [first, last] =>
      match Literal.digits? 10 first, Literal.digits? 10 last with
      | some a, some b => some (a, some b)
      | some a, none => if last.isEmpty then some (a, none) else none
      | none, some b => if first.isEmpty then some (1, some b) else none
      | none, none => none
    | _ => none

/-- Prints parts of lines. -/
def cut : Program := fun operands s =>
  let table : OptionTable :=
    { flags := ['s', 'n', 'z', '\x01'], valued := ['d', 'f', 'c', 'b', '\x02']
      long := [("delimiter", 'd'), ("fields", 'f'), ("characters", 'c'), ("bytes", 'b'), ("only-delimited", 's'),
        ("complement", '\x01'), ("output-delimiter", '\x02')] }
  withOptions "cut" table 1 operands s fun o =>
    let byFields := (o.value? 'f').isSome
    match (o.value? 'f').or ((o.value? 'c').or (o.value? 'b')) with
    | none => misuse s "cut" "you must specify a list of bytes, characters, or fields" 1
    | some list =>
      let delimiter := (o.value? 'd').getD ['\t']
      if delimiter.length > 1 then misuse s "cut" "the delimiter must be a single character" 1
      else match ranges? list with
        | none =>
          let kind := if byFields then "invalid field value " else "invalid byte/character position "
          misuse s "cut" (kind ++ named list) 1
        | some ranges =>
          if ranges.any fun (a, b) => a = 0 || b = some 0 then
            misuse s "cut" (if byFields then "fields are numbered from 1"
              else "byte/character positions are numbered from 1") 1
          else if ranges.any fun (a, b) => b.any fun b => b < a then misuse s "cut" "invalid decreasing range" 1
          else
            let isChosen (n : Nat) : Bool :=
              (ranges.any fun (a, b) => a ≤ n && b.all (n ≤ ·)) != o.has '\x01'
            let c := (delimiter.head?).getD '\x00'
            let joint := (o.value? '\x02').getD [c]
            let choose {α : Type} (all : List α) : List α :=
              ((all.zip (List.range all.length)).filter fun (_, n) => isChosen (n + 1)).map (·.1)
            let (s, all) := allLines o.operands s (unread "cut") 1
            s.print (unlines (all.filterMap fun line =>
              if !byFields then some (choose line)
              else
                let fields := Text.split c line
                if fields.length = 1 then (if o.has 's' then none else some line)
                else some (joint.intercalate (choose fields))))

/-- Joins lines side by side, or the lines of each file. -/
def paste : Program := fun operands s =>
  let table : OptionTable := { flags := ['s'], valued := ['d'], long := [("serial", 's'), ("delimiters", 'd')] }
  withOptions "paste" table 1 operands s fun o =>
    let marks := characterSet 100 ((o.value? 'd').getD ['\t'])
    let join (fields : List (List Char)) : List Char :=
      ((fields.zip (List.range fields.length)).flatMap fun (field, n) =>
        (if n = 0 then [] else ((marks[(n - 1) % max marks.length 1]?).toList)) ++ field)
    let paths := if o.operands.isEmpty then [['-']] else o.operands
    let dashes := paths.count ['-']
    let (s, columns, _) := paths.foldl (fun (s, columns, shared) path =>
      match path, shared with
      | ['-'], some (all, n) =>
        (s, columns ++ [((all.zip (List.range all.length)).filter fun (_, i) => i % dashes = n).map (·.1)], some (all, n + 1))
      | _, _ =>
        match content s path with
        | (s, .ok text) =>
          let all := lines text
          if path = ['-'] && dashes > 1 && !o.has 's' then
            (s, columns ++ [((all.zip (List.range all.length)).filter fun (_, i) => i % dashes = 0).map (·.1)],
              some (all, 1))
          else (s, columns ++ [all], shared)
        | (s, .error f) => (refuse s (unread "paste" path f) 1, columns, shared)) (s.withStatus 0, [], none)
    if o.has 's' then s.print (unlines (columns.map join))
    else
      let height := (columns.map List.length).foldl max 0
      s.print (unlines ((List.range height).map fun n => join (columns.map fun column => (column[n]?).getD [])))

/-- Breaks lines that are too long. -/
def fold : Program := fun operands s =>
  let table : OptionTable := { flags := ['s', 'b'], valued := ['w'], long := [("width", 'w')] }
  withOptions "fold" table 1 operands s fun o =>
    let width := max (((o.value? 'w').bind (Literal.digits? 10)).getD 80) 1
    let pieces (line : List Char) : List (List Char) :=
      (List.range (max ((line.length + width - 1) / width) 1)).map fun n => (line.drop (n * width)).take width
    let (s, all) := allLines o.operands s (unread "fold") 1
    s.print (unlines (all.flatMap pieces))

/-- Prints lines with their numbers. -/
def number : Program := fun operands s =>
  let table : OptionTable := { valued := ['b', 'w', 's', 'v'], long := [("body-numbering", 'b')] }
  withOptions "nl" table 1 operands s fun o =>
    let (s, all) := allLines o.operands s (unread "nl") 1
    let isAll := o.value? 'b' = some ['a']
    let numbered := numbered (!isAll) 1 all
    s.print (unlines (numbered.map fun line => if line.isEmpty then List.replicate 7 ' ' else line))

/-- Prints lines in the opposite order. -/
def reversedLines : Program := fun operands s =>
  withOptions "tac" {} 1 operands s fun o =>
    overFiles o.operands s (fun path f => "tac: failed to open '" ++ String.ofList path ++ "' for reading: " ++ f.message)
      1 fun s _ text => s.print ((rawLines text).reverse.flatMap id)

/-- Prints each line from its end to its beginning. -/
def mirroredLines : Program := fun operands s =>
  withOptions "rev" {} 1 operands s fun o =>
    overFiles o.operands s (fun path f => "rev: cannot open " ++ String.ofList path ++ ": " ++ f.message)
      1 fun s _ text => s.print (['\n'].intercalate ((Text.split '\n' text).map List.reverse))

end StepTree.Shell.Program
