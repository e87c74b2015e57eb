import StepTree.Shell.Syntax
import StepTree.Text.Basic

/-! # Reading commands

A text is read one complete line at a time: a fault in a line lets the lines before it stand. Words and
commands may hold each other, so they are read together. The text of a document that a redirection announces
begins on the next line. -/

namespace StepTree.Shell

/-- What is wrong with a command line. -/
inductive SyntaxFault where
  | openQuote
  | openBackquote
  | openBrace
  | openArithmetic
  | loopName
  | functionName
  | descriptorName
  /-- A token that cannot stand where it is, and the one that should stand there if there is only one. -/
  | unexpected (token : String) (expected : Option String)
  deriving DecidableEq

def SyntaxFault.message : SyntaxFault → String
  | openQuote => "Unterminated quoted string"
  | openBackquote => "EOF in backquote substitution"
  | openBrace => "Missing '\x7d'"
  | openArithmetic => "Missing '))'"
  | loopName => "Bad for loop variable"
  | functionName => "Bad function name"
  | descriptorName => "Bad fd number"
  | unexpected token none => token ++ " unexpected"
  | unexpected token (some expected) => token ++ " unexpected (expecting " ++ expected ++ ")"

/-- A fault and its line. -/
structure SyntaxError where
  fault : SyntaxFault
  line : Nat

/-- The utilities whose names no function may take, and whose mistakes end the session. -/
def specialNames : List String :=
  [".", ":", "break", "continue", "eval", "exec", "exit", "export", "local", "readonly", "return", "set", "shift",
    "times", "trap", "unset"]

inductive Token where
  | word (w : Word)
  /-- A reserved word where reserved words count. -/
  | reserved (text : String)
  | operator (text : String)
  /-- The beginning of a redirection of a descriptor. -/
  | redirection (descriptor : Option Nat) (arrow : String)
  | lineEnd
  | textEnd

namespace Token

def reservedWords : List String :=
  ["!", "\x7b", "\x7d", "if", "then", "elif", "else", "fi", "for", "in", "do", "done", "while", "until", "case", "esac"]

/-- How a token is named in messages. -/
def name : Token → String
  | word _ => "word"
  | reserved text => "\"" ++ text ++ "\""
  | operator text => "\"" ++ text ++ "\""
  | redirection .. => "redirection"
  | lineEnd => "newline"
  | textEnd => "end of file"

/-- The token where reserved words count. -/
def withReserved (t : Token) : Token :=
  match t with
  | word w =>
    match w.bare?.filter reservedWords.contains with
    | some text => reserved text
    | none => t
  | _ => t

/-- The words and operators that end a list of commands inside another command. -/
def closers : List String := [")", ";;", "\x7d", "then", "elif", "else", "fi", "do", "done", "esac"]

def isCloser : Token → Bool
  | reserved text => closers.contains text
  | operator text => closers.contains text
  | textEnd => true
  | _ => false

/-- The token is this reserved word or operator. -/
def isMark (text : String) : Token → Bool
  | reserved t => t = text
  | operator t => t = text
  | _ => false

/-- The operators; longer ones come first. -/
def operators : List String := ["&&", "||", ";;", "&", "|", ";", "(", ")"]

/-- The signs of redirections; longer ones come first. -/
def arrows : List String := ["<<-", ">>", ">&", ">|", "<>", "<&", "<<", ">", "<"]

/-- The first of some texts with which another text begins, and what follows it. -/
def leading? (texts : List String) (s : List Char) : Option (String × List Char) :=
  texts.findSome? fun text => (Text.after? text.toList s).map fun rest => (text, rest)

/-- The redirection at the beginning of a text; a digit directly before it is the descriptor. -/
def redirection? (s : List Char) : Option (Token × List Char) :=
  match leading? arrows s, s with
  | some (arrow, rest), _ => some (redirection none arrow, rest)
  | none, c :: rest =>
    if c.isDigit then
      (leading? arrows rest).map fun (arrow, rest) => (redirection (some (c.toNat - 48)) arrow, rest)
    else none
  | none, [] => none

end Token

/-- A document that was announced, and whose text has not come yet. -/
structure Announcement where
  number : Nat
  /-- The line that ends it. -/
  mark : List Char
  /-- Its text stands for itself. -/
  isLiteral : Bool
  /-- Tabs at the beginning of lines do not count. -/
  dropsTabs : Bool

/-- A text of which a part was read. -/
structure Reader where
  rest : List Char
  line : Nat := 1
  /-- A token that was read and put back. -/
  back : Option Token := none
  announced : List Announcement := []
  /-- The documents that were read, by number. -/
  documents : List (Nat × Word) := []
  /-- The number of documents so far. -/
  count : Nat := 0
  /-- Words that stand for other texts at the beginning of commands. -/
  aliases : List (String × List Char) := []
  /-- The aliases whose texts are being read, each with what is left when its text ends. -/
  inUse : List (String × Nat) := []
  /-- The next word may be an alias as well if no more than this is left. -/
  mayExpand : Option Nat := none

abbrev Reading := StateT Reader (Except SyntaxError)

namespace Reading

def failWith {α : Type} (fault : SyntaxFault) : Reading α := fun r => .error ⟨fault, r.line⟩

/-- A token does not fit. -/
def refuse {α : Type} (t : Token) (expected : Option Token) : Reading α :=
  failWith (.unexpected t.name (expected.map Token.name))

def putBack (t : Token) : Reading Unit := modify fun r => { r with back := some t }

/-- Goes on to a later part of the text. -/
def goTo (rest : List Char) : Reading Unit := modify fun r =>
  { r with rest, line := r.line + (r.rest.take (r.rest.length - rest.length)).count '\n' }

/-- Goes on by one character that ends no line. -/
def skip : Reading Unit := modify fun r => { r with rest := r.rest.drop 1 }

/-- Goes on after a character. -/
def pass (c : Char) : Reading Unit := modify fun r =>
  { r with rest := r.rest.drop 1, line := if c = '\n' then r.line + 1 else r.line }

/-! ### Documents -/

/-- The text of a document up to the line that ends it, and what follows. Where the text does not stand for
itself, an escaped end of a line does not end it. -/
def documentText (a : Announcement) : (fuel : Nat) → (lineStart : Bool) → List Char → List Char × List Char
  | 0, _, s => ([], s)
  | _ + 1, _, [] => ([], [])
  | fuel + 1, lineStart, s =>
    let s := if lineStart && a.dropsTabs then s.dropWhile (· = '\t') else s
    let first := s.takeWhile (· ≠ '\n')
    if lineStart && first == a.mark then ([], s.drop (first.length + 1))
    else match s with
      | '\\' :: c :: rest =>
        if a.isLiteral then
          let (text, after) := documentText a fuel false (c :: rest)
          ('\\' :: text, after)
        else
          let (text, after) := documentText a fuel false rest
          ('\\' :: c :: text, after)
      | c :: rest =>
        let (text, after) := documentText a fuel (c = '\n') rest
        (c :: text, after)
      | [] => ([], [])

/-! ### Parameters -/

/-- The parameter with a name of one character that is no letter. -/
def special? (c : Char) : Option Parameter :=
  match c with
  | '?' => some .status
  | '$' => some .process
  | '!' => some .background
  | '#' => some .count
  | '@' => some .each
  | '*' => some .all
  | '-' => some .options
  | _ => if c = '0' then some .self else if c.isDigit then some (.argument (c.toNat - 48)) else none

/-- The argument that digits count. -/
def argument (digits : List Char) : Parameter :=
  match digits.foldl (fun n c => n * 10 + (c.toNat - 48)) 0 with
  | 0 => .self
  | n => .argument n

/-- A name or number at the beginning of a text. -/
def parameter? (s : List Char) : Option (Parameter × List Char) :=
  match s with
  | [] => none
  | c :: _ =>
    if isNameStart c then some (.named (String.ofList (s.takeWhile isNameChar)), s.dropWhile isNameChar)
    else if c.isDigit then some (argument (s.takeWhile Char.isDigit), s.dropWhile Char.isDigit)
    else none

/-- The parameter inside braces, whether its length is asked for, and what follows. -/
def inBraces? (s : List Char) : Option (Parameter × Bool × List Char) :=
  match parameter? s, s with
  | some (p, rest), _ => some (p, false, rest)
  | none, '#' :: rest =>
    match parameter? rest, rest with
    | some (p, after), _ => some (p, true, after)
    | none, c :: '\x7d' :: after =>
      if c = '\x7d' then some (.count, false, rest) else (special? c).map fun p => (p, true, '\x7d' :: after)
    | none, _ => some (.count, false, rest)
  | none, c :: rest => (special? c).map fun p => (p, false, rest)
  | none, [] => none

/-- What is to be done with the parameter before, and the operand. -/
def adjustment? (s : List Char) : Option (Adjustment × List Char) :=
  match s with
  | ':' :: '-' :: rest => some (.fallback true, rest)
  | '-' :: rest => some (.fallback false, rest)
  | ':' :: '=' :: rest => some (.assign true, rest)
  | '=' :: rest => some (.assign false, rest)
  | ':' :: '+' :: rest => some (.instead true, rest)
  | '+' :: rest => some (.instead false, rest)
  | ':' :: '?' :: rest => some (.demand true, rest)
  | '?' :: rest => some (.demand false, rest)
  | '%' :: '%' :: rest => some (.dropEnd true, rest)
  | '%' :: rest => some (.dropEnd false, rest)
  | '#' :: '#' :: rest => some (.dropStart true, rest)
  | '#' :: rest => some (.dropStart false, rest)
  | _ => none

/-- The adjustment takes a pattern. -/
def takesPattern : Adjustment → Bool
  | .dropStart _ => true
  | .dropEnd _ => true
  | _ => false

/-! ### Words -/

/-- Where the parts of a word stand. -/
inductive Mode where
  | bare
  /-- The line that ends a document; dollar signs stand for themselves. -/
  | mark
  | quoted
  /-- An operand in braces. -/
  | braces
  /-- An operand in braces in quotes, and whether it stands in quotes of its own. -/
  | quotedBraces (inner : Bool)
  /-- An expression, with the number of brackets that are open in it. -/
  | arithmetic (depth : Nat)
  | document

namespace Mode

/-- Blanks and patterns stand for themselves. -/
def isQuoted : Mode → Bool
  | bare => false
  | mark => false
  | braces => false
  | _ => true

/-- A character whose backslash goes away. -/
def unescapes (m : Mode) (c : Char) : Bool :=
  match m with
  | bare => true
  | mark => true
  | braces => true
  | document => c = '$' || c = '\x60' || c = '\\'
  | quotedBraces _ => c = '$' || c = '\x60' || c = '\\' || c = '"' || c = '\x7d'
  | _ => c = '$' || c = '\x60' || c = '\\' || c = '"'

/-- The fault of a text that ends too early. -/
def openFault? : Mode → Option SyntaxFault
  | quoted => some .openQuote
  | quotedBraces _ => some .openQuote
  | braces => some .openBrace
  | arithmetic _ => some .openArithmetic
  | _ => none

end Mode

/-- Ends a word that is not quoted. -/
def endsWord (c : Char) : Bool := [' ', '\t', '\n', ';', '&', '|', '<', '>', '(', ')'].contains c

/-- The text up to the next backquote, of which the backslashes before special characters are removed. -/
def backquoted? (quoted : Bool) : List Char → Option (List Char × List Char)
  | [] => none
  | '\x60' :: rest => some ([], rest)
  | '\\' :: c :: rest =>
    (backquoted? quoted rest).map fun (inner, after) =>
      (if ['\x60', '\\', '$'].contains c || (quoted && c = '"') then c :: inner else '\\' :: c :: inner, after)
  | c :: rest => (backquoted? quoted rest).map fun (inner, after) => (c :: inner, after)

/-- The word in quotes; all arguments alone need not be a word. -/
def inQuotes (w : Word) : Word :=
  match w with
  | [.value true .each .plain []] => w
  | _ => Word.cons (.text true []) w

/-- What a redirection does, once the word after its sign is known. -/
def targetOf (arrow : String) (w : Word) : Nat × Target :=
  let descriptor : Target :=
    match w.bare? with
    | some "-" => .closed
    | some text =>
      match text.toList with
      | [c] => if c.isDigit then .descriptor (c.toNat - 48) else .descriptorOf w
      | _ => .descriptorOf w
    | none => .descriptorOf w
  match arrow with
  | ">&" => (1, descriptor)
  | "<&" => (0, descriptor)
  | ">>" => (1, .write w true false)
  | ">|" => (1, .write w false true)
  | "<" => (0, .read w)
  | "<>" => (0, .readWrite w)
  | _ => (1, .write w false false)

/-- Several commands one after the other. -/
def join (before : Option Script) (next : Script) : Script :=
  match before with
  | none => next
  | some before => .sequence before next

/-- How a list of commands is ended. -/
inductive ListKind where
  /-- By the end of a line. -/
  | line
  /-- By what closes the command around it; there is at least one command. -/
  | body
  /-- By what closes the command around it; there need not be a command. -/
  | optional
  deriving DecidableEq

/-- Documents that were announced and did not come are empty. -/
def dropAnnounced : Reading Unit := modify fun r =>
  { r with announced := [], documents := r.announced.map (fun a => (a.number, [])) ++ r.documents }

/-- Puts the text of an alias in the place of a word that is one, unless that text is being read. -/
def expandAlias (w : Word) : Reading Bool := do
  let r ← get
  let left := r.rest.length
  let inUse := r.inUse.filter fun (_, n) => n ≤ left
  match w.bare?.bind fun name => (r.aliases.lookup name).map fun text => (name, text) with
  | none => pure false
  | some (name, text) =>
    if (inUse.lookup name).isSome then pure false
    else
      let blanks := (text.reverse.takeWhile fun c => c = ' ' || c = '\t').length
      set { r with
        rest := text ++ r.rest, inUse := (name, left) :: inUse
        mayExpand := if blanks = 0 then none else some (left + blanks) }
      pure true

mutual

/-- Reads the parts of a word up to its end. -/
def parts : (fuel : Nat) → Mode → Reading Word
  | 0, _ => pure []
  | fuel + 1, mode => do
    let quoted := mode.isQuoted
    let literal (c : Char) : Reading Word := do
      pass c
      return Word.cons (.text quoted [c]) (← parts fuel mode)
    match (← get).rest with
    | [] =>
      match mode.openFault? with
      | some fault => failWith fault
      | none => pure []
    | ['\\'] =>
      skip
      return Word.cons (.text true ['\\']) (← parts fuel mode)
    | '\\' :: c :: _ =>
      skip
      pass c
      let w ← parts fuel mode
      if c = '\n' then pure w
      else if mode.unescapes c then return Word.cons (.text true [c]) w
      else return Word.cons (.text true ['\\', c]) w
    | '\'' :: rest =>
      if quoted then literal '\''
      else
        let text := rest.takeWhile (· ≠ '\'')
        goTo (rest.drop text.length)
        if (← get).rest.isEmpty then failWith .openQuote
        skip
        return Word.cons (.text true text) (← parts fuel mode)
    | '"' :: _ =>
      match mode with
      | .quoted => skip; pure []
      | .document => literal '"'
      | .quotedBraces inner => skip; parts fuel (.quotedBraces !inner)
      | .arithmetic _ => literal '"'
      | _ =>
        skip
        let w ← parts fuel .quoted
        return (inQuotes w).foldr Word.cons (← parts fuel mode)
    | '$' :: _ =>
      match mode with
      | .mark => literal '$'
      | _ =>
        skip
        let part ← dollar fuel quoted
        return Word.cons part (← parts fuel mode)
    | '\x60' :: rest =>
      match mode with
      | .mark => literal '\x60'
      | _ =>
        let some (text, after) := backquoted? quoted rest | do
          goTo []
          failWith .openBackquote
        goTo after
        let outer ← get
        set { outer with rest := text, line := 1, back := none, announced := [] }
        let commands ← list fuel .optional
        readDocuments fuel
        modify fun inner =>
          { inner with rest := outer.rest, line := outer.line, back := outer.back, announced := outer.announced }
        return Word.cons (.output quoted commands) (← parts fuel mode)
    | '\x7d' :: _ =>
      match mode with
      | .braces => skip; pure []
      | .quotedBraces false => skip; pure []
      | _ => literal '\x7d'
    | '(' :: _ =>
      match mode with
      | .arithmetic depth =>
        skip
        return Word.cons (.text true ['(']) (← parts fuel (.arithmetic (depth + 1)))
      | .bare => pure []
      | .mark => pure []
      | _ => literal '('
    | ')' :: rest =>
      match mode with
      | .arithmetic 0 =>
        skip
        if rest.head? = some ')' then
          skip
          pure []
        else return Word.cons (.text true [')']) (← parts fuel mode)
      | .arithmetic (depth + 1) =>
        skip
        return Word.cons (.text true [')']) (← parts fuel (.arithmetic depth))
      | .bare => pure []
      | .mark => pure []
      | _ => literal ')'
    | c :: _ =>
      match mode with
      | .bare => if endsWord c then pure [] else literal c
      | .mark => if endsWord c then pure [] else literal c
      | _ => literal c

/-- Reads what follows a dollar sign. -/
def dollar : (fuel : Nat) → (quoted : Bool) → Reading Part
  | 0, _ => pure .invalid
  | fuel + 1, quoted => do
    match (← get).rest with
    | '(' :: '(' :: rest =>
      goTo rest
      return .arithmetic quoted (← parts fuel (.arithmetic 0))
    | '(' :: rest =>
      let announced := (← get).announced
      modify fun r => { r with rest, announced := [] }
      let commands ← list fuel .optional
      let t ← reservedToken fuel
      unless t.isMark ")" do refuse t (some (.operator ")"))
      dropAnnounced
      modify fun r => { r with announced }
      return .output quoted commands
    | '\x7b' :: rest =>
      match inBraces? rest with
      | none =>
        modify fun r => { r with rest }
        let _ ← parts fuel (if quoted then .quotedBraces false else .braces)
        pure .invalid
      | some (p, true, rest) =>
        modify fun r => { r with rest }
        let operand ← parts fuel (if quoted then .quotedBraces false else .braces)
        pure (if operand.isEmpty then .value quoted p .length [] else .invalid)
      | some (p, false, '\x7d' :: rest) =>
        modify fun r => { r with rest }
        pure (.value quoted p .plain [])
      | some (p, false, after) =>
        match adjustment? after with
        | some (how, rest) =>
          modify fun r => { r with rest }
          let mode := if quoted && !takesPattern how then Mode.quotedBraces false else .braces
          return .value quoted p how (← parts fuel mode)
        | none =>
          modify fun r => { r with rest := if after.head? = some ':' then after.drop 2 else after.drop 1 }
          let _ ← parts fuel (if quoted then .quotedBraces false else .braces)
          pure .invalid
    | c :: rest =>
      if isNameStart c then
        let name := (c :: rest).takeWhile isNameChar
        modify fun r => { r with rest := r.rest.drop name.length }
        pure (.value quoted (.named (String.ofList name)) .plain [])
      else match special? c with
        | some p => skip; pure (.value quoted p .plain [])
        | none => pure (.text quoted ['$'])
    | [] => pure (.text quoted ['$'])

/-- Reads the documents that were announced. -/
def readDocuments : (fuel : Nat) → Reading Unit
  | 0 => pure ()
  | fuel + 1 => do
    match (← get).announced with
    | [] => pure ()
    | a :: others =>
      let r ← get
      let (text, after) := documentText a (r.rest.length + 1) true r.rest
      let content ←
        if a.isLiteral then pure [Part.text true text]
        else do
          set { r with rest := text }
          parts fuel .document
      set { r with announced := others }
      goTo after
      modify fun r => { r with documents := (a.number, content) :: r.documents }
      readDocuments fuel

/-- Reads a token. -/
def token : (fuel : Nat) → Reading Token
  | 0 => pure .textEnd
  | fuel + 1 => do
    let r ← get
    match r.back with
    | some t =>
      set { r with back := none }
      pure t
    | none =>
      match r.rest with
      | [] => pure .textEnd
      | ' ' :: _ => skip; token fuel
      | '\t' :: _ => skip; token fuel
      | '\\' :: '\n' :: rest => goTo rest; token fuel
      | '#' :: rest => goTo (rest.dropWhile (· ≠ '\n')); token fuel
      | '\n' :: rest => goTo rest; pure .lineEnd
      | s =>
        match Token.redirection? s, Token.leading? Token.operators s with
        | some (t, rest), _ => goTo rest; pure t
        | none, some (text, rest) => goTo rest; pure (.operator text)
        | none, none => return .word (← parts fuel .bare)

/-- Reads a token where reserved words and aliases count. -/
def reservedToken : (fuel : Nat) → Reading Token
  | 0 => pure .textEnd
  | fuel + 1 => do
    match (← token fuel).withReserved with
    | .word w => if ← expandAlias w then reservedToken fuel else pure (.word w)
    | t => pure t

/-- Reads a token where reserved words and aliases count, after empty lines. -/
def nextToken : (fuel : Nat) → Reading Token
  | 0 => pure .textEnd
  | fuel + 1 => do
    match ← reservedToken fuel with
    | .lineEnd =>
      readDocuments fuel
      nextToken fuel
    | t => pure t

/-- Reads a token where reserved words count, after empty lines. -/
def caseToken : (fuel : Nat) → Reading Token
  | 0 => pure .textEnd
  | fuel + 1 => do
    match (← token fuel).withReserved with
    | .lineEnd =>
      readDocuments fuel
      caseToken fuel
    | t => pure t

/-- Reads a token of a command of words: its first word, and one that follows an alias with a blank at its end, may
be an alias. -/
def wordToken : (fuel : Nat) → (isFirst : Bool) → Reading Token
  | 0, _ => pure .textEnd
  | fuel + 1, isFirst => do
    let r ← get
    let expands := isFirst || r.mayExpand.any fun n => r.rest.length ≤ n
    if !isFirst && expands then set { r with mayExpand := none }
    match ← token fuel with
    | .word w =>
      let expanded ← if expands then expandAlias w else pure false
      if expanded then wordToken fuel isFirst else pure (.word w)
    | t => pure t

/-- Reads the word that follows the sign of a redirection. -/
def redirection : (fuel : Nat) → Option Nat → (arrow : String) → Reading Redirection
  | 0, _, _ => pure (.mk 0 .closed)
  | fuel + 1, descriptor, arrow => do
    if arrow = "<<" ∨ arrow = "<<-" then
      modify fun r => { r with rest := r.rest.dropWhile fun c => c = ' ' || c = '\t' }
      let r ← get
      if r.rest.head?.all endsWord then refuse (← token fuel) none
      else
        let w ← parts fuel .mark
        modify fun r =>
          { r with
            count := r.count + 1
            announced := r.announced ++ [⟨r.count, w.literal, w.isQuoted, arrow = "<<-"⟩] }
        pure (.mk (descriptor.getD 0) (.document r.count))
    else match ← token fuel with
      | .word w =>
        let (standard, target) := targetOf arrow w
        pure (.mk (descriptor.getD standard) target)
      | t => refuse t none

/-- Reads redirections after a command. -/
def redirections : (fuel : Nat) → Reading (List Redirection)
  | 0 => pure []
  | fuel + 1 => do
    match ← reservedToken fuel with
    | .redirection descriptor arrow => do
      let r ← redirection fuel descriptor arrow
      return r :: (← redirections fuel)
    | t => putBack t; pure []

/-- Reads the rest of a command of words. -/
def simple : (fuel : Nat) → (line : Nat) → List (String × Word) → List Word → List Redirection → Reading Script
  | 0, line, assignments, words, rs => pure (.simple line assignments words rs)
  | fuel + 1, line, assignments, words, rs => do
    match ← wordToken fuel words.isEmpty with
    | .word w =>
      match if words.isEmpty then w.assignment? else none with
      | some a => simple fuel line (assignments ++ [a]) words rs
      | none => simple fuel line assignments (words ++ [w]) rs
    | .redirection descriptor arrow =>
      let r ← redirection fuel descriptor arrow
      simple fuel line assignments words (rs ++ [r])
    | t =>
      match t.isMark "(", assignments, words, rs with
      | true, [], [w], [] => do
        let t ← token fuel
        unless t.isMark ")" do refuse t (some (.operator ")"))
        let some name := w.bare?.filter fun s => isName s.toList && !specialNames.contains s
          | failWith .functionName
        putBack (← nextToken fuel)
        return .define name (← command fuel)
      | _, _, _, _ => do
        putBack t
        pure (.simple line assignments words rs)

/-- Reads commands inside another command, of which there is at least one. -/
def body : (fuel : Nat) → Reading Script
  | 0 => failWith (.unexpected Token.textEnd.name none)
  | fuel + 1 => do
    let some commands ← list fuel .body | return .simple (← get).line [] [] []
    pure commands

/-- Reads a reserved word or operator that has to come. -/
def expect : (fuel : Nat) → (text : String) → Reading Unit
  | 0, _ => pure ()
  | fuel + 1, text => do
    let t ← token fuel
    unless t.isMark text do refuse t (some (.operator text))

/-- Reads a list of words up to the end of the line. -/
def lineWords : (fuel : Nat) → Reading (List Word)
  | 0 => pure []
  | fuel + 1 => do
    match ← token fuel with
    | .word w => return w :: (← lineWords fuel)
    | .lineEnd =>
      readDocuments fuel
      pure []
    | t => if t.isMark ";" then pure [] else refuse t none

/-- Reads the patterns of a case. -/
def patterns : (fuel : Nat) → Token → Reading (List Word)
  | 0, _ => pure []
  | fuel + 1, t => do
    let w := match t with
      | .word w => w
      | .reserved text => [.text false text.toList]
      | _ => []
    let next ← token fuel
    if next.isMark "|" then
      let t ← token fuel
      return w :: (← patterns fuel t)
    else if next.isMark ")" then pure [w]
    else refuse next (some (.operator ")"))

/-- Reads the cases of a choice. -/
def cases : (fuel : Nat) → Reading (List (List Word × Option Script))
  | 0 => pure []
  | fuel + 1 => do
    let t ← caseToken fuel
    if t.isMark "esac" then pure []
    else
      let first ← if t.isMark "(" then token fuel else pure t
      let ps ← patterns fuel first
      let commands ← list fuel .optional
      let t ← caseToken fuel
      if t.isMark "esac" then pure [(ps, commands)]
      else if t.isMark ";;" then return (ps, commands) :: (← cases fuel)
      else refuse t (some (.operator ";;"))

/-- Reads the rest of a choice by commands. -/
def conditional : (fuel : Nat) → Reading Script
  | 0 => failWith (.unexpected Token.textEnd.name none)
  | fuel + 1 => do
    let test ← body fuel
    expect fuel "then"
    let yes ← body fuel
    let t ← token fuel
    if t.isMark "elif" then return .conditional test yes (some (← conditional fuel))
    else if t.isMark "else" then
      let no ← body fuel
      expect fuel "fi"
      pure (.conditional test yes (some no))
    else if t.isMark "fi" then pure (.conditional test yes none)
    else refuse t (some (.reserved "fi"))

/-- Reads one command of a pipeline. -/
def command : (fuel : Nat) → Reading Script
  | 0 => failWith (.unexpected Token.textEnd.name none)
  | fuel + 1 => do
    let t ← reservedToken fuel
    let line := (← get).line
    let redirected (script : Script) : Reading Script := do
      match ← redirections fuel with
      | [] => pure script
      | rs => pure (.redirected line script rs)
    match t with
    | .word _ => putBack t; simple fuel line [] [] []
    | .redirection .. => putBack t; simple fuel line [] [] []
    | .operator "(" =>
      let commands ← body fuel
      expect fuel ")"
      return .subshell line commands (← redirections fuel)
    | .reserved "\x7b" =>
      let commands ← body fuel
      expect fuel "\x7d"
      redirected commands
    | .reserved "if" => redirected (← conditional fuel)
    | .reserved "while" =>
      let test ← body fuel
      expect fuel "do"
      let commands ← body fuel
      expect fuel "done"
      redirected (.loop true test commands)
    | .reserved "until" =>
      let test ← body fuel
      expect fuel "do"
      let commands ← body fuel
      expect fuel "done"
      redirected (.loop false test commands)
    | .reserved "for" =>
      let .word w ← token fuel | failWith .loopName
      let some name := w.bare?.filter fun s => isName s.toList | failWith .loopName
      let t ← nextToken fuel
      let words ←
        if t.isMark "in" then lineWords fuel
        else do
          unless t.isMark ";" do putBack t
          pure [[.value true .each .plain []]]
      let t ← nextToken fuel
      unless t.isMark "do" do refuse t (some (.operator "do"))
      let commands ← body fuel
      expect fuel "done"
      redirected (.each line name words commands)
    | .reserved "case" =>
      let subject ← token fuel
      let .word subject := subject | refuse subject (some (.word []))
      let t ← nextToken fuel
      unless t.isMark "in" do refuse t (some (.operator "in"))
      redirected (.select line subject (← cases fuel))
    | _ => refuse t none

/-- Reads commands joined by bars. -/
def piped : (fuel : Nat) → Reading (List Script)
  | 0 => pure []
  | fuel + 1 => do
    let first ← command fuel
    let t ← token fuel
    if t.isMark "|" then
      putBack (← nextToken fuel)
      return first :: (← piped fuel)
    else
      putBack t
      pure [first]

/-- Reads commands joined by bars, of which the outcome may be negated. -/
def pipeline : (fuel : Nat) → Reading Script
  | 0 => failWith (.unexpected Token.textEnd.name none)
  | fuel + 1 => do
    let t ← reservedToken fuel
    let negated := t.isMark "!"
    unless negated do putBack t
    let script ← match ← piped fuel with
      | [script] => pure script
      | scripts => pure (.pipe scripts)
    pure (if negated then .negation script else script)

/-- Reads pipelines of which each runs if those before it came out in a certain way. -/
def chained : (fuel : Nat) → Script → Reading Script
  | 0, left => pure left
  | fuel + 1, left => do
    let t ← token fuel
    if t.isMark "&&" then
      putBack (← nextToken fuel)
      chained fuel (.both left (← pipeline fuel))
    else if t.isMark "||" then
      putBack (← nextToken fuel)
      chained fuel (.either left (← pipeline fuel))
    else
      putBack t
      pure left

/-- Reads a list of commands. -/
def list : (fuel : Nat) → ListKind → Reading (Option Script)
  | 0, _ => pure none
  | fuel + 1, kind => listAfter fuel kind (kind = .optional) none

/-- Reads the rest of a list; it may end here if `mayEnd`. -/
def listAfter : (fuel : Nat) → ListKind → (mayEnd : Bool) → Option Script → Reading (Option Script)
  | 0, _, _, before => pure before
  | fuel + 1, kind, mayEnd, before => do
    match ← (if kind = .line then reservedToken fuel else nextToken fuel) with
    | .lineEnd =>
      readDocuments fuel
      pure before
    | .textEnd =>
      readDocuments fuel
      putBack .textEnd
      pure before
    | t =>
      putBack t
      if mayEnd && kind ≠ .line && t.isCloser then pure before
      else
        let script ← chained fuel (← pipeline fuel)
        let t ← token fuel
        let after := join before (if t.isMark "&" then .background script else script)
        match t with
        | .textEnd =>
          readDocuments fuel
          putBack .textEnd
          pure (some after)
        | .lineEnd =>
          putBack .lineEnd
          listAfter fuel kind true (some after)
        | _ =>
          if t.isMark "&" || t.isMark ";" then listAfter fuel kind true (some after)
          else if kind = .line then refuse t none
          else
            putBack t
            pure (some after)

end

/-- Reads the next complete line with a command; there is none at the end of the text. -/
def line : (fuel : Nat) → Reading (Option Script)
  | 0 => pure none
  | fuel + 1 => do
    let depth := 24 * (← get).rest.length + 64
    match ← list depth .line with
    | some script => pure (some script)
    | none =>
      match (← get).back, (← get).rest with
      | some .textEnd, _ => pure none
      | _, [] => pure none
      | _, _ => line fuel

end Reading

end StepTree.Shell
