import StepTree.Web.Host

/-! # Addresses

The address of something on the web: a scheme, mostly a host, and a path, a query and a fragment. It is
brought into one form when it is read. -/

namespace StepTree.Web

structure Address where
  scheme : List Char
  /-- Two slashes stand before the host, even if there is none. -/
  slashes : Bool := false
  /-- What logs in at the host, with the sign after it. -/
  login : List Char := []
  host : Option (List Char) := none
  /-- The number of the service at the host, with the colon before it. -/
  socket : List Char := []
  path : List Char := []
  /-- The query and the fragment, with the marks before them. -/
  tail : List Char := []

namespace Address

/-- How the addresses of a scheme are made up. -/
inductive Family where
  | file
  /-- A host always follows. -/
  | known
  | other
  deriving DecidableEq

/-- The schemes after which a host always follows, with the numbers of their services. -/
def knownSchemes : List (String × Nat) := [("http", 80), ("https", 443), ("ws", 80), ("wss", 443), ("ftp", 21)]

def family (scheme : List Char) : Family :=
  let scheme := String.ofList scheme
  if scheme = "file" then .file else if (knownSchemes.lookup scheme).isSome then .known else .other

/-- The scheme of an address in small letters, and what follows its colon. -/
def scheme? (s : List Char) : Option (List Char × List Char) :=
  let isSchemeChar (c : Char) : Bool := c.isAlphanum || ['+', '-', '.'].contains c
  match s.takeWhile isSchemeChar, s.dropWhile isSchemeChar with
  | c :: name, ':' :: rest => if c.isAlpha then some (Text.lowerAscii (c :: name), rest) else none
  | _, _ => none

/-! ### Characters written with percent signs -/

def fragmentEscapes : List Char := [' ', '"', '<', '>', '\x60']

def queryEscapes (known : Bool) : List Char :=
  [' ', '"', '#', '<', '>'] ++ if known then ['\''] else []

def pathEscapes : List Char := fragmentEscapes ++ ['#', '?', '\x7b', '\x7d']

def loginEscapes : List Char := pathEscapes ++ ['/', ':', ';', '=', '@', '[', '\\', ']', '^', '|']

/-! ### Parts -/

/-- A character that ends the part with the host. -/
def endsAuthority (known : Bool) (c : Char) : Bool := c = '/' || c = '?' || c = '#' || (known && c = '\\')

/-- What logs in, and the text after it. The last sign for it counts. -/
def readLogin (known : Bool) (s : List Char) : Except AddressFault (List Char × List Char) :=
  let authority := s.takeWhile fun c => !endsAuthority known c
  if !authority.contains '@' then .ok ([], s)
  else
    let host := (authority.reverse.takeWhile (· ≠ '@')).reverse
    let who := authority.take (authority.length - host.length - 1)
    let rest := s.drop (who.length + 1)
    if who.isEmpty && (host.isEmpty && !rest.isEmpty) then .error .emptyHost
    else
      let user := who.takeWhile (· ≠ ':')
      let key := (who.drop user.length).drop 1
      let text := escapeWhere loginEscapes user ++ if key.isEmpty then [] else ':' :: escapeWhere loginEscapes key
      .ok (if text.isEmpty then [] else text ++ ['@'], rest)

/-- The text of the host, and what follows it. Between brackets colons belong to the host. -/
def hostText (known : Bool) : (inBrackets : Bool) → List Char → List Char × List Char
  | _, [] => ([], [])
  | inBrackets, c :: rest =>
    if endsAuthority known c || (c = ':' && !inBrackets) then ([], c :: rest)
    else
      let inBrackets := if c = '[' then true else if c = ']' then false else inBrackets
      let (host, after) := hostText known inBrackets rest
      (c :: host, after)

/-- The number of the service after the host, unless it is the one of the scheme. -/
def readSocket (scheme s : List Char) : Except AddressFault (List Char × List Char) :=
  match s with
  | ':' :: rest =>
    let digits := rest.takeWhile Char.isDigit
    let after := rest.drop digits.length
    if after.head?.any fun c => !endsAuthority true c then .error .socket
    else if digits.isEmpty then .ok ([], after)
    else match Literal.unsigned? 10 65536 digits with
      | none => .error .socket
      | some n =>
        .ok (if knownSchemes.lookup (String.ofList scheme) = some n then [] else ':' :: (toString n).toList, after)
  | _ => .ok ([], s)

/-! ### Paths -/

/-- A step of a path that stays where it is, or goes up; points may be written with percent signs. -/
def plainPoints (segment : List Char) : List Char :=
  match Text.lowerAscii segment with
  | ['%', '2', 'e'] => ['.']
  | ['%', '2', 'e', '.'] => ['.', '.']
  | ['.', '%', '2', 'e'] => ['.', '.']
  | ['%', '2', 'e', '%', '2', 'e'] => ['.', '.']
  | _ => segment

/-- The letter of a drive. -/
def isDrive (segment : List Char) : Bool :=
  match segment with
  | [c, mark] => c.isAlpha && (mark = ':' || mark = '|')
  | _ => false

/-- The segments of a path after the steps that stay or go up were made. -/
def steps (ofFile : Bool) : (done : List (List Char)) → List (List Char) → List (List Char)
  | done, [] => done
  | done, segment :: rest =>
    let last := rest.isEmpty
    match plainPoints segment with
    | ['.'] => if last then done ++ [[]] else steps ofFile done rest
    | ['.', '.'] =>
      let done := if ofFile && done.length = 1 && done.any isDrive then done else done.dropLast
      if last then done ++ [[]] else steps ofFile done rest
    | _ =>
      let segment := if ofFile && done.isEmpty && isDrive segment then segment.take 1 ++ [':'] else segment
      steps ofFile (done ++ [segment]) rest

/-- A path from its first slash on. -/
def pathText (f : Family) (s : List Char) : List Char :=
  let s := if f = .other then s else s.map fun c => if c = '\\' then '/' else c
  let s := match s with
    | '/' :: rest => rest
    | _ => s
  let segments := steps (f = .file) [] ((Text.split '/' s).map (escapeWhere pathEscapes))
  let text := segments.flatMap fun segment => '/' :: segment
  if f = .file then '/' :: text.dropWhile (· = '/') else text

/-- The path of an address, and what follows it. -/
def splitPath (s : List Char) : List Char × List Char :=
  let path := s.takeWhile fun c => c ≠ '?' ∧ c ≠ '#'
  (path, s.drop path.length)

/-- The query and the fragment. -/
def tailText (known : Bool) (s : List Char) : List Char :=
  let query := s.takeWhile (· ≠ '#')
  let fragment := s.drop query.length
  let queryText := match query with
    | '?' :: rest => '?' :: escapeWhere (queryEscapes known) rest
    | _ => []
  let fragmentText := match fragment with
    | '#' :: rest => '#' :: escapeWhere fragmentEscapes rest
    | _ => []
  queryText ++ fragmentText

/-! ### Reading -/

/-- Reads an address after the two slashes before its host. -/
def afterSlashes (scheme s : List Char) : Except AddressFault Address := do
  let f := family scheme
  let known : Bool := f = .known
  let (login, s) ← readLogin known s
  let (host, s) := hostText known false s
  if host.isEmpty && (known || s.head? = some ':') then throw AddressFault.emptyHost
  let host ← if known then Host.normal host else Host.other host
  let (socket, s) ← readSocket scheme s
  if host.isEmpty && !login.isEmpty then throw AddressFault.emptyHost
  let (path, tail) := splitPath s
  let path := if path.isEmpty && !known then [] else pathText f path
  pure
    { scheme, slashes := true, login, host := if host.isEmpty then none else some host, socket, path
      tail := tailText known tail }

/-- Reads the address of a file. -/
def ofFile (s : List Char) : Except AddressFault Address := do
  let isSlash (c : Char) : Bool := c = '/' || c = '\\'
  let scheme := "file".toList
  let finish (host : Option (List Char)) (s : List Char) : Address :=
    let (path, tail) := splitPath s
    { scheme, slashes := true, host, path := pathText .file path, tail := tailText true tail }
  match s with
  | a :: b :: rest =>
    if isSlash a && isSlash b then
      let host := rest.takeWhile fun c => !endsAuthority true c
      if isDrive host || host.isEmpty then pure (finish none rest)
      else
        let name ← Host.normal host
        let path := rest.drop host.length
        pure (finish (if name = "localhost".toList then none else some name) path)
    else pure (finish none s)
  | _ => pure (finish none s)

/-- Reads the address of a scheme after which no host has to follow. -/
def ofOther (scheme s : List Char) : Except AddressFault Address :=
  match s with
  | '/' :: '/' :: rest => afterSlashes scheme rest
  | _ =>
    let (path, tail) := splitPath s
    let path := match path with
      | '/' :: _ =>
        let text := pathText .other path
        if text.take 2 == ['/', '/'] then '/' :: '.' :: text else text
      | _ => escapeWhere [] path
    .ok { scheme, path, tail := tailText false tail }

/-- Reads an address. Control characters and blanks around it do not count, nor do tabs and line ends in it. -/
def ofText (s : List Char) : Except AddressFault Address :=
  let isMargin (c : Char) : Bool := c.toNat ≤ 32
  let s := ((s.dropWhile isMargin).reverse.dropWhile isMargin).reverse
  let s := s.filter fun c => c ≠ '\t' ∧ c ≠ '\n' ∧ c ≠ '\r'
  match scheme? s with
  | none => .error .relative
  | some (scheme, rest) =>
    match family scheme with
    | .file => ofFile rest
    | .known => afterSlashes scheme (rest.dropWhile fun c => c = '/' || c = '\\')
    | .other => ofOther scheme rest

/-- The address in its one form. -/
def text (a : Address) : List Char :=
  a.scheme ++ ':' :: (if a.slashes then ['/', '/'] else []) ++ a.login ++ a.host.getD [] ++ a.socket ++ a.path ++ a.tail

end Address

end StepTree.Web
