import StepTree.Run.Action
import StepTree.Web.Address

/-! # Web request actions

An action that sends a request to the address of its input `url`. The method, the address and the headers
are checked first. No connection can be made from here, so a request that passes the checks fails. -/

namespace StepTree.Web

/-- A character that may stand in the names of methods and headers. -/
def isTokenChar (c : Char) : Bool :=
  c.isAlphanum || ['!', '#', '$', '%', '&', '\'', '*', '+', '-', '.', '^', '_', '\x60', '|', '~'].contains c

def isToken (s : String) : Bool := !s.isEmpty && s.toList.all isTokenChar

/-- A character that may stand in the value of a header. -/
def isHeaderChar (c : Char) : Bool := c = '\t' || (32 ≤ c.toNat && c.toNat ≠ 127)

/-- Why no request can be made. -/
inductive RequestFault where
  | address (fault : AddressFault)
  /-- The scheme has no requests. -/
  | scheme (a : Address)
  | headerName
  | headerValue
  /-- The host has a character that requests cannot hold. -/
  | host (a : Address)
  /-- Nothing is wrong with the request, but it cannot be sent. -/
  | unreachable (a : Address)

def RequestFault.message : RequestFault → String
  | address fault => "builder error: " ++ fault.message
  | scheme a => "builder error for url (" ++ String.ofList a.text ++ "): URL scheme is not allowed"
  | headerName => "builder error: invalid HTTP header name"
  | headerValue => "builder error: failed to parse header value"
  | host a => "builder error for url (" ++ String.ofList a.text ++ "): Parsed Url is not a valid Uri"
  | unreachable a => "error sending request for url (" ++ String.ofList a.text ++ ")"

/-- The first mistake in the headers of an action. -/
def headerFault? (config : List (String × Json)) : Option RequestFault :=
  match config.lookup "headers" with
  | some (.obj headers) =>
    headers.findSome? fun (name, value) =>
      let text := match value with
        | .str s => s.toList
        | other => other.text
      if !isToken name then some .headerName
      else if !text.all isHeaderChar then some .headerValue
      else none
  | _ => none

/-- What is wrong with a request to an address. An address without a host is refused before the headers are
looked at, one with a scheme that has no requests after them. -/
def requestFault (url : String) (config : List (String × Json)) : RequestFault :=
  match Address.ofText url.toList with
  | .error fault => .address fault
  | .ok a =>
    if a.host.isNone then .scheme a
    else
      let a := { a with login := [] }
      match headerFault? config with
      | some fault => fault
      | none =>
        if a.scheme ≠ "http".toList ∧ a.scheme ≠ "https".toList then .scheme a
        else if (a.host.getD []).any fun c => ['"', '\x60', '\x7b', '\x7d'].contains c then .host a
        else .unreachable a

/-- Why the request of an action fails. -/
def failure (a : Action) : String :=
  match a.inputs.lookup "url" with
  | none => "http action requires a 'url' input"
  | some url =>
    let method := (a.inputs.lookup "method").getD "GET"
    if !isToken method then "unsupported method: " ++ method ++ ": invalid HTTP method"
    else "request for step '" ++ a.stepId ++ "' failed: " ++ (requestFault url a.config).message

end StepTree.Web

namespace StepTree.Executor

/-- Checks web requests. -/
def web : Executor := fun _ a => { result := .error (Web.failure a) }

end StepTree.Executor
