import ControlPlane.Text.Utf8

/-! # URIs of requests

An absolute URI has a scheme, an authority, and a path with a query; a relative one begins with a
slash, and a bare authority stands alone. A fragment is read and dropped.
-/
namespace ControlPlane

structure Uri where
  scheme : Option String := none
  authority : Option String := none
  path : String := ""
  query : Option String := none
  deriving DecidableEq, Repr, Inhabited

namespace Uri

def maxSize : Nat := 65534

def isAlphaNum (c : Char) : Bool :=
  ('0' ≤ c && c ≤ '9') || ('a' ≤ c && c ≤ 'z') || ('A' ≤ c && c ≤ 'Z')

def isSchemeChar (c : Char) : Bool := isAlphaNum c || c == '+' || c == '-' || c == '.'

/-- Characters of an authority, other than the brackets, the colon and the at sign. -/
def isAuthorityChar (c : Char) : Bool := isAlphaNum c || "!$&'()*+,-.;=_~".toList.contains c

def isPathChar (c : Char) : Bool :=
  c == '!' || c == '"' || ('$' ≤ c && c ≤ ';') || c == '=' || ('@' ≤ c && c ≤ '_') || 'a' ≤ c

def isQueryChar (c : Char) : Bool := c == '!' || ('$' ≤ c && c ≤ ';') || c == '=' || '?' ≤ c

/-- The scheme in front of `://` and what follows it, or the whole text where there is none. -/
def splitScheme (cs : List Char) : Option String × List Char :=
  match cs.dropWhile isSchemeChar with
  | ':' :: '/' :: '/' :: rest => (some (String.ofList (cs.takeWhile isSchemeChar)), rest)
  | _ => (none, cs)

def maxScheme : Nat := 64

/-- What has been seen of an authority; colons and percent signs before an at sign do not count. -/
structure Authority where
  colons : Nat := 0
  opened : Bool := false
  closed : Bool := false
  hasPercent : Bool := false
  last : Option Char := none

def Authority.take? (a : Authority) (c : Char) : Option Authority :=
  let a := { a with last := some c }
  if c = ':' then (if a.colons < 8 then some { a with colons := a.colons + 1 } else none)
  else if c = '[' then (if a.hasPercent || a.opened then none else some { a with opened := true })
  else if c = ']' then
    if !a.opened || a.closed then none
      else some { a with closed := true, colons := 0, hasPercent := false }
  else if c = '@' then some { a with colons := 0, hasPercent := false }
  else if c = '%' then some { a with hasPercent := true }
  else if isAuthorityChar c then some a
  else none

/-- Balanced brackets, at most one colon before a port, something after an at
sign and no percent sign. -/
def Authority.isComplete (a : Authority) : Bool :=
  a.opened == a.closed && a.colons ≤ 1 && a.last != some '@' && !a.hasPercent

def endsAuthority (c : Char) : Bool := c == '/' || c == '?' || c == '#'

/-- The authority in front, up to a slash, a question mark or a hash sign, and the rest. -/
def splitAuthority? (cs : List Char) : Option (List Char × List Char) := do
  let front := cs.takeWhile (!endsAuthority ·)
  let seen ← front.foldlM Authority.take? {}
  if seen.isComplete then return (front, cs.drop front.length) else none

/-- The path and the query, a fragment dropped. -/
def pathAndQuery? (cs : List Char) : Option (String × Option String) :=
  let path := cs.takeWhile isPathChar
  match cs.drop path.length with
  | [] | '#' :: _ => some (String.ofList path, none)
  | '?' :: rest =>
    let query := rest.takeWhile isQueryChar
    match rest.drop query.length with
    | [] | '#' :: _ => some (String.ofList path, some (String.ofList query))
    | _ => none
  | _ => none

def parseChars? (cs : List Char) : Option Uri :=
  match cs with
  | [] => none
  | ['*'] => some { path := "*" }
  | '/' :: _ => do
    let (path, query) ← pathAndQuery? cs
    return { path, query }
  | _ => do
    let (scheme, rest) := splitScheme cs
    let (authority, rest) ← splitAuthority? rest
    match scheme with
    | none => if rest.isEmpty then return { authority := some (String.ofList authority) } else none
    | some scheme =>
      if authority.isEmpty || maxScheme < scheme.length then none
      let (path, query) ← pathAndQuery? rest
      return { scheme := some scheme, authority := some (String.ofList authority), path, query }

def parse? (s : String) : Option Uri :=
  if maxSize < s.utf8ByteSize then none else parseChars? s.toList

def hasScheme (uri : Uri) (scheme : String) : Bool :=
  uri.scheme.any fun given => given.map (·.toLower) == scheme

end Uri
end ControlPlane
