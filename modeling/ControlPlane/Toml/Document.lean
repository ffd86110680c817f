import ControlPlane.Toml.Quoted
import ControlPlane.Toml.Tree

/-! # TOML documents

A document is lines of headers and of keys with values. A reader takes what it wants from the front
of the text and fails on anything else. Each turn of a loop takes a character at least, so that
`fuel` for more turns than the document has characters is enough for every loop.
-/
namespace ControlPlane.Toml

abbrev Reader (α : Type) := StateT (List Char) Option α

namespace Reader

def skipSpace : Reader Unit := fun cs => some ((), cs.dropWhile isSpace)

def peek : Reader (Option Char) := fun cs => some (cs.head?, cs)

def mark (c : Char) : Reader Unit := fun cs =>
  match cs with
  | d :: rest => if d = c then some ((), rest) else none
  | [] => none

/-- Takes `c` if it is next. -/
def optionally (c : Char) : Reader Bool := fun cs =>
  match cs with
  | d :: rest => some (if d = c then (true, rest) else (false, cs))
  | [] => some (false, [])

/-- A comment, without the end of its line. -/
def comment : Reader Unit := fun cs =>
  some ((), match cs with
    | '#' :: rest => rest.dropWhile isPlain
    | cs => cs)

/-- The end of a line or of the document. -/
def newline : Reader Unit := fun cs =>
  if cs.isEmpty then some ((), []) else if startsLine cs then some ((), dropNewline cs) else none

/-- Nothing more on this line but a comment. -/
def lineEnd : Reader Unit := do skipSpace; comment; newline

/-! ## Keys -/

def isBareKey (c : Char) : Bool :=
  Decimal.isDigit c || ('a' ≤ c && c ≤ 'z') || ('A' ≤ c && c ≤ 'Z') || c == '_' || c == '-'

def simpleKey : Reader String := fun cs =>
  match cs with
  | '"' :: rest =>
    (Quoted.basicFrom false .text rest).map fun (key, rest) => (String.ofList key, rest)
  | '\'' :: rest => (Quoted.literalFrom false rest).map fun (key, rest) => (String.ofList key, rest)
  | _ =>
    let key := cs.takeWhile isBareKey
    if key.isEmpty then none else some (String.ofList key, cs.dropWhile isBareKey)

/-- The most keys in a path and the most brackets around a value, plus one. -/
def limit : Nat := 80

def keysFrom : Nat → List String → Reader (List String × String)
  | 0, _ => fun _ => none
  | fuel + 1, path => do
    skipSpace
    let key ← simpleKey
    skipSpace
    if ← optionally '.' then keysFrom fuel (path ++ [key]) else return (path, key)

/-- Keys with dots between them: those of tables, and the last one. -/
def dottedKey : Reader (List String × String) := keysFrom (limit - 1) []

/-! ## Values -/

def string : Reader Value :=
  fun cs => (Quoted.read cs).map fun (s, rest) => (.string (String.ofList s), rest)

def scalar : Reader Value := fun cs =>
  let (token, rest) := Scalar.token cs
  (Scalar.ofToken? token).map (·, rest)

/-- Passes over blanks, line ends and comments that end with their lines. -/
def skipLines : Nat → Reader Unit
  | 0 => fun _ => none
  | fuel + 1 => do
    skipSpace
    match ← peek with
    | some '#' => comment; lineBreak; skipLines fuel
    | some '\n' | some '\r' => lineBreak; skipLines fuel
    | _ => return
where
  lineBreak : Reader Unit := fun cs => if startsLine cs then some ((), dropNewline cs) else none

/-- The items of an array up to its bracket; `seen` holds those so far, the last first. -/
def items (value : Reader Value) : Nat → List Value → Reader (List Value)
  | 0, _ => fun _ => none
  | fuel + 1, seen => do
    skipLines fuel
    if ← optionally ']' then return seen.reverse
    let v ← value
    skipLines fuel
    if ← optionally ',' then items value fuel (v :: seen)
    else
      mark ']'
      return (v :: seen).reverse

def keyValue (value : Reader Value) : Reader ((List String × String) × Value) := do
  let key ← dottedKey
  mark '='
  skipSpace
  return (key, ← value)

def add (entries : Entries) (pair : (List String × String) × Value) : Reader Entries := fun cs =>
  (entries.addValue pair.1.1 pair.1.2 pair.2 .stated).map (·, cs)

/-- The pairs of an inline table up to its brace, of which there is at least one. -/
def pairs (value : Reader Value) : Nat → Entries → Reader Entries
  | 0, _ => fun _ => none
  | fuel + 1, entries => do
    let entries ← add entries (← keyValue value)
    skipSpace
    if ← optionally ',' then pairs value fuel entries
    else
      mark '}'
      return entries

def inlineTable (value : Reader Value) (fuel : Nat) : Reader Value := do
  skipSpace
  if ← optionally '}' then return .table []
  return .table (Node.members (← pairs value fuel []))

/-- A value with brackets less than `depth` deep. -/
def value (fuel : Nat) : Nat → Reader Value
  | 0 => fun _ => none
  | depth + 1 => do
    match ← peek with
    | some '"' | some '\'' => string
    | some '[' => mark '['; return .array (← items (value fuel depth) fuel [])
    | some '\x7b' => mark '\x7b'; inlineTable (value fuel depth) fuel
    | _ => scalar

/-! ## Documents -/

/-- The tables so far, and the path of the one that the last header began. -/
structure Progress where
  header : List String := []
  entries : Entries := []

def progress (header : List String) (entries : Option Entries) : Reader Progress := fun cs =>
  entries.map fun entries => ({ header, entries }, cs)

def headerLine (p : Progress) : Reader Progress := do
  mark '['
  let isElement ← optionally '['
  let (path, key) ← dottedKey
  mark ']'
  if isElement then mark ']'
  lineEnd
  progress (path ++ [key]) (if isElement then p.entries.openElement path key
    else p.entries.openTable path key)

def valueLine (fuel : Nat) (p : Progress) : Reader Progress := do
  let ((path, key), v) ← keyValue (value fuel limit)
  lineEnd
  progress p.header (p.entries.addBelow p.header path key v)

/-- One expression a turn, until the end; `fuel` is for the loops in it. -/
def linesFrom (fuel : Nat) : Nat → Progress → Reader Entries
  | 0, _ => fun _ => none
  | turns + 1, p => do
    skipSpace
    match ← peek with
    | none => return p.entries
    | some '#' | some '\n' | some '\r' => lineEnd; linesFrom fuel turns p
    | some '[' => linesFrom fuel turns (← headerLine p)
    | some _ => linesFrom fuel turns (← valueLine fuel p)

end Reader

def dropByteOrderMark : List Char → List Char
  | '\uFEFF' :: rest => rest
  | cs => cs

/-- The top table of a document. -/
def document? (cs : List Char) : Option (List (String × Value)) :=
  let fuel := cs.length + 2
  (Reader.linesFrom fuel fuel {} (dropByteOrderMark cs)).map fun (entries, _) =>
    Node.members entries

end ControlPlane.Toml
