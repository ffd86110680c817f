import ControlPlane.Text.Utf8

/-! # Strings of TOML

A string is basic, with escapes, or literal, without, and either may be long, between threefold
quotes and over several lines. The writer takes the first form that needs no escapes, and
escapes where there is none.
-/
namespace ControlPlane.Toml

def isSpace (c : Char) : Bool := c == ' ' || c == '\t'

/-- Characters that may stand as they are in strings and comments. -/
def isPlain (c : Char) : Bool := c == '\t' || (' ' ≤ c && c != '\x7f')

def startsLine : List Char → Bool
  | '\n' :: _ | '\r' :: '\n' :: _ => true
  | _ => false

def dropNewline : List Char → List Char
  | '\n' :: rest | '\r' :: '\n' :: rest => rest
  | cs => cs

namespace Quoted

/-! ## Reading -/

/-- Where a reader stands in a basic string; after a backslash at the end of a
line it skips blanks. -/
inductive Mode
  | text
  | escape
  | hex (owed value : Nat)
  | skipping
  deriving DecidableEq, Repr

def escaped? (c : Char) : Option Char :=
  if c = 'b' then some '\x08'
  else if c = 't' then some '\t'
  else if c = 'n' then some '\n'
  else if c = 'f' then some '\x0c'
  else if c = 'r' then some '\r'
  else if c = '"' then some '"'
  else if c = '\\' then some '\\'
  else none

def hexValue? (c : Char) : Option Nat :=
  if '0' ≤ c && c ≤ '9' then some (c.toNat - 0x30)
  else if 'A' ≤ c && c ≤ 'F' then some (c.toNat - 0x37)
  else if 'a' ≤ c && c ≤ 'f' then some (c.toNat - 0x57)
  else none

abbrev Result := Option (List Char × List Char)

def push (c : Char) (r : Result) : Result := r.map fun (cs, rest) => (c :: cs, rest)

/-- A run of quotes that ends a long string may begin with one or two of its own. -/
def closeLong (quote : Char) (rest : List Char) : Result :=
  let own := (rest.take 2).takeWhile (· == quote)
  some (own, rest.drop own.length)

/-- A basic string whose opening quotes have been taken, and what follows it. -/
def basicFrom (long : Bool) : Mode → List Char → Result
  | _, [] => none
  | .escape, c :: rest =>
    if c = 'u' then basicFrom long (.hex 4 0) rest
    else if c = 'U' then basicFrom long (.hex 8 0) rest
    else match escaped? c with
      | some d => push d (basicFrom long .text rest)
      | none =>
        if long && startsLine ((c :: rest).dropWhile isSpace)
          then basicFrom long .skipping rest else none
  | .hex owed value, c :: rest =>
    match hexValue? c with
    | none => none
    | some d =>
      let value := value * 16 + d
      if 1 < owed then basicFrom long (.hex (owed - 1) value) rest
      else if value.isValidChar then push (Char.ofNat value) (basicFrom long .text rest)
      else none
  | _, '"' :: '"' :: '"' :: rest =>
    if long then closeLong '"' rest else some ([], '"' :: '"' :: rest)
  | mode, '\r' :: '\n' :: rest =>
    if !long then none
    else if mode = .skipping then basicFrom long .skipping rest
    else push '\n' (basicFrom long .text rest)
  | mode, c :: rest =>
    if mode = .skipping && (isSpace c || c == '\n') then basicFrom long .skipping rest
    else if c = '"' then (if long then push c (basicFrom long .text rest) else some ([], rest))
    else if c = '\\' then basicFrom long .escape rest
    else if isPlain c || (long && c == '\n') then push c (basicFrom long .text rest)
    else none

def literalFrom (long : Bool) : List Char → Result
  | [] => none
  | '\'' :: '\'' :: '\'' :: rest =>
    if long then closeLong '\'' rest else some ([], '\'' :: '\'' :: rest)
  | '\r' :: '\n' :: rest => if long then push '\n' (literalFrom long rest) else none
  | c :: rest =>
    if c = '\'' && !long then some ([], rest)
    else if isPlain c || (long && c == '\n') then push c (literalFrom long rest)
    else none

/-- A string in any form, and what follows it. -/
def read : List Char → Result
  | '"' :: '"' :: '"' :: rest => basicFrom true .text (dropNewline rest)
  | '"' :: rest => basicFrom false .text rest
  | '\'' :: '\'' :: '\'' :: rest => literalFrom true (dropNewline rest)
  | '\'' :: rest => literalFrom false rest
  | _ => none

/-! ## Writing -/

/-- The most of a character in a row. -/
def longestRun (c : Char) : Nat → List Char → Nat
  | run, [] => run
  | run, d :: rest => if d = c then longestRun c (run + 1) rest else max run (longestRun c 0 rest)

/-- Control characters that need an escape in every form. -/
def isControl (c : Char) : Bool := (c < ' ' && c != '\t' && c != '\n') || c == '\x7f'

def hexDigit (n : Nat) : Char := Char.ofNat (if n < 10 then 0x30 + n else 0x37 + n)

def escapeChar (long : Bool) (c : Char) : List Char :=
  if c = '\\' then ['\\', '\\']
  else if c = '\x08' then ['\\', 'b']
  else if c = '\t' then ['\\', 't']
  else if c = '\n' then (if long then ['\n'] else ['\\', 'n'])
  else if c = '\x0c' then ['\\', 'f']
  else if c = '\r' then ['\\', 'r']
  else if isControl c then ['\\', 'u', '0', '0', hexDigit (c.toNat / 16), hexDigit (c.toNat % 16)]
  else [c]

/-- Escapes a text after `run` quotes in a row, of which a long string may hold two. -/
def escapeFrom (long : Bool) : Nat → List Char → List Char
  | _, [] => []
  | run, c :: rest =>
    if c = '"' then
      if long && run < 2 then '"' :: escapeFrom long (run + 1) rest
        else '\\' :: '"' :: escapeFrom long 0 rest
    else escapeChar long c ++ escapeFrom long 0 rest

inductive Form
  | basic | literal | longBasic | longLiteral
  deriving DecidableEq, Repr

/-- The form in which a text is written. -/
def form (cs : List Char) : Form :=
  let control := cs.any isControl
  let backslash := cs.contains '\\'
  let newline := cs.contains '\n'
  let double := longestRun '"' 0 cs
  let single := longestRun '\'' 0 cs
  if !control && !backslash && double == 0 && !newline then .basic
  else if !control && single == 0 && !newline then .literal
  else if !control && !backslash && double ≤ 2 then .longBasic
  else if !control && single ≤ 2 then .longLiteral
  else if newline then .longBasic
  else .basic

/-- Threefold quotes around a text; one of several lines begins on a line of its own. -/
def long (quote : Char) (cs text : List Char) : List Char :=
  let quotes := [quote, quote, quote]
  quotes ++ (if cs.contains '\n' then ['\n'] else []) ++ text ++ quotes

def write (cs : List Char) : List Char :=
  match form cs with
  | .basic => '"' :: escapeFrom false 0 cs ++ ['"']
  | .literal => '\'' :: cs ++ ['\'']
  | .longBasic => long '"' cs (escapeFrom true 0 cs)
  | .longLiteral => long '\'' cs cs

end Quoted
end ControlPlane.Toml
