import ControlPlane.Text.Utf8
import ControlPlane.Text.DecimalDigit

/-! # Record identifiers, app names and job addresses

A record identifier is thirty-two lower-case hexadecimal digits in groups of 8, 4, 4, 4 and 12, with
or without a dash between two groups; its clean form has no dashes. A job is addressed by its host
and its identifier on that host, joined by a hyphen.
-/
namespace ControlPlane

namespace Identifier

def isHexDigit (c : Char) : Bool := ('0' ≤ c && c ≤ '9') || ('a' ≤ c && c ≤ 'f')

def groups : List Nat := [8, 4, 4, 4, 12]

/-- Drops one dash, where there is one. -/
def dropDash : List Char → List Char
  | '-' :: rest => rest
  | cs => cs

/-- Hexadecimal digits in groups of the given sizes and nothing else, a dash
allowed between two groups. -/
def inGroups : List Nat → List Char → Bool
  | [], cs => cs.isEmpty
  | n :: sizes, cs =>
    (cs.take n).length == n && (cs.take n).all isHexDigit &&
      inGroups sizes (if sizes.isEmpty then cs.drop n else dropDash (cs.drop n))

def isId (s : String) : Bool := inGroups groups s.toList

/-- The text without its dashes. -/
def clean (s : String) : String := String.ofList (s.toList.filter (· != '-'))

end Identifier

namespace AppName

def maxSize : Nat := 30

def isLetterOrDigit (c : Char) : Bool := ('a' ≤ c && c ≤ 'z') || Text.isDecimalDigit c

/-- Groups of letters and digits joined by single hyphens; `fresh` says that a
group must begin here. -/
def inGroups (fresh : Bool) : List Char → Bool
  | [] => !fresh
  | c :: rest =>
    if isLetterOrDigit c then inGroups false rest else c == '-' && !fresh && inGroups true rest

/-- At most thirty bytes of lower-case groups; a digit of any script counts. -/
def isValid (name : String) : Bool := name.utf8ByteSize ≤ maxSize && inGroups true name.toList

end AppName

structure JobId where
  host : String
  job : String
  deriving DecidableEq, Repr, Inhabited

namespace JobId

def render (id : JobId) : String := id.host ++ "-" ++ id.job

/-- Splits at the first hyphen; either half must be there. -/
def parse? (s : String) : Option JobId :=
  let host := s.toList.takeWhile (· != '-')
  match s.toList.dropWhile (· != '-') with
  | [] => none
  | _ :: job =>
    if host.isEmpty || job.isEmpty then none else some ⟨String.ofList host, String.ofList job⟩

end JobId
end ControlPlane
