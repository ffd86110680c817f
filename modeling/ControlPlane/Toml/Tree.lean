import ControlPlane.Toml.Scalar

/-! # Trees of TOML tables

A document is built up expression by expression. A table may be named by a header once, after
tables below it have been; a table that dotted keys made can be added to by dotted keys alone;
values are never added to.
-/
namespace ControlPlane.Toml

/-- How a table came about: by its own header or braces, by a header further
down, or by a dotted key. -/
inductive Origin
  | stated
  | implied
  | dotted
  deriving DecidableEq, Repr

inductive Node
  | value (v : Value)
  | table (origin : Origin) (entries : List (String × Node))
  /-- The tables of an array, the last one first. -/
  | tables (items : List (List (String × Node)))

abbrev Entries := List (String × Node)

namespace Node

mutual
def toValue : Node → Value
  | value v => v
  | table _ entries => .table (members entries)
  | tables items => .array (elements items).reverse
def members : List (String × Node) → List (String × Value)
  | [] => []
  | (k, n) :: rest => (k, toValue n) :: members rest
def elements : List (List (String × Node)) → List Value
  | [] => []
  | entries :: rest => .table (members entries) :: elements rest
end

end Node

namespace Entries

def get? (key : String) (entries : Entries) : Option Node := (entries.find? (·.1 == key)).map (·.2)

/-- Replaces the node of a key, or adds it at the end. -/
def set (key : String) (node : Node) : Entries → Entries
  | [] => [(key, node)]
  | (k, n) :: rest => if k = key then (k, node) :: rest else (k, n) :: set key node rest

/-- Changes the entries at the end of a path, making tables on the way; `f` is told
the origin of the last. -/
def descend (byDots : Bool) (f : Origin → Entries → Option Entries) :
    List String → Origin → Entries → Option Entries
  | [], origin, entries => f origin entries
  | key :: path, _, entries =>
    match (entries.get? key).getD (.table (if byDots then .dotted else .implied) []) with
    | .value _ => none
    | .table origin below =>
      if byDots && origin = .stated then none
      else (descend byDots f path origin below).map fun below =>
        entries.set key (.table origin below)
    | .tables (last :: items) =>
      (descend byDots f path .stated last).map fun last => entries.set key (.tables (last :: items))
    | .tables [] => none

/-- Adds a value under a key, dotted or not. -/
def addValue (path : List String) (key : String) (v : Value) (origin : Origin) (entries : Entries) :
    Option Entries :=
  descend true (fun last below =>
    if (last == .dotted) == path.isEmpty then none
    else if (below.get? key).isSome then none
    else some (below ++ [(key, .value v)])) path origin entries

/-- Begins a table of a header; tables below it that came first are kept. -/
def openTable (path : List String) (key : String) (entries : Entries) : Option Entries :=
  descend false (fun _ below =>
    match below.get? key with
    | none => some (below ++ [(key, .table .stated [])])
    | some (.table .implied inner) => some (below.set key (.table .stated inner))
    | some _ => none) path .stated entries

/-- Begins one more table of an array. -/
def openElement (path : List String) (key : String) (entries : Entries) : Option Entries :=
  descend false (fun _ below =>
    match below.get? key with
    | none => some (below ++ [(key, .tables [[]])])
    | some (.tables items) => some (below.set key (.tables ([] :: items)))
    | some _ => none) path .stated entries

/-- Adds a value to the table that the last header began. -/
def addBelow (header : List String) (path : List String) (key : String) (v : Value)
    (entries : Entries) :
    Option Entries :=
  descend false (fun origin below => addValue path key v origin below) header .stated entries

end Entries
end ControlPlane.Toml
