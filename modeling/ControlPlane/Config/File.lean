import ControlPlane.Config.Basic
import ControlPlane.Toml.Document

/-! # The configuration as a file

A file may leave out any of its sections, and members that no section has are passed over.
What is written states everything: the list of hosts comes first if it is empty, and as tables
at the end if it is not.
-/
namespace ControlPlane

namespace Toml.Value

def string? : Value → Option String
  | .string s => some s
  | _ => none

/-- An integer from zero to `greatest`. -/
def natural? (greatest : Nat) : Value → Option Nat
  | .integer (.ofNat n) => if n ≤ greatest then some n else none
  | _ => none

def array? : Value → Option (List Value)
  | .array items => some items
  | _ => none

/-- The contents of a record: by name from a table, by place from an array. -/
def contents? (names : List String) : Value → Option (List Value)
  | .table members => names.mapM fun name => members.lookup name
  | .array items => if names.length ≤ items.length then some (items.take names.length) else none
  | _ => none

end Toml.Value

open Toml

namespace HostConfig

def ofToml? (v : Value) : Option HostConfig := do
  let [id, address] ← v.contents? ["id", "address"] | none
  return { id := ← id.string?, address := ← address.string? }

end HostConfig

namespace ServerConfig

def ofToml? (v : Value) : Option ServerConfig := do
  let [port, dataDir, logFilter] ← v.contents? ["port", "data_dir", "log_filter"] | none
  let port ← port.natural? (UInt16.size - 1)
  return { port := .ofNat port, dataDir := ← dataDir.string?, logFilter := ← logFilter.string? }

end ServerConfig

namespace FeedConfig

def ofToml? (v : Value) : Option FeedConfig := do
  let [buffer] ← v.contents? ["subscriber_buffer"] | none
  return { subscriberBuffer := .ofNat (← buffer.natural? (UInt64.size - 1)) }

end FeedConfig

namespace ControllerConfig

/-- What `read?` makes of a member, or the default where the member is missing. -/
def section? {α : Type} (members : List (String × Value)) (name : String) (read? : Value → Option α)
    (absent : α) : Option α :=
  match members.lookup name with
  | some v => read? v
  | none => some absent

def ofMembers? (members : List (String × Value)) : Option ControllerConfig := do
  let server ← section? members "server" ServerConfig.ofToml? {}
  let feed ← section? members "feed" FeedConfig.ofToml? {}
  let hosts ← section? members "hosts" (fun v => do (← v.array?).mapM HostConfig.ofToml?) []
  return { server, feed, hosts }

def parse? (cs : List Char) : Option ControllerConfig := do ofMembers? (← document? cs)

/-- The configuration that a file holds. -/
def ofBytes? (bytes : Bytes) : Option ControllerConfig := do parse? (← Utf8.decode? bytes).toList

/-! ## Writing -/

def line (key : String) (text : List Char) : List Char :=
  key.toList ++ [' ', '=', ' '] ++ text ++ ['\n']

def stringLine (key s : String) : List Char := line key (Quoted.write s.toList)

def naturalLine (key : String) (n : Nat) : List Char := line key (Decimal.render n)

def renderHost (host : HostConfig) : List Char :=
  "\n[[hosts]]\n".toList ++ stringLine "id" host.id ++ stringLine "address" host.address

/-- The text of a configuration; a buffer larger than the integers of the
format cannot be written. -/
def render? (c : ControllerConfig) : Option (List Char) :=
  if c.feed.subscriberBuffer.toNat < 0x8000000000000000 then
    some ((if c.hosts.isEmpty then "hosts = []\n\n".toList else []) ++
      "[server]\n".toList ++ naturalLine "port" c.server.port.toNat ++
      stringLine "data_dir" c.server.dataDir ++ stringLine "log_filter" c.server.logFilter ++
      "\n[feed]\n".toList ++ naturalLine "subscriber_buffer" c.feed.subscriberBuffer.toNat ++
      c.hosts.flatMap renderHost)
  else none

end ControllerConfig
end ControlPlane
