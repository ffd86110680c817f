import ControlPlane.Json.Record

/-! # Configuration of the controller -/
namespace ControlPlane
open Json

/-- A host agent and the `host:port` at which it answers. -/
structure HostConfig where
  id : String
  address : String
  deriving DecidableEq, Repr, Inhabited

def HostConfig.record : Record HostConfig where
  fields := [
    .required "id" HostConfig.id .string,
    .required "address" HostConfig.address .string]
  build := fun (id, address, ()) => ⟨id, address⟩

def HostConfig.codec : Codec HostConfig := HostConfig.record.codec

structure ServerConfig where
  port : UInt16 := 1200
  dataDir : String := "/var/lib/flotilla"
  logFilter : String := "info,flotillad=debug,flotilla=debug"
  deriving DecidableEq, Repr, Inhabited

/-- A server that is configured at all is configured in full. -/
def ServerConfig.record : Record ServerConfig where
  fields := [
    .required "port" ServerConfig.port .uint16,
    .required "data_dir" ServerConfig.dataDir .string,
    .required "log_filter" ServerConfig.logFilter .string]
  build := fun (port, dataDir, logFilter, ()) => ⟨port, dataDir, logFilter⟩

def ServerConfig.codec : Codec ServerConfig := ServerConfig.record.codec

/-- How many announcements may wait for one subscriber. -/
structure FeedConfig where
  subscriberBuffer : UInt64 := 256
  deriving DecidableEq, Repr, Inhabited

def FeedConfig.record : Record FeedConfig where
  fields := [.required "subscriber_buffer" FeedConfig.subscriberBuffer .uint64]
  build := fun (subscriberBuffer, ()) => ⟨subscriberBuffer⟩

def FeedConfig.codec : Codec FeedConfig := FeedConfig.record.codec

structure ControllerConfig where
  server : ServerConfig := {}
  feed : FeedConfig := {}
  hosts : List HostConfig := []
  deriving DecidableEq, Repr, Inhabited

def ControllerConfig.record : Record ControllerConfig where
  fields := [
    .defaulting "server" ControllerConfig.server ServerConfig.codec {},
    .defaulting "feed" ControllerConfig.feed FeedConfig.codec {},
    .defaulting "hosts" ControllerConfig.hosts HostConfig.codec.list []]
  build := fun (server, feed, hosts, ()) => ⟨server, feed, hosts⟩

def ControllerConfig.codec : Codec ControllerConfig := ControllerConfig.record.codec

end ControlPlane
