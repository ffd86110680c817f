import ControlPlane.Config.File
import ControlPlane.Proofs.Text.Utf8
import ControlPlane.Proofs.Toml.Sections

/-! # A configuration is read as it was written

The text of a configuration is sections of a TOML document, whose values say all
that the configuration does.
-/
namespace ControlPlane
open Toml Toml.Reader

namespace HostConfig

def pairs (host : HostConfig) : List (String × Written) :=
  [("id", .string host.id), ("address", .string host.address)]

theorem writable_pairs (host : HostConfig) : Writable host.pairs where
  distinct := by simp [pairs]
  fits := by
    have hkeys : IsBare "id" ∧ IsBare "address" := by decide
    simp [pairs, Written.Fits, hkeys]

theorem ofToml?_pairs (host : HostConfig) :
    ofToml? (.table (Node.members (nodes host.pairs))) = some host := rfl

end HostConfig

namespace ServerConfig

def pairs (server : ServerConfig) : List (String × Written) :=
  [("port", .natural server.port.toNat), ("data_dir", .string server.dataDir),
    ("log_filter", .string server.logFilter)]

theorem writable_pairs (server : ServerConfig) : Writable server.pairs where
  distinct := by simp [pairs]
  fits := by
    have hkeys : IsBare "port" ∧ IsBare "data_dir" ∧ IsBare "log_filter" := by decide
    have hport : server.port.toNat < UInt16.size := server.port.toNat_lt
    have hgreatest : ((UInt16.size : Nat) : Int) ≤ Int64.maxValue.toInt := by decide
    have hfits : (server.port.toNat : Int) ≤ Int64.maxValue.toInt := by omega
    simp [pairs, Written.Fits, hkeys, hfits]

theorem ofToml?_pairs (server : ServerConfig) :
    ofToml? (.table (Node.members (nodes server.pairs))) = some server := by
  have hport :
      (Value.integer server.port.toNat).natural? (UInt16.size - 1) = some server.port.toNat :=
    if_pos (Nat.le_sub_one_of_lt server.port.toNat_lt)
  have hcontents :
      (Value.table (Node.members (nodes server.pairs))).contents?
        ["port", "data_dir", "log_filter"] =
      some [.integer server.port.toNat, .string server.dataDir, .string server.logFilter] := rfl
  rw [ofToml?, hcontents]
  simp only [Option.bind_eq_bind, Option.bind_some, hport, UInt16.ofNat_toNat]
  rfl

end ServerConfig

namespace FeedConfig

def pairs (feed : FeedConfig) : List (String × Written) :=
  [("subscriber_buffer", .natural feed.subscriberBuffer.toNat)]

theorem writable_pairs {feed : FeedConfig} (h : feed.subscriberBuffer.toNat < 0x8000000000000000) :
    Writable feed.pairs where
  distinct := by simp [pairs]
  fits := by
    have hkey : IsBare "subscriber_buffer" := by decide
    have hgreatest : (0x8000000000000000 : Int) = Int64.maxValue.toInt + 1 := by decide
    have hfits : (feed.subscriberBuffer.toNat : Int) ≤ Int64.maxValue.toInt := by omega
    simp [pairs, Written.Fits, hkey, hfits]

theorem ofToml?_pairs (feed : FeedConfig) :
    ofToml? (.table (Node.members (nodes feed.pairs))) = some feed := by
  have hbuffer : (Value.integer feed.subscriberBuffer.toNat).natural? (UInt64.size - 1) =
      some feed.subscriberBuffer.toNat :=
    if_pos (Nat.le_sub_one_of_lt feed.subscriberBuffer.toNat_lt)
  have hcontents : (Value.table (Node.members (nodes feed.pairs))).contents? ["subscriber_buffer"] =
      some [.integer feed.subscriberBuffer.toNat] := rfl
  rw [ofToml?, hcontents]
  simp only [Option.bind_eq_bind, Option.bind_some, hbuffer, UInt64.ofNat_toNat]
  rfl

end FeedConfig

namespace ControllerConfig

/-- The lines of the two sections that are always there. -/
def tables (c : ControllerConfig) : List Line :=
  tableLines "server" c.server.pairs ++ .blank :: tableLines "feed" c.feed.pairs

def lines (c : ControllerConfig) : List Line :=
  (if c.hosts.isEmpty then [.pair "hosts" .emptyArray, .blank] else []) ++ c.tables ++
    (c.hosts.map HostConfig.pairs).flatMap (elementLines "hosts")

theorem stringLine_eq (key s : String) : stringLine key s = (Line.pair key (.string s)).text := by
  simp only [stringLine, line, Line.text, Written.text, List.append_assoc, List.cons_append,
    List.nil_append]

theorem naturalLine_eq (key : String) (n : Nat) :
    naturalLine key n = (Line.pair key (.natural n)).text := by
  simp only [naturalLine, line, Line.text, Written.text, List.append_assoc, List.cons_append,
    List.nil_append]

theorem renderHost_eq (host : HostConfig) :
    renderHost host = (elementLines "hosts" host.pairs).flatMap Line.text := by
  have hheader : "\n[[hosts]]\n".toList = Line.blank.text ++ (Line.element "hosts").text := rfl
  unfold renderHost
  rw [hheader]
  simp only [stringLine_eq, elementLines, pairLines, HostConfig.pairs, List.map_cons, List.map_nil,
    List.flatMap_cons, List.flatMap_nil, List.append_nil, List.append_assoc]

theorem render?_eq (c : ControllerConfig) : c.render? =
    if c.feed.subscriberBuffer.toNat < 0x8000000000000000 then
      some (c.lines.flatMap Line.text)
    else none := by
  have hempty :
      "hosts = []\n\n".toList = [Line.pair "hosts" .emptyArray, .blank].flatMap Line.text := rfl
  have hserver : "[server]\n".toList = (Line.table "server").text := rfl
  have hfeed : "\n[feed]\n".toList = Line.blank.text ++ (Line.table "feed").text := rfl
  have hhosts : c.hosts.flatMap renderHost =
      ((c.hosts.map HostConfig.pairs).flatMap (elementLines "hosts")).flatMap Line.text := by
    rw [List.flatMap_map, List.flatMap_assoc]
    exact congrArg (List.flatMap · c.hosts) (funext renderHost_eq)
  have hbegin :
      (if c.hosts.isEmpty then [Line.pair "hosts" .emptyArray, .blank].flatMap Line.text else []) =
      (if c.hosts.isEmpty then [Line.pair "hosts" .emptyArray, .blank] else []).flatMap
        Line.text := by
    split <;> rfl
  rw [render?, hempty, hserver, hfeed, hhosts, hbegin]
  simp only [lines, tables, tableLines, pairLines, ServerConfig.pairs, FeedConfig.pairs,
    naturalLine_eq, stringLine_eq, List.map_cons, List.map_nil, List.flatMap_append,
    List.flatMap_cons, List.append_assoc, List.cons_append, List.nil_append]

theorem fits_lines {c : ControllerConfig} (h : c.feed.subscriberBuffer.toNat < 0x8000000000000000) :
    ∀ l ∈ c.lines, l.Fits := by
  have hbare : IsBare "hosts" ∧ IsBare "server" ∧ IsBare "feed" := by decide
  rw [lines, tables, List.forall_mem_append, List.forall_mem_append, List.forall_mem_append]
  refine ⟨⟨?_, ?_, ?_⟩, ?_⟩
  · split
    · exact List.forall_mem_cons.2 ⟨⟨hbare.1, trivial⟩, List.forall_mem_singleton.2 trivial⟩
    · exact fun l hl => absurd hl List.not_mem_nil
  · exact fits_tableLines hbare.2.1 c.server.writable_pairs
  · exact List.forall_mem_cons.2 ⟨trivial, fits_tableLines hbare.2.2 (FeedConfig.writable_pairs h)⟩
  · intro l hl
    obtain ⟨pairs, hpairs, hl⟩ := List.mem_flatMap.1 hl
    obtain ⟨host, -, rfl⟩ := List.mem_map.1 hpairs
    exact fits_elementLines hbare.1 host.writable_pairs l hl

/-- The tables that the text builds up. -/
def entries (c : ControllerConfig) : Entries :=
  let sections : Entries :=
    [("server", .table .stated (nodes c.server.pairs)),
      ("feed", .table .stated (nodes c.feed.pairs))]
  if c.hosts.isEmpty then ("hosts", .value (.array [])) :: sections
  else sections ++ [("hosts", .tables ((c.hosts.map HostConfig.pairs).map nodes).reverse)]

section
variable {c : ControllerConfig} (h : c.feed.subscriberBuffer.toNat < 0x8000000000000000)
include h

theorem foldlM_tables {front : Entries} (hserver : front.get? "server" = none)
    (hfeed : front.get? "feed" = none) (header : List String) :
    c.tables.foldlM Line.apply ⟨header, front⟩ = some ⟨["feed"], front ++
      [("server", .table .stated (nodes c.server.pairs)),
        ("feed", .table .stated (nodes c.feed.pairs))]⟩ := by
  have hfeed' :
      Entries.get? "feed" (front ++ [("server", .table .stated (nodes c.server.pairs))]) = none :=
    get?_append_singleton (by decide) hfeed _
  rw [tables, List.foldlM_append, foldlM_tableLines hserver c.server.writable_pairs]
  change (tableLines "feed" c.feed.pairs).foldlM Line.apply _ = _
  rw [foldlM_tableLines hfeed' (FeedConfig.writable_pairs h), List.append_assoc]
  rfl

theorem foldlM_lines : (c.lines.foldlM Line.apply {}).map (·.entries) = some c.entries := by
  cases hhosts : c.hosts with
  | nil =>
    have hbegin : [Line.pair "hosts" .emptyArray, .blank].foldlM Line.apply {} =
        some ⟨[], [("hosts", .value (.array []))]⟩ := rfl
    simp only [lines, entries, hhosts, List.isEmpty_nil, if_true, List.map_nil, List.flatMap_nil,
      List.append_nil]
    rw [List.foldlM_append, hbegin, Option.bind_eq_bind, Option.bind_some, foldlM_tables h rfl rfl]
    rfl
  | cons host hosts =>
    have hnone : Entries.get? "hosts" [("server", .table .stated (nodes c.server.pairs)),
        ("feed", .table .stated (nodes c.feed.pairs))] = none := rfl
    have hwritable : ∀ pairs ∈ hosts.map HostConfig.pairs, Writable pairs := by
      intro pairs hpairs
      obtain ⟨other, -, rfl⟩ := List.mem_map.1 hpairs
      exact other.writable_pairs
    simp only [lines, entries, hhosts, List.isEmpty_cons, Bool.false_eq_true, if_false,
      List.nil_append]
    rw [List.foldlM_append, foldlM_tables h rfl rfl, Option.bind_eq_bind, Option.bind_some,
      List.nil_append, List.map_cons, List.flatMap_cons, List.foldlM_append,
      foldlM_elementLines hnone (.inl ⟨rfl, rfl⟩) host.writable_pairs, Option.bind_eq_bind,
      Option.bind_some, foldlM_flatMap_elementLines hnone hwritable, List.map_cons,
      List.reverse_cons]

end

/-! ## What the tables say -/

theorem hosts_ofToml? (hosts : List HostConfig) :
    ((hosts.map HostConfig.pairs).map fun pairs => Value.table (Node.members (nodes pairs))).mapM
      HostConfig.ofToml? =
      some hosts := by
  induction hosts with
  | nil => rfl
  | cons host hosts ih =>
    rw [List.map_cons, List.map_cons, List.mapM_cons, host.ofToml?_pairs, ih]
    rfl

theorem ofMembers?_of_lookup {members : List (String × Value)} {c : ControllerConfig}
    {hosts : List Value}
    (hserver : members.lookup "server" = some (.table (Node.members (nodes c.server.pairs))))
    (hfeed : members.lookup "feed" = some (.table (Node.members (nodes c.feed.pairs))))
    (hhosts : members.lookup "hosts" = some (.array hosts))
    (hread : hosts.mapM HostConfig.ofToml? = some c.hosts) :
    ofMembers? members = some c := by
  have hlist : section? members "hosts" (fun v => do (← v.array?).mapM HostConfig.ofToml?) [] =
      some c.hosts := by
    rw [section?, hhosts]
    exact hread
  rw [ofMembers?, section?, hserver, section?, hfeed, hlist]
  simp only [ServerConfig.ofToml?_pairs, FeedConfig.ofToml?_pairs]
  rfl

theorem ofMembers?_entries (c : ControllerConfig) :
    ofMembers? (Node.members c.entries) = some c := by
  cases hhosts : c.hosts with
  | nil =>
    simp only [entries, hhosts, List.isEmpty_nil, if_true]
    exact ofMembers?_of_lookup rfl rfl rfl (by rw [hhosts]; rfl)
  | cons host hosts =>
    have helements :
        Node.toValue (.tables (((host :: hosts).map HostConfig.pairs).map nodes).reverse) =
        .array (((host :: hosts).map HostConfig.pairs).map fun pairs =>
          Value.table (Node.members (nodes pairs))) := by
      rw [Node.toValue, elements_eq, List.map_reverse, List.reverse_reverse, List.map_map]
      rfl
    simp only [entries, hhosts, List.isEmpty_cons, Bool.false_eq_true, if_false]
    refine ofMembers?_of_lookup rfl rfl (congrArg some helements) ?_
    rw [hosts_ofToml?, hhosts]

theorem parse?_render {c : ControllerConfig} {text : List Char} (h : c.render? = some text) :
    parse? text = some c := by
  rw [render?_eq] at h
  split at h
  · next hbuffer =>
    cases h
    have hread : document? (c.lines.flatMap Line.text) = some (Node.members c.entries) := by
      have hentries := congrArg (Option.map Node.members) (foldlM_lines hbuffer)
      rw [Option.map_map] at hentries
      rw [document?_flatMap (fits_lines hbuffer)]
      exact hentries
    rw [parse?, hread]
    exact c.ofMembers?_entries
  · cases h

/-- A configuration can be written if its buffer is within the integers of the format, and a file of
what was written holds that configuration. -/
theorem written_reads_back (c : ControllerConfig) :
    (c.render?.isSome = true ↔ c.feed.subscriberBuffer.toNat < 0x8000000000000000) ∧
      ∀ text, c.render? = some text →
        parse? text = some c ∧ ofBytes? (Utf8.encode (String.ofList text)) = some c := by
  refine ⟨?_, fun text h => ?_⟩
  · rw [render?_eq]
    split <;> simp_all
  · have hparse := parse?_render h
    refine ⟨hparse, ?_⟩
    rw [ofBytes?, Utf8.decode?_encode]
    simpa using hparse

/-- Texts for which the writer uses each of its forms, with an escape where nothing else will do. -/
def awkward : ControllerConfig where
  server := { port := 0, dataDir := "C:\\data \"x\"", logFilter := "it's \"so\"\n\r\x00" }
  feed := { subscriberBuffer := 0x7fffffffffffffff }
  hosts := [⟨"", "'''\"\"\""⟩, ⟨"it's \"one\"\n", "a\\'b\n"⟩, ⟨"", "''\"\n"⟩]

theorem written_reads_back_of_awkward : ∃ text, awkward.render? = some text ∧
    ofBytes? (Utf8.encode (String.ofList text)) = some awkward := by
  obtain ⟨hwritable, hread⟩ := written_reads_back awkward
  obtain ⟨text, htext⟩ := Option.isSome_iff_exists.1 (hwritable.2 (by decide))
  exact ⟨text, htext, (hread text htext).2⟩

end ControllerConfig
end ControlPlane
