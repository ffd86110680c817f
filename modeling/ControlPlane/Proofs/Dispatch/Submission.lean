import ControlPlane.Proofs.Dispatch.Memory

/-! # What a run over hosts in memory does

A run submits just the job that its request describes, and to a single host. Or it fails, for the
first reason there is, and has changed no host.
-/
namespace ControlPlane.MemoryCluster
open Dispatch
variable {c : MemoryCluster}

/-- A run succeeds only if nothing stands against it. Then the host with the fewest jobs has one
more, under its next number and behind the others, and no other host has changed. The job is the one
that the request describes, and it is answered as clients see it. If it is to be attached to, the
host was asked to, and the session is connected. A run that fails tells the first of what stands
against it, and leaves all hosts as they were. -/
theorem run_submits (hc : c.Keyed) (s : Store) (now : Instant) (app : String) (job : NewJob)
    (attach : Bool) :
    match run s (cluster now) app job attach c with
    | (.ok (placed, session), c') =>
      (∀ n e, ¬ Fault s c app job n e) ∧
        ∃ (r : Named) (h : MemoryHost) (submitted : HostJob),
          r.Resolves s app job ∧ c.IsLeast h ∧ r.Describes job attach submitted ∧
          submitted.id = "job" ++ toString h.nextJob ∧
          placed = { id := h.id ++ "-" ++ submitted.id, processType := job.processType.getD "",
                     release := r.release.id, cmd := submitted.config.cmd } ∧
          let request : AttachRequest :=
            { job := submitted.id, flags := .stdout ||| .stderr ||| .stdin ||| .stream,
              width := if job.tty then job.columns else 0, height := if job.tty
              then job.lines else 0 }
          session.map (fun x => (x.host.host, x.request, x.state)) =
            (if attach then some (h.id, request, .connected) else none) ∧
          c.OnlyHost { h with
            nextJob := h.nextJob + 1
            jobs := h.jobs ++ [⟨submitted, .running, some now⟩]
            attaches := h.attaches ++ if attach then [(request, true)] else [] } c'
    | (.error e, c') => (∀ k, c'.hosts.get? k = c.hosts.get? k) ∧ First (Fault s c app job) e := by
  obtain ⟨e, c', hrun, hsame, hfirst⟩ |
    ⟨r, hostJob, h, session, c', hr, hdescribes, hleast, haccepts, hrun, hsession, hhosts⟩ :=
      run_cases hc s now app job attach
  · rw [hrun]
    exact ⟨hsame, hfirst⟩
  · have hsubmitted : r.Describes job attach (h.number hostJob) := { hdescribes with }
    rw [hrun]
    exact ⟨fun n e => not_fault hr hleast haccepts, r, h, h.number hostJob, hr, hleast,
      hsubmitted, rfl, hsubmitted.ofHostJob h.id, hsession, hhosts⟩

/-- A release with a process type that has a command and an environment of its own. -/
def typedStore : Store :=
  let m : Moment := ⟨.epoch, ""⟩
  let web : ProcessType := { cmd := ["start"], env := Dict.ofList [("B", "type")] }
  Store.performAll {} [
    (m, .createArtifact { id := "image", kind := "docker", uri := "registry/web" }),
    (m, .createRelease {
      id := "release"
      artifact := "image"
      env := Dict.ofList [("A", "release"), ("B", "release")]
      processes := Dict.ofList [("web", web)] }),
    (m, .createApp { id := "0123456789abcdef0123456789abcdef", name := "web" })]

def typedJob : NewJob :=
  { release := "release", processType := some "web", tty := true, columns := 80, lines := 24 }

/-- Two hosts without jobs. -/
def idleCluster : MemoryCluster := (({} : MemoryCluster).addHost "host2").addHost "host1"

theorem run_submits_of_tie : idleCluster.Keyed ∧
    ∃ placed session c', run typedStore (cluster .epoch) "web" typedJob true idleCluster =
      (.ok (placed, session), c') ∧
      placed.id = "host1-job0" ∧ session.map (·.request.width) = some 80 ∧
      (c'.hosts.get? "host1").map (·.jobs.length) = some 1 ∧
      c'.hosts.get? "host2" = idleCluster.hosts.get? "host2" := by
  have hkeyed : idleCluster.Keyed := (keyed_empty.addHost "host2").addHost "host1"
  have hok : (run typedStore (cluster .epoch) "web" typedJob true idleCluster).1.isOk = true := by
    decide +kernel
  have hfirst : idleCluster.IsLeast { id := "host1", incarnation := 1 } := by
    refine ⟨by decide +kernel, fun k other hother => ?_⟩
    have hmem := Dict.mem_entries_iff.2 hother
    have hentries : idleCluster.hosts.entries =
        [("host1", { id := "host1", incarnation := 1 }),
          ("host2", { id := "host2", incarnation := 0 })] := by
      decide +kernel
    rw [hentries] at hmem
    rcases List.mem_pair.1 hmem with h | h <;> cases h <;> decide
  have hsubmits := run_submits hkeyed typedStore .epoch "web" typedJob true
  rcases hrun : run typedStore (cluster .epoch) "web" typedJob true idleCluster
    with ⟨e | ⟨placed, session⟩, c'⟩
  · rw [hrun] at hok
    cases hok
  rw [hrun] at hsubmits
  obtain ⟨-, r, h, submitted, -, hleast, -, hid, rfl, hsession, hhosts⟩ := hsubmits
  cases hleast.unique hfirst
  have hasked := congrArg (Option.map fun x => x.2.1.width) hsession
  rw [Option.map_map] at hasked
  have hother : "host1" ≠ "host2" := by decide
  refine ⟨hkeyed, _, session, c', rfl, ?_, hasked, ?_, hhosts.get?_of_ne hother⟩
  · rw [hid]
    change "host1" ++ "-" ++ ("job" ++ toString 0) = "host1-job0"
    decide +kernel
  · rw [hhosts.get?_self]
    rfl

end ControlPlane.MemoryCluster
