import ControlPlane.Api.Handler
import ControlPlane.Proofs.Cluster.Roster
import Mathlib.Data.List.Basic

/-! # Requests that change nothing

A request that is answered by an error, and one that only gets, leaves the store, the jobs of
all hosts and the queues of all subscriptions as they were. The answer to each route looks
first and changes what it changes in one step, whose failure changes nothing, and what comes
after that step cannot fail.
-/
namespace ControlPlane

/-- The store, the jobs of the hosts and the queues of the subscriptions are as they were.
Subscriptions may be new. -/
structure Controller.Untouched (c c' : Controller MemoryCluster) : Prop where
  store : c'.store = c.store
  rosters : c.world.SameRosters c'.world
  queues : (c.feed.subscriptions.map fun sub => (sub.id, sub.queue)) <+:
    c'.feed.subscriptions.map fun sub => (sub.id, sub.queue)

namespace Api
open Controller Http Json MemoryCluster
variable {α : Type} {x : Act MemoryCluster α} {m : Moment} {r : Request} {now : Instant}

theorem untouched_refl (c : Controller MemoryCluster) : Untouched c c :=
  ⟨rfl, Std.Refl.refl c.world, List.prefix_rfl⟩

instance : Std.Refl Untouched := ⟨untouched_refl⟩

instance : Trans Untouched Untouched Untouched where
  trans h h' := ⟨h'.store.trans h.store, Trans.trans h.rosters h'.rosters, h.queues.trans h'.queues⟩

/-! ## What acts on the controller leave -/

theorem leaves_get : Leaves Untouched (get : Act MemoryCluster (Controller MemoryCluster)) :=
  .of_eq fun _ => rfl

theorem leaves_look (f : Store → Except StoreError α) : Leaves Untouched (look f) := by
  refine .bind leaves_get fun c => ?_
  split
  · exact .pure _
  · exact .throw _

theorem change_failsWithin (f : Store → Except StoreError (α × Store)) :
    FailsWithin Untouched (change f) := by
  refine .bind leaves_get fun c => ?_
  split
  · rintro _ _ _ ⟨⟩
  · exact (Leaves.throw _).failsWithin

theorem changeFed_failsWithin (f : Feed → Store → Except FeedError (α × Store × Feed)) :
    FailsWithin Untouched (changeFed f) := by
  refine .bind leaves_get fun c => ?_
  split
  · rintro _ _ _ ⟨⟩
  · exact (Leaves.throw _).failsWithin

theorem leaves_dispatch {act : Store → DispatchAct MemoryCluster α}
    (h : ∀ s, Leaves SameRosters (act s)) :
    Leaves Untouched (dispatch act) := by
  intro c
  have hworld : c.world.SameRosters ((act c.store).run c.world).2 := h c.store c.world
  unfold dispatch
  split
  · next hrun => exact ⟨rfl, by rwa [hrun] at hworld, List.prefix_rfl⟩
  · next hrun => exact ⟨rfl, by rwa [hrun] at hworld, List.prefix_rfl⟩

theorem dispatch_failsWithin {act : Store → DispatchAct MemoryCluster α}
    (h : ∀ s, FailsWithin SameRosters (act s)) :
    FailsWithin Untouched (dispatch act) := by
  intro c e c' hfail
  unfold dispatch at hfail
  split at hfail
  · cases hfail
  · next hrun =>
    cases hfail
    exact ⟨rfl, h c.store hrun, List.prefix_rfl⟩

theorem answers_dispatch {act : Store → DispatchAct MemoryCluster α} {P : α → Prop}
    (h : ∀ s, Answers P (act s)) :
    Answers P (dispatch act) := by
  intro c a c' hok
  unfold dispatch at hok
  split at hok
  · next hrun =>
    cases hok
    exact h c.store hrun
  · cases hok

theorem leaves_found (a : Option α) (message : String) : Leaves Untouched (found a message) := by
  unfold found
  split
  · exact .pure _
  · exact .throw _

theorem leaves_readJson (codec : Codec α) (r : Request) : Leaves Untouched (readJson codec r) := by
  unfold readJson
  split
  · exact .throw _
  split
  · exact .throw _
  split
  · exact .pure _
  · exact .throw _
  · exact .throw _

theorem leaves_followFlag (r : Request) : Leaves Untouched (followFlag r) := by
  unfold followFlag
  split
  · exact .pure _
  · exact .pure _
  · exact .pure _
  · exact .throw _

theorem leaves_sinceInstant (r : Request) : Leaves Untouched (sinceInstant r) := by
  unfold sinceInstant
  split
  · exact .pure _
  · split
    · exact .pure _
    · exact .throw _
  · exact .throw _

theorem leaves_readJob (r : Request) : Leaves Untouched (readJob r) := by
  unfold readJob
  split
  · exact .throw _
  split
  · exact .pure _
  · exact .throw _

/-- What finds nothing to change has changed nothing. -/
theorem failsWithin_unless {x : Act MemoryCluster Bool} (hx : FailsWithin Untouched x)
    (hfalse : ∀ ⦃c c'⦄, x c = (.ok false, c') → Untouched c c') (response : Response MemoryCluster)
    (refusal : Refusal) :
    FailsWithin Untouched (do if ← x then return response else throw refusal) := by
  intro c e c' h
  obtain hfail | ⟨a, c₁, hok, hrest⟩ := bind_eq_error h
  · exact hx hfail
  · cases a with
    | true => cases hrest
    | false =>
      cases hrest
      exact hfalse hok

section Changes
variable {σ : Type} {c : Controller σ} {a : α} {s : Store}

theorem change_of_ok {f : Store → Except StoreError (α × Store)} (h : f c.store = .ok (a, s)) :
    change f c = (.ok a, { c with store := s }) := by
  have hget : (get : Act σ (Controller σ)) c = (.ok c, c) := rfl
  rw [change, bind_of_ok hget, h]
  rfl

theorem change_of_error {f : Store → Except StoreError (α × Store)} {e : StoreError}
    (h : f c.store = .error e) :
    change f c = (.error (.ofStore e), c) := by
  have hget : (get : Act σ (Controller σ)) c = (.ok c, c) := rfl
  rw [change, bind_of_ok hget, h]
  rfl

variable {f : Feed → Store → Except FeedError (α × Store × Feed)}

theorem changeFed_of_ok {feed : Feed} (h : f c.feed c.store = .ok (a, s, feed)) :
    changeFed f c = (.ok a, { c with store := s, feed }) := by
  have hget : (get : Act σ (Controller σ)) c = (.ok c, c) := rfl
  rw [changeFed, bind_of_ok hget, h]
  rfl

theorem changeFed_of_error {e : FeedError} (h : f c.feed c.store = .error e) :
    changeFed f c = (.error (.ofFeed e), c) := by
  have hget : (get : Act σ (Controller σ)) c = (.ok c, c) := rfl
  rw [changeFed, bind_of_ok hget, h]
  rfl

end Changes

theorem untouched_of_deleteApp (app : String) ⦃c c' : Controller MemoryCluster⦄
    (h : change (fun s => .ok (s.deleteApp m app)) c = (.ok false, c')) : Untouched c c' := by
  rcases hdelete : c.store.deleteApp m app with ⟨deleted, s⟩
  rw [change_of_ok (congrArg Except.ok hdelete)] at h
  unfold Store.deleteApp at hdelete
  split at hdelete
  · cases hdelete
    cases h
    exact untouched_refl c
  · cases hdelete
    cases h

theorem untouched_of_deleteFormation (app release : String) ⦃c c' : Controller MemoryCluster⦄
    (h : changeFed (fun feed s => feed.deleteFormation s m app release) c = (.ok false, c')) :
    Untouched c c' := by
  rcases hdelete : c.store.deleteFormation m app release with e | ⟨_ | record, s⟩
  · have hfeed : c.feed.deleteFormation c.store m app release = .error (.store e) := by
      rw [Feed.deleteFormation, hdelete]
    rw [changeFed_of_error hfeed] at h
    cases h
  · have hfeed : c.feed.deleteFormation c.store m app release = .ok (false, s, c.feed) := by
      rw [Feed.deleteFormation, hdelete]
    obtain ⟨row, -, hrecord⟩ := Store.deleteFormation_eq_ok.1 hdelete
    rw [changeFed_of_ok hfeed] at h
    split at hrecord <;> cases hrecord
    cases h
    exact untouched_refl c
  · have hfeed :
      c.feed.deleteFormation c.store m app release = .ok (true, s, c.feed.announce s record) := by
      rw [Feed.deleteFormation, hdelete]
    rw [changeFed_of_ok hfeed] at h
    cases h

/-- The queues of all subscriptions stay as they are when one more is
registered, whatever it replays. -/
theorem queues_subscribe {feed feed' : Feed} {s : Store} {since : Instant} {id : Nat}
    (h : feed.subscribe s since = .ok (id, feed')) :
    (feed.subscriptions.map fun sub => (sub.id, sub.queue)) <+: feed'.subscriptions.map fun sub =>
      (sub.id, sub.queue) := by
  unfold Feed.subscribe Feed.register at h
  split at h
  · cases h
  · cases h
    have hkept (sub : Subscription) (replay : List Change) :
        (fun sub : Subscription => (sub.id, sub.queue))
          (if sub.id = feed.nextId then { sub with replay } else sub) =
          (sub.id, sub.queue) := by
      split <;> rfl
    simp only [Feed.beginReplay, Feed.update, List.map_append, List.map_map,
      Function.comp_def, hkept]
    exact List.prefix_append _ _

theorem leaves_subscribe (r : Request) : Leaves Untouched (subscribe r : Act MemoryCluster _) := by
  refine .bind (leaves_sinceInstant r) fun since => ?_
  intro c
  have hget : (get : Act MemoryCluster (Controller MemoryCluster)) c = (.ok c, c) := rfl
  rw [bind_of_ok hget]
  cases hsubscribe : c.feed.subscribe c.store since with
  | error e => exact untouched_refl c
  | ok out => exact ⟨rfl, Std.Refl.refl c.world, queues_subscribe hsubscribe⟩

/-! ## What the answer to each route leaves -/

theorem runJob_failsWithin (r : Request) (app : String) :
    FailsWithin Untouched (runJob (cluster now) r app) := by
  refine .bind (leaves_readJob r) fun job => ?_
  split
  · split
    · exact (Leaves.throw _).failsWithin
    · intro c e c' h
      obtain hfail | ⟨⟨j, session⟩, c₁, hok, hrest⟩ := bind_eq_error h
      · exact dispatch_failsWithin (fun s => run_failsWithin s now app job true) hfail
      · obtain ⟨session, rfl⟩ := Option.isSome_iff_exists.1
          (answers_dispatch (fun s => Dispatch.answers_run s (cluster now) app job true) hok)
        cases hrest
  · exact (dispatch_failsWithin fun s => run_failsWithin s now app job false).map _

theorem leaves_jobLog (r : Request) (app job : String) :
    Leaves Untouched (jobLog (cluster now) r app job) := by
  refine .bind (leaves_followFlag r) fun follow => ?_
  refine .bind (leaves_dispatch fun s => leaves_openLog s now app job follow) fun session => ?_
  split
  · exact .pure _
  · exact .throw _

theorem setAppRelease_failsWithin (r : Request) (app : String) :
    FailsWithin Untouched (setAppRelease m r app : Act MemoryCluster _) := by
  refine .bind (leaves_readJson _ r) fun release => ?_
  split
  · exact (Leaves.throw _).failsWithin
  · exact (change_failsWithin _).map _

theorem putFormation_failsWithin (r : Request) (app release : String) :
    FailsWithin Untouched (putFormation m r app release : Act MemoryCluster _) :=
  .bind (leaves_readJson _ r) fun _ => (changeFed_failsWithin _).map _

/-- To get anything changes nothing. -/
theorem leaves_answer {route : Route} (hmethod : r.method = "GET")
    (hroute : "GET" ∈ route.methods) :
    Leaves Untouched (answer (cluster now) m r route) := by
  have hpost : ¬ r.method = "POST" := by rw [hmethod]; decide
  have hpatch : ¬ r.method = "PATCH" := by rw [hmethod]; decide
  have hdelete : ¬ r.method = "DELETE" := by rw [hmethod]; decide
  have hput : ¬ r.method = "PUT" := by rw [hmethod]; decide
  cases route with
  | apps =>
    rw [answer, if_neg hpost]
    exact .bind leaves_get fun _ => .pure _
  | app app =>
    rw [answer, if_neg hpatch, if_neg hdelete]
    exact .bind leaves_get fun _ => .bind (leaves_found _ _) fun _ => .pure _
  | appRelease app =>
    rw [answer, if_neg hput]
    exact .bind (leaves_look _) fun _ => .bind (leaves_found _ _) fun _ => .pure _
  | formations app => exact .bind (leaves_look _) fun _ => .pure _
  | formation app release =>
    rw [answer, if_neg hput, if_neg hdelete]
    exact .bind leaves_get fun _ => .bind (leaves_found _ _) fun _ => .pure _
  | jobs app =>
    rw [answer, if_neg hpost]
    exact .bind (leaves_dispatch fun s => leaves_listJobs s now app) fun _ => .pure _
  | job app job => simp [Route.methods] at hroute
  | jobLog app job => exact leaves_jobLog r app job
  | releases => simp [Route.methods] at hroute
  | release id => exact .bind leaves_get fun _ => .bind (leaves_found _ _) fun _ => .pure _
  | artifacts => simp [Route.methods] at hroute
  | artifact id => exact .bind leaves_get fun _ => .bind (leaves_found _ _) fun _ => .pure _
  | changes => exact leaves_subscribe r

/-- Each route either looks alone, or fails before it has changed anything. -/
theorem answer_failsWithin (route : Route) :
    FailsWithin Untouched (answer (cluster now) m r route) := by
  cases route with
  | apps =>
    rw [answer]
    split
    · exact .bind (leaves_readJson _ r) fun _ => (change_failsWithin _).map _
    · exact (Leaves.bind leaves_get fun _ => .pure _).failsWithin
  | app app =>
    rw [answer]
    split
    · exact .bind (leaves_readJson _ r) fun _ => (change_failsWithin _).map _
    split
    · exact failsWithin_unless (change_failsWithin _) (untouched_of_deleteApp app) _ _
    · exact (Leaves.bind leaves_get fun _ => .bind (leaves_found _ _) fun _ => .pure _).failsWithin
  | appRelease app =>
    rw [answer]
    split
    · exact setAppRelease_failsWithin r app
    · exact (Leaves.bind (leaves_look _) fun _ => .bind (leaves_found _ _) fun _ =>
        .pure _).failsWithin
  | formations app => exact (Leaves.bind (leaves_look _) fun _ => .pure _).failsWithin
  | formation app release =>
    rw [answer]
    split
    · exact putFormation_failsWithin r app release
    split
    · exact failsWithin_unless (changeFed_failsWithin _)
        (untouched_of_deleteFormation app release) _ _
    · exact (Leaves.bind leaves_get fun _ => .bind (leaves_found _ _) fun _ => .pure _).failsWithin
  | jobs app =>
    rw [answer]
    split
    · exact runJob_failsWithin r app
    · exact (Leaves.bind (leaves_dispatch fun s => leaves_listJobs s now app) fun _ =>
        .pure _).failsWithin
  | job app job => exact (dispatch_failsWithin fun s => kill_failsWithin s now app job).map _
  | jobLog app job => exact (leaves_jobLog r app job).failsWithin
  | releases => exact .bind (leaves_readJson _ r) fun _ => (change_failsWithin _).map _
  | release id =>
    exact (Leaves.bind leaves_get fun _ => .bind (leaves_found _ _) fun _ => .pure _).failsWithin
  | artifacts => exact .bind (leaves_readJson _ r) fun _ => (change_failsWithin _).map _
  | artifact id =>
    exact (Leaves.bind leaves_get fun _ => .bind (leaves_found _ _) fun _ => .pure _).failsWithin
  | changes => exact (leaves_subscribe r).failsWithin

/-! ## Responses -/

/-- A response that tells of no error. -/
def Succeeds (response : Response MemoryCluster) : Prop := response.status < 400

theorem answers_json {β : Type} {x : Act MemoryCluster β} (codec : Codec α) (f : β → α) :
    Answers Succeeds (x >>= fun b => return json codec (f b)) :=
  .bind fun _ => .pure (by decide : 200 < 400)

theorem answers_done {β : Type} {x : Act MemoryCluster β} :
    Answers Succeeds (x >>= fun _ => return done) :=
  .bind fun _ => .pure (by decide : 200 < 400)

theorem answers_unless {x : Act MemoryCluster Bool} {refusal : Refusal} :
    Answers Succeeds (do if ← x then return done else throw refusal) := by
  refine .bind fun found => ?_
  split
  · exact .pure (by decide : 200 < 400)
  · exact .throw _

theorem answers_runJob (r : Request) (app : String) :
    Answers Succeeds (runJob (cluster now) r app) := by
  refine .bind fun job => ?_
  split
  · split
    · exact .throw _
    · refine .bind fun out => ?_
      split
      · exact .pure (by decide : 101 < 400)
      · exact .throw _
  · exact .bind fun _ => .pure (by decide : 200 < 400)

theorem answers_jobLog (r : Request) (app job : String) :
    Answers Succeeds (jobLog (cluster now) r app job) := by
  refine .bind fun follow => .bind fun session => ?_
  split
  · exact .pure (by decide : 200 < 400)
  · exact .throw _

theorem answers_subscribe (r : Request) : Answers Succeeds (subscribe r : Act MemoryCluster _) := by
  refine .bind fun since => .bind fun c => ?_
  split
  · exact .throw _
  · exact .bind fun _ => .pure (by decide : 200 < 400)

theorem answers_setAppRelease (r : Request) (app : String) :
    Answers Succeeds (setAppRelease m r app : Act MemoryCluster _) := by
  refine .bind fun release => ?_
  split
  · exact .throw _
  · exact answers_done

/-- What a route answers without a refusal tells of no error. -/
theorem answers_answer (route : Route) : Answers Succeeds (answer (cluster now) m r route) := by
  cases route with
  | apps =>
    rw [answer]
    split
    · exact .bind fun _ => answers_json _ id
    · exact answers_json _ fun c : Controller MemoryCluster => c.store.listApps
  | app app =>
    rw [answer]
    split
    · exact .bind fun _ => answers_json _ id
    split
    · exact answers_unless
    · exact .bind fun _ => answers_json _ id
  | appRelease app =>
    rw [answer]
    split
    · exact answers_setAppRelease r app
    · exact .bind fun _ => answers_json _ id
  | formations app => exact answers_json _ id
  | formation app release =>
    rw [answer]
    split
    · exact .bind fun _ => answers_json _ id
    split
    · exact answers_unless
    · exact .bind fun _ => answers_json _ id
  | jobs app =>
    rw [answer]
    split
    · exact answers_runJob r app
    · exact answers_json _ id
  | job app job => exact answers_done
  | jobLog app job => exact answers_jobLog r app job
  | releases => exact .bind fun _ => answers_json _ id
  | release id => exact .bind fun _ => answers_json _ fun release => release
  | artifacts => exact .bind fun _ => answers_json _ id
  | artifact id => exact .bind fun _ => answers_json _ fun artifact => artifact
  | changes => exact answers_subscribe r

theorem Refusal.response_body {σ : Type} (refusal : Refusal) :
    ∃ bytes, (refusal.response : Response σ).body = .bytes bytes := by
  cases refusal <;> exact ⟨_, rfl⟩

theorem Route.methods_of_decode? {route route' : Route} (h : route.decode? = some route') :
    route'.methods = route.methods := by
  cases route with
  | apps => cases h; rfl
  | app a => obtain ⟨_, -, rfl⟩ := Option.map_eq_some_iff.1 h; rfl
  | appRelease a => obtain ⟨_, -, rfl⟩ := Option.map_eq_some_iff.1 h; rfl
  | formations a => obtain ⟨_, -, rfl⟩ := Option.map_eq_some_iff.1 h; rfl
  | formation a release =>
    obtain ⟨_, -, h⟩ := Option.bind_eq_some_iff.1 h
    obtain ⟨_, -, ⟨⟩⟩ := Option.bind_eq_some_iff.1 h
    rfl
  | jobs a => obtain ⟨_, -, rfl⟩ := Option.map_eq_some_iff.1 h; rfl
  | job a job =>
    obtain ⟨_, -, h⟩ := Option.bind_eq_some_iff.1 h
    obtain ⟨_, -, ⟨⟩⟩ := Option.bind_eq_some_iff.1 h
    rfl
  | jobLog a job =>
    obtain ⟨_, -, h⟩ := Option.bind_eq_some_iff.1 h
    obtain ⟨_, -, ⟨⟩⟩ := Option.bind_eq_some_iff.1 h
    rfl
  | releases => cases h; rfl
  | release id => obtain ⟨_, -, rfl⟩ := Option.map_eq_some_iff.1 h; rfl
  | artifacts => cases h; rfl
  | artifact id => obtain ⟨_, -, rfl⟩ := Option.map_eq_some_iff.1 h; rfl
  | changes => cases h; rfl

/-- A request is answered without anything being looked at, or by its route, with a
method that goes with it. -/
theorem route_cases (cluster : Cluster MemoryCluster) (m : Moment) (r : Request) :
    (∃ status, route cluster m r = return { status }) ∨
    (∃ refusal, route cluster m r = throw refusal) ∨
      ∃ rt : Route, route cluster m r = answer cluster m r rt ∧
        (r.method = "GET" → "GET" ∈ rt.methods) := by
  unfold route
  split
  · exact .inl ⟨404, rfl⟩
  split
  · exact .inl ⟨405, rfl⟩
  split
  · exact .inr (.inl ⟨_, rfl⟩)
  · next rt _ hallows _ rt' hdecode =>
    refine .inr (.inr ⟨rt', rfl, fun hmethod => ?_⟩)
    rw [Route.methods_of_decode? hdecode]
    simpa [Route.allows, hmethod] using hallows

section Handle
variable {cluster : Cluster MemoryCluster} {c c' : Controller MemoryCluster}

theorem handle_of_ok {response : Response MemoryCluster}
    (h : route cluster m r c = (.ok response, c')) :
    (handle cluster m r c).1.status = response.status ∧
      (r.method ≠ "HEAD" ∨ (∃ bytes, response.body = .bytes bytes) →
        (handle cluster m r c).2 = c') := by
  have hrun : (route cluster m r).run c = (.ok response, c') := h
  unfold handle
  rw [hrun]
  dsimp only
  split
  · next hhead =>
    refine ⟨rfl, ?_⟩
    rintro (hnot | ⟨bytes, hbytes⟩)
    · exact absurd hhead hnot
    · rw [hbytes]
      rfl
  · exact ⟨rfl, fun _ => rfl⟩

theorem handle_of_error {refusal : Refusal} (h : route cluster m r c = (.error refusal, c')) :
    (handle cluster m r c).2 = c' := by
  have hrun : (route cluster m r).run c = (.error refusal, c') := h
  obtain ⟨bytes, hbytes⟩ := refusal.response_body
  unfold handle
  rw [hrun]
  dsimp only
  split
  · rw [hbytes]
    rfl
  · rfl

end Handle

theorem untouched_handle (now : Instant) (m : Moment) (r : Request) (c : Controller MemoryCluster)
    (h : r.method = "GET" ∨ 400 ≤ (handle (cluster now) m r c).1.status) :
    Untouched c (handle (cluster now) m r c).2 := by
  obtain ⟨status, hroute⟩ | ⟨refusal, hroute⟩ | ⟨rt, hroute, hmethods⟩ :=
    route_cases (cluster now) m r
  · have hok : route (cluster now) m r c = (.ok { status }, c) := by rw [hroute]; rfl
    rw [(handle_of_ok hok).2 (.inr ⟨[], rfl⟩)]
    exact untouched_refl c
  · have herror : route (cluster now) m r c = (.error refusal, c) := by rw [hroute]; rfl
    rw [handle_of_error herror]
    exact untouched_refl c
  rcases hrun : answer (cluster now) m r rt c with ⟨refusal | response, c'⟩
  · have herror : route (cluster now) m r c = (.error refusal, c') := by rw [hroute, hrun]
    rw [handle_of_error herror]
    exact answer_failsWithin rt hrun
  · have hok : route (cluster now) m r c = (.ok response, c') := by rw [hroute, hrun]
    obtain ⟨hstatus, hleft⟩ := handle_of_ok hok
    have hbelow : response.status < 400 := answers_answer rt hrun
    have hget : r.method = "GET" := h.resolve_right (by omega)
    have hhead : r.method ≠ "HEAD" := by rw [hget]; decide
    have hleaves : Untouched c (answer (cluster now) m r rt c).2 :=
      leaves_answer hget (hmethods hget) c
    rw [hrun] at hleaves
    rw [hleft (.inl hhead)]
    exact hleaves

/-- A request that gets, and one that is answered by an error, changes nothing: the tables of
the store and the version of the last formation, each host's jobs, the number of its next one
and the jobs it was asked to stop, and what the subscriptions that there were have in their
queues, are as before. -/
theorem get_or_error_changes_nothing (now : Instant) (m : Moment) (r : Request)
    {c c' : Controller MemoryCluster} (hc : c.world.Keyed) {response : Response MemoryCluster}
    (hhandle : handle (cluster now) m r c = (response, c'))
    (h : r.method = "GET" ∨ 400 ≤ response.status) :
    c'.store = c.store ∧
    (∀ k,
      (c'.world.hosts.get? k).map (fun host => (host.id, host.jobs, host.nextJob, host.stopped)) =
      (c.world.hosts.get? k).map fun host => (host.id, host.jobs, host.nextJob, host.stopped)) ∧
    (c.feed.subscriptions.map fun sub => (sub.id, sub.queue)) <+:
      c'.feed.subscriptions.map fun sub => (sub.id, sub.queue) := by
  have hsame := untouched_handle now m r c (by rwa [hhandle])
  rw [hhandle] at hsame
  exact ⟨hsame.store, (hsame.rosters hc).2, hsame.queues⟩

/-- A controller with one app, one job on one host, and one subscription. -/
def sampleController : Controller MemoryCluster where
  store := Dispatch.sampleStore
  feed := { Feed.ofBuffer 1 with nextId := 1, subscriptions := [{ id := 0 }] }
  world := (({} : MemoryCluster).addHost "host0").putHost
    { id := "host0", incarnation := 0, jobs := [⟨{ id := "job0" }, .running, none⟩] }

/-- The log of the job is opened, which the host takes note of, and the stop of a job
on no host is refused. -/
theorem get_or_error_changes_nothing_of_log :
    let log : Request := { method := "GET", path := "/apps/web/jobs/host0-job0/log" }
    let stop : Request := { method := "DELETE", path := "/apps/web/jobs/host1-job0" }
    let answer := fun r => handle (cluster .epoch) ⟨.epoch, ""⟩ r sampleController
    (answer log).1.status = 200 ∧ (answer log).2.world.asked = [("host0", [], ["job0"], ["job0"])] ∧
      (answer stop).1.status = 404 ∧
      ∀ r ∈ [log, stop], (answer r).2.store = sampleController.store ∧
        (∀ k, ((answer r).2.world.hosts.get? k).map
            (fun host => (host.id, host.jobs, host.nextJob, host.stopped)) =
          (sampleController.world.hosts.get? k).map fun host =>
            (host.id, host.jobs, host.nextJob, host.stopped)) ∧
        (sampleController.feed.subscriptions.map fun sub => (sub.id, sub.queue)) <+:
          (answer r).2.feed.subscriptions.map fun sub => (sub.id, sub.queue) := by
  intro log stop answer
  have hstop : (answer stop).1.status = 404 := by decide +kernel
  have hc : sampleController.world.Keyed := (keyed_empty.addHost "host0").putHost _
  refine ⟨by decide +kernel, by decide +kernel, hstop, fun r hr => ?_⟩
  rcases List.mem_pair.1 hr with rfl | rfl
  · exact get_or_error_changes_nothing .epoch ⟨.epoch, ""⟩ log hc rfl (.inl rfl)
  · exact get_or_error_changes_nothing .epoch ⟨.epoch, ""⟩ stop hc
      rfl (.inr (by rw [← hstop]; decide))

end Api
end ControlPlane
