import ControlPlane.Proofs.Api.Untouched
import ControlPlane.Proofs.Text.Split

/-! # Accept headers of several lines

The lines of a header may be joined into one with commas between them, and what they ask for is the
same. The choice between an attached run and a detached one keeps to that, for it asks all lines. A
log's form is chosen by the first line alone, so it is the same if the first line names events or no
line does. The answer to a request depends on its Accept header only through these two.
-/
namespace ControlPlane

namespace Accept

theorem names_iff {value media : String} : names value media = true ↔
    ∃ part ∈ Text.splitOn ',' value.toList,
      String.ofList (Text.trim (part.takeWhile (· != ';'))) = media := by
  rw [names, List.contains_iff_mem, mediaTypes, List.mem_map]

/-- A list that was joined names what one of its lists does. -/
theorem names_join {media : String} (h : media ≠ "") (values : List String) :
    names (",".intercalate values) media = values.any (names · media) := by
  rw [Bool.eq_iff_iff, List.any_eq_true, names_iff, String.toList_intercalate]
  cases values with
  | nil =>
    have hempty : ¬ ∃ part ∈ Text.splitOn ',' [],
        String.ofList (Text.trim (part.takeWhile (· != ';'))) = media := by
      rintro ⟨part, hpart, hmedia⟩
      obtain rfl := List.mem_singleton.1 hpart
      exact h hmedia.symm
    simpa using hempty
  | cons value values =>
    have hcomma : ",".toList = [','] := rfl
    rw [hcomma, Text.splitOn_intercalate_eq_flatMap (by simp)]
    simp only [List.mem_flatMap, List.mem_map, names_iff]
    constructor
    · rintro ⟨part, ⟨_, ⟨v, hv, rfl⟩, hpart⟩, hmedia⟩
      exact ⟨v, hv, part, hpart, hmedia⟩
    · rintro ⟨v, hv, part, hpart, hmedia⟩
      exact ⟨part, ⟨_, ⟨v, hv, rfl⟩, hpart⟩, hmedia⟩

end Accept

namespace Http.Request
variable {r : Request} {name : String}

/-- The values of a header's lines, in their order. -/
def values (r : Request) (name : String) : List String := (r.headers.filter (·.1 == name)).map (·.2)

/-- The request with one line in place of those of its Accept header. -/
def joinAccept (r : Request) : Request :=
  { r with headers :=
    r.headers.filter (·.1 != "accept") ++ [("accept", ",".intercalate (r.values "accept"))] }

/-- Plain text on all lines of the Accept header. -/
def IsPlainAccept (r : Request) : Prop :=
  ∀ value ∈ r.values "accept", value.toList.all isVisible = true

/-- If any line of the Accept header names a media type, then the first one does. -/
def FirstNames (r : Request) (media : String) : Prop :=
  (r.values "accept").any (Accept.names · media) = true →
    (r.values "accept").head?.any (Accept.names · media) = true

instance : Decidable r.IsPlainAccept :=
  inferInstanceAs (Decidable (∀ value ∈ r.values "accept", _ = _))

instance (media : String) : Decidable (r.FirstNames media) := inferInstanceAs (Decidable (_ → _))

theorem headerLines_eq (r : Request) (name : String) :
    r.headerLines name = (r.values name).filter (·.toList.all isVisible) := by
  rw [headerLines, values, List.filter_map, List.filter_filter]
  congr 2
  funext line
  exact Bool.and_comm _ _

theorem firstLine_eq (r : Request) (name : String) :
    r.firstLine name = (r.values name).head?.filter (·.toList.all isVisible) := by
  rw [firstLine, values, List.head?_map, List.head?_filter]

theorem headerLines_accept (h : r.IsPlainAccept) : r.headerLines "accept" = r.values "accept" := by
  rw [headerLines_eq, List.filter_eq_self.2 h]

theorem firstLine_accept (h : r.IsPlainAccept) :
    r.firstLine "accept" = (r.values "accept").head? := by
  rw [firstLine_eq]
  cases hvalues : r.values "accept" with
  | nil => rfl
  | cons value values => exact Option.filter_some_pos (h value (hvalues ▸ List.mem_cons_self))

theorem values_joinAccept (r : Request) :
    r.joinAccept.values "accept" = [",".intercalate (r.values "accept")] := by
  simp [joinAccept, values, List.filter_filter]

theorem values_joinAccept_of_ne (h : name ≠ "accept") :
    r.joinAccept.values name = r.values name := by
  have hkept :
      ∀ line ∈ r.headers, ((line.1 == name) && (line.1 != "accept")) = (line.1 == name) := by
    intro line _
    by_cases hname : line.1 = name <;> simp [hname, h]
  simp [joinAccept, values, List.filter_filter, List.filter_congr hkept, h.symm]

theorem isPlainAccept_joinAccept (h : r.IsPlainAccept) : r.joinAccept.IsPlainAccept := by
  intro value hvalue
  rw [values_joinAccept] at hvalue
  obtain rfl := List.mem_singleton.1 hvalue
  refine List.all_eq_true.2 fun c hc => ?_
  rw [String.toList_intercalate] at hc
  obtain rfl | ⟨part, hpart, hc⟩ := Text.of_mem_intercalate hc
  · decide
  · obtain ⟨value, hvalue, rfl⟩ := List.mem_map.1 hpart
    exact List.all_eq_true.1 (h value hvalue) c hc

end Http.Request

namespace Api
open Http Json
variable {σ α : Type} {cluster : Cluster σ} {m : Moment} {r r' : Request}

/-! ## What answers read of a request -/

/-- Two requests that an answer can tell apart by the form of a log alone. -/
structure Alike (r r' : Request) : Prop where
  method : r'.method = r.method
  path : r'.path = r.path
  query : r'.query = r.query
  body : r'.body = r.body
  canUpgrade : r'.canUpgrade = r.canUpgrade
  hasJson : r'.hasJson = r.hasJson
  wantsAttach : wantsAttach r' = wantsAttach r

namespace Alike

theorem readJson (h : Alike r r') (codec : Codec α) :
    readJson (σ := σ) codec r' = readJson codec r := by
  rw [Api.readJson, Api.readJson, h.hasJson, h.body]

theorem readJob (h : Alike r r') : readJob (σ := σ) r' = readJob r := by
  rw [Api.readJob, Api.readJob, h.body]

theorem runJob (h : Alike r r') (app : String) : runJob cluster r' app = runJob cluster r app := by
  rw [Api.runJob, Api.runJob, h.readJob, h.wantsAttach, h.canUpgrade]

theorem occurrence (h : Alike r r') (name : String) : occurrence r' name = occurrence r name := by
  rw [Api.occurrence, Api.occurrence, h.query]

theorem subscribe (h : Alike r r') : subscribe (σ := σ) r' = subscribe r := by
  rw [Api.subscribe, Api.subscribe, sinceInstant, sinceInstant, h.occurrence]

theorem jobLog (h : Alike r r')
    (hformat : LogFormat.negotiate (r'.firstLine "accept") =
      LogFormat.negotiate (r.firstLine "accept"))
    (app job : String) :
    jobLog cluster r' app job = jobLog cluster r app job := by
  rw [Api.jobLog, Api.jobLog, followFlag, followFlag, h.occurrence, hformat]

/-- The answers to all routes but one are the same, and the one to that of a log
is where its form is. -/
theorem answer (h : Alike r r') {route : Route}
    (hlog : LogFormat.negotiate (r'.firstLine "accept") =
      LogFormat.negotiate (r.firstLine "accept") ∨
      ∀ app job, route ≠ .jobLog app job) : answer cluster m r' route =
        answer cluster m r route := by
  cases route with
  | jobLog app job => exact h.jobLog (hlog.resolve_right fun hne => hne app job rfl) app job
  | jobs app => rw [Api.answer, Api.answer, h.method, h.runJob]
  | changes => exact h.subscribe
  | appRelease app =>
    rw [Api.answer, Api.answer, setAppRelease, setAppRelease, h.method, h.readJson]
  | formation app release =>
    rw [Api.answer, Api.answer, putFormation, putFormation, h.method, h.readJson]
  | apps | app | releases | artifacts =>
    rw [Api.answer, Api.answer]; simp only [h.method, h.readJson]
  | formations | job | release | artifact => rfl

end Alike

theorem Route.jobLog_of_decode? {written : Route} {app job : String}
    (h : written.decode? = some (.jobLog app job)) :
    ∃ app job, written = .jobLog app job := by
  cases written with
  | jobLog app job => exact ⟨app, job, rfl⟩
  | apps | releases | artifacts | changes => cases h
  | app | appRelease | formations | jobs | release | artifact => simp [Route.decode?] at h
  | formation | job => simp [Route.decode?, Option.bind_eq_some_iff] at h

theorem Alike.handle (h : Alike r r')
    (hlog : LogFormat.negotiate (r'.firstLine "accept") =
      LogFormat.negotiate (r.firstLine "accept") ∨
      ∀ app job, Route.ofPath? r.path ≠ some (.jobLog app job)) : handle cluster m r' =
        handle cluster m r := by
  have hroute : route cluster m r' = route cluster m r := by
    rw [route, route, h.path, h.method]
    cases hpath : Route.ofPath? r.path with
    | none => rfl
    | some written =>
      cases hdecode : written.decode? with
      | none => simp only [hdecode]
      | some found =>
        simp only [hdecode]
        rw [h.answer]
        refine hlog.imp_right fun hother app job heq => ?_
        obtain ⟨app, job, rfl⟩ := Route.jobLog_of_decode? (heq ▸ hdecode)
        exact hother app job hpath
  unfold Api.handle
  rw [hroute, h.method]

/-! ## Joined lines -/

theorem wantsAttach_joinAccept (h : r.IsPlainAccept) :
    wantsAttach r.joinAccept = wantsAttach r := by
  rw [wantsAttach, wantsAttach, Request.headerLines_accept (Request.isPlainAccept_joinAccept h),
    Request.headerLines_accept h, Request.values_joinAccept, List.any_cons, List.any_nil,
    Bool.or_false, Accept.names_join (by decide)]

theorem alike_joinAccept (h : r.IsPlainAccept) : Alike r r.joinAccept where
  method := rfl
  path := rfl
  query := rfl
  body := rfl
  canUpgrade := rfl
  hasJson := by
    rw [Request.hasJson, Request.hasJson, Request.firstLine_eq, Request.firstLine_eq,
      Request.values_joinAccept_of_ne (by decide)]
  wantsAttach := wantsAttach_joinAccept h

/-- One line chooses events if any of the lines that were joined names them. -/
theorem negotiate_joinAccept_iff (h : r.IsPlainAccept) :
    LogFormat.negotiate (r.joinAccept.firstLine "accept") =
      LogFormat.negotiate (r.firstLine "accept") ↔
      r.FirstNames LogFormat.eventStreamType := by
  rw [Request.firstLine_accept (Request.isPlainAccept_joinAccept h), Request.firstLine_accept h,
    Request.values_joinAccept, List.head?_cons, LogFormat.negotiate, LogFormat.negotiate,
    Option.any_some, Accept.names_join (by decide), Request.FirstNames]
  cases hvalues : r.values "accept" with
  | nil => simp
  | cons value values =>
    cases hfirst : Accept.names value LogFormat.eventStreamType <;> simp [hfirst]

/-- Where the values of the Accept header are plain text, an attached run and a detached one are
chosen between as if they were on one line, and the form of a log is if and only if the first value
names events or none does. All else of a request's answer is the same too. -/
theorem joinAccept_answered (h : r.IsPlainAccept) : wantsAttach r.joinAccept = wantsAttach r ∧
    (LogFormat.negotiate (r.joinAccept.firstLine "accept") =
      LogFormat.negotiate (r.firstLine "accept") ↔
      r.FirstNames LogFormat.eventStreamType) ∧
    ∀ {σ : Type} (cluster : Cluster σ) (m : Moment),
      (r.FirstNames LogFormat.eventStreamType ∨
        ∀ app job, Route.ofPath? r.path ≠ some (.jobLog app job)) →
        handle cluster m r.joinAccept = handle cluster m r := by
  have hformat := negotiate_joinAccept_iff h
  exact ⟨wantsAttach_joinAccept h, hformat,
    fun cluster m hlog => (alike_joinAccept h).handle (hlog.imp_left hformat.2)⟩

/-- A run is attached by its second line, and a log is in events by its first. -/
theorem joinAccept_answered_of_two_lines :
    let run : Request := {
      method := "POST", path := "/apps/web/jobs"
      headers :=
        [("accept", "application/json"), ("host", "a"),
          ("accept", "text/plain, application/vnd.flynn.attach;q=1")] }
    let log : Request := {
      method := "GET", path := "/apps/web/jobs/host0-job0/log"
      headers := [("accept", "text/event-stream"), ("accept", "text/plain")] }
    run.IsPlainAccept ∧ wantsAttach run = true ∧ wantsAttach run.joinAccept = true ∧
      handle (MemoryCluster.cluster .epoch) ⟨.epoch, ""⟩ run.joinAccept =
        handle (MemoryCluster.cluster .epoch) ⟨.epoch, ""⟩ run ∧
      log.IsPlainAccept ∧ LogFormat.negotiate (log.joinAccept.firstLine "accept") = .eventStream ∧
      handle (MemoryCluster.cluster .epoch) ⟨.epoch, ""⟩ log.joinAccept =
        handle (MemoryCluster.cluster .epoch) ⟨.epoch, ""⟩ log := by
  intro run log
  have hrun : run.IsPlainAccept := by decide +kernel
  have hlog : log.IsPlainAccept := by decide +kernel
  have hattach : wantsAttach run = true := by decide +kernel
  have hevents : LogFormat.negotiate (log.firstLine "accept") = .eventStream := by decide +kernel
  have hnone : run.FirstNames LogFormat.eventStreamType := by decide +kernel
  have hfirst : log.FirstNames LogFormat.eventStreamType := by decide +kernel
  obtain ⟨hsame, -, hhandle⟩ := joinAccept_answered hrun
  obtain ⟨-, hformat, hhandle'⟩ := joinAccept_answered hlog
  exact ⟨hrun, hattach, hsame.trans hattach, hhandle _ _ (.inl hnone), hlog,
    (hformat.2 hfirst).trans hevents, hhandle' _ _ (.inl hfirst)⟩

/-- Events are named by the second line, which nobody asks: the log is raw, and in events if
the lines are joined. -/
theorem second_line_unread :
    let log : Request := {
      method := "GET", path := "/apps/web/jobs/host0-job0/log"
      headers := [("accept", "application/json"), ("accept", "text/event-stream")] }
    let answer := fun r => (handle (MemoryCluster.cluster .epoch) ⟨.epoch, ""⟩ r sampleController).1
    log.IsPlainAccept ∧
      (answer log).status = 200 ∧
      (answer log).headers.lookup "content-type" = some "application/octet-stream" ∧
      (answer log.joinAccept).status = 200 ∧
      (answer log.joinAccept).headers.lookup "content-type" = some "text/event-stream" := by
  decide +kernel

end Api
end ControlPlane
