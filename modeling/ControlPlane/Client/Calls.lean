import ControlPlane.Api.ChangeStream
import ControlPlane.Client.Basic

/-! # What a client asks of a controller

Names and identifiers are put into the path as they are.
-/
namespace ControlPlane.Client
open Json Http
variable {σ : Type}

/-! ## Targets -/

def appTarget (app : String) : String := "/apps/" ++ app
def appReleaseTarget (app : String) : String := appTarget app ++ "/release"
def formationsTarget (app : String) : String := appTarget app ++ "/formations"
def formationTarget (app release : String) : String := formationsTarget app ++ "/" ++ release
def jobsTarget (app : String) : String := appTarget app ++ "/jobs"
def jobTarget (app job : String) : String := jobsTarget app ++ "/" ++ job

def logTarget (app job : String) (follow : Bool) : String :=
  jobTarget app job ++ "/log?follow=" ++ (if follow then "true" else "false")

def changesTarget (since : Instant) : String := "/formations?since=" ++ Rfc3339.renderMicros since

/-! ## Apps, releases and artifacts -/

def createApp (c : Client σ) (app : App) : ClientAct σ App :=
  c.sendJson "POST" "/apps" App.codec app App.codec

def getApp (c : Client σ) (app : String) : ClientAct σ App := c.get App.codec (appTarget app)

def listApps (c : Client σ) : ClientAct σ (List App) := c.get App.codec.list "/apps"

def deleteApp (c : Client σ) (app : String) : ClientAct σ Unit := c.delete (appTarget app)

def setAppRelease (c : Client σ) (app release : String) : ClientAct σ Unit := do
  let _ ← c.call "PUT" (appReleaseTarget app) [jsonHeader]
    (render (.object [("id", .string release)]))

def getAppRelease (c : Client σ) (app : String) : ClientAct σ Release :=
  c.get Release.codec (appReleaseTarget app)

def createRelease (c : Client σ) (release : Release) : ClientAct σ Release :=
  c.sendJson "POST" "/releases" Release.codec release Release.codec

def getRelease (c : Client σ) (id : String) : ClientAct σ Release :=
  c.get Release.codec ("/releases/" ++ id)

def createArtifact (c : Client σ) (artifact : Artifact) : ClientAct σ Artifact :=
  c.sendJson "POST" "/artifacts" Artifact.codec artifact Artifact.codec

def getArtifact (c : Client σ) (id : String) : ClientAct σ Artifact :=
  c.get Artifact.codec ("/artifacts/" ++ id)

/-! ## Formations -/

/-- Nothing is sent for a formation that lacks one of its identifiers. -/
def putFormation (c : Client σ) (formation : Formation) : ClientAct σ Formation :=
  if formation.app.isEmpty || formation.release.isEmpty then
    throw (.invalid "missing app id and/or release id")
  else
    c.sendJson "PUT" (formationTarget formation.app formation.release) Formation.codec formation
      Formation.codec

def getFormation (c : Client σ) (app release : String) : ClientAct σ Formation :=
  c.get Formation.codec (formationTarget app release)

def listFormations (c : Client σ) (app : String) : ClientAct σ (List Formation) :=
  c.get Formation.codec.list (formationsTarget app)

def deleteFormation (c : Client σ) (app release : String) : ClientAct σ Unit :=
  c.delete (formationTarget app release)

/-- The formation changes on their way to a client. -/
abbrev Changes (σ : Type) := Incoming σ EventStream.Pending Event EventStream.LineError

/-- The changes since an instant, the epoch where there is none. -/
def streamFormations (c : Client σ) (since : Option Instant) : ClientAct σ (Changes σ) := do
  let target := changesTarget (since.getD .epoch)
  let reply ← c.call "GET" target [("accept", LogFormat.eventStreamType)] []
  return .ofReply EventStream.decoder reply

/-- What an event, or the failure of the stream, means to a client; events it does
not know are left out. -/
def readChange : Except EventStream.LineError Event → Option (Except ClientError FeedEvent)
  | .error _ => some (.error (.undecodable "stream did not contain valid UTF-8"))
  | .ok event =>
    match ChangeStream.read event with
    | .ok (some change) => some (.ok change)
    | .ok none => none
    | .error _ => some (.error (.undecodable "not a formation"))

/-- Takes the changes that have come, and tells whether there will be no more. -/
def takeChanges (changes : Changes σ) :
    StateM σ (List (Except ClientError FeedEvent) × Bool × Changes σ) := do
  let (items, isOver, changes) ← changes.take
  return (items.filterMap readChange, isOver, changes)

/-! ## Jobs -/

def listJobs (c : Client σ) (app : String) : ClientAct σ (List Job) :=
  c.get Job.codec.list (jobsTarget app)

def runJob (c : Client σ) (app : String) (job : NewJob) : ClientAct σ Job :=
  c.sendJson "POST" (jobsTarget app) NewJob.codec job Job.codec

def attachType : String := "application/vnd.flynn.attach"
def attachProtocol : String := "flotilla-attach"

/-- Runs a job and goes on to use the connection as its pipe. -/
def runJobAttached (c : Client σ) (app : String) (job : NewJob) : ClientAct σ Peer := do
  let target := jobsTarget app
  let reply ← c.send "POST" target
    [jsonHeader, ("accept", attachType), ("connection", "upgrade"), ("upgrade", attachProtocol)]
    (NewJob.codec.encode job)
  match (← c.check "POST" target 101 reply).peer with
  | some peer => return peer
  | none => throw (.http "connection was not upgraded")

def killJob (c : Client σ) (app job : String) : ClientAct σ Unit := c.delete (jobTarget app job)

/-- The raw output of a job: what has come of it, and what is still to come. -/
def jobLog (c : Client σ) (app job : String) (follow : Bool) :
    ClientAct σ (Bytes × Option (Tap σ)) := do
  let reply ← c.call "GET" (logTarget app job follow) [] []
  return (reply.body, reply.rest)

end ControlPlane.Client
