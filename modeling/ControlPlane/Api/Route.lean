import ControlPlane.Http.Percent

/-! # Routes: what a path names -/
namespace ControlPlane.Api

inductive Route
  | apps
  | app (app : String)
  | appRelease (app : String)
  | formations (app : String)
  | formation (app release : String)
  | jobs (app : String)
  | job (app job : String)
  | jobLog (app job : String)
  | releases
  | release (id : String)
  | artifacts
  | artifact (id : String)
  | changes
  deriving DecidableEq, Repr

namespace Route

/-- The parameter at the end of a path is not empty. -/
def last (segment : String) (route : String → Route) : Option Route :=
  if segment.isEmpty then none else some (route segment)

def ofSegments? : List String → Option Route
  | ["", "apps"] => some apps
  | ["", "apps", a] => last a app
  | ["", "apps", a, "release"] => some (appRelease a)
  | ["", "apps", a, "formations"] => some (formations a)
  | ["", "apps", a, "formations", r] => last r (formation a)
  | ["", "apps", a, "jobs"] => some (jobs a)
  | ["", "apps", a, "jobs", j] => last j (job a)
  | ["", "apps", a, "jobs", j, "log"] => some (jobLog a j)
  | ["", "releases"] => some releases
  | ["", "releases", id] => last id release
  | ["", "artifacts"] => some artifacts
  | ["", "artifacts", id] => last id artifact
  | ["", "formations"] => some changes
  | _ => none

/-- The route of a path, its parameters still encoded. -/
def ofPath? (path : String) : Option Route :=
  ofSegments? ((Text.splitOn '/' path.toList).map String.ofList)

def methods : Route → List String
  | apps => ["GET", "POST"]
  | app _ => ["GET", "PATCH", "DELETE"]
  | appRelease _ => ["GET", "PUT"]
  | formations _ => ["GET"]
  | formation .. => ["GET", "PUT", "DELETE"]
  | jobs _ => ["GET", "POST"]
  | job .. => ["DELETE"]
  | jobLog .. => ["GET"]
  | releases | artifacts => ["POST"]
  | release _ | artifact _ => ["GET"]
  | changes => ["GET"]

/-- Whether a method goes with a route; where GET goes, so does HEAD. -/
def allows (route : Route) (method : String) : Bool :=
  route.methods.contains method || (method == "HEAD" && route.methods.contains "GET")

/-- The route with its parameters decoded, if they are texts. -/
def decode? : Route → Option Route
  | apps => some apps
  | app a => (Percent.decode? a).map app
  | appRelease a => (Percent.decode? a).map appRelease
  | formations a => (Percent.decode? a).map formations
  | formation a r => do return formation (← Percent.decode? a) (← Percent.decode? r)
  | jobs a => (Percent.decode? a).map jobs
  | job a j => do return job (← Percent.decode? a) (← Percent.decode? j)
  | jobLog a j => do return jobLog (← Percent.decode? a) (← Percent.decode? j)
  | releases => some releases
  | release id => (Percent.decode? id).map release
  | artifacts => some artifacts
  | artifact id => (Percent.decode? id).map artifact
  | changes => some changes

end Route
end ControlPlane.Api
