import ControlPlane.Store.Basic

/-! # Artifacts and releases in the store, which never change -/
namespace ControlPlane.Store

def createArtifact (s : Store) (m : Moment) (artifact : Artifact) :
    Except StoreError (Artifact × Store) :=
  if artifact.uri.isEmpty then .error (.invalid "artifact uri must not be blank")
  else
    let artifact := { artifact with id := newId m artifact.id, createdAt := some m.now }
    if s.artifacts.contains artifact.id
      then .error (.conflict ("artifact " ++ artifact.id ++ " already exists"))
    else .ok (artifact, { s with artifacts := s.artifacts.insert artifact.id artifact })

def getArtifact? (s : Store) (id : String) : Option Artifact :=
  s.artifacts.get? (Identifier.clean id)

/-- The artifact of a release has to be there. -/
def createRelease (s : Store) (m : Moment) (release : Release) :
    Except StoreError (Release × Store) :=
  if release.artifact.isEmpty then .error (.invalid "release must reference an artifact")
  else
    let release := { release with
      id := newId m release.id
      artifact := Identifier.clean release.artifact
      createdAt := some m.now }
    if !s.artifacts.contains release.artifact
      then .error (.notFound ("artifact " ++ release.artifact))
    else if s.releases.contains release.id
      then .error (.conflict ("release " ++ release.id ++ " already exists"))
    else .ok (release, { s with releases := s.releases.insert release.id release })

def getRelease? (s : Store) (id : String) : Option Release := s.releases.get? (Identifier.clean id)

end ControlPlane.Store
