import ControlPlane.Proofs.Client.RecordCall
import ControlPlane.Proofs.Store.Names

/-! # Calls reach what they name, if a path can carry it

A call about a record does exactly what the operation does that it stands for, or fails and changes
nothing, if its names and identifiers can stand in a path as they are; the names of apps and the
identifiers of records always can. The route that a controller reads off the target of any other
call is not the one the call asks for. Then a call that deletes an app may delete one that its text
does not resolve to, and it does so if and only if the text is read as the identifier or the name of
an app that is another text.
-/
namespace ControlPlane

/-! ## Names and identifiers in paths -/

/-- A name holds letters, digits and hyphens. -/
theorem AppName.of_mem_inGroups {fresh : Bool} {cs : List Char} (h : inGroups fresh cs = true)
    {c : Char} (hc : c ∈ cs) :
    isLetterOrDigit c = true ∨ c = '-' := by
  induction cs generalizing fresh with
  | nil => cases hc
  | cons d cs ih =>
    rw [inGroups] at h
    split at h
    · next hd =>
      rcases List.mem_cons.1 hc with rfl | hc
      · exact .inl hd
      · exact ih h hc
    · simp only [Bool.and_eq_true, beq_iff_eq] at h
      rcases List.mem_cons.1 hc with rfl | hc
      · exact .inr h.1.1
      · exact ih h.2 hc

/-- What names and identifiers are made of stands in a path as it is. -/
private theorem inside_path {c : Char} (h : AppName.isLetterOrDigit c = true ∨ c = '-') :
    Uri.isPathChar c = true ∧ c ≠ '/' ∧ c ≠ '%' := by
  have hle (a b : Char) : a ≤ b ↔ a.toNat ≤ b.toNat := Iff.rfl
  have hcode : c.toNat = 0x2D ∨ (0x30 ≤ c.toNat ∧ c.toNat < 0x3A) ∨ 0x61 ≤ c.toNat := by
    rcases h with h | rfl
    · simp only [AppName.isLetterOrDigit, Bool.or_eq_true, Bool.and_eq_true, decide_eq_true_eq] at h
      rcases h with ⟨hletter, -⟩ | hdigit
      · exact .inr (.inr hletter)
      · rcases Text.digit_or_beyond hdigit with hfirst | hbeyond
        · exact .inr (.inl hfirst)
        · exact .inr (.inr (by omega))
    · exact .inl rfl
  refine ⟨?_, ?_, ?_⟩
  · have hpath : ('$' ≤ c ∧ c ≤ ';') ∨ 'a' ≤ c := by
      rw [hle, hle, hle]
      change (0x24 ≤ c.toNat ∧ c.toNat ≤ 0x3B) ∨ 0x61 ≤ c.toNat
      omega
    rcases hpath with hpath | hpath <;> simp [Uri.isPathChar, hpath]
  · rintro rfl
    revert hcode
    decide
  · rintro rfl
    revert hcode
    decide

private theorem isLetterOrDigit_of_isHexDigit {c : Char} (h : Identifier.isHexDigit c = true) :
    AppName.isLetterOrDigit c = true := by
  simp only [Identifier.isHexDigit, Bool.or_eq_true, Bool.and_eq_true, decide_eq_true_eq] at h
  simp only [AppName.isLetterOrDigit, Bool.or_eq_true, Bool.and_eq_true, decide_eq_true_eq]
  rcases h with ⟨hlow, hhigh⟩ | ⟨hlow, hhigh⟩
  · exact .inr (Text.isDecimalDigit_of_le hlow hhigh)
  · exact .inl ⟨hlow, Char.le_trans hhigh (by decide)⟩

/-- A text that an app may be found by: an identifier or a name. -/
def Findable (s : String) : Prop := Identifier.isId s = true ∨ AppName.isValid s = true

theorem Findable.plain {s : String} (h : Findable s) : Plain s := by
  refine plain_of_forall fun c hc => inside_path ?_
  rcases h with h | h
  · exact (Identifier.of_mem_inGroups h hc).imp_left isLetterOrDigit_of_isHexDigit
  · exact AppName.of_mem_inGroups (Bool.and_eq_true_iff.1 h).2 hc

theorem Findable.ne_blank {s : String} (h : Findable s) : s ≠ "" := by
  rintro rfl
  rcases h with h | h
  · exact absurd h (by decide)
  · exact absurd h (by decide +kernel)

/-! ## Apps that are found, and apps that are deleted -/

namespace Store

namespace Indexed
variable {s : Store} {row : AppRow} {text id : String}

/-- Nothing but an identifier or a name finds an app. -/
theorem findable (hs : Indexed s) (h : s.findApp? text = some row) : Findable text := by
  obtain ⟨hrow, ha⟩ := hs.findApp?_eq_some_iff.1 h
  simp only [AppRow.answers, Bool.and_eq_true, Bool.or_eq_true, beq_iff_eq] at ha
  obtain ⟨-, ⟨hid, -⟩ | rfl⟩ := ha
  · exact .inl hid
  · exact .inr (hs.valid _ row (hs.mem_values.1 hrow))

theorem liveApp?_of_findApp? (hs : Indexed s) (h : s.findApp? text = some row) :
    s.liveApp? row.app.id = some row := by
  obtain ⟨hrow, ha⟩ := hs.findApp?_eq_some_iff.1 h
  exact hs.liveApp?_eq_some_iff.2 ⟨hrow, (Bool.and_eq_true_iff.1 ha).1, rfl⟩

/-- An app that a deletion takes is the one that its text finds. -/
theorem findApp?_of_deleteApp (hs : Indexed s) {m : Moment} (hlive : s.liveApp? id = some row)
    (hgone : (s.deleteApp m text).2.liveApp? id = none) : s.findApp? text = some row := by
  unfold deleteApp at hgone
  cases hfind : s.findApp? text with
  | none =>
    rw [hfind] at hgone
    exact absurd (hlive.symm.trans hgone) (by simp)
  | some found =>
    simp only [hfind, liveApp?_putApp] at hgone
    split at hgone
    · next hid =>
      have hfound := hs.liveApp?_of_findApp? hfind
      rw [hid, hlive] at hfound
      exact hfound.symm
    · exact absurd (hlive.symm.trans hgone) (by simp)

theorem liveApp?_deleteApp (m : Moment) (h : s.findApp? text = some row) :
    (s.deleteApp m text).2.liveApp? row.app.id = none := by
  simp [deleteApp, h, liveApp?_putApp, AppRow.isLive]

end Indexed

/-- Every identifier and every name finds an app in some store. -/
theorem exists_findApp? {text : String} (h : Findable text) :
    ∃ ws row, (performAll {} ws).findApp? text = some row := by
  have hfind (app : App) (hvalid : AppName.isValid app.name = true)
      (hanswers :
        (Identifier.isId text = true ∧ newId ⟨.epoch, ""⟩ app.id = Identifier.clean text) ∨
          app.name = text) :
      ∃ ws row, (performAll {} ws).findApp? text = some row := by
    obtain ⟨row, hget, hlive, hid, hname⟩ := exists_first_app ⟨.epoch, ""⟩ hvalid
    have hs := indexed_performAll [(⟨.epoch, ""⟩, .createApp app)]
    refine ⟨_, row, hs.findApp?_eq_some_iff.2 ⟨hs.mem_values.2 hget, ?_⟩⟩
    simpa [AppRow.answers, hlive, hid, hname] using hanswers
  have hblank : text.isEmpty = false := Bool.eq_false_iff.2 fun he =>
    h.ne_blank (String.isEmpty_iff.1 he)
  rcases h with h | h
  · have hid : newId ⟨.epoch, ""⟩ text = Identifier.clean text := by rw [newId, hblank]; rfl
    have hweb : AppName.isValid "web" = true := by decide +kernel
    exact hfind { id := text, name := "web" } hweb (.inl ⟨h, hid⟩)
  · exact hfind { name := text } h (.inr rfl)

end Store

namespace RecordCall
open Api Client Http

section Deletion
variable {σ : Type} {cluster : Cluster σ} {m : Moment} {url : String} {c : Client (Controller σ)}
  {s text : String}

theorem isPlain_of_findable (h : Findable s) : (Route.app s).IsPlain where
  segments := by
    have hblank : Plain "" := plain_of_forall (by simp)
    have happs : ∀ c ∈ "apps".toList, Uri.isPathChar c = true ∧ c ≠ '/' ∧ c ≠ '%' := by
      simp [Uri.isPathChar]
    simp only [Route.segments, List.forall_mem_cons, List.not_mem_nil, IsEmpty.forall_iff,
      implies_true, and_true]
    exact ⟨hblank, plain_of_forall happs, h.plain⟩
  last := by simpa [Route.segments] using h.ne_blank

/-- The routes that may be deleted lead to an app, a formation or a job. -/
private theorem allows_delete {route : Route} (h : route.allows "DELETE" = true) :
    (∃ app, route = .app app) ∨ (∃ app release, route = .formation app release) ∨
    ∃ app job, route = .job app job := by
  cases route with
  | app a => exact .inl ⟨a, rfl⟩
  | formation a r => exact .inr (.inl ⟨a, r, rfl⟩)
  | job a j => exact .inr (.inr ⟨a, j, rfl⟩)
  | _ => cases h

/-- The deletion of a formation leaves the apps as they are. -/
private theorem apps_deleteFormation (k : Controller σ) (app release : String) :
    ((deleteFormation app release).outcome cluster m k).2.store.apps = k.store.apps := by
  rw [outcome, Feed.deleteFormation]
  rcases hdelete : k.store.deleteFormation m app release with e | ⟨record?, store⟩
  · rfl
  · obtain ⟨row, -, hrecord⟩ := Store.deleteFormation_eq_ok.1 hdelete
    split at hrecord <;> cases hrecord <;> rfl

/-- A call to delete leaves what the operation leaves whose route is read off its target. -/
private theorem snd_delete_of_read (hc : connect (loopback cluster m) url = .ok c)
    (hfits : c.Fits (Route.app s).target) (call : RecordCall)
    (hread : Route.ofTarget? (Route.app s).target = some call.route)
    (hrequest : call.method = "DELETE" ∧ call.headers = [] ∧ call.body = []) (htaken : call.IsTaken)
    (k : Controller σ) :
    ((deleteApp s).perform c k).2 = (call.outcome cluster m k).2 := by
  obtain ⟨hmethod, hheaders, hbody⟩ := hrequest
  have hsize : call.body.length ≤ call.limit := by
    rw [hbody]
    exact Nat.zero_le _
  exact snd_perform_of_read (deleteApp s) call hc trivial hfits hread hmethod hheaders hbody
    hsize htaken k

/-- A call that deletes no app but the one that its text finds is not read as another
text that finds an app. -/
private theorem eq_of_deletes_found (hc : connect (loopback cluster m) url = .ok c)
    (hfits : c.Fits (Route.app s).target) (k : Controller σ)
    (h : ∀ ws id row, (Store.performAll {} ws).liveApp? id = some row →
      ((deleteApp s).perform c { k with store := Store.performAll {} ws }).2.store.liveApp? id =
        none →
        (Store.performAll {} ws).findApp? s = some row)
    (hread : Route.ofTarget? (Route.app s).target = some (.app text)) (hfindable : Findable text) :
    text = s := by
  obtain ⟨ws, row, hfind⟩ := Store.exists_findApp? hfindable
  have hs := Store.indexed_performAll ws
  have hgone : ((deleteApp s).perform c { k with store := Store.performAll {} ws }).2.store.liveApp?
      row.app.id = none := by
    rw [snd_delete_of_read hc hfits (deleteApp text) hread ⟨rfl, rfl, rfl⟩ trivial]
    exact Store.Indexed.liveApp?_deleteApp m hfind
  have hfound := hs.findable (h ws row.app.id row (hs.liveApp?_of_findApp? hfind) hgone)
  have hsame := Route.ofTarget?_target_iff.2 (isPlain_of_findable hfound)
  rw [hread] at hsame
  cases hsame
  rfl

/-- An app that a call deletes is found by a text that the target of the call is read as. -/
theorem exists_read_of_deleted (hc : connect (loopback cluster m) url = .ok c)
    (hfits : c.Fits (Route.app s).target) {k : Controller σ} (hs : k.store.Indexed) {app : String}
    {row : AppRow} (hlive : k.store.liveApp? app = some row)
    (hgone : ((deleteApp s).perform c k).2.store.liveApp? app = none) :
    ∃ text, Route.ofTarget? (Route.app s).target = some (.app text) ∧
      k.store.findApp? text = some row := by
  -- The app is gone, so the apps are not what they were.
  have hchanged : ((deleteApp s).perform c k).2.store.apps ≠ k.store.apps := by
    intro hsame
    rw [Store.liveApp?, hsame] at hgone
    exact absurd (hlive.symm.trans hgone) (by simp)
  by_cases hallowed : ∃ route, Route.ofTarget? (Route.app s).target = some route ∧
    route.allows "DELETE" = true
  swap
  · obtain ⟨e, he⟩ := performAs_of_not_allowed (deleteApp s) hc
      (fun route hread => Bool.eq_false_iff.2 fun hallows => hallowed ⟨route, hread, hallows⟩)
      (deleteApp s).body id k
    rw [← perform_eq] at he
    exact absurd (congrArg (·.2.store.apps) he) hchanged
  obtain ⟨route, hread, hallows⟩ := hallowed
  obtain ⟨text, rfl⟩ | ⟨app, release, rfl⟩ | ⟨app, job, rfl⟩ := allows_delete hallows
  · rw [snd_delete_of_read hc hfits (deleteApp text) hread ⟨rfl, rfl, rfl⟩ trivial] at hgone
    exact ⟨text, hread, hs.findApp?_of_deleteApp hlive hgone⟩
  · rw [snd_delete_of_read hc hfits (deleteFormation app release) hread ⟨rfl, rfl, rfl⟩ trivial]
      at hchanged
    exact absurd (apps_deleteFormation k app release) hchanged
  · rw [snd_delete_of_read hc hfits (killJob app job) hread ⟨rfl, rfl, rfl⟩ trivial] at hchanged
    exact absurd rfl hchanged

/-- A call deletes no app but the one that its text finds, if and only if the text is not read as
another one that finds an app in some store. -/
theorem deletes_found_iff (hc : connect (loopback cluster m) url = .ok c)
    (hfits : c.Fits (Route.app s).target) (k : Controller σ) :
    (∀ ws id row, (Store.performAll {} ws).liveApp? id = some row →
      ((deleteApp s).perform c { k with store := Store.performAll {} ws }).2.store.liveApp? id =
        none →
        (Store.performAll {} ws).findApp? s = some row) ↔
      ∀ text, Route.ofTarget? (Route.app s).target = some (.app text) →
        Findable text → text = s := by
  constructor
  · exact fun h text => eq_of_deletes_found hc hfits k h
  · intro h ws id row hlive hgone
    have hs := Store.indexed_performAll ws
    obtain ⟨text, hread, hfind⟩ :=
      exists_read_of_deleted hc hfits (k := { k with store := _ }) hs hlive hgone
    rw [← h text hread (hs.findable hfind)]
    exact hfind

end Deletion

/-- Let a client be connected to a served controller. The members of the objects in a request and in
its reply may come in any order; a call takes one order for each. A call whose names and identifiers
stand in a path as they are does to the controller what the operation does that it stands for, and
gives what that gives, a failure told by its status, if the call is carried; and it fails and
changes nothing if it is not. These are the calls whose own route the controller reads off their
target. A call whose method goes with no route that is read off its target fails and changes
nothing, too. Names of apps and identifiers always stand in a path as they are. A call to delete an
app deletes, after whatever writes, no app but the one that its text finds, if and only if its
target is not read as that of another text that is an identifier or a name. -/
theorem reaches_what_it_names {σ : Type} {cluster : Cluster σ} {m : Moment} {url : String}
    {c : Client (Controller σ)} (hc : connect (loopback cluster m) url = .ok c) :
    (∀ call : RecordCall, call.perform c = call.performAs c call.body id ∧ call.Spells call.body ∧
      call.Respells id) ∧
    (∀ (call : RecordCall) request respell k, call.route.IsPlain → call.Spells request →
      call.Respells respell → call.IsCarried c request →
        call.performAs c request respell k =
          ((call.outcome cluster m k).1.mapError (c.refused call.method call.route.target),
            (call.outcome cluster m k).2)) ∧
    (∀ (call : RecordCall) request respell k, call.route.IsPlain → call.Spells request →
      ¬ call.IsCarried c request → ∃ e, call.performAs c request respell k = (.error e, k)) ∧
    (∀ call : RecordCall, Route.ofTarget? call.route.target = some call.route ↔
      call.route.IsPlain) ∧
    (∀ (call : RecordCall) request respell k,
      (∀ route, Route.ofTarget? call.route.target = some route → route.allows call.method = false) →
        ∃ e, call.performAs c request respell k = (.error e, k)) ∧
    (∀ s, Findable s → (Route.app s).IsPlain) ∧
    ∀ s (k : Controller σ), c.Fits (Route.app s).target →
      ((∀ ws id row, (Store.performAll {} ws).liveApp? id = some row →
        ((deleteApp s).perform c { k with store := Store.performAll {} ws }).2.store.liveApp? id =
          none →
          (Store.performAll {} ws).findApp? s = some row) ↔
        ∀ text, Route.ofTarget? (Route.app s).target = some (.app text) →
          Findable text → text = s) :=
  ⟨fun call => ⟨perform_eq c call, call.spells_body, call.respells_id⟩,
    fun _ _ _ k hplain hspells hreply hcarried =>
      performAs_of_read hc hspells hreply hcarried (Route.ofTarget?_target_iff.2 hplain) k,
    fun _ _ _ k hplain hspells hnot =>
      performAs_of_not_carried hc hspells hnot (Route.ofTarget?_target_iff.2 hplain) k,
    fun _ => Route.ofTarget?_target_iff,
    fun call request respell k h => performAs_of_not_allowed call hc h request respell k,
    fun _ => isPlain_of_findable, fun _ k hfits => deletes_found_iff hc hfits k⟩

/-- A client of the sample controller. -/
def sampleClient : Client (Controller MemoryCluster) where
  network := loopback (MemoryCluster.cluster .epoch) ⟨.epoch, ""⟩
  authority := "127.0.0.1:1200"

/-- A formation of the app "web" in a text whose members, and those of its map,
come the last one first. -/
def reversedRequest : Bytes :=
  Json.render (.object [("processes", .object [("web", .integer 1), ("db", .integer 2)]),
    ("release", .string "release"), ("app", .string "web")])

/-- The app "web" is got by its name and has a formation put, and the text "%77eb"
is read as that name. -/
theorem reaches_what_it_names_of_escape :
    let cluster := MemoryCluster.cluster .epoch
    let get := getApp "web"
    let formation : Formation :=
      { app := "web", release := "release", processes := Dict.ofList [("db", 2), ("web", 1)] }
    let put := putFormation formation
    let gotten := get.outcome cluster ⟨.epoch, ""⟩ sampleController
    let placed := put.outcome cluster ⟨.epoch, ""⟩ sampleController
    connect (loopback cluster ⟨.epoch, ""⟩) "http://127.0.0.1:1200" = .ok sampleClient ∧
      get.route.IsPlain ∧ get.IsCarried sampleClient get.body ∧
      gotten.1.toOption.map (·.name) = some "web" ∧
      get.perform sampleClient sampleController =
        (gotten.1.mapError (sampleClient.refused get.method get.route.target), gotten.2) ∧
      put.Spells reversedRequest ∧ reversedRequest ≠ put.body ∧
      placed.1.toOption.map (·.processes) = some formation.processes ∧
      put.performAs sampleClient reversedRequest id sampleController =
        (placed.1.mapError (sampleClient.refused put.method put.route.target), placed.2) ∧
      ¬ ∀ ws id row, (Store.performAll {} ws).liveApp? id = some row →
        ((deleteApp "%77eb").perform sampleClient
          { sampleController with store := Store.performAll {} ws }).2.store.liveApp? id = none →
            (Store.performAll {} ws).findApp? "%77eb" = some row := by
  intro cluster get formation put gotten placed
  have hauthority : authorityOf "http://127.0.0.1:1200" = .ok "127.0.0.1:1200" := by decide +kernel
  have hc : connect (loopback cluster ⟨.epoch, ""⟩) "http://127.0.0.1:1200" = .ok sampleClient := by
    rw [connect, hauthority]
    rfl
  obtain ⟨hsame, hdoes, -, hplain, -, happ, hdeletes⟩ := reaches_what_it_names hc
  have hweb : Findable "web" := .inr (by decide +kernel)
  have hcarried : get.IsCarried sampleClient get.body :=
    ⟨trivial, by decide +kernel, by decide, trivial⟩
  have hput : put.route.IsPlain := (hplain put).1 (by decide +kernel)
  have hprocesses : (Json.Value.object [("db", .integer 2), ("web", .integer 1)]).Reordered
      (.object [("web", .integer 1), ("db", .integer 2)]) :=
    .object rfl (.cons (.refl _) (.cons (.refl _) .nil)) (.swap _ _ _)
  have hspells : put.Spells reversedRequest := by
    refine ⟨_,
      .object ?names ?values
        (List.reverse_perm [("app", .string "web"), ("release", .string "release"),
      ("processes", .object [("web", .integer 1), ("db", .integer 2)])]).symm, rfl⟩
    case names => rfl
    case values => exact .cons (.refl _) (.cons (.refl _) (.cons hprocesses .nil))
  have hsent : put.IsCarried sampleClient reversedRequest :=
    ⟨by decide, by decide +kernel, by decide +kernel, trivial⟩
  have hread : Route.ofTarget? (Route.app "%77eb").target = some (.app "web") := by decide +kernel
  refine ⟨hc, happ "web" hweb, hcarried, by decide +kernel, ?_, hspells, by decide +kernel,
    by decide +kernel, hdoes put _ _ _ hput hspells put.respells_id hsent, fun h => ?_⟩
  · rw [(hsame get).1]
    exact hdoes get _ _ _ (happ "web" hweb) get.spells_body get.respells_id hcarried
  · exact absurd
      ((hdeletes "%77eb" sampleController (by decide +kernel)).1 h "web" hread hweb) (by decide)

/-- The app "web" is deleted by a call for "web?x", which finds no app. -/
theorem deletes_another_app :
    let left := (deleteApp "web?x").perform sampleClient sampleController
    sampleController.store.findApp? "web?x" = none ∧
      (sampleController.store.liveApp? "0123456789abcdef0123456789abcdef").map
        (·.app.name) = some "web" ∧
      left.1 = .ok () ∧ left.2.store.liveApp? "0123456789abcdef0123456789abcdef" = none := by
  decide +kernel

end RecordCall
end ControlPlane
