import ControlPlane.Api.Route
import ControlPlane.Proofs.Http.Segments

/-! # Which texts a route carries

A target names a route by its segments. What a controller reads off a target that was put together
from the segments of a route is that same route if and only if each segment can stand in a path as
it is and the last of them is not empty.
-/
namespace ControlPlane.Api.Route
variable {route route' : Route}

/-- The parts of a route between the slashes. -/
def segments : Route → List String
  | apps => ["", "apps"]
  | app a => ["", "apps", a]
  | appRelease a => ["", "apps", a, "release"]
  | formations a => ["", "apps", a, "formations"]
  | formation a r => ["", "apps", a, "formations", r]
  | jobs a => ["", "apps", a, "jobs"]
  | job a j => ["", "apps", a, "jobs", j]
  | jobLog a j => ["", "apps", a, "jobs", j, "log"]
  | releases => ["", "releases"]
  | release id => ["", "releases", id]
  | artifacts => ["", "artifacts"]
  | artifact id => ["", "artifacts", id]
  | changes => ["", "formations"]

/-- The target of a request for a route, with its segments as they are. -/
def target (route : Route) : String := "/".intercalate route.segments

/-- The route that a controller reads off a target, if it reads one. -/
def ofTarget? (target : String) : Option Route := do
  let (path, _) ← Uri.pathAndQuery? target.toList
  let route ← ofPath? path
  route.decode?

/-- A route whose segments all stand in a path as they are, and whose last segment is not empty. -/
structure IsPlain (route : Route) : Prop where
  segments : ∀ s ∈ route.segments, Plain s
  last : route.segments.getLast? ≠ some ""

/-! ## Segments -/

theorem segments_ne_nil (route : Route) : route.segments ≠ [] :=
  by cases route <;> exact List.cons_ne_nil _ _

theorem ofSegments?_eq_some {ss : List String} :
    ofSegments? ss = some route ↔ ss = route.segments ∧ ss.getLast? ≠ some "" := by
  constructor
  · intro h
    unfold ofSegments? last at h
    split at h
    all_goals grind [segments, String.isEmpty_iff]
  · rintro ⟨rfl, hlast⟩
    cases route <;> simp_all [segments, ofSegments?, last]

private theorem decode?_fixed :
    ∀ s ∈ ["", "apps", "release", "formations", "jobs", "log", "releases", "artifacts"],
      Percent.decode? s = some s := by
  have hnone : ∀ s ∈ ["", "apps", "release", "formations", "jobs", "log", "releases", "artifacts"],
      '%' ∉ s.toList := by
    decide
  exact fun s hs => Percent.decode?_of_not_mem (hnone s hs)

/-- Each segment is decoded by itself. -/
theorem decode?_eq_some (h : route.decode? = some route') :
    Segments.Decode route.segments route'.segments := by
  have hfixed := decode?_fixed
  simp only [List.forall_mem_cons] at hfixed
  cases route with
  | apps | releases | artifacts | changes =>
    cases h
    simp [segments, hfixed]
  | app a | appRelease a | formations a | jobs a | release a | artifact a =>
    obtain ⟨b, hb, rfl⟩ := Option.map_eq_some_iff.1 h
    simp [segments, hfixed, hb]
  | formation a r | job a r | jobLog a r =>
    simp only [decode?, Option.bind_eq_bind, Option.bind_eq_some_iff] at h
    obtain ⟨b, hb, t, ht, h⟩ := h
    cases h
    simp [segments, hfixed, hb, ht]

theorem decode?_of_plain (h : ∀ s ∈ route.segments, Plain s) : route.decode? = some route := by
  cases route with
  | apps | releases | artifacts | changes => rfl
  | app a | appRelease a | formations a | jobs a | release a | artifact a =>
    have ha : Percent.decode? a = some a := (h a (by simp [segments])).decoded
    simp [decode?, ha]
  | formation a r | job a r | jobLog a r =>
    have ha : Percent.decode? a = some a := (h a (by simp [segments])).decoded
    have hr : Percent.decode? r = some r := (h r (by simp [segments])).decoded
    simp [decode?, ha, hr]

theorem toList_target (route : Route) : route.target.toList = Segments.joined route.segments :=
  String.toList_intercalate

theorem ofPath?_eq_some {path : String} :
    ofPath? path = some route ↔
      Segments.ofPath path = route.segments ∧ route.segments.getLast? ≠ some "" := by
  have hread : ofPath? path = ofSegments? (Segments.ofPath path) := rfl
  rw [hread, ofSegments?_eq_some]
  exact ⟨fun h => ⟨h.1, h.1 ▸ h.2⟩, fun h => ⟨h.1, h.1.symm ▸ h.2⟩⟩

/-! ## What is read off a target -/

theorem isPlain_of_ofTarget? (h : ofTarget? route.target = some route) : route.IsPlain := by
  simp only [ofTarget?, Option.bind_eq_bind, Option.bind_eq_some_iff] at h
  obtain ⟨⟨path, query⟩, hquery, found, hfound, hdecode⟩ := h
  obtain ⟨hsplit, hlast⟩ := ofPath?_eq_some.1 hfound
  have hdecoded := decode?_eq_some hdecode
  rw [← hsplit] at hdecoded hlast
  rw [toList_target, ← List.append_nil (Segments.joined _)] at hquery
  obtain ⟨hsame, hplain⟩ := Segments.plain_of_read route.segments_ne_nil (by simp) hquery hdecoded
  exact ⟨hplain, by rwa [← hsame]⟩

theorem ofTarget?_of_isPlain (h : route.IsPlain) : ofTarget? route.target = some route := by
  obtain ⟨hplain, hlast⟩ := h
  have hinside : ∀ c ∈ route.target.toList, Uri.isPathChar c = true := by
    rw [toList_target]
    exact Segments.inside_joined hplain
  have hpath : ofPath? route.target = some route := by
    rw [ofPath?_eq_some, ← String.ofList_toList (s := route.target), toList_target]
    exact ⟨Segments.ofPath_joined route.segments_ne_nil hplain, hlast⟩
  rw [ofTarget?, Uri.pathAndQuery?_of_forall hinside, String.ofList_toList]
  simp only [Option.bind_eq_bind, Option.bind_some, hpath, decode?_of_plain hplain]

/-- A controller reads a route off its target as that route if and only if the route is plain. -/
theorem ofTarget?_target_iff : ofTarget? route.target = some route ↔ route.IsPlain :=
  ⟨isPlain_of_ofTarget?, ofTarget?_of_isPlain⟩

end ControlPlane.Api.Route
