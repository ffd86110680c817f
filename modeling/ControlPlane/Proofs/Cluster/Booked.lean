import ControlPlane.Identifier
import ControlPlane.Proofs.Cluster.Act

/-! # Clusters with a book of the jobs that were submitted

Beside the world of any cluster a book is kept: a host that accepts a job is entered with it, and a
stop that succeeds strikes it out. The book is only ever written, so an act on a booked cluster goes
the way of the act on the cluster itself.
-/
namespace ControlPlane

structure Booked (σ : Type) where
  world : σ
  /-- The jobs that were accepted and not stopped since. -/
  running : List JobId := []

namespace Booked
variable {σ α β γ δ ε ε' : Type}

/-! What an answer changes in a book -/

def unchanged (_ : α) (running : List JobId) : List JobId := running

def enter (host job : String) (running : List JobId) : List JobId := running ++ [⟨host, job⟩]

def strike (host job : String) (running : List JobId) : List JobId :=
  running.filter (· != ⟨host, job⟩)

/-- Does what `act` does to the world, and writes into the book if it succeeds. -/
def lift (act : ClusterAct σ α) (book : α → List JobId → List JobId) : ClusterAct (Booked σ) α :=
  fun w =>
  match act w.world with
  | (.ok a, world) => (.ok a, ⟨world, book a w.running⟩)
  | (.error e, world) => (.error e, ⟨world, w.running⟩)

def keep (act : ClusterAct σ α) : ClusterAct (Booked σ) α := lift act unchanged

def tap (events : EventTap σ) : EventTap (Booked σ) := fun w =>
  let (items, world) := events w.world
  (items, { w with world })

def client (host : HostClient σ) : HostClient (Booked σ) where
  host := host.host
  listJobs := keep host.listJobs
  getJob job := keep (host.getJob job)
  addJob job := lift (host.addJob job) (enter host.host)
  stopJob job := lift (host.stopJob job) fun _ => strike host.host job
  attach request wait := keep (host.attach request wait)
  resize job width height := keep (host.resize job width height)
  events job := tap <$> keep (host.events job)

def cluster (c : Cluster σ) : Cluster (Booked σ) where
  listHosts := keep c.listHosts
  dial host := client <$> keep (c.dial host)

/-- `y` does to the world what `x` does, answers `f` of its answer, and changes the book by `book`
of its answer; where `x` fails, `y` fails in the same way and leaves the book as it is. -/
def Follows (x : ExceptT ε (StateM σ) α) (y : ExceptT ε (StateM (Booked σ)) β) (f : α → β)
    (book : α → List JobId → List JobId) : Prop :=
  ∀ world running, y ⟨world, running⟩ = match x world with
    | (.ok a, world) => (.ok (f a), ⟨world, book a running⟩)
    | (.error e, world) => (.error e, ⟨world, running⟩)

namespace Follows
variable {x : ExceptT ε (StateM σ) α} {y : ExceptT ε (StateM (Booked σ)) β} {f : α → β}
  {k : α → ExceptT ε (StateM σ) γ} {l : β → ExceptT ε (StateM (Booked σ)) δ} {g : γ → δ}

theorem lift (act : ClusterAct σ α) (book : α → List JobId → List JobId) :
    Follows act (Booked.lift act book) id book := by
  intro world running
  rw [Booked.lift]
  rcases act world with ⟨e | a, world'⟩ <;> rfl

theorem pure (a : α) (f : α → β) :
    Follows (pure a : ExceptT ε (StateM σ) α) (pure (f a)) f unchanged :=
  fun _ _ => rfl

theorem throw (e : ε) (f : α → β) (book : α → List JobId → List JobId) :
    Follows (throw e : ExceptT ε (StateM σ) α) (throw e) f book :=
  fun _ _ => rfl

theorem liftM (r : Except ε α) :
    Follows (liftM r : ExceptT ε (StateM σ) α) (liftM r) id unchanged := by
  intro world running
  cases r <;> rfl

theorem bind {book : γ → List JobId → List JobId} (hx : Follows x y f unchanged)
    (hk : ∀ a, Follows (k a) (l (f a)) g book) : Follows (x >>= k) (y >>= l) g book := by
  intro world running
  have hy := hx world running
  rcases h : x world with ⟨e | a, world'⟩ <;> rw [h] at hy
  · rw [bind_of_error h, bind_of_error hy]
  · rw [bind_of_ok h, bind_of_ok hy]
    exact hk a world' running

theorem map {book : α → List JobId → List JobId} {book' : γ → List JobId → List JobId} {i : α → γ}
    {j : β → δ} (hx : Follows x y f book) (hij : ∀ a, j (f a) = g (i a))
    (hbook : ∀ a, book' (i a) = book a) :
    Follows (i <$> x) (j <$> y) g book' := by
  intro world running
  have hy := hx world running
  rw [map_eq_pure_bind, map_eq_pure_bind]
  rcases h : x world with ⟨e | a, world'⟩ <;> rw [h] at hy
  · rw [bind_of_error h, bind_of_error hy]
  · rw [bind_of_ok h, bind_of_ok hy, hij]
    change _ = (Except.ok _, Booked.mk world' (book' (i a) running))
    rw [hbook]
    rfl

theorem adapt {book : α → List JobId → List JobId} (hx : Follows x y f book) (h : ε → ε') :
    Follows (x.adapt h) (y.adapt h) f book := by
  intro world running
  have hy := hx world running
  rcases hxw : x world with ⟨e | a, world'⟩ <;> rw [hxw] at hy
  · rw [adapt_of_error h hxw, adapt_of_error h hy]
  · rw [adapt_of_ok h hxw, adapt_of_ok h hy]

end Follows

theorem listHosts_follows (c : Cluster σ) :
    Follows c.listHosts (cluster c).listHosts id unchanged :=
  .lift c.listHosts unchanged

theorem dial_follows (c : Cluster σ) (host : String) :
    Follows (c.dial host) ((cluster c).dial host) client unchanged := by
  rw [← id_map (c.dial host)]
  exact (Follows.lift (c.dial host) unchanged).map (fun _ => rfl) fun _ => rfl

theorem addJob_follows (host : HostClient σ) (job : HostJob) :
    Follows (host.addJob job) ((client host).addJob job) id (enter host.host) :=
  .lift (host.addJob job) (enter host.host)

theorem attach_follows (host : HostClient σ) (request : AttachRequest) (wait : Bool) :
    Follows (host.attach request wait) ((client host).attach request wait) id unchanged :=
  .lift (host.attach request wait) unchanged

end Booked
end ControlPlane
