import ControlPlane.Host

/-! # Placement: the host with the fewest jobs, and of those the one with the least ID -/
namespace ControlPlane.Placement

def isBefore (a b : Host) : Bool :=
  a.jobs.length < b.jobs.length || (a.jobs.length == b.jobs.length && a.id < b.id)

/-- Of equal hosts the first one listed stays. -/
def choose : List Host → Option Host
  | [] => none
  | h :: rest => some (rest.foldl (fun best h => if isBefore h best then h else best) h)

end ControlPlane.Placement
