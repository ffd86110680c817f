import ControlPlane.Text.Blank
import ControlPlane.Text.Split

/-! # Lists of media types -/
namespace ControlPlane.Accept

/-- The media types of a list in a header value, without their parameters. -/
def mediaTypes (value : String) : List String :=
  (Text.splitOn ',' value.toList).map fun media =>
    String.ofList (Text.trim (media.takeWhile (· != ';')))

def names (value media : String) : Bool := (mediaTypes value).contains media

end ControlPlane.Accept
