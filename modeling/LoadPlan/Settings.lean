import LoadPlan.Number.Double
import LoadPlan.Text.Character

/-! Settings that shape a plan. -/
namespace LoadPlan

/-- The code points of texts of settings, where halves of surrogate pairs are among them. These are no characters,
so such a text cannot be encoded. -/
structure Settings.Halved where
  onSampleError : Option (List Text.Point) := none
  delimiter : Option (List Text.Point) := none
  version : Option (List Text.Point) := none
  deriving DecidableEq, Repr, Inhabited

structure Settings where
  /-- Seconds over which a thread group starts its threads. -/
  rampTime : Int
  /-- What a thread group does after a failed sample. -/
  onSampleError : String
  /-- The share of iterations of a controller that names none. -/
  defaultPercent : Number.Double
  /-- The longest chain of documents that include one another. -/
  maxIncludeDepth : Int
  /-- The delimiter of a data set that names none. -/
  delimiter : String
  /-- Whether a data set starts over at its end unless it says otherwise. -/
  recycle : Bool
  /-- The version written into a plan. -/
  version : String
  halved : Settings.Halved := {}
  deriving DecidableEq, Repr, Inhabited

def Settings.standard : Settings where
  rampTime := 1
  onSampleError := "continue"
  defaultPercent := .ofRat 15
  maxIncludeDepth := 16
  delimiter := ","
  recycle := true
  version := "5.0"

end LoadPlan
