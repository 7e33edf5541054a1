import LoadPlan.Number.Double
import LoadPlan.Scenario.Request
import LoadPlan.Storage.Path

/-! What a description asks to be run. -/
namespace LoadPlan.Scenario

mutual

/-- A step. Repeated steps have their place only in data sets. -/
inductive Entry
  | timer (timer : Timer)
  | request (request : Request)
  | loop (loop : Loop)
  | controller (controller : Controller)
  | repeated (items : List Entry)

/-- Steps run in a share of the iterations, with the data sets that came along with them. -/
structure Controller where
  name : String
  percent : Number.Double
  stack : List Entry
  dataSets : List DataSet
  extra : Fields
  line : Nat

/-- A file of values, and the steps that run with them. -/
structure DataSet where
  name : String
  filename : String
  columns : String
  delimiter : String
  recycle : Bool
  stack : List Entry
  /-- The directory of the document it is described in. -/
  directory : Option Storage.Path
  extra : Fields
  line : Nat

end

instance : Inhabited Entry := ⟨.repeated []⟩

instance : Inhabited Controller := ⟨⟨"", .zero, [], [], [], 0⟩⟩

instance : Inhabited DataSet := ⟨⟨"", "", "", "", false, [], none, [], 0⟩⟩

namespace DataSet

def standard : DataSet := ⟨"", "", "", ",", true, [], none, [], 0⟩

end DataSet

namespace Controller

def standard : Controller := ⟨"", .ofRat 15, [], [], [], 0⟩

end Controller

end LoadPlan.Scenario
