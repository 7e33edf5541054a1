import LoadPlan.Scenario.Entry

/-! Data sets that came along with controllers, to be moved to the top of a plan. -/
namespace LoadPlan.Scenario

mutual

/-- The data sets that come with the controllers of a step, each followed by those that come with
its own steps. A controller's own come before those of the controllers in it. -/
def Entry.hoisted : Entry → List DataSet
  | .controller c => c.hoisted
  | _ => []

def Controller.hoisted : Controller → List DataSet
  | ⟨_, _, stack, dataSets, _, _⟩ => hoistedWith dataSets ++ hoistedFrom stack

/-- Data sets, each followed by those that come with its steps. -/
def hoistedWith : List DataSet → List DataSet
  | [] => []
  | d :: ds => d :: (d.hoisted ++ hoistedWith ds)

/-- The data sets that come with steps. -/
def hoistedFrom : List Entry → List DataSet
  | [] => []
  | e :: es => e.hoisted ++ hoistedFrom es

/-- The data sets that come with the steps of a data set, repeated ones included. -/
def DataSet.hoisted : DataSet → List DataSet
  | ⟨_, _, _, _, _, stack, _, _, _⟩ => hoistedWithin stack

/-- The data sets that come with steps, looking into repetitions. -/
def hoistedWithin : List Entry → List DataSet
  | [] => []
  | .repeated items :: es => hoistedFrom items ++ hoistedWithin es
  | e :: es => e.hoisted ++ hoistedWithin es

end

/-- The data sets to be moved, for the steps and the data sets of a plan. -/
def hoisted (stack : List Entry) (dataSets : List DataSet) : List DataSet :=
  hoistedFrom stack ++ dataSets.flatMap DataSet.hoisted

end LoadPlan.Scenario
