import LoadPlan.Proofs.Jmx.Layout

/-! The requests of steps and of data sets, in the order in which they run. -/
namespace LoadPlan.Scenario

mutual

/-- The requests that a step has samplers for, in order. -/
def Entry.requests : Entry → List Request
  | .timer _ => []
  | .request r => [r]
  | .loop l => l.tests
  | .controller c => c.requests
  | .repeated _ => []

def Controller.requests : Controller → List Request
  | ⟨_, _, stack, _, _, _⟩ => requestsOf stack

def requestsOf : List Entry → List Request
  | [] => []
  | e :: es => e.requests ++ requestsOf es

end

/-- The requests of a step of a data set. Those of a repetition come again and again, all of them in each
round. -/
def Entry.requestsIn (rounds : Nat) : Entry → List Request
  | .repeated items => (List.replicate rounds (requestsOf items)).flatten
  | e => e.requests

def DataSet.requests (rounds : Nat) (d : DataSet) : List Request :=
  d.stack.flatMap (Entry.requestsIn rounds)

/-- Repetitions run once for each line of the file that is not blank, and not at all if the file cannot
be read. -/
def DataSet.times (disk : Storage.Disk) (d : DataSet) : Nat :=
  match d.rounds disk with
  | .ok n => n
  | .error _ => 0

theorem requestsOf_eq_flatMap (es : List Entry) : requestsOf es = es.flatMap Entry.requests := by
  induction es with
  | nil => rfl
  | cons e es ih => rw [requestsOf, ih, List.flatMap_cons]

theorem requestsOf_append (a b : List Entry) : requestsOf (a ++ b) = requestsOf a ++ requestsOf b := by
  simp only [requestsOf_eq_flatMap, List.flatMap_append]

theorem requestsOf_rounds (n : Nat) (items : List Entry) :
    requestsOf (List.replicate n items).flatten = (List.replicate n (requestsOf items)).flatten := by
  induction n with
  | zero => rfl
  | succ n ih =>
    rw [List.replicate_succ, List.flatten_cons, requestsOf_append, ih, List.replicate_succ,
      List.flatten_cons]

/-- What runs with a data set has the requests of its steps, as often as the file has lines. -/
theorem requestsOf_running (disk : Storage.Disk) (d : DataSet) :
    requestsOf (d.running disk) = d.requests (d.times disk) := by
  rw [requestsOf_eq_flatMap, DataSet.running, List.flatMap_assoc, DataSet.requests]
  congr 1
  funext e
  rw [← requestsOf_eq_flatMap]
  cases e with
  | repeated items =>
    unfold DataSet.expanded DataSet.times
    cases d.rounds disk with
    | ok n => exact requestsOf_rounds n items
    | error failure => rfl
  | _ => exact List.append_nil _

end LoadPlan.Scenario

/-- The requests of the steps of a plan, and then of those that run with its data sets. -/
def LoadPlan.Scenario.requests (disk : Storage.Disk) (s : Scenario) : List Scenario.Request :=
  Scenario.requestsOf s.stack ++
    s.allDataSets.flatMap fun d => Scenario.requestsOf (d.running disk)
