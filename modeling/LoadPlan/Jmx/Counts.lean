/-! How many elements of each kind a plan has. -/
namespace LoadPlan.Jmx

structure Counts where
  samplers : Nat
  timers : Nat
  assertions : Nat
  extractors : Nat
  loops : Nat
  controllers : Nat
  dataSets : Nat
  threadGroups : Nat
  collectors : Nat
  deriving DecidableEq, Repr, Inhabited

namespace Counts

def zero : Counts := ⟨0, 0, 0, 0, 0, 0, 0, 0, 0⟩

/-- The counts under the names by which they are reported, in their order. -/
def toList (c : Counts) : List (String × Nat) :=
  [("samplers", c.samplers), ("timers", c.timers), ("assertions", c.assertions),
   ("extractors", c.extractors), ("loops", c.loops), ("controllers", c.controllers),
   ("csv_data_sets", c.dataSets), ("thread_groups", c.threadGroups),
   ("result_collectors", c.collectors)]

/-- One line about a plan. -/
def summary (c : Counts) : String :=
  s!"Generated JMX test plan with {c.samplers} HTTP samplers, {c.timers} timers, " ++
    s!"{c.assertions} assertions and {c.threadGroups} thread groups."

end Counts

end LoadPlan.Jmx
