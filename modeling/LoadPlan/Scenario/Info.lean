import LoadPlan.Diagnostic
import LoadPlan.Fields

/-! What a description says of the plan as a whole. -/
namespace LoadPlan.Scenario

abbrev Info := Fields

/-- A value, and the problem if it is a default that was not asked for. -/
structure Resolved where
  value : String
  problem : Option Problem
  deriving DecidableEq, Repr

namespace Info

def orReport (i : Info) (name fallback : String) (p : Problem) : Resolved :=
  match Fields.get? i name with
  | some value => ⟨value, none⟩
  | none => ⟨fallback, some p⟩

def orSilently (i : Info) (name fallback : String) : Resolved :=
  ⟨Fields.getD i name fallback, none⟩

def planName (i : Info) : Resolved :=
  orReport i "name" "Test Plan" .noPlanName

def threads (i : Info) : Resolved :=
  orSilently i "numthreads" "1"

def assertLog (i : Info) : Resolved :=
  orReport i "assertlog" "assert.log" .noAssertLog

def assertType (i : Info) : Resolved :=
  orSilently i "asserttype" "AssertionVisualizer"

/-- The ramp time, or a number in its stead; none if that has too many digits to be written. -/
def rampTime? (i : Info) (fallback : Int) : Option Resolved :=
  match Fields.get? i "rampup" with
  | some value => some ⟨value, none⟩
  | none => (Number.Integer.text? fallback).map (⟨·, none⟩)

end Info

end LoadPlan.Scenario
