import LoadPlan.Text.Quoted

/-! Failures of file operations and their wording. -/
namespace LoadPlan.Storage

inductive Cause
  | notFound
  | notPermitted
  | alreadyExists
  | notDirectory
  | isDirectory
  | nameTooLong
  | tooManyLinks
  deriving DecidableEq, Repr

/-- Why an operation failed, and the path it was asked for. -/
structure Failure where
  cause : Cause
  path : String
  deriving DecidableEq, Repr

def Cause.number : Cause → Nat
  | .notFound => 2
  | .notPermitted => 13
  | .alreadyExists => 17
  | .notDirectory => 20
  | .isDirectory => 21
  | .nameTooLong => 36
  | .tooManyLinks => 40

def Cause.words : Cause → String
  | .notFound => "No such file or directory"
  | .notPermitted => "Permission denied"
  | .alreadyExists => "File exists"
  | .notDirectory => "Not a directory"
  | .isDirectory => "Is a directory"
  | .nameTooLong => "File name too long"
  | .tooManyLinks => "Too many levels of symbolic links"

/-- A lookup that fails so has found out that nothing is there. -/
def Cause.isAbsence : Cause → Bool
  | .notFound | .notDirectory | .tooManyLinks => true
  | _ => false

def Failure.message (f : Failure) : String :=
  s!"[Errno {f.cause.number}] {f.cause.words}: {Text.Quoted.encode f.path}"

end LoadPlan.Storage
