/-! Arguments of the command line. -/
namespace LoadPlan.Console

/-- What the generate command is asked to do. -/
structure GenerateRequest where
  input : String
  output : String
  config : Option String
  report : Option String
  verbose : Bool
  deriving DecidableEq, Repr

inductive Request
  | version
  /-- How to use a command is explained elsewhere. -/
  | help
  | generate (r : GenerateRequest)
  | validate (path : String)
  deriving DecidableEq, Repr

namespace Arguments

/-- Options that take a value, those that do not, and whether an argument may come before an option. -/
structure Grammar where
  valued : List (String × String)
  flags : List (String × String)
  mixed : Bool

/-- Options in the order in which they were given, and the other arguments. -/
structure Parsed where
  options : List (String × String)
  arguments : List String
  deriving DecidableEq, Repr

namespace Parsed

def empty : Parsed := ⟨[], []⟩

def withArgument (a : String) (p : Parsed) : Parsed :=
  ⟨p.options, a :: p.arguments⟩

/-- The last value of an option. -/
def last? (p : Parsed) (name : String) : Option String :=
  p.options.reverse.lookup name

end Parsed

/-- The letters of an argument that begins with one hyphen: flags, and at most one option, whose value is
the rest of the argument. An option without such a rest asks for the next argument. -/
def letters (g : Grammar) : List Char → Option (List (String × String) × Option String)
  | [] => some ([], none)
  | c :: rest =>
    let short := String.ofList ['-', c]
    match g.valued.lookup short, g.flags.lookup short with
    | some name, _ =>
      if rest.isEmpty then some ([], some name) else some ([(name, String.ofList rest)], none)
    | none, some name => (letters g rest).map fun p => ((name, "") :: p.1, p.2)
    | none, none => none

/-- How an argument that begins with a hyphen is read: options with their values, and an option that
takes the next argument. -/
def option (g : Grammar) (a : String) : Option (List (String × String) × Option String) :=
  let cs := a.toList
  let long := String.ofList (cs.takeWhile (· != '='))
  let value := (cs.dropWhile (· != '=')).tail
  let attached := cs.contains '='
  let isLong := long.length != 2
  match (if isLong then g.valued.lookup long else none), (if isLong then g.flags.lookup long else none) with
  | some name, _ => if attached then some ([(name, String.ofList value)], none) else some ([], some name)
  | none, some name => if attached then none else some ([(name, "")], none)
  | none, none => if "--".toList.isPrefixOf cs then none else letters g cs.tail

def isOption (a : String) : Bool :=
  match a.toList with
  | '-' :: _ :: _ => true
  | _ => false

/-- Arguments read from left to right; none if they break the grammar. Two hyphens end the options. -/
def parse (g : Grammar) : List String → Option Parsed
  | [] => some .empty
  | a :: rest =>
    if a = "--" then some ⟨[], rest⟩
    else if isOption a then
      match option g a, rest with
      | none, _ => none
      | some (given, none), rest =>
        (parse g rest).map fun p => ⟨given ++ p.options, p.arguments⟩
      | some (_, some _), [] => none
      | some (given, some name), value :: rest =>
        (parse g rest).map fun p => ⟨given ++ (name, value) :: p.options, p.arguments⟩
    else if g.mixed then (parse g rest).map (·.withArgument a)
    else some ⟨[], a :: rest⟩

def top : Grammar := ⟨[], [("--version", "version"), ("--help", "help")], false⟩

def ofGenerate : Grammar where
  valued := [("--inputfile", "input"), ("-i", "input"), ("--outputfile", "output"), ("-o", "output"),
    ("--config", "config"), ("--export-report", "report")]
  flags := [("--verbose", "verbose"), ("-v", "verbose"), ("--help", "help")]
  mixed := true

def ofValidate : Grammar := ⟨[], [("--help", "help")], true⟩

def generate (args : List String) : Option Request := do
  let p ← parse ofGenerate args
  if (p.last? "help").isSome then return .help
  let input ← p.last? "input"
  let output ← p.last? "output"
  if !p.arguments.isEmpty then none
  return .generate {
    input, output
    config := p.last? "config"
    report := p.last? "report"
    verbose := (p.last? "verbose").isSome }

def validate (args : List String) : Option Request := do
  let p ← parse ofValidate args
  if (p.last? "help").isSome then return .help
  match p.arguments with
  | [path] => return .validate path
  | _ => none

/-- What comes first of the options that end the command at once. -/
def immediate? (p : Parsed) : Option Request :=
  match p.options with
  | [] => none
  | (name, _) :: _ => if name = "version" then some .version else some .help

def command (name : String) (args : List String) : Option Request :=
  match name with
  | "generate" => generate args
  | "validate" => validate args
  | _ => ((parse top (name :: args)).bind immediate?)

/-- What the arguments ask for; none if they cannot be understood. -/
def request? (args : List String) : Option Request := do
  let p ← parse top args
  match immediate? p with
  | some r => return r
  | none =>
    match p.arguments with
    | [] => none
    | name :: rest => command name rest

end Arguments

end LoadPlan.Console
