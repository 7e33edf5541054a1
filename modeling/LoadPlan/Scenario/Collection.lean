import LoadPlan.Description.Reader
import LoadPlan.Scenario.Info
import LoadPlan.Scenario.Reading

/-! The contents of a description and of the documents it includes. -/
namespace LoadPlan

/-- All that is to be run, in order, and what is said of the plan as a whole. -/
structure Scenario where
  stack : List Scenario.Entry
  dataSets : List Scenario.DataSet
  info : Scenario.Info

namespace Scenario

open LoadPlan.Description (Node Kind)

instance : Inhabited Scenario := ⟨⟨[], [], []⟩⟩

def empty : Scenario := ⟨[], [], []⟩

def append (s t : Scenario) : Scenario :=
  ⟨s.stack ++ t.stack, s.dataSets ++ t.dataSets, t.info.foldl (fun i f => Fields.set i f.1 f.2) s.info⟩

/-- What one element at the top of a document contributes. -/
def ofElement (ctx : Context) (n : Node) : Reading Scenario := do
  match n.kind with
  | .timer =>
    if n.hasChildren then
      let t ← Timer.read? n
      return ⟨t.toList.map .timer, [], []⟩
    else return empty
  | .loop =>
    if n.hasChildren then
      let l ← Loop.ofNode n
      return ⟨[.loop l], [], []⟩
    else return empty
  | .controller =>
    if n.hasChildren then
      let c ← Controller.ofNode ctx n
      return ⟨[.controller c], [], []⟩
    else return empty
  | .testinfo => return ⟨[], [], n.fields⟩
  | .http =>
    let r ← Request.ofNode n
    return ⟨[.request r], [], []⟩
  | .csv =>
    if n.hasChildren then
      let d ← DataSet.ofNode ctx n
      return ⟨[], [d], []⟩
    else return empty
  | .script =>
    if n.hasChildren then
      let (stack, dataSets) ← ctx.spliced n
      return ⟨stack, dataSets, []⟩
    else return empty
  | _ => return empty

/-- What the elements at the top of a document contribute. -/
def ofElements (ctx : Context) : List Node → Reading Scenario
  | [] => return empty
  | n :: ns => do
    let here ← ofElement ctx n
    let after ← ofElements ctx ns
    return here.append after

/-- The document a script names: next to the document it stands in, or else in the working
directory. A document may not include itself, however far away, nor be too deep. -/
def included (disk : Storage.Disk) (settings : Settings) (chain : List Storage.Path) (n : Node) :
    Except Problem Storage.Path :=
  let name := n.content
  if name.isEmpty then .error .noIncludeName
  else
    let path := Storage.Path.ofString name
    let beside := if path.isAbsolute then [] else (n.directory disk).toList.map (·.join path)
    match disk.firstFile (beside ++ [path]) with
    | .error failure => .error (.includeRefused failure)
    | .ok none => .error (.includeMissing name)
    | .ok (some found) =>
      let place := disk.resolve found
      if chain.contains place then .error (.includeCircular name)
      else if settings.maxIncludeDepth < chain.length then
        .error (.includeTooDeep name settings.maxIncludeDepth)
      else .ok place

/-- Why a document that was found is not taken in. -/
def unreadable : Description.ReadError → Problem
  | .missing path => .includeVanished path
  | .malformed source => .includeMalformed source
  | .refused failure => .includeRefused failure

/-- The document at a place. -/
def includedDocument (disk : Storage.Disk) (place : Storage.Path) : Except Problem Node :=
  (Description.ofFile disk place.text).mapError unreadable

/-- Take in one document named by a script. -/
def splice (disk : Storage.Disk) (settings : Settings) (chain : List Storage.Path)
    (inside : List Storage.Path → Node → Reading Scenario) (n : Node) : Reading Scenario :=
  match included disk settings chain n with
  | .error p => do
    report p n
    return empty
  | .ok place =>
    match includedDocument disk place with
    | .error p => do
      report p n
      return empty
    | .ok root => inside (chain ++ [place]) root

/-- Take in the documents named by a script, leaving out what they say of the plan. -/
def spliceAll (disk : Storage.Disk) (settings : Settings) (chain : List Storage.Path)
    (inside : List Storage.Path → Node → Reading Scenario) :
    List Node → Reading (List Entry × List DataSet)
  | [] => return ([], [])
  | n :: ns => do
    let here ← if n.name = "file" then splice disk settings chain inside n else pure empty
    let (stack, dataSets) ← spliceAll disk settings chain inside ns
    return (here.stack ++ stack, here.dataSets ++ dataSets)

/-- The contents of a document, which may include others as often as the depth allows. The chain holds
the documents being read; past the depth nothing is included any more. -/
def ofDocument (disk : Storage.Disk) (settings : Settings) :
    Nat → List Storage.Path → Node → Reading Scenario
  | 0, chain, root =>
    ofElements ⟨disk, settings, fun script =>
      spliceAll disk settings chain (fun _ _ => pure empty) script.children⟩ root.children
  | depth + 1, chain, root =>
    ofElements ⟨disk, settings, fun script =>
      spliceAll disk settings chain (ofDocument disk settings depth) script.children⟩ root.children

/-- How many documents may still be included one in another. -/
def depthLeft (settings : Settings) (chain : List Storage.Path) : Nat :=
  (settings.maxIncludeDepth + 1 - chain.length).toNat

/-- The contents of a description, as if the disk answered every lookup. A refusal stands in the log. -/
def ofDescription (disk : Storage.Disk) (settings : Settings) (root : Node) : Reading Scenario :=
  let chain := if Node.isFileSource root.source then [disk.resolve (.ofString root.source)] else []
  ofDocument disk settings (depthLeft settings chain) chain root

/-- The contents of a description, unless the disk refuses a lookup on the way. What was reported before that
is kept; what was read after it does not count. -/
def collect (disk : Storage.Disk) (settings : Settings) (root : Node) :
    ExceptT Storage.Failure (StateM Log) Scenario := fun log =>
  let (s, after) := (ofDescription disk settings root).run log
  match after.refusal? with
  | none => (.ok s, after)
  | some failure => (.error failure, after.beforeRefusal)

theorem run_collect (disk : Storage.Disk) (settings : Settings) (main : Node) (log : Log) :
    (collect disk settings main).run log =
      match ((ofDescription disk settings main).run log).2.refusal? with
      | none => (.ok ((ofDescription disk settings main).run log).1, ((ofDescription disk settings main).run log).2)
      | some failure => (.error failure, ((ofDescription disk settings main).run log).2.beforeRefusal) :=
  rfl

end Scenario

end LoadPlan
