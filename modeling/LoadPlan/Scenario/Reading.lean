import LoadPlan.Description.Kind
import LoadPlan.Number.Decimal
import LoadPlan.Scenario.Entry
import LoadPlan.Settings
import LoadPlan.Text.Character

/-! Records read from the elements of a description. -/
namespace LoadPlan.Scenario

open LoadPlan.Description (Node Kind)

/-- What is kept while documents are read: how many controllers were met, and the problems so far. -/
structure Log where
  controllers : Nat
  diagnostics : List Diagnostic
  deriving DecidableEq, Repr, Inhabited

namespace Log

def empty : Log := ⟨0, []⟩

/-- The first failure of the disk that ends the reading of a description. -/
def refusal? (log : Log) : Option Storage.Failure :=
  log.diagnostics.findSome? (·.problem.refusal?)

/-- The log up to that failure. -/
def beforeRefusal (log : Log) : Log :=
  { log with diagnostics := log.diagnostics.takeWhile fun d => d.problem.refusal?.isNone }

end Log

abbrev Reading := StateM Log

def report (p : Problem) (n : Node) : Reading Unit :=
  modify fun log => { log with diagnostics := log.diagnostics ++ [⟨p, n.place⟩] }

/-- The elements of a kind that have elements in them. -/
def filled (kind : Kind) (ns : List Node) : List Node :=
  ns.filter fun n => n.kind == kind && n.hasChildren

/-- Take a field, or report a problem and take a default. -/
def orDefault (field : Option String) (fallback : String) (p : Problem) (n : Node) :
    Reading String :=
  match field with
  | some value => return value
  | none => do
    report p n
    return fallback

namespace Timer

def required : List String := ["name", "delay", "range"]

/-- A timer needs all of its fields. -/
def ofNode (n : Node) : Except Problem Timer :=
  let fs := n.fields
  match fs.get? "name", fs.get? "delay", fs.get? "range" with
  | some name, some delay, some range => .ok ⟨name, delay, range⟩
  | _, _, _ => .error (.timerLacks (required.filter fun key => (fs.get? key).isNone))

/-- A timer, if it is complete; otherwise the problem is reported. -/
def read? (n : Node) : Reading (Option Timer) :=
  match ofNode n with
  | .ok t => return some t
  | .error p => do
    report p n
    return none

end Timer

/-- Elements whose name begins with this word, in any case of letters, hold literals. -/
def isLiteral (n : Node) : Bool :=
  "assert".toList.isPrefixOf (Text.lower n.name).toList

/-- A condition, its fields taken from the attributes and, before them, from the elements. -/
def Assertion.ofNode (n : Node) : Assertion :=
  let fs := (n.children.filter fun c => !isLiteral c).foldl (fun fs c => fs.set c.name c.content)
    n.attributes
  { negate := (fs.get? "not").any fun v => occurs "true".toList (Text.lower v).toList
    type := fs.getD "type" standard.type
    name := fs.getD "name" standard.name
    literals := (n.children.filter isLiteral).map (·.content) }

def Extractor.ofNode (n : Node) : Extractor :=
  .ofFields n.fields

def Upload.ofNode (n : Node) : Upload :=
  let fs := n.fields
  ⟨fs.getD "filename" "", fs.getD "mimetype" "", fs.getD "name_value" ""⟩

/-- Parameters; elements without a name attribute are passed over. -/
def Parameters.ofNode (n : Node) : Parameters where
  attributes := n.attributes
  pairs := n.children.filterMap fun c => (c.attributes.get? "name").map (·, c.content)

namespace Results

/-- Results as described; what is empty is filled in by the request. -/
def ofNode (n : Node) : Results :=
  let fs := n.fields
  ⟨fs.getD "result_file" (fs.getD "resultfile" ""), fs.getD "name" "", fs.getD "type" ""⟩

/-- Fill in what is empty: the name of the request, and defaults, which are reported. -/
def complete (r : Results) (requestName : String) (n : Node) : Reading Results := do
  let file ← orDefault (if r.file.isEmpty then none else some r.file) standard.file .noResultFile n
  let type ← orDefault (if r.type.isEmpty then none else some r.type) standard.type .noResultType n
  return ⟨file, if r.name.isEmpty then requestName else r.name, type⟩

end Results

namespace Request

/-- The kinds of elements that are parts of a request. -/
def partKinds : List Kind := [.timer, .asserts, .regex, .results, .upload, .data]

/-- The fields of a request that have a place of their own. -/
def known : List String := ["domain", "path", "port", "protocol", "method", "name"]

def fieldNodes (n : Node) : List Node :=
  n.children.filter fun c => !partKinds.contains c.kind

/-- Whether some part other than a timer is described. -/
def describesParts (n : Node) : Bool :=
  [Kind.asserts, .regex, .results, .upload].any fun k => !(filled k n.children).isEmpty

def ofNode (n : Node) : Reading Request := do
  let timers ← (filled .timer n.children).filterMapM Timer.read?
  let fs := Node.fieldsOf (fieldNodes n)
  let path := fs.getD "path" ""
  let method ← orDefault (fs.get? "method") standard.method .noMethod n
  let fallback := method ++ " " ++ path
  let name ← orDefault (fs.get? "name") fallback (.noRequestName fallback) n
  let results ← match (filled .results n.children).getLast? with
    | some r => some <$> (Results.ofNode r).complete name n
    | none => pure none
  return {
    name, path, method, timers, results
    domain := fs.getD "domain" ""
    port := fs.getD "port" ""
    protocol := fs.getD "protocol" ""
    upload := (filled .upload n.children).getLast?.map Upload.ofNode
    assertions := (filled .asserts n.children).map Assertion.ofNode
    extractors := (filled .regex n.children).map Extractor.ofNode
    parameters := (n.children.filter (·.kind == .data)).getLast?.map Parameters.ofNode
    hasParts := describesParts n
    extra := fs.without known
    line := n.line }

end Request

/-- Only the word false turns a flag off. -/
def isOn (value : Option String) : Bool :=
  match value with
  | some v => Text.lower (Text.strip v) != "false"
  | none => true

namespace Loop

/-- The number of rounds, if it is a whole number. -/
def rounds (field : Option String) : Except Problem Int :=
  match field with
  | none => .error .noCount
  | some text =>
    match Number.Integer.read? (Text.strip text) with
    | some n => .ok n
    | none => .error (.badCount text)

/-- A loop without end has the count -1. -/
def ofNode (n : Node) : Reading Loop := do
  let tests ← (n.children.filter (·.kind == .http)).mapM Request.ofNode
  let fs := Node.fieldsOf (n.children.filter (·.kind != .http))
  let forever := isOn (fs.get? "forever")
  let times ←
    if forever then pure (-1)
    else match rounds (fs.get? "count") with
      | .ok k => pure k
      | .error p => do
        report p n
        pure 0
  return ⟨fs.getD "name" "", times, forever, tests, n.line⟩

end Loop

/-- What the elements are read with: the disk, the settings, and what a script element brings in. -/
structure Context where
  disk : Storage.Disk
  settings : Settings
  spliced : Node → Reading (List Entry × List DataSet)

namespace Controller

/-- The share of iterations: the number the text starts with, if it is finite. -/
def share (settings : Settings) (field : Option String) : Except Problem Number.Double :=
  match field with
  | none => .error (.noPercent settings.defaultPercent)
  | some text =>
    match Number.Decimal.leading? text with
    | none => .error (.badPercent text settings.defaultPercent)
    | some d =>
      if d.toDouble.isFinite then .ok d.toDouble
      else .error (.infinitePercent text settings.defaultPercent)

/-- The kinds of elements that are steps of a controller or bring in steps. -/
def stepKinds : List Kind := [.http, .loop, .controller, .script]

/-- Both spellings of the share are known. -/
def known : List String := ["name", "percent", "precent"]

mutual

/-- Controllers are numbered as they begin, an outer one before those in it. -/
def ofNode (ctx : Context) : Node → Reading Controller
  | ⟨name, children, attributes, content, line, source⟩ => do
    let node : Node := ⟨name, children, attributes, content, line, source⟩
    let ordinal := (← get).controllers
    modify fun log => { log with controllers := log.controllers + 1 }
    let (stack, dataSets) ← steps ctx children
    let fs := Node.fieldsOf (children.filter fun c => !stepKinds.contains c.kind)
    let fallback := s!"My Controller: {ordinal}"
    let name ← orDefault (fs.get? "name") fallback (.noControllerName fallback) node
    let used ← match share ctx.settings (fs.get? "percent" <|> fs.get? "precent") with
      | .ok p => pure p
      | .error p => do
        report p node
        pure ctx.settings.defaultPercent
    return ⟨name, used, stack, dataSets, fs.without known, line⟩

/-- The steps among elements, and the data sets that scripts bring in. -/
def steps (ctx : Context) : List Node → Reading (List Entry × List DataSet)
  | [] => return ([], [])
  | c :: cs => do
    let (here, sets) ← match c.kind with
      | .http => do
        let r ← Request.ofNode c
        pure ([Entry.request r], [])
      | .loop => do
        let l ← Loop.ofNode c
        pure ([Entry.loop l], [])
      | .controller => do
        let k ← ofNode ctx c
        pure ([Entry.controller k], [])
      | .script => if c.hasChildren then ctx.spliced c else pure ([], [])
      | _ => pure ([], [])
    let (after, more) ← steps ctx cs
    return (here ++ after, sets ++ more)

end

end Controller

/-- The step an element is, in a data set or a repetition. -/
def step? (ctx : Context) (n : Node) : Reading (Option Entry) :=
  match n.kind with
  | .http => do
    let r ← Request.ofNode n
    return some (.request r)
  | .controller => do
    let c ← Controller.ofNode ctx n
    return some (.controller c)
  | .loop => do
    let l ← Loop.ofNode n
    return some (.loop l)
  | _ => return none

/-- Steps to be repeated for each line of a file. -/
def repetition (ctx : Context) (n : Node) : Reading Entry := do
  let items ← n.children.filterMapM (step? ctx)
  return .repeated items

namespace DataSet

/-- The kinds of elements that are steps of a data set. -/
def stepKinds : List Kind := [.http, .controller, .loop, .repeated]

def known : List String := ["name", "varnames", "filename", "delimiter", "recycle"]

def ofNode (ctx : Context) (n : Node) : Reading DataSet := do
  let stack ← n.children.filterMapM fun c =>
    if c.kind == .repeated then
      if c.hasChildren then some <$> repetition ctx c else pure none
    else step? ctx c
  let fs := Node.fieldsOf (n.children.filter fun c => !stepKinds.contains c.kind)
  let filename ← orDefault (fs.get? "filename") "" .noFilename n
  return {
    filename, stack
    name := fs.getD "name" ""
    columns := fs.getD "varnames" ""
    delimiter := fs.getD "delimiter" ctx.settings.delimiter
    recycle := match fs.get? "recycle" with
      | some v => isOn (some v)
      | none => ctx.settings.recycle
    directory := n.directory ctx.disk
    extra := fs.without known
    line := n.line }

end DataSet

end LoadPlan.Scenario
