import LoadPlan.Jmx.Fragment
import LoadPlan.Number.Shortest
import LoadPlan.Scenario.Entry
import LoadPlan.Settings
import LoadPlan.Text.Bytes

/-! The elements of a plan, one by one. -/
namespace LoadPlan.Jmx

open LoadPlan.Markup (Element)
open LoadPlan.Scenario

/-- An element that holds only text. -/
def leaf (tag : String) (attributes : List (String × String)) (text : String) : Element :=
  ⟨tag, attributes, text, []⟩

def stringProp (name text : String) : Element :=
  leaf "stringProp" [("name", name)] text

def boolText (b : Bool) : String :=
  if b then "true" else "false"

def boolProp (name : String) (b : Bool) : Element :=
  leaf "boolProp" [("name", name)] (boolText b)

def intProp (name text : String) : Element :=
  leaf "intProp" [("name", name)] text

def collectionProp (name : String) (children : List Element) : Element :=
  ⟨"collectionProp", [("name", name)], "", children⟩

/-- The attributes of everything that the user interface shows. -/
def shown (gui kind name : String) : List (String × String) :=
  [("guiclass", gui), ("testclass", kind), ("testname", name), ("enabled", "true")]

/-- A component of a plan. -/
def component (kind gui name : String) (properties : List Element) : Element :=
  ⟨kind, shown gui kind name, "", properties⟩

def elementProp (name type : String) (more : List (String × String)) (children : List Element) :
    Element :=
  ⟨"elementProp", [("name", name), ("elementType", type)] ++ more, "", children⟩

def timer (t : Timer) : Element :=
  component "GaussianRandomTimer" "GaussianRandomTimerGui" s!"Gaussian Timer: {t.name}"
    [stringProp "ConstantTimer.delay" t.delay, stringProp "RandomTimer.range" t.range]

/-- An extractor without a name is shown under the name of its variable. -/
def extractor (e : Extractor) : Element :=
  let name := if e.name.isEmpty then e.reference else e.name
  component "RegexExtractor" "RegexExtractorGui" s!"Regular Expression Extractor: {name}"
    [stringProp "RegexExtractor.useHeaders" e.useHeaders,
     stringProp "RegexExtractor.refname" e.reference,
     stringProp "RegexExtractor.regex" e.expression,
     stringProp "RegexExtractor.template" e.template,
     stringProp "RegexExtractor.default" e.fallback,
     stringProp "RegexExtractor.match_number" e.matchNumber]

/-- A literal is filed under its checksum. -/
def literal (text : String) : Element :=
  stringProp (Nat.repr (Text.crc32 (Text.Utf8.encode text)).toNat) text

def assertion (a : Assertion) : Element :=
  component "ResponseAssertion" "AssertionGui" s!"Response Assertion: {a.name}"
    [collectionProp "Asserion.test_strings" (a.literals.map literal),
     stringProp "Assertion.test_field" "Assertion.response_data",
     boolProp "Assertion.assume_success" false,
     intProp "Assertion.test_type" (Nat.repr a.testType)]

/-- What a collector writes for each sample. -/
def savedItems : List (String × String) :=
  [("time", "true"), ("latency", "true"), ("timestamp", "true"), ("success", "true"),
   ("label", "true"), ("code", "true"), ("message", "true"), ("threadName", "true"),
   ("dataType", "true"), ("encoding", "false"), ("assertions", "true"), ("subresults", "true"),
   ("responseData", "false"), ("samplerData", "false"), ("xml", "false"), ("fieldNames", "false"),
   ("responseHeaders", "false"), ("requestHeaders", "false"), ("responseDataOnError", "false"),
   ("saveAssertionResultsFailureMessage", "true"), ("assertionsResultsToSave", "0")]

def collector (gui name filename : String) : Element :=
  component "ResultCollector" gui name
    [boolProp "ResultCollector.error_logging" false,
     ⟨"objProp", [], "",
       [leaf "name" [] "saveConfig",
        ⟨"value", [("class", "SampleSaveConfiguration")], "",
          savedItems.map fun item => leaf item.1 [] item.2⟩]⟩,
     stringProp "filename" filename]

def results (r : Results) : Element :=
  collector r.type s!"{r.name}: Results" r.file

/-- A parameter of a request. -/
def argument (name value : String) : Element :=
  elementProp name "HTTPArgument" []
    [boolProp "HTTPArgument.always_encode" false, stringProp "Argument.name" name,
     stringProp "Argument.value" value, stringProp "Argument.metadata" "=",
     boolProp "HTTPArgument.use_equals" true]

def arguments (pairs : List (String × String)) : Element :=
  elementProp "HTTPsampler.Arguments" "Arguments"
    (shown "HTTPArgumentsPanel" "Arguments" "User Defined Variables")
    [collectionProp "Arguments.arguments" (pairs.map fun p => argument p.1 p.2)]

def upload (u : Upload) : Element :=
  elementProp "HTTPsampler.Files" "HTTPFileArgs" []
    [collectionProp "HTTPFileArgs.files"
      [elementProp u.filename "HTTPFileArg" []
        [stringProp "File.path" u.filename, stringProp "File.paramname" u.parameter,
         stringProp "File.mimetype" u.mimeType]]]

def sampler (r : Request) : Element :=
  component "HTTPSamplerProxy" "HttpTestSampleGui" r.name
    (arguments r.pairs :: (r.upload.toList.map upload ++
      [stringProp "HTTPSampler.domain" r.domain, stringProp "HTTPSampler.port" r.port,
       stringProp "HTTPSampler.protocol" r.protocol, stringProp "HTTPSampler.path" r.path,
       stringProp "HTTPSampler.method" r.method, boolProp "HTTPSampler.follow_redirects" true,
       boolProp "HTTPSampler.auto_redirects" false, boolProp "HTTPSampler.use_keepalive" true]))

def loop (name count : String) (forever : Bool) : Element :=
  component "LoopController" "LoopControlPanel" s!"Loop Controller: {name}"
    [intProp "LoopController.loops" count, boolProp "LoopController.continue_forever" forever]

def genericController (name : String) : Element :=
  component "GenericController" "LogicControllerGui" s!"Simple Controller: {name}" []

/-- The share of iterations is written as a number and as its integer part. -/
def throughputController (name : String) (share : Number.Double) (part : Int) : Element :=
  component "ThroughputController" "ThroughputControllerGui" s!"Throughput Controller: {name}"
    [⟨"FloatProperty", [], "",
       [leaf "name" [] "ThroughputController.percentThroughput", leaf "value" [] share.text,
        leaf "savedValue" [] (Number.Integer.text part)]⟩,
     boolProp "ThroughputController.perThread" true,
     intProp "ThroughputController.style" "1",
     intProp "ThroughputController.maxThroughput" "1"]

/-- A group that runs what it holds once in each thread. -/
def threadGroup (onSampleError name threads rampTime : String) : Element :=
  component "ThreadGroup" "ThreadGroupGui" name
    [stringProp "ThreadGroup.on_sample_error" onSampleError,
     elementProp "ThreadGroup.main_controller" "LoopController"
       (shown "LoopControlPanel" "LoopController" "Loop Controller")
       [boolProp "LoopController.continue_forever" false, stringProp "LoopController.loops" "1"],
     stringProp "ThreadGroup.num_threads" threads,
     stringProp "ThreadGroup.ramp_time" rampTime,
     boolProp "ThreadGroup.scheduler" false,
     stringProp "ThreadGroup.duration" "",
     stringProp "ThreadGroup.delay" ""]

/-- Cookies are kept from one iteration to the next. -/
def cookieManager : Element :=
  component "CookieManager" "CookiePanel" "HTTP Cookie Manager"
    [collectionProp "CookieManager.cookies" [], boolProp "CookieManager.clearEachIteration" false]

def dataSet (d : DataSet) : Element :=
  component "CSVDataSet" "TestBeanGUI" s!"CSV Data Set Config: {d.name}"
    [stringProp "delimiter" d.delimiter, stringProp "fileEncoding" "",
     stringProp "filename" d.filename, boolProp "quotedData" false, boolProp "recycle" d.recycle,
     stringProp "shareMode" "shareMode.all", boolProp "stopThread" false,
     stringProp "variableNames" d.columns]

def testPlan (name : String) : Element :=
  component "TestPlan" "TestPlanGui" name
    [stringProp "TestPlan.comments" "", boolProp "TestPlan.functional_mode" true,
     boolProp "TestPlan.serialize_threadgroups" false,
     stringProp "TestPlan.user_define_classpath" "",
     elementProp "TestPlan.user_defined_variables" "Arguments"
       (shown "ArgumentsPanel" "Arguments" "User Defined Variables")
       [collectionProp "Arguments.arguments" []]]

end LoadPlan.Jmx
