import Mathlib.Data.List.Induction
import LoadPlan.Proofs.Jmx.Parts
import LoadPlan.Proofs.Scenario.Numbering

/-! Later elements override earlier ones of the same name: a record takes the last of them, and keeps the fields it
has no place for once each, in the order in which their names first come. -/
namespace LoadPlan

theorem eraseDups_concat {α : Type} [DecidableEq α] (as : List α) (b : α) :
    (as ++ [b]).eraseDups = if b ∈ as then as.eraseDups else as.eraseDups ++ [b] := by
  rw [List.eraseDups_append, List.removeAll, List.filter_singleton]
  by_cases hb : b ∈ as <;> simp [hb, List.eraseDups_cons]

theorem eraseDups_filter {α : Type} [DecidableEq α] (p : α → Bool) (as : List α) :
    (as.filter p).eraseDups = as.eraseDups.filter p := by
  induction as using List.reverseRecOn with
  | nil => rfl
  | append_singleton as b ih =>
    rw [List.filter_append, List.filter_singleton, eraseDups_concat]
    cases hp : p b with
    | false =>
      rw [cond_false, List.append_nil, ih]
      split <;> simp [hp]
    | true =>
      rw [cond_true, eraseDups_concat, ih]
      by_cases hb : b ∈ as <;> simp [hb, hp]

theorem eraseDups_append_eraseDups {α : Type} [DecidableEq α] (as bs : List α) :
    (as ++ bs.eraseDups).eraseDups = (as ++ bs).eraseDups := by
  induction bs using List.reverseRecOn with
  | nil => rfl
  | append_singleton bs b ih =>
    rw [eraseDups_concat, ← List.append_assoc, eraseDups_concat]
    by_cases hb : b ∈ bs
    · rw [if_pos hb, if_pos (List.mem_append_right _ hb), ih]
    · rw [if_neg hb, ← List.append_assoc, eraseDups_concat, ih]
      simp only [List.mem_append, List.mem_eraseDups]

namespace Fields

variable {fs gs : Fields} {ps qs : List (String × String)} {name value : String}

/-- The value that comes last under a name. -/
def lastOf? (ps : List (String × String)) (name : String) : Option String :=
  ((ps.filter (·.1 == name)).getLast?).map Prod.snd

theorem lastOf?_append (ps qs : List (String × String)) (name : String) :
    lastOf? (ps ++ qs) name = (lastOf? qs name).or (lastOf? ps name) := by
  simp only [lastOf?, List.filter_append, List.getLast?_append, Option.map_or]

theorem get?_foldl_set (fs : Fields) (ps : List (String × String)) (name : String) :
    Fields.get? (ps.foldl (fun fs p => fs.set p.1 p.2) fs) name = (lastOf? ps name).or (fs.get? name) := by
  induction ps using List.reverseRecOn with
  | nil => rfl
  | append_singleton ps p ih =>
    rw [List.foldl_append, List.foldl_cons, List.foldl_nil, get?_set, ih, lastOf?_append]
    by_cases hp : p.1 = name
    · simp [lastOf?, hp]
    · simp [lastOf?, hp, Ne.symm hp]

/-- Fields say what pairs say in turn: each name comes once, in the order in which the names first come, with the
value that comes last. -/
structure Merges (ps : List (String × String)) (fs : Fields) : Prop where
  names : fs.map Prod.fst = (ps.map Prod.fst).eraseDups
  once : fs.Distinct
  values : ∀ name, fs.get? name = lastOf? ps name

theorem names_set (fs : Fields) (name value : String) :
    (fs.set name value).map Prod.fst =
      if name ∈ fs.map Prod.fst then fs.map Prod.fst else fs.map Prod.fst ++ [name] := by
  split
  · next h => exact keys_set_of_mem h
  · next h => rw [set_of_notMem h, List.map_append, List.map_singleton]

theorem names_foldl_set {names : List String} (h : fs.map Prod.fst = names.eraseDups)
    (ps : List (String × String)) :
    (ps.foldl (fun fs p => fs.set p.1 p.2) fs).map Prod.fst = (names ++ ps.map Prod.fst).eraseDups := by
  induction ps using List.reverseRecOn with
  | nil => rw [List.foldl_nil, List.map_nil, List.append_nil, h]
  | append_singleton ps p ih =>
    rw [List.foldl_append, List.foldl_cons, List.foldl_nil, names_set, ih, List.map_append,
      List.map_singleton, ← List.append_assoc, eraseDups_concat]
    simp only [List.mem_eraseDups]

theorem get?_ofPairs (ps : List (String × String)) (name : String) :
    (ofPairs ps).get? name = lastOf? ps name := by
  rw [ofPairs, get?_foldl_set]
  exact Option.or_none

theorem merges_ofPairs (ps : List (String × String)) : Merges ps (ofPairs ps) where
  names := @names_foldl_set [] [] rfl ps
  once := @Distinct.foldl_set [] List.nodup_nil ps
  values := get?_ofPairs ps

theorem Distinct.get?_eq (h : fs.Distinct) (name : String) : fs.get? name = lastOf? fs name := by
  rw [← get?_ofPairs, h.ofPairs_eq]

/-- Fields that say what pairs say are set in their stead. -/
theorem Merges.foldl_set (hf : Merges ps fs) (hg : Merges qs gs) :
    Merges (ps ++ qs) (gs.foldl (fun fs g => fs.set g.1 g.2) fs) where
  names := by
    rw [names_foldl_set hf.names, hg.names, eraseDups_append_eraseDups, List.map_append]
  once := hf.once.foldl_set gs
  values name := by
    rw [get?_foldl_set, ← hg.once.get?_eq, hg.values, hf.values, lastOf?_append]

theorem lastOf?_filter (p : String → Bool) (ps : List (String × String)) (name : String) :
    lastOf? (ps.filter fun f => p f.1) name = if p name then lastOf? ps name else none := by
  have hboth : (ps.filter fun f => p f.1).filter (·.1 == name) =
      (ps.filter (·.1 == name)).filter fun _ => p name := by
    rw [List.filter_filter, List.filter_filter]
    refine List.filter_congr fun f _ => ?_
    by_cases hf : f.1 = name
    · rw [hf, Bool.and_comm]
    · rw [beq_false_of_ne hf, Bool.false_and, Bool.and_false]
  rw [lastOf?, hboth]
  cases p name <;> simp [lastOf?]

/-- What is left when the fields with known names are taken out. -/
theorem Merges.without (h : Merges ps fs) (known : List String) :
    Merges (ps.filter fun p => !known.contains p.1) (fs.without known) where
  names := by
    have hfilter : ∀ ps : List (String × String), (ps.filter fun p => !known.contains p.1).map Prod.fst =
        (ps.map Prod.fst).filter fun name => !known.contains name := by
      intro ps
      rw [List.filter_map]
      rfl
    rw [Fields.without, hfilter, hfilter, h.names, eraseDups_filter]
  once := h.once.sublist (List.filter_sublist.map _)
  values name := by
    have honce : Distinct (fs.without known) := h.once.sublist (List.filter_sublist.map _)
    have hfilter := lastOf?_filter fun name => !known.contains name
    rw [honce.get?_eq, Fields.without, hfilter, hfilter, ← h.once.get?_eq, h.values]

/-- What pairs say under other names than those that are known. -/
structure Leftover (known : List String) (ps : List (String × String)) (fs : Fields) : Prop where
  merges : Merges (ps.filter fun p => !known.contains p.1) fs
  unknown : ∀ name ∈ known, name ∉ fs.map Prod.fst

theorem Merges.leftover (h : Merges ps fs) (known : List String) :
    Leftover known ps (fs.without known) where
  merges := h.without known
  unknown name hname hin := by
    obtain ⟨f, hf, rfl⟩ := List.mem_map.mp hin
    have hkept := (List.mem_filter.mp hf).2
    rw [List.contains_iff_mem.mpr hname] at hkept
    cases hkept

end Fields

namespace Description

namespace Kind

theorem ofName_eq_iff {k : Kind} (hk : k ≠ .other) {s : String} : ofName s = k ↔ s = k.name := by
  constructor
  · rintro rfl
    unfold ofName at *
    split at hk <;> first | rfl | contradiction
  · rintro rfl
    exact ofName_name k

theorem contains_ofName {ks : List Kind} (h : .other ∉ ks) (s : String) :
    ks.contains (ofName s) = (ks.map name).contains s := by
  rw [Bool.eq_iff_iff, List.contains_iff_mem, List.contains_iff_mem, List.mem_map]
  constructor
  · intro hs
    exact ⟨_, hs, ((ofName_eq_iff fun ho => h (ho ▸ hs)).mp rfl).symm⟩
  · rintro ⟨k, hk, rfl⟩
    rwa [ofName_name]

end Kind

namespace Node

/-- Names and contents of elements. -/
def entries (ns : List Node) : List (String × String) :=
  ns.map fun n => (n.name, n.content)

/-- The names and contents of the elements in an element that are no more than fields of it: all but those with
names that mean something there. -/
def flat (n : Node) (reserved : List String) : List (String × String) :=
  entries (n.children.filter fun c => !reserved.contains c.name)

theorem fieldsOf_filter_kind (ks : List Kind) (h : .other ∉ ks) (n : Node) :
    fieldsOf (n.children.filter fun c => !ks.contains c.kind) = Fields.ofPairs (n.flat (ks.map Kind.name)) := by
  have hsame : (fun c : Node => !ks.contains c.kind) = fun c => !(ks.map Kind.name).contains c.name :=
    funext fun c => congrArg _ (Kind.contains_ofName h c.name)
  rw [hsame]
  rfl

end Node

end Description

namespace Scenario

open LoadPlan.Description (Node Kind)
open LoadPlan.Fields (lastOf? get?_ofPairs merges_ofPairs Leftover)

theorem run_orDefault (field : Option String) (fallback : String) (p : Problem) (n : Node) (log : Log) :
    ((orDefault field fallback p n).run log).1 = field.getD fallback := by
  cases field <;> rfl

namespace Request

def flat (n : Node) : List (String × String) :=
  n.flat ["timer", "asserts", "regex", "results", "upload", "data"]

/-- The fields of a request are those of the last elements with their names. -/
structure Overridden (n : Node) (r : Request) : Prop where
  domain : r.domain = (lastOf? (flat n) "domain").getD ""
  path : r.path = (lastOf? (flat n) "path").getD ""
  port : r.port = (lastOf? (flat n) "port").getD ""
  protocol : r.protocol = (lastOf? (flat n) "protocol").getD ""
  method : r.method = (lastOf? (flat n) "method").getD "GET"
  name : r.name = (lastOf? (flat n) "name").getD (r.method ++ " " ++ r.path)
  extra : Leftover ["domain", "path", "port", "protocol", "method", "name"] (flat n) r.extra

end Request

theorem request_overridden (n : Node) : Reads (Request.ofNode n) (Request.Overridden n) Unseen := by
  have hflat : Node.fieldsOf (Request.fieldNodes n) = Fields.ofPairs (Request.flat n) :=
    Node.fieldsOf_filter_kind Request.partKinds (by decide) n
  unfold Request.ofNode
  simp only [hflat, Fields.getD, get?_ofPairs]
  refine (timers_read n.children).bind fun timers _ => ?_
  refine (Reads.orDefault fun _ => trivial).bind fun method hmethod => ?_
  refine (Reads.orDefault fun _ => trivial).bind fun name hname => ?_
  cases (filled .results n.children).getLast? with
  | none =>
    refine Reads.bind (Q := fun _ => True) (.pure trivial) fun results _ => .pure ?_
    exact ⟨rfl, rfl, rfl, rfl, hmethod, hname, (merges_ofPairs _).leftover _⟩
  | some c =>
    have hc := (results_read c name n).map (g := some) (S := fun _ => True) fun _ _ => trivial
    refine hc.bind fun results _ => .pure ?_
    exact ⟨rfl, rfl, rfl, rfl, hmethod, hname, (merges_ofPairs _).leftover _⟩

namespace Controller

def flat (n : Node) : List (String × String) :=
  n.flat ["http", "loop", "controller", "script"]

/-- The share that a text gives, if it is finite. -/
def finiteShare? (text : String) : Option Number.Double :=
  ((Number.Decimal.leading? text).map Number.Decimal.toDouble).filter Number.Double.isFinite

theorem shareOf_fst (settings : Settings) (n : Node) :
    (shareOf settings n).1 = (((n.last? "percent").or (n.last? "precent")).bind finiteShare?).getD
      settings.defaultPercent := by
  have hor : (n.last? "percent" <|> n.last? "precent") = (n.last? "percent").or (n.last? "precent") :=
    Option.orElse_eq_or
  rw [shareOf, hor]
  cases (n.last? "percent").or (n.last? "precent") with
  | none => rfl
  | some text =>
    rw [share, Option.bind_some, finiteShare?]
    cases Number.Decimal.leading? text with
    | none => rfl
    | some d => cases hd : d.toDouble.isFinite <;> simp [Option.filter, hd]

/-- The fields of a controller are those of the last elements with their names. -/
structure Overridden (settings : Settings) (ordinal : Nat) (n : Node) (c : Controller) : Prop where
  name : c.name = (lastOf? (flat n) "name").getD s!"My Controller: {ordinal}"
  percent : c.percent = (((lastOf? (flat n) "percent").or (lastOf? (flat n) "precent")).bind finiteShare?).getD
    settings.defaultPercent
  extra : Leftover ["name", "percent", "precent"] (flat n) c.extra

end Controller

theorem controller_overridden (ctx : Context) (n : Node) (log : Log) :
    Controller.Overridden ctx.settings log.controllers n ((Controller.ofNode ctx n).run log).1 := by
  have hflat : Node.fieldsOf (n.children.filter fun c => !Controller.stepKinds.contains c.kind) =
      Fields.ofPairs (Controller.flat n) :=
    Node.fieldsOf_filter_kind Controller.stepKinds (by decide) n
  have hlast : ∀ name, Controller.stepKinds.contains (.ofName name) = false →
      n.last? name = lastOf? (Controller.flat n) name := by
    intro name hno
    rw [← get?_ofPairs, ← hflat]
    refine (Node.get?_fieldsOf_filter fun c hc => ?_).symm
    rw [Node.kind, hc, hno]
    rfl
  rw [run_controller]
  refine ⟨congrArg (Option.getD · _) (hlast "name" rfl), ?_, ?_⟩
  · rw [← hlast "percent" rfl, ← hlast "precent" rfl]
    exact Controller.shareOf_fst ctx.settings n
  · have hextra : Controller.extraOf n = (Fields.ofPairs (Controller.flat n)).without Controller.known :=
      congrArg (Fields.without · Controller.known) hflat
    change Leftover _ _ (Controller.extraOf n)
    rw [hextra]
    exact (merges_ofPairs _).leftover Controller.known

namespace DataSet

def flat (n : Node) : List (String × String) :=
  n.flat ["http", "controller", "loop", "repeat"]

/-- The fields of a data set are those of the last elements with their names. -/
structure Overridden (settings : Settings) (n : Node) (d : DataSet) : Prop where
  name : d.name = (lastOf? (flat n) "name").getD ""
  filename : d.filename = (lastOf? (flat n) "filename").getD ""
  columns : d.columns = (lastOf? (flat n) "varnames").getD ""
  delimiter : d.delimiter = (lastOf? (flat n) "delimiter").getD settings.delimiter
  recycle : d.recycle = ((lastOf? (flat n) "recycle").map fun v => Text.lower (Text.strip v) != "false").getD
    settings.recycle
  extra : Leftover ["name", "varnames", "filename", "delimiter", "recycle"] (flat n) d.extra

end DataSet

theorem dataSet_overridden (ctx : Context) (n : Node) (log : Log) :
    DataSet.Overridden ctx.settings n ((DataSet.ofNode ctx n).run log).1 := by
  have hflat : Node.fieldsOf (n.children.filter fun c => !DataSet.stepKinds.contains c.kind) =
      Fields.ofPairs (DataSet.flat n) :=
    Node.fieldsOf_filter_kind DataSet.stepKinds (by decide) n
  unfold DataSet.ofNode
  rw [Sheds.run_bind, Sheds.run_bind]
  simp only [run_orDefault, Fields.getD, hflat, get?_ofPairs]
  refine ⟨rfl, rfl, rfl, rfl, ?_, (merges_ofPairs _).leftover _⟩
  have hpure : ∀ (d : DataSet) (log : Log), ((pure d : Reading DataSet).run log).1 = d := fun _ _ => rfl
  rw [hpure]
  cases lastOf? (DataSet.flat n) "recycle" with
  | none => rfl
  | some v => simp only [isOn, Option.map_some, Option.getD_some]

/-! Assertions, and what is said of the plan. -/

namespace Assertion

/-- The name of the element begins with the word assert, in any case of letters. -/
def isLiteralName (name : String) : Bool :=
  (name.toList.take 6).map Char.toLower == "assert".toList

/-- A field of an assertion: that of the last element with its name that is no literal, or else the attribute. -/
def field? (n : Node) (name : String) : Option String :=
  (lastOf? (Node.entries (n.children.filter fun c => !isLiteralName c.name)) name).or (n.attributes.get? name)

structure Overridden (n : Node) (a : Assertion) : Prop where
  negate : a.negate = (field? n "not").any fun v => occurs "true".toList (Text.lower v).toList
  type : a.type = (field? n "type").getD ""
  name : a.name = (field? n "name").getD "!Unnamed Assert!"
  literals : a.literals = (n.children.filter fun c => isLiteralName c.name).map (·.content)

end Assertion

/-- The letters of the word have no lower case but their own, and the lower case of no other than ASCII letters. -/
theorem isPrefixOf_lower (word : List Char) (hw : ∀ c ∈ word, c ∉ ['i', 'k', 'İ', '\u212a'])
    (cs : List Char) : word.isPrefixOf (cs.flatMap Text.lowerChar) =
      ((cs.take word.length).map Char.toLower == word) := by
  induction word generalizing cs with
  | nil => simp
  | cons w word ih =>
    obtain ⟨hfirst, hword⟩ := List.forall_mem_cons.mp hw
    cases cs with
    | nil => simp
    | cons c cs =>
      have hrest := ih hword cs
      rw [List.flatMap_cons, List.length_cons, List.take_succ_cons, List.map_cons, List.cons_beq_cons, ← hrest]
      unfold Text.lowerChar
      split_ifs with hdotted hkelvin
      · have hi : ('i' == w) = false := beq_false_of_ne fun he => hfirst (he ▸ by decide)
        have hown : (Char.toLower 'İ' == w) = false := beq_false_of_ne fun he => hfirst (he ▸ by decide)
        subst hdotted
        rw [hown, List.cons_append, List.isPrefixOf_cons_cons, Bool.beq_comm, hi]
        rfl
      · have hk : ('k' == w) = false := beq_false_of_ne fun he => hfirst (he ▸ by decide)
        have hown : (Char.toLower '\u212a' == w) = false := beq_false_of_ne fun he => hfirst (he ▸ by decide)
        subst hkelvin
        rw [hown, List.singleton_append, List.isPrefixOf_cons_cons, Bool.beq_comm, hk]
      · rw [List.singleton_append, List.isPrefixOf_cons_cons, Bool.beq_comm]

theorem isLiteral_eq : isLiteral = fun n : Node => Assertion.isLiteralName n.name := by
  funext n
  have hlower := isPrefixOf_lower ['a', 's', 's', 'e', 'r', 't'] (by simp) n.name.toList
  simp only [isLiteral, Text.lower, String.toList_ofList, Assertion.isLiteralName]
  exact hlower

theorem assertion_overridden (n : Node) : Assertion.Overridden n (Assertion.ofNode n) := by
  have hfield : ∀ name, Fields.get? ((n.children.filter fun c => !Assertion.isLiteralName c.name).foldl
      (fun fs c => fs.set c.name c.content) n.attributes) name = Assertion.field? n name := by
    intro name
    rw [Assertion.field?, ← Fields.get?_foldl_set, Node.entries, List.foldl_map]
  unfold Assertion.ofNode
  simp only [isLiteral_eq, Fields.getD, hfield]
  exact ⟨rfl, rfl, rfl, rfl⟩

theorem merges_saidOf (ns : List Node) :
    Fields.Merges (Node.entries ((ns.filter (·.name == "testinfo")).flatMap (·.children))) (saidOf ns) := by
  induction ns with
  | nil => exact Fields.merges_ofPairs []
  | cons n ns ih =>
    have hkind : n.kind = .testinfo ↔ n.name = "testinfo" := Kind.ofName_eq_iff (by decide)
    rw [saidOf]
    by_cases hn : n.name = "testinfo"
    · rw [if_pos (hkind.mpr hn), List.filter_cons_of_pos (by simp [hn]), List.flatMap_cons, Node.entries,
        List.map_append]
      exact (Fields.merges_ofPairs _).foldl_set ih
    · rw [if_neg (mt hkind.mp hn), List.filter_cons_of_neg (by simp [hn])]
      exact (Fields.merges_ofPairs []).foldl_set ih

theorem info_ofDocument (disk : Storage.Disk) (settings : Settings) (depth : Nat) (chain : List Storage.Path)
    (root : Node) (log : Log) :
    ((ofDocument disk settings depth chain root).run log).1.info = saidOf root.children := by
  cases depth <;> rw [ofDocument, run_ofElements]

/-- Of several elements with one name the last one counts, for a request, a controller, a data set and an assertion
as for what a description says of the plan, and what is left over are the other names. -/
theorem overridden_by_last (ctx : Context) (n : Node) (log : Log) :
    Request.Overridden n ((Request.ofNode n).run log).1 ∧
      Controller.Overridden ctx.settings log.controllers n ((Controller.ofNode ctx n).run log).1 ∧
      DataSet.Overridden ctx.settings n ((DataSet.ofNode ctx n).run log).1 ∧
      Assertion.Overridden n (Assertion.ofNode n) ∧
      Fields.Merges (Node.entries ((n.children.filter (·.name == "testinfo")).flatMap (·.children)))
        ((ofDescription ctx.disk ctx.settings n).run log).1.info := by
  refine ⟨(request_overridden n log).1, controller_overridden ctx n log, dataSet_overridden ctx n log,
    assertion_overridden n, ?_⟩
  rw [ofDescription, info_ofDocument]
  exact merges_saidOf n.children

end Scenario

end LoadPlan
