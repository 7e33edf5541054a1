import LoadPlan.Scenario.Collection

/-! Which document an element of a script opens, and that documents are taken in as far as the chain of
open documents allows: the depth that is left never cuts anything off. -/
namespace LoadPlan

namespace Storage.Disk

/-- Where the file lies that a path leads to. -/
def fileAt? (d : Disk) (p : Path) : Option Location :=
  match d.find p with
  | .ok (.entry place e) => if e.isFile then some place else none
  | _ => none

theorem fileAt?_isSome_iff {d : Disk} {p : Path} : (d.fileAt? p).isSome = true ↔ d.isFile p = .ok true := by
  unfold fileAt? isFile look
  cases d.find p with
  | error cause =>
    cases hc : cause.isAbsence <;> simp [hc, Except.map]
  | ok target =>
    cases target with
    | free place => simp [Except.map]
    | entry place e => cases he : e.isFile <;> simp [he, Except.map]

theorem resolveFrom_of_walk {d : Disk} {links : Nat} {here place : Location} {names : List String}
    {e : Entry} (h : d.walk links here names = .ok (.entry place e)) :
    d.resolveFrom links here names = place := by
  fun_induction walk d links here names with
  | case1 links here =>
    cases h
    rw [resolveFrom]
  | case2 _ _ _ ih =>
    rw [resolveFrom, if_pos rfl]
    exact ih h
  | case3 => cases h
  | case4 => cases h
  | case5 => cases h
  | case6 links here name rest hn _ hd ih =>
    rw [resolveFrom, if_neg hn, hd]
    exact ih h
  | case7 links here name rest hn _ content hf hr =>
    cases h
    rw [List.isEmpty_iff.mp hr, resolveFrom, if_neg hn, hf]
    simp only
    rw [resolveFrom]
  | case8 => cases h
  | case9 links here name rest hn _ isFile hl hr =>
    cases h
    rw [List.isEmpty_iff.mp hr, resolveFrom, if_neg hn, hl]
    simp only
    rw [resolveFrom]
  | case10 => cases h
  | case11 => cases h
  | case12 here name rest hn _ target hl n way ih =>
    rw [resolveFrom, if_neg hn, hl]
    exact ih h

/-- A path is resolved to where its file lies. -/
theorem resolve_of_fileAt? {d : Disk} {p : Path} {place : Location} (h : d.fileAt? p = some place) :
    d.resolve p = ⟨"/", place⟩ := by
  unfold fileAt? at h
  split at h
  · next e hf =>
    split at h
    · cases h
      exact congrArg (Path.mk "/") (resolveFrom_of_walk (find_eq_ok_iff.mp hf).2)
    · cases h
  · cases h

/-- There is no telling what a name leads to that is longer than names may be. -/
theorem look_of_long (d : Disk) {root name : String} (h : Path.nameLimit < (Text.Utf8.encode name).length) :
    d.look ⟨root, [name]⟩ = .error ⟨.nameTooLong, (Path.mk root [name]).text⟩ := by
  have hup : name ≠ ".." := by
    rintro rfl
    revert h
    decide
  have hfind : d.find ⟨root, [name]⟩ = .error .nameTooLong := by
    unfold find
    split
    · rfl
    · rw [walk, if_neg hup, if_pos h]
  rw [look, hfind]
  rfl

/-- A name that is longer than names may be. -/
def longName : String :=
  String.ofList (List.replicate 256 'a')

theorem toList_longName : longName.toList = List.replicate 256 'a' :=
  String.toList_ofList

theorem longName_ne {s : String} (h : s.toList.length ≠ 256) : longName ≠ s := by
  rintro rfl
  rw [toList_longName] at h
  exact h List.length_replicate

theorem ofString_longName : Path.ofString longName = ⟨"", [longName]⟩ := by
  refine Path.ofString_of_name ?_ (longName_ne (by decide)) (longName_ne (by decide))
  rw [toList_longName]
  exact fun h => absurd (List.eq_of_mem_replicate h) (by decide)

theorem look_longName (d : Disk) (root : String) :
    d.look ⟨root, [longName]⟩ = .error ⟨.nameTooLong, (Path.mk root [longName]).text⟩ := by
  have hlength : (Text.Utf8.encode longName).length = 256 := by
    have hone : (String.utf8EncodeChar 'a').length = 1 := by decide
    rw [Text.Utf8.encode, toList_longName, List.length_flatMap, List.map_replicate, hone, List.sum_replicate_nat]
  refine d.look_of_long ?_
  rw [hlength]
  decide

theorem isFile_of_firstFile {d : Disk} {ps : List Path} {p : Path} (h : d.firstFile ps = .ok (some p)) :
    d.isFile p = .ok true := by
  induction ps with
  | nil => cases h
  | cons q ps ih =>
    rw [firstFile] at h
    cases hq : d.isFile q with
    | error failure =>
      rw [hq] at h
      cases h
    | ok there =>
      rw [hq] at h
      cases there with
      | false => exact ih h
      | true =>
        cases h
        exact hq

end Storage.Disk

namespace Scenario

open LoadPlan.Description (Node)

variable (disk : Storage.Disk) (settings : Settings)

/-- The file that an element names, next to its document or else in the working directory. -/
def found (n : Node) : Except Storage.Failure (Option Storage.Path) :=
  let path := Storage.Path.ofString n.content
  let beside := if path.isAbsolute then [] else (n.directory disk).toList.map (·.join path)
  if n.content.isEmpty then .ok none else disk.firstFile (beside ++ [path])

variable {disk settings} {chain : List Storage.Path} {n : Node} {place : Storage.Path}

theorem isFile_of_found {path : Storage.Path} (h : found disk n = .ok (some path)) :
    disk.isFile path = .ok true := by
  unfold found at h
  simp only at h
  split at h
  · cases h
  · exact Storage.Disk.isFile_of_firstFile h

/-- A document is refused if it is open already, or if too many are. -/
theorem included_eq : included disk settings chain n =
    match found disk n with
    | .error failure => .error (.includeRefused failure)
    | .ok none => .error (if n.content.isEmpty then .noIncludeName else .includeMissing n.content)
    | .ok (some path) =>
      if disk.resolve path ∈ chain then .error (.includeCircular n.content)
      else if settings.maxIncludeDepth < chain.length then
        .error (.includeTooDeep n.content settings.maxIncludeDepth)
      else .ok (disk.resolve path) := by
  by_cases hn : n.content.isEmpty
  · have hf : found disk n = .ok none := by
      rw [found, if_pos hn]
    simp only [hf, included, if_pos hn]
  · cases hf : found disk n with
    | error failure =>
      rw [found, if_neg hn] at hf
      simp only [included, if_neg hn, hf]
    | ok answer =>
      rw [found, if_neg hn] at hf
      cases answer with
      | none => simp only [included, if_neg hn, hf]
      | some path => simp only [included, if_neg hn, hf, List.contains_iff_mem]

theorem included_eq_ok_iff : included disk settings chain n = .ok place ↔
    (∃ path, found disk n = .ok (some path) ∧ disk.resolve path = place) ∧ place ∉ chain ∧
      (chain.length : Int) ≤ settings.maxIncludeDepth := by
  rw [included_eq]
  rcases found disk n with failure | _ | path
  · simp
  · simp
  · simp only [Except.ok.injEq, Option.some.injEq, exists_eq_left']
    by_cases hc : disk.resolve path ∈ chain
    · rw [if_pos hc]
      constructor
      · intro h
        cases h
      · rintro ⟨rfl, hn, -⟩
        exact absurd hc hn
    · rw [if_neg hc]
      by_cases hd : settings.maxIncludeDepth < chain.length
      · rw [if_pos hd]
        constructor
        · intro h
          cases h
        · rintro ⟨-, -, hl⟩
          omega
      · rw [if_neg hd]
        constructor
        · intro h
          cases h
          exact ⟨rfl, hc, by omega⟩
        · rintro ⟨rfl, -, -⟩
          rfl

theorem kind_of_included {p : Problem} (h : included disk settings chain n = .error p) :
    p.kind = .unavailable := by
  rw [included_eq] at h
  split at h
  · cases h
    rfl
  · split at h
    · cases h
      rfl
    · cases h
      rfl
  · split at h
    · cases h
      rfl
    · split at h
      · cases h
        rfl
      · cases h

variable (disk settings) in
/-- The document that an element opens, with its place. -/
def opened (chain : List Storage.Path) (n : Node) : Except Problem (Storage.Path × Node) :=
  match included disk settings chain n with
  | .error p => .error p
  | .ok place =>
    match includedDocument disk place with
    | .error p => .error p
    | .ok root => .ok (place, root)

theorem opened_eq_ok_iff {root : Node} : opened disk settings chain n = .ok (place, root) ↔
    included disk settings chain n = .ok place ∧ includedDocument disk place = .ok root := by
  unfold opened
  cases included disk settings chain n with
  | error p => simp
  | ok found =>
    simp only [Except.ok.injEq]
    constructor
    · intro h
      split at h
      · cases h
      · next hd =>
        cases h
        exact ⟨rfl, hd⟩
    · rintro ⟨rfl, hd⟩
      rw [hd]

theorem opened_eq_error_iff {p : Problem} : opened disk settings chain n = .error p ↔
    included disk settings chain n = .error p ∨ ∃ place e, included disk settings chain n = .ok place ∧
      Description.ofFile disk place.text = .error e ∧ p = unreadable e := by
  unfold opened includedDocument
  cases included disk settings chain n with
  | error q => simp
  | ok place =>
    unfold Except.mapError
    cases hf : Description.ofFile disk place.text with
    | error e => simp [hf, eq_comm]
    | ok root => simp [hf]

variable {inside : List Storage.Path → Node → Reading Scenario}

theorem splice_eq : splice disk settings chain inside n =
    match opened disk settings chain n with
    | .error p => do
      report p n
      return empty
    | .ok (place, root) => inside (chain ++ [place]) root := by
  unfold splice opened
  cases included disk settings chain n with
  | error p => rfl
  | ok place =>
    simp only
    cases includedDocument disk place with
    | error p => rfl
    | ok root => rfl

/-- What is read of documents that cannot be opened makes no difference. -/
theorem spliceAll_congr {other : List Storage.Path → Node → Reading Scenario} {ns : List Node}
    (h : ∀ n ∈ ns, ∀ place root, opened disk settings chain n = .ok (place, root) →
      inside (chain ++ [place]) root = other (chain ++ [place]) root) :
    spliceAll disk settings chain inside ns = spliceAll disk settings chain other ns := by
  induction ns with
  | nil => rfl
  | cons n ns ih =>
    obtain ⟨hn, hns⟩ := List.forall_mem_cons.mp h
    have heq : splice disk settings chain inside n = splice disk settings chain other n := by
      rw [splice_eq, splice_eq]
      cases ho : opened disk settings chain n with
      | error p => rfl
      | ok o => exact hn o.1 o.2 ho
    rw [spliceAll, spliceAll, heq, ih hns]

variable (disk settings) in
/-- The contents of a document, while the documents of the chain are open. -/
def contents (chain : List Storage.Path) (root : Node) : Reading Scenario :=
  ofDocument disk settings (depthLeft settings chain) chain root

variable (disk settings) in
/-- What a script brings in, while the documents of the chain are open. -/
def spliced (chain : List Storage.Path) (script : Node) : Reading (List Entry × List DataSet) :=
  spliceAll disk settings chain (contents disk settings) script.children

/-- With each document that is opened there is less depth left. -/
theorem depthLeft_of_opened {root : Node} (h : opened disk settings chain n = .ok (place, root)) :
    depthLeft settings chain = depthLeft settings (chain ++ [place]) + 1 := by
  have hlength := (included_eq_ok_iff.mp (opened_eq_ok_iff.mp h).1).2.2
  unfold depthLeft
  rw [List.length_append, List.length_singleton]
  omega

/-- A document is read as its elements are, with scripts that bring in the contents of other documents,
however many documents are open: where no depth is left, none can be opened. -/
theorem contents_eq (chain : List Storage.Path) (root : Node) :
    contents disk settings chain root =
      ofElements ⟨disk, settings, spliced disk settings chain⟩ root.children := by
  have hopened : ∀ {script n : Node} {place next}, n ∈ script.children →
      opened disk settings chain n = .ok (place, next) → depthLeft settings chain ≠ 0 := by
    intro script n place next _ ho h
    rw [depthLeft_of_opened ho] at h
    cases h
  unfold contents
  cases hd : depthLeft settings chain with
  | zero =>
    rw [ofDocument]
    congr 2
    funext script
    exact spliceAll_congr fun n hn place next ho => absurd hd (hopened hn ho)
  | succ depth =>
    rw [ofDocument]
    congr 2
    funext script
    refine spliceAll_congr fun n hn place next ho => ?_
    rw [depthLeft_of_opened ho] at hd
    rw [contents, Nat.succ.inj hd]

end Scenario

end LoadPlan
