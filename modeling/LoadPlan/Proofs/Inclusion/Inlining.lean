import LoadPlan.Proofs.Inclusion.Chain

/-! A script brings in what its documents would if their elements stood in its place. -/
namespace LoadPlan

namespace Fields

variable {fs gs : Fields} {name value : String}

/-- No name comes twice. -/
def Distinct (fs : Fields) : Prop :=
  (fs.map Prod.fst).Nodup

theorem set_of_notMem (h : name ∉ fs.map Prod.fst) : fs.set name value = fs ++ [(name, value)] := by
  induction fs with
  | nil => rfl
  | cons f fs ih =>
    obtain ⟨n, v⟩ := f
    rw [List.map_cons, List.mem_cons, not_or] at h
    rw [set, if_neg (Ne.symm h.1), ih h.2, List.cons_append]

theorem keys_set_of_mem (h : name ∈ fs.map Prod.fst) :
    (fs.set name value).map Prod.fst = fs.map Prod.fst := by
  induction fs with
  | nil => cases h
  | cons f fs ih =>
    obtain ⟨n, v⟩ := f
    rw [set]
    split
    · rfl
    · next hn =>
      have hrest : name ∈ fs.map Prod.fst := (List.mem_cons.mp h).resolve_left (Ne.symm hn)
      rw [List.map_cons, List.map_cons, ih hrest]

theorem Distinct.set (h : fs.Distinct) : (fs.set name value).Distinct := by
  by_cases hn : name ∈ fs.map Prod.fst
  · rw [Distinct, keys_set_of_mem hn]
    exact h
  · rw [Distinct, set_of_notMem hn, List.map_append, List.nodup_append]
    refine ⟨h, List.nodup_singleton _, fun other ho new hnew heq => hn ?_⟩
    rw [heq, List.mem_singleton.mp hnew] at ho
    exact ho

theorem Distinct.foldl_set (h : fs.Distinct) (gs : Fields) :
    (gs.foldl (fun fs g => fs.set g.1 g.2) fs).Distinct := by
  induction gs generalizing fs with
  | nil => exact h
  | cons g gs ih => exact ih h.set

theorem foldl_set_eq_append (h : (fs ++ gs).Distinct) :
    gs.foldl (fun fs g => fs.set g.1 g.2) fs = fs ++ gs := by
  induction gs generalizing fs with
  | nil => rw [List.foldl_nil, List.append_nil]
  | cons g gs ih =>
    have hnew : g.1 ∉ fs.map Prod.fst := by
      intro hg
      rw [Distinct, List.map_append, List.nodup_append] at h
      exact h.2.2 g.1 hg g.1 (List.mem_cons_self ..) rfl
    have hassoc : fs ++ g :: gs = fs ++ [g] ++ gs := by
      rw [List.append_assoc, List.singleton_append]
    rw [hassoc] at h
    rw [List.foldl_cons, set_of_notMem hnew, ih h, hassoc]

theorem Distinct.ofPairs_eq (h : fs.Distinct) : ofPairs fs = fs :=
  foldl_set_eq_append h

end Fields

/-- A document was not taken in because it is open or because too many are. -/
def Problem.isRefusal : Problem → Bool
  | .includeCircular _ | .includeTooDeep .. => true
  | _ => false

namespace Scenario

open LoadPlan.Description (Node)

/-- No document was refused. -/
def Log.Unrefused (log : Log) : Prop :=
  ∀ g ∈ log.diagnostics, g.problem.isRefusal = false

theorem Log.Unrefused.before {log later : Log} (h : later.Unrefused)
    (hp : log.diagnostics <+: later.diagnostics) : log.Unrefused :=
  fun g hg => h g (hp.subset hg)

/-- The second way of reading gives the same as the first where that refuses nothing. -/
def Follows {α : Type} (m m' : Reading α) : Prop :=
  ∀ log, log.diagnostics <+: (m.run log).2.diagnostics ∧
    ((m.run log).2.Unrefused → m'.run log = m.run log)

namespace Follows

variable {α β : Type}

theorem pure (a : α) : Follows (pure a) (pure a) :=
  fun _ => ⟨List.prefix_rfl, fun _ => rfl⟩

theorem report (p : Problem) (n : Node) : Follows (report p n) (report p n) :=
  fun _ => ⟨List.prefix_append _ _, fun _ => rfl⟩

theorem bind {m m' : Reading α} {f f' : α → Reading β} (h : Follows m m')
    (hf : ∀ a, Follows (f a) (f' a)) : Follows (m >>= f) (m' >>= f') := by
  intro log
  obtain ⟨hgrows, hsame⟩ := h log
  obtain ⟨hgrows', hsame'⟩ := hf (m.run log).1 (m.run log).2
  refine ⟨hgrows.trans hgrows', fun hu => ?_⟩
  have hm : m'.run log = m.run log := hsame (Log.Unrefused.before hu hgrows')
  calc (m' >>= f').run log
      = (f' (m'.run log).1).run (m'.run log).2 := rfl
    _ = (f' (m.run log).1).run (m.run log).2 := by rw [hm]
    _ = (f (m.run log).1).run (m.run log).2 := hsame' hu

theorem map {m m' : Reading α} (g : α → β) (h : Follows m m') : Follows (g <$> m) (g <$> m') := by
  simp only [map_eq_pure_bind]
  exact h.bind fun a => pure (g a)

/-- Where something is refused, anything follows. -/
theorem of_refusal {p : Problem} (hp : p.isRefusal = true) (n : Node) (a : α) (m : Reading α) :
    Follows (do Scenario.report p n; return a) m := by
  refine fun log => ⟨List.prefix_append _ _, fun hu => ?_⟩
  have hnot := hu ⟨p, n.place⟩ (List.mem_append_right _ (List.mem_singleton_self _))
  rw [hp] at hnot
  cases hnot

end Follows

/-- A way with other scripts leads to the same end. -/
theorem Course.follows {α : Type} {s s' : Node → Reading Parts} (hs : ∀ n, Follows (s n) (s' n))
    {c : Course α} {log : Log} (hc : c.Grows log) :
    log.diagnostics <+: (c.read s).2.diagnostics ∧ ((c.read s).2.Unrefused → c.read s' = c.read s) := by
  induction c generalizing log with
  | done a later => exact ⟨hc.isPrefix, fun _ => rfl⟩
  | script n here next ih =>
    obtain ⟨hgrows, hsame⟩ := hs n here
    obtain ⟨hend, hsame'⟩ := ih ((s n).run here).1 ((s n).run here).2 (hc.2 _ _)
    refine ⟨(hc.1.isPrefix.trans hgrows).trans hend, fun hu => ?_⟩
    have hscript : (s' n).run here = (s n).run here := hsame (Log.Unrefused.before hu hend)
    rw [read, hscript]
    exact hsame' hu

theorem Paced.follows {α : Type} {m : (Node → Reading Parts) → Reading α} {c : Stepwise α}
    (h : Paced m c) {s s' : Node → Reading Parts} (hs : ∀ n, Follows (s n) (s' n)) :
    Follows (m s) (m s') := by
  rw [h.read, h.read]
  exact fun log => Course.follows hs (h.grows log)

variable {disk : Storage.Disk} {settings : Settings} {chain fewer : List Storage.Path}

/-! A document is read in the same way while fewer documents are open, unless one is refused. -/

theorem opened_of_refused {n : Node} {path : Storage.Path} (h : found disk n = .ok (some path))
    (hr : disk.resolve path ∈ chain ∨ settings.maxIncludeDepth < chain.length) :
    ∃ p, opened disk settings chain n = .error p ∧ p.isRefusal = true := by
  rw [opened, included_eq, h]
  simp only
  by_cases hc : disk.resolve path ∈ chain
  · rw [if_pos hc]
    exact ⟨_, rfl, rfl⟩
  · rw [if_neg hc, if_pos (hr.resolve_left hc)]
    exact ⟨_, rfl, rfl⟩

theorem opened_of_subset (hsub : fewer ⊆ chain) (hlength : fewer.length ≤ chain.length) (n : Node) :
    opened disk settings fewer n = opened disk settings chain n ∨
      ∃ p, opened disk settings chain n = .error p ∧ p.isRefusal = true := by
  rcases hf : found disk n with _ | _ | path
  · left
    rw [opened, opened, included_eq, included_eq, hf]
  · left
    rw [opened, opened, included_eq, included_eq, hf]
  · by_cases hr : disk.resolve path ∈ chain ∨ settings.maxIncludeDepth < chain.length
    · exact .inr (opened_of_refused hf hr)
    · rw [not_or] at hr
      have hfewer : ¬settings.maxIncludeDepth < fewer.length := by omega
      left
      rw [opened, opened, included_eq, included_eq, hf]
      simp only [if_neg hr.1, if_neg hr.2, if_neg fun h => hr.1 (hsub h), if_neg hfewer]

/-- What a scenario adds to another one that includes it. -/
def parts (s : Scenario) : Parts :=
  (s.stack, s.dataSets)

theorem spliceAll_cons {inside : List Storage.Path → Node → Reading Scenario} (n : Node) (ns : List Node) :
    spliceAll disk settings chain inside (n :: ns) = do
      let here ← parts <$> if n.name = "file" then splice disk settings chain inside n else pure empty
      let after ← spliceAll disk settings chain inside ns
      return (here.1 ++ after.1, here.2 ++ after.2) := by
  rw [spliceAll]
  split
  · rfl
  · rfl

theorem spliceAll_follows {inside inside' : List Storage.Path → Node → Reading Scenario} {ns : List Node}
    (h : ∀ n ∈ ns, Follows (splice disk settings chain inside n) (splice disk settings fewer inside' n)) :
    Follows (spliceAll disk settings chain inside ns) (spliceAll disk settings fewer inside' ns) := by
  induction ns with
  | nil => exact .pure _
  | cons n ns ih =>
    obtain ⟨hn, hns⟩ := List.forall_mem_cons.mp h
    rw [spliceAll_cons, spliceAll_cons]
    refine Follows.bind (Follows.map parts ?_) fun here => (ih hns).bind fun after => .pure _
    split
    · exact hn
    · exact .pure _

theorem spliced_follows (hsub : fewer ⊆ chain) (hlength : fewer.length ≤ chain.length) (script : Node) :
    Follows (spliced disk settings chain script) (spliced disk settings fewer script) := by
  generalize hd : depthLeft settings chain = depth
  induction depth using Nat.strongRecOn generalizing chain fewer script with
  | ind depth ih =>
    refine spliceAll_follows fun n _ => ?_
    rw [splice_eq, splice_eq]
    rcases opened_of_subset hsub hlength n with heq | ⟨p, hp, hrefusal⟩
    · rw [heq]
      cases ho : opened disk settings chain n with
      | error p => exact (Follows.report p n).bind fun _ => .pure _
      | ok o =>
        obtain ⟨place, root⟩ := o
        have hless := depthLeft_of_opened ho
        have hinner : ∀ s, Follows (spliced disk settings (chain ++ [place]) s)
            (spliced disk settings (fewer ++ [place]) s) := by
          refine fun s => ih _ (by omega) ?_ ?_ s rfl
          · exact List.append_subset.mpr ⟨List.Subset.trans hsub (List.subset_append_left _ _),
              List.subset_append_right _ _⟩
          · rw [List.length_append, List.length_append]
            exact Nat.add_le_add_right hlength _
        simp only [contents_eq]
        exact (elements_paced disk settings root.children).follows hinner
    · rw [hp]
      exact .of_refusal hrefusal n _ _

/-! What a document says of the plan is apart from all that is run. -/

/-- What the elements at the top of a document say of the plan. -/
def saidOf : List Node → Info
  | [] => []
  | n :: ns => (saidOf ns).foldl (fun i f => Fields.set i f.1 f.2) (if n.kind = .testinfo then n.fields else [])

variable (ctx : Context)

/-- What the elements at the top of a document add to one that includes it. -/
def partsOf : List Node → Reading Parts
  | [] => return ([], [])
  | n :: ns => do
    let here ← parts <$> ofElement ctx n
    let after ← partsOf ns
    return (here.1 ++ after.1, here.2 ++ after.2)

variable {ctx}

theorem info_ofElement (n : Node) (log : Log) :
    ((ofElement ctx n).run log).1.info = if n.kind = .testinfo then n.fields else [] := by
  unfold ofElement
  cases n.kind with
  | testinfo => rfl
  | http => rfl
  | timer => cases n.hasChildren <;> rfl
  | loop => cases n.hasChildren <;> rfl
  | controller => cases n.hasChildren <;> rfl
  | csv => cases n.hasChildren <;> rfl
  | script => cases n.hasChildren <;> rfl
  | _ => rfl

theorem run_ofElements (ns : List Node) (log : Log) :
    (ofElements ctx ns).run log =
      let r := (partsOf ctx ns).run log
      (⟨r.1.1, r.1.2, saidOf ns⟩, r.2) := by
  induction ns generalizing log with
  | nil => rfl
  | cons n ns ih =>
    have hrun : (ofElements ctx (n :: ns)).run log =
        let here := (ofElement ctx n).run log
        let after := (ofElements ctx ns).run here.2
        (here.1.append after.1, after.2) := rfl
    rw [hrun]
    simp only [ih, append, info_ofElement]
    rfl

theorem parts_ofElements (ns : List Node) : parts <$> ofElements ctx ns = partsOf ctx ns := by
  funext log
  exact congrArg (fun r : Scenario × Log => (parts r.1, r.2)) (run_ofElements ns log)

theorem partsOf_append (ms ns : List Node) :
    partsOf ctx (ms ++ ns) = do
      let here ← partsOf ctx ms
      let after ← partsOf ctx ns
      return (here.1 ++ after.1, here.2 ++ after.2) := by
  induction ms with
  | nil => rfl
  | cons m ms ih =>
    rw [List.cons_append, partsOf, ih, partsOf]
    simp only [bind_assoc, pure_bind, List.append_assoc]

/-- What is said of the plan adds nothing. -/
theorem partsOf_filter (ns : List Node) : partsOf ctx (ns.filter (·.kind != .testinfo)) = partsOf ctx ns := by
  induction ns with
  | nil => rfl
  | cons n ns ih =>
    by_cases hk : n.kind = .testinfo
    · have hnothing : parts <$> ofElement ctx n = pure ([], []) := by
        unfold ofElement
        rw [hk]
        rfl
      rw [List.filter_cons_of_neg (by simp [hk]), ih, partsOf, hnothing]
      rfl
    · rw [List.filter_cons_of_pos (by simp [hk]), partsOf, partsOf, ih]

theorem distinct_saidOf (ns : List Node) : Fields.Distinct (saidOf ns) := by
  have hnone : Fields.Distinct [] := List.nodup_nil
  cases ns with
  | nil => exact hnone
  | cons n ns =>
    unfold saidOf
    split
    · exact (hnone.foldl_set _).foldl_set _
    · exact hnone.foldl_set _

/-- Only what is said of the plan counts. -/
theorem saidOf_filter (ns : List Node) : saidOf (ns.filter (·.kind == .testinfo)) = saidOf ns := by
  induction ns with
  | nil => rfl
  | cons n ns ih =>
    by_cases hk : n.kind = .testinfo
    · rw [List.filter_cons_of_pos (by simp [hk]), saidOf, saidOf, ih]
    · rw [List.filter_cons_of_neg (by simp [hk]), ih, saidOf, if_neg hk]
      exact (distinct_saidOf ns).ofPairs_eq.symm

/-! Scripts and the elements of their documents. -/

/-- An element names a document that can be read. -/
def Brings (disk : Storage.Disk) (n root : Node) : Prop :=
  ∃ path, found disk n = .ok (some path) ∧ includedDocument disk (disk.resolve path) = .ok root

/-- The elements that stand for a script. -/
def unpacked (roots : List Node) : List Node :=
  roots.flatMap fun root => root.children.filter (·.kind != .testinfo)

variable {roots : List Node}

theorem opened_of_brings {n root : Node} (h : Brings disk n root) (chain : List Storage.Path) :
    (∃ place, opened disk settings chain n = .ok (place, root)) ∨
      ∃ p, opened disk settings chain n = .error p ∧ p.isRefusal = true := by
  obtain ⟨path, hpath, hroot⟩ := h
  by_cases hr : disk.resolve path ∈ chain ∨ settings.maxIncludeDepth < chain.length
  · exact .inr (opened_of_refused hpath hr)
  · rw [not_or] at hr
    have hi : included disk settings chain n = .ok (disk.resolve path) :=
      included_eq_ok_iff.mpr ⟨⟨path, hpath, rfl⟩, hr.1, by omega⟩
    exact .inl ⟨_, opened_eq_ok_iff.mpr ⟨hi, hroot⟩⟩

theorem splice_follows {n root : Node} (h : Brings disk n root) :
    Follows (parts <$> splice disk settings chain (contents disk settings) n)
      (partsOf ⟨disk, settings, spliced disk settings chain⟩ root.children) := by
  rw [splice_eq]
  rcases opened_of_brings h chain with ⟨place, ho⟩ | ⟨p, ho, hp⟩
  · rw [ho, ← parts_ofElements]
    simp only [contents_eq]
    have hlength : chain.length ≤ (chain ++ [place]).length := by
      rw [List.length_append]
      exact Nat.le_add_right _ _
    exact ((elements_paced disk settings root.children).follows
      (spliced_follows (List.subset_append_left _ _) hlength)).map parts
  · rw [ho]
    exact .of_refusal hp n (parts empty) _

theorem spliceAll_follows_unpacked {ns : List Node}
    (h : List.Forall₂ (Brings disk) (ns.filter (·.name = "file")) roots) :
    Follows (spliceAll disk settings chain (contents disk settings) ns)
      (partsOf ⟨disk, settings, spliced disk settings chain⟩ (unpacked roots)) := by
  induction ns generalizing roots with
  | nil =>
    cases h
    exact .pure _
  | cons n ns ih =>
    rw [spliceAll_cons]
    by_cases hn : n.name = "file"
    · rw [List.filter_cons_of_pos (by simp [hn])] at h
      cases h with
      | @cons _ root _ roots hroot hroots =>
        rw [unpacked, List.flatMap_cons, partsOf_append, partsOf_filter, if_pos hn]
        exact (splice_follows hroot).bind fun here => (ih hroots).bind fun after => .pure _
    · rw [List.filter_cons_of_neg (by simp [hn])] at h
      rw [if_neg hn]
      exact ih h

theorem partsOf_script {script : Node} (hk : script.kind = .script) (ns : List Node) :
    partsOf ⟨disk, settings, spliced disk settings chain⟩ (script :: ns) = do
      let here ← spliced disk settings chain script
      let after ← partsOf ⟨disk, settings, spliced disk settings chain⟩ ns
      return (here.1 ++ after.1, here.2 ++ after.2) := by
  have hscript : parts <$> ofElement ⟨disk, settings, spliced disk settings chain⟩ script =
      spliced disk settings chain script := by
    unfold ofElement
    rw [hk]
    cases hc : script.hasChildren with
    | true => rfl
    | false =>
      have hnone : script.children = [] := by simpa [Node.hasChildren] using hc
      rw [spliced, hnone]
      rfl
  rw [partsOf, hscript]

theorem partsOf_follows (ns : List Node) :
    Follows (partsOf ⟨disk, settings, spliced disk settings chain⟩ ns)
      (partsOf ⟨disk, settings, spliced disk settings chain⟩ ns) := by
  rw [← parts_ofElements]
  exact ((elements_paced disk settings ns).follows
    (spliced_follows (List.Subset.refl chain) (Nat.le_refl _))).map parts

theorem saidOf_unpacked {script : Node} (hk : script.kind = .script) (before after roots : List Node) :
    saidOf (before ++ unpacked roots ++ after) = saidOf (before ++ script :: after) := by
  have hnone : (unpacked roots).filter (·.kind == .testinfo) = [] := by
    rw [List.filter_eq_nil_iff]
    intro n hn
    obtain ⟨root, -, hn⟩ := List.mem_flatMap.mp hn
    simpa using (List.mem_filter.mp hn).2
  have hscript : ¬(script.kind == .testinfo) = true := by
    rw [hk]
    decide
  rw [← saidOf_filter, ← saidOf_filter (before ++ script :: after), List.filter_append, List.filter_append,
    hnone, List.append_nil, List.filter_append, List.filter_cons, if_neg hscript]

/-- A description with a script at its top gives the same scenario and the same reports as the description in
which the elements of the documents of the script, but what they say of the plan, stand in its place,
provided that no document is refused because it is open or because too many are. (None is refused then
in the second description either, where fewer documents are open.) -/
theorem run_unpacked {root script : Node} {before after : List Node}
    (hroot : root.children = before ++ script :: after) (hk : script.kind = .script)
    (hroots : List.Forall₂ (Brings disk) (script.children.filter (·.name = "file")) roots)
    (hrun : ((ofDescription disk settings root).run .empty).2.Unrefused) (content : String) :
    (ofDescription disk settings
      { root with children := before ++ unpacked roots ++ after, content }).run .empty =
        (ofDescription disk settings root).run .empty := by
  have hchain : headChain disk { root with children := before ++ unpacked roots ++ after, content } =
      headChain disk root := rfl
  rw [ofDescription_eq, contents_eq, run_ofElements, hroot] at hrun
  rw [ofDescription_eq, ofDescription_eq, contents_eq, contents_eq, run_ofElements, run_ofElements, hroot,
    hchain, saidOf_unpacked hk]
  have hfollows : Follows
      (partsOf ⟨disk, settings, spliced disk settings (headChain disk root)⟩ (before ++ script :: after))
      (partsOf ⟨disk, settings, spliced disk settings (headChain disk root)⟩
        (before ++ unpacked roots ++ after)) := by
    rw [List.append_assoc, partsOf_append, partsOf_append, partsOf_script hk, partsOf_append]
    refine (partsOf_follows before).bind fun here => ?_
    refine Follows.bind ?_ fun rest => .pure _
    exact (spliceAll_follows_unpacked hroots).bind fun inner => (partsOf_follows after).bind fun rest => .pure _
  simp only [(hfollows .empty).2 hrun]

/-- Two documents of which the first includes the second. -/
def nest : Storage.Disk :=
  ⟨[(["i"], .file (Text.Utf8.encode
      "<s><testinfo><name>i</name></testinfo><http/><script><file>j</file></script></s>")),
    (["j"], .file (Text.Utf8.encode "<s><timer><delay>1</delay></timer></s>"))], []⟩

def outerScript : Node :=
  ⟨"script", [⟨"file", [], [], "i", 1, "r"⟩], [], "i", 1, "r"⟩

/-- A description that includes the first document. -/
def nestNode : Node :=
  ⟨"s", [outerScript, ⟨"http", [], [], "", 1, "r"⟩], [], "i", 1, "r"⟩

def innerScript : Node :=
  ⟨"script", [⟨"file", [], [], "j", 1, "/i"⟩], [], "j", 1, "/i"⟩

/-- What is read of the first document. -/
def innerNode : Node :=
  ⟨"s", [⟨"testinfo", [⟨"name", [], [], "i", 1, "/i"⟩], [], "i", 1, "/i"⟩, ⟨"http", [], [], "", 1, "/i"⟩,
    innerScript], [], "ij", 1, "/i"⟩

def deep : Settings := ⟨1, "continue", .zero, 2, ",", true, "5.0", {}⟩

theorem brings_innerNode : Brings nest ⟨"file", [], [], "i", 1, "r"⟩ innerNode := by
  refine ⟨⟨"/", ["i"]⟩, ?_, ?_⟩
  · cbv
  · cbv

theorem unrefused_nest : ((ofDescription nest deep nestNode).run .empty).2.Unrefused := by
  have hall : ((ofDescription nest deep nestNode).run .empty).2.diagnostics.all
      (fun g => !g.problem.isRefusal) = true := by
    cbv
  intro g hg
  simpa using List.all_eq_true.mp hall g hg

/-- What is read of the first document may stand in the place of its script, but its name is left out. -/
theorem run_unpacked_nest :
    List.Forall₂ (Brings nest) (outerScript.children.filter (·.name = "file")) [innerNode] ∧
    ((ofDescription nest deep nestNode).run .empty).2.Unrefused ∧
    (ofDescription nest deep
      ⟨"s", [⟨"http", [], [], "", 1, "/i"⟩, innerScript, ⟨"http", [], [], "", 1, "r"⟩], [], "j", 1, "r"⟩).run
        .empty = (ofDescription nest deep nestNode).run .empty := by
  have hchildren : nestNode.children = [] ++ outerScript :: [⟨"http", [], [], "", 1, "r"⟩] := rfl
  have hroots : List.Forall₂ (Brings nest) (outerScript.children.filter (·.name = "file")) [innerNode] :=
    .cons brings_innerNode .nil
  exact ⟨hroots, unrefused_nest, run_unpacked hchildren (by decide) hroots unrefused_nest "j"⟩

end Scenario

end LoadPlan
