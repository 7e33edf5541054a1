import LoadPlan.Proofs.Scenario.Sheds

/-! Descriptions from which an element is removed that is of no use. All else is read as it was. -/
namespace LoadPlan.Scenario

open LoadPlan.Description (Node Kind)

/-- Of the elements that are read, one is removed from where it stands: either among some that stand beside
one another, or in one of these that is read. -/
inductive Removal (c : Node) : (Node → Prop) → List Node → List Node → Prop
  | here {reads : Node → Prop} (before after : List Node) : reads c →
      Removal c reads (before ++ c :: after) (before ++ after)
  | inside {reads : Node → Prop} {m m' : Node} (before after : List Node) : reads m → Resembles m m' →
      Removal c (Taken m) m.children m'.children →
      Removal c reads (before ++ m :: after) (before ++ m' :: after)

/-- A timer that lacks a field, or an element of a script that opens no document. -/
inductive Useless (disk : Storage.Disk) (settings : Settings) (chain : List Storage.Path) (c : Node) :
    Problem → Prop
  | timer : c.kind = .timer → (∃ key ∈ Timer.required, c.fields.get? key = none) →
      Useless disk settings chain c
        (.timerLacks (Timer.required.filter fun key => (c.fields.get? key).isNone))
  | file {p : Problem} : c.name = "file" → opened disk settings chain c = .error p →
      Useless disk settings chain c p

/-- What an element holds is read in the same way when something in it is removed, but for some reports. -/
inductive ReadsLess (ctx : Context) (more : List Diagnostic) (n n' : Node) : Prop
  | request : n.kind = .http → Sheds more (Request.ofNode n) (Request.ofNode n') → ReadsLess ctx more n n'
  | loop : n.kind = .loop → n'.hasChildren → Sheds more (Loop.ofNode n) (Loop.ofNode n') →
      ReadsLess ctx more n n'
  | controller : n.kind = .controller → n'.hasChildren →
      Sheds more (Controller.ofNode ctx n) (Controller.ofNode ctx n') → ReadsLess ctx more n n'
  | script : n.kind = .script → Sheds more (ctx.spliced n) (ctx.spliced n') → ReadsLess ctx more n n'
  | repetition : n.kind = .repeated → n'.hasChildren →
      Sheds more (repetition ctx n) (repetition ctx n') → ReadsLess ctx more n n'
  | dataSet : n.kind = .csv → n'.hasChildren → Sheds more (DataSet.ofNode ctx n) (DataSet.ofNode ctx n') →
      ReadsLess ctx more n n'

/-- What the elements of a document are read with, while the documents of the chain are open. -/
abbrev Context.within (disk : Storage.Disk) (settings : Settings) (chain : List Storage.Path) : Context :=
  ⟨disk, settings, Scenario.spliced disk settings chain⟩

variable {disk : Storage.Disk} {settings : Settings} {chain : List Storage.Path} {ctx : Context}
  {more : List Diagnostic} {c m m' n n' root root' : Node} {p : Problem} {before after : List Node}

theorem timer_of_lacks (h : ∃ key ∈ Timer.required, c.fields.get? key = none) :
    Timer.ofNode c = .error (.timerLacks (Timer.required.filter fun key => (c.fields.get? key).isNone)) := by
  unfold Timer.ofNode
  simp only
  split
  · next hname hdelay hrange =>
    simp [Timer.required, hname, hdelay, hrange] at h
  · rfl

theorem kind_of_file (h : n.name = "file") : n.kind = .other := by
  rw [Node.kind, h]
  rfl

theorem Taken.of_timer (h : Taken n c) (hk : c.kind = .timer) : n.kind = .http ∧ c.hasChildren = true := by
  cases h with
  | timer hn _ _ hf => exact ⟨hn, hf⟩
  | round _ _ hc | script _ _ hc | repetition _ _ hc => cases hk.symm.trans hc
  | step _ _ hc | dataStep _ _ hc =>
    rw [hk] at hc
    exact absurd hc (by decide)
  | file _ _ hname => cases hk.symm.trans (kind_of_file hname)

theorem Taken.of_file (h : Taken n c) (hname : c.name = "file") : n.kind = .script := by
  have hk := kind_of_file hname
  cases h with
  | file hn => exact hn
  | timer _ _ hc | round _ _ hc | script _ _ hc | repetition _ _ hc => cases hk.symm.trans hc
  | step _ _ hc | dataStep _ _ hc =>
    rw [hk] at hc
    exact absurd hc (by decide)

namespace ReadsLess

theorem kind (h : ReadsLess ctx more n n') :
    n.kind ∈ [Kind.http, .loop, .controller, .script, .repeated, .csv] := by
  cases h with
  | request hk | loop hk | controller hk | script hk | repetition hk | dataSet hk =>
    rw [hk]
    decide

theorem spliced_of_childless (h : n.hasChildren = false) : spliced disk settings chain n = pure ([], []) := by
  have hnone : n.children = [] := by simpa [Node.hasChildren] using h
  rw [spliced, hnone]
  rfl

/-- It does not matter whether a script has elements in it. -/
theorem stepOf_script (hk : n.kind = .script) :
    stepOf (.within disk settings chain) n = spliced disk settings chain n := by
  unfold stepOf
  rw [hk]
  cases hc : n.hasChildren with
  | true => rfl
  | false => exact (spliced_of_childless hc).symm

theorem ofElement_script (hk : n.kind = .script) :
    ofElement (.within disk settings chain) n = do
      let r ← spliced disk settings chain n
      return ⟨r.1, r.2, []⟩ := by
  unfold ofElement
  rw [hk]
  cases hc : n.hasChildren with
  | true => rfl
  | false =>
    rw [spliced_of_childless hc]
    rfl

theorem stepOf (h : ReadsLess (.within disk settings chain) more n n') (hr : Resembles n n')
    (hk : n.kind ∈ Controller.stepKinds) :
    Sheds more (stepOf (.within disk settings chain) n) (stepOf (.within disk settings chain) n') := by
  cases h with
  | script hn hs =>
    rw [stepOf_script hn, stepOf_script (hr.kind.trans hn)]
    exact hs
  | request hn hs =>
    unfold Scenario.stepOf
    rw [hr.kind, hn]
    exact hs.first fun r => .pure _
  | loop hn _ hs =>
    unfold Scenario.stepOf
    rw [hr.kind, hn]
    exact hs.first fun l => .pure _
  | controller hn _ hs =>
    unfold Scenario.stepOf
    rw [hr.kind, hn]
    exact hs.first fun k => .pure _
  | repetition hn | dataSet hn =>
    rw [hn] at hk
    exact absurd hk (by decide)

theorem step? (h : ReadsLess ctx more n n') (hr : Resembles n n')
    (hk : n.kind = .http ∨ n.kind = .controller ∨ n.kind = .loop) :
    Sheds more (step? ctx n) (step? ctx n') := by
  unfold Scenario.step?
  rw [hr.kind]
  cases h with
  | request hn hs =>
    rw [hn]
    exact hs.first fun r => .pure _
  | loop hn _ hs =>
    rw [hn]
    exact hs.first fun l => .pure _
  | controller hn _ hs =>
    rw [hn]
    exact hs.first fun k => .pure _
  | script hn | repetition hn | dataSet hn =>
    rw [hn] at hk
    exact absurd hk (by decide)

theorem dataStep? (h : ReadsLess ctx more n n') (hr : Resembles n n') (hk : n.kind ∈ DataSet.stepKinds)
    (hf : n.kind = .repeated → n.hasChildren = true) :
    Sheds more (dataStep? ctx n) (dataStep? ctx n') := by
  unfold Scenario.dataStep?
  by_cases hn : n.kind = .repeated
  · cases h with
    | repetition _ hf' hs =>
      simp only [hr.kind, hn, beq_self_eq_true, if_true, hf hn, hf']
      exact hs.map some
    | request hk' | loop hk' | controller hk' | script hk' | dataSet hk' => cases hn.symm.trans hk'
  · have hstep : n.kind = .http ∨ n.kind = .controller ∨ n.kind = .loop := by
      simpa [DataSet.stepKinds, hn] using hk
    rw [if_neg (by simpa using hn), if_neg (by simpa [hr.kind] using hn)]
    exact h.step? hr hstep

theorem ofElement (h : ReadsLess (.within disk settings chain) more n n') (hr : Resembles n n')
    (ht : Topmost root n) :
    Sheds more (ofElement (.within disk settings chain) n) (ofElement (.within disk settings chain) n') := by
  have hfilled : n.kind ≠ .http → n.hasChildren = true := by
    intro hk
    cases ht with
    | request _ hn => exact absurd hn hk
    | filled _ _ hf => exact hf
  cases h with
  | script hn hs =>
    rw [ofElement_script hn, ofElement_script (hr.kind.trans hn)]
    exact hs.first fun r => .pure _
  | request hn hs =>
    unfold Scenario.ofElement
    rw [hr.kind, hn]
    exact hs.first fun r => .pure _
  | loop hn hf hs =>
    unfold Scenario.ofElement
    rw [hr.kind, hn, hf, hfilled (by rw [hn]; decide)]
    exact hs.first fun l => .pure _
  | controller hn hf hs =>
    unfold Scenario.ofElement
    rw [hr.kind, hn, hf, hfilled (by rw [hn]; decide)]
    exact hs.first fun k => .pure _
  | dataSet hn hf hs =>
    unfold Scenario.ofElement
    rw [hr.kind, hn, hf, hfilled (by rw [hn]; decide)]
    exact hs.first fun d => .pure _
  | repetition hn =>
    cases ht with
    | request _ hk | filled _ hk =>
      rw [hn] at hk
      exact absurd hk (by decide)

end ReadsLess

/-! What an element holds that is not touched. -/

theorem filter_without {p : Node → Bool} (hc : p c = false) :
    (before ++ after).filter p = (before ++ c :: after).filter p := by
  rw [List.filter_append, List.filter_append, List.filter_cons_of_neg (by rw [hc]; decide)]

theorem filter_instead {p : Node → Bool} (hm : p m = false) (hm' : p m' = false) :
    (before ++ m' :: after).filter p = (before ++ m :: after).filter p := by
  rw [← filter_without hm', filter_without hm]

theorem hasChildren_of_children (h : n'.children = before ++ m' :: after) : n'.hasChildren = true := by
  simp [Node.hasChildren, h]

/-! The elements from which something useless is removed. -/

theorem request_without (hr : Resembles n n') (hn : n.kind = .http)
    (hchildren : n.children = before ++ c :: after) (hchildren' : n'.children = before ++ after)
    (hc : c.kind = .timer) (hf : c.hasChildren = true) (hp : Timer.ofNode c = .error p) :
    ReadsLess ctx [⟨p, c.place⟩] n n' := by
  have hread : Timer.read? c = do
      report p c
      return none := by
    rw [Timer.read?, hp]
  have hfilled : ∀ ns ms : List Node, filled .timer (ns ++ ms) = filled .timer ns ++ filled .timer ms :=
    fun _ _ => List.filter_append ..
  have htimer : filled .timer (c :: after) = c :: filled .timer after :=
    List.filter_cons_of_pos (by rw [hc, hf]; rfl)
  refine .request hn (request_sheds hr ?_ ?_)
  · rw [hchildren, hchildren']
    exact filter_without (by rw [hc]; rfl)
  · rw [hchildren, hchildren', hfilled, hfilled, htimer]
    refine (Sequential.filterMapM Timer.read?).without timer_steady _ _ (a := none) ?_ fun _ => rfl
    rw [hread]
    exact .of_report p c none

theorem script_without (hn : n.kind = .script)
    (hchildren : n.children = before ++ c :: after) (hchildren' : n'.children = before ++ after)
    (hname : c.name = "file") (hp : opened disk settings chain c = .error p) :
    ReadsLess (.within disk settings chain) [⟨p, c.place⟩] n n' := by
  have hbrought : brought disk settings chain c = do
      report p c
      return empty := by
    rw [brought, if_pos hname, splice_eq, hp]
  have hsplice := (Sheds.of_report p c empty).map parts
  rw [map_pure] at hsplice
  refine .script hn ?_
  change Sheds _ (spliceAll _ _ _ _ n.children) (spliceAll _ _ _ _ n'.children)
  rw [hchildren, hchildren']
  refine (spliceAll_sequential disk settings chain).without
    (fun m => (brought_steady chain m).map parts) before after (a := ([], [])) ?_ fun _ => rfl
  rw [hbrought]
  exact hsplice

theorem loop_instead (hr : Resembles n n') (hm : Resembles m m') (hn : n.kind = .loop)
    (hchildren : n.children = before ++ m :: after) (hchildren' : n'.children = before ++ m' :: after)
    (hk : m.kind = .http) (h : ReadsLess ctx more m m') : ReadsLess ctx more n n' := by
  have hk' : m'.kind = .http := hm.kind.trans hk
  have htests : Sheds more (Request.ofNode m) (Request.ofNode m') := by
    cases h with
    | request _ hs => exact hs
    | loop hm | controller hm | script hm | repetition hm | dataSet hm => cases hk.symm.trans hm
  refine .loop hn (hasChildren_of_children hchildren') (loop_sheds hr ?_ ?_)
  · rw [hchildren, hchildren']
    exact filter_instead (by rw [hk]; rfl) (by rw [hk']; rfl)
  · rw [hchildren, hchildren', List.filter_append, List.filter_append,
      List.filter_cons_of_pos (by rw [hk]; rfl), List.filter_cons_of_pos (by rw [hk']; rfl)]
    exact (Sequential.mapM Request.ofNode).among request_steady _ _ htests

theorem controller_instead (hr : Resembles n n') (hm : Resembles m m') (hn : n.kind = .controller)
    (hchildren : n.children = before ++ m :: after) (hchildren' : n'.children = before ++ m' :: after)
    (hk : m.kind ∈ Controller.stepKinds) (h : ReadsLess (.within disk settings chain) more m m') :
    ReadsLess (.within disk settings chain) more n n' := by
  have hstep : (!Controller.stepKinds.contains m.kind) = false := by
    rw [List.contains_iff_mem.mpr hk]
    rfl
  have hstep' : (!Controller.stepKinds.contains m'.kind) = false := by
    rw [hm.kind]
    exact hstep
  refine .controller hn (hasChildren_of_children hchildren') (controller_sheds hr ?_ ?_)
  · rw [hchildren, hchildren']
    exact filter_instead hstep hstep'
  · rw [hchildren, hchildren']
    exact (steps_sequential _).among (stepOf_steady (spliced_steady chain)) _ _ (h.stepOf hm hk)

theorem dataSet_instead (hr : Resembles n n') (hm : Resembles m m') (hn : n.kind = .csv)
    (hchildren : n.children = before ++ m :: after) (hchildren' : n'.children = before ++ m' :: after)
    (hk : m.kind ∈ DataSet.stepKinds) (hf : m.kind = .repeated → m.hasChildren = true)
    (h : ReadsLess (.within disk settings chain) more m m') :
    ReadsLess (.within disk settings chain) more n n' := by
  have hstep : (!DataSet.stepKinds.contains m.kind) = false := by
    rw [List.contains_iff_mem.mpr hk]
    rfl
  have hstep' : (!DataSet.stepKinds.contains m'.kind) = false := by
    rw [hm.kind]
    exact hstep
  refine .dataSet hn (hasChildren_of_children hchildren') (dataSet_sheds hr ?_ ?_)
  · rw [hchildren, hchildren']
    exact filter_instead hstep hstep'
  · rw [hchildren, hchildren']
    refine (Sequential.filterMapM _).among (dataStep?_steady (spliced_steady chain)) _ _ ?_
    exact h.dataStep? hm hk hf

theorem repetition_instead (hm : Resembles m m') (hn : n.kind = .repeated)
    (hchildren : n.children = before ++ m :: after) (hchildren' : n'.children = before ++ m' :: after)
    (hk : m.kind = .http ∨ m.kind = .controller ∨ m.kind = .loop)
    (h : ReadsLess (.within disk settings chain) more m m') :
    ReadsLess (.within disk settings chain) more n n' := by
  have hitems : Sheds more (n.children.filterMapM (step? (.within disk settings chain)))
      (n'.children.filterMapM (step? (.within disk settings chain))) := by
    rw [hchildren, hchildren']
    exact (Sequential.filterMapM _).among (step?_steady (spliced_steady chain)) _ _ (h.step? hm hk)
  exact .repetition hn (hasChildren_of_children hchildren') (hitems.first fun _ => .pure _)

/-- An element from which something useless is removed is read as before, but for one report. -/
theorem Removal.readsLess (hc : Useless disk settings chain c p)
    (h : Removal c (Taken n) n.children n'.children) (hr : Resembles n n') :
    ReadsLess (.within disk settings chain) [⟨p, c.place⟩] n n' := by
  generalize hreads : Taken n = reads at h
  generalize hchildren : n.children = ms at h
  generalize hchildren' : n'.children = ms' at h
  -- On the way to the element that is removed, each one holds the next.
  induction h generalizing n n' with
  | here before after ht =>
    subst hreads
    cases hc with
    | timer hk hlacks =>
      obtain ⟨hn, hf⟩ := ht.of_timer hk
      exact request_without hr hn hchildren hchildren' hk hf (timer_of_lacks hlacks)
    | file hname hp => exact script_without (ht.of_file hname) hchildren hchildren' hname hp
  | @inside reads m m' before after ht hm _ ih =>
    subst hreads
    have hless := ih hm rfl rfl rfl
    have hkind := hless.kind
    cases ht with
    | timer _ _ hk =>
      rw [hk] at hkind
      exact absurd hkind (by decide)
    | file _ _ hname =>
      rw [kind_of_file hname] at hkind
      exact absurd hkind (by decide)
    | round hn _ hk => exact loop_instead hr hm hn hchildren hchildren' hk hless
    | step hn _ hk =>
      refine controller_instead hr hm hn hchildren hchildren' ?_ hless
      rcases hk with hk | hk | hk <;> rw [hk] <;> decide
    | script hn _ hk =>
      refine controller_instead hr hm hn hchildren hchildren' ?_ hless
      rw [hk]
      decide
    | dataStep hn _ hk =>
      rcases hn with hn | hn
      · refine dataSet_instead hr hm hn hchildren hchildren' ?_ (fun h => ?_) hless
        · rcases hk with hk | hk | hk <;> rw [hk] <;> decide
        · rw [h] at hk
          exact absurd hk (by decide)
      · exact repetition_instead hm hn hchildren hchildren' hk hless
    | repetition hn _ hk hf =>
      refine dataSet_instead hr hm hn hchildren hchildren' ?_ (fun _ => hf) hless
      rw [hk]
      decide

theorem topmost_of_file (h : Topmost root c) : c.name ≠ "file" := by
  intro hname
  have hk := kind_of_file hname
  cases h with
  | request _ hc => cases hk.symm.trans hc
  | filled _ hc =>
    rw [hk] at hc
    exact absurd hc (by decide)

theorem ofElement_useless (hc : Useless disk settings chain c p) (ht : Topmost root c) :
    Sheds [⟨p, c.place⟩] (ofElement ctx c) (pure empty) := by
  cases hc with
  | file hname => exact absurd hname (topmost_of_file ht)
  | timer hk hlacks =>
    have hf : c.hasChildren = true := by
      cases ht with
      | request _ hc => cases hk.symm.trans hc
      | filled _ _ hf => exact hf
    unfold ofElement Timer.read?
    rw [hk, hf, timer_of_lacks hlacks]
    exact .of_report _ c empty

theorem said_of_topmost (h : Topmost root n) : (n.kind == .testinfo) = false := by
  refine beq_false_of_ne fun hk => ?_
  cases h with
  | request _ hn => cases hk.symm.trans hn
  | filled _ hn =>
    rw [hk] at hn
    exact absurd hn (by decide)

theorem partsOf_sequential (ctx : Context) : Sequential (partsOf ctx) (fun n => parts <$> ofElement ctx n)
    (fun here after => (here.1 ++ after.1, here.2 ++ after.2)) ([], []) where
  nil := rfl
  cons _ _ := rfl

theorem ofElements_sheds {ns ns' : List Node} (hparts : Sheds more (partsOf ctx ns) (partsOf ctx ns'))
    (hsaid : ns'.filter (·.kind == .testinfo) = ns.filter (·.kind == .testinfo)) :
    Sheds more (ofElements ctx ns) (ofElements ctx ns') := by
  intro k here there
  obtain ⟨r, j, before, after, hrun, hrun'⟩ := hparts k here there
  have hsaid : saidOf ns' = saidOf ns := by
    rw [← saidOf_filter, hsaid, saidOf_filter]
  refine ⟨⟨r.1, r.2, saidOf ns⟩, j, before, after, ?_, ?_⟩
  · rw [run_ofElements, hrun]
  · rw [run_ofElements, hrun', hsaid]

/-- Of a document from which something useless is removed the same is read, with one report less. -/
theorem contents_sheds (hc : Useless disk settings chain c p)
    (h : Removal c (Topmost root) root.children root'.children) :
    Sheds [⟨p, c.place⟩] (contents disk settings chain root) (contents disk settings chain root') := by
  have hsteady : ∀ n, Steady (parts <$> ofElement (.within disk settings chain) n) :=
    fun n => (ofElement_steady (spliced_steady chain) n).map parts
  rw [contents_eq, contents_eq]
  generalize hreads : Topmost root = reads at h
  generalize root.children = ms, root'.children = ms' at h
  cases h with
  | here before after ht =>
    subst hreads
    have huseless : Sheds _ (parts <$> ofElement (.within disk settings chain) c) (parts <$> pure empty) :=
      (ofElement_useless hc ht).map parts
    rw [map_pure] at huseless
    refine ofElements_sheds ?_ (filter_without (said_of_topmost ht))
    exact (partsOf_sequential _).without hsteady before after (a := ([], [])) huseless fun _ => rfl
  | @inside reads m m' before after ht hm hinner =>
    subst hreads
    have hsaid := said_of_topmost ht
    have hsaid' : (m'.kind == .testinfo) = false := by
      rw [hm.kind]
      exact hsaid
    have hless := (hinner.readsLess hc hm).ofElement hm ht
    refine ofElements_sheds ?_ (filter_instead hsaid hsaid')
    exact (partsOf_sequential _).among hsteady before after (hless.map parts)

/-- A description from which a useless timer is removed, or an element of a script that opens no document,
gives the same scenario and the same reports but the one on that element. -/
theorem run_of_removal (hr : Resembles root root')
    (h : Removal c (Topmost root) root.children root'.children)
    (hc : Useless disk settings (headChain disk root) c p) (log : Log) :
    ∃ s controllers before after,
      (ofDescription disk settings root).run log =
        (s, ⟨controllers, log.diagnostics ++ (before ++ [⟨p, c.place⟩] ++ after)⟩) ∧
      (ofDescription disk settings root').run log =
        (s, ⟨controllers, log.diagnostics ++ (before ++ after)⟩) := by
  have hchain : headChain disk root' = headChain disk root := by
    rw [headChain, hr.source, headChain]
  rw [ofDescription_eq, ofDescription_eq, hchain]
  exact contents_sheds hc h log.controllers log.diagnostics log.diagnostics

end LoadPlan.Scenario
