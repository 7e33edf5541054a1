import LoadPlan.Proofs.Scenario.Requests
import LoadPlan.Proofs.Scenario.Standing
import LoadPlan.Scenario.Collection

/-! What is collected from a description that includes no other. Its requests are those that stand where
they are recognised, in document order, with those in data sets apart from the others. -/
namespace LoadPlan.Scenario

open LoadPlan.Description (Node Standing)
open LoadPlan.Description.Node (standings standingsOf standings_eq mem_standings
  mem_standingsOf recognised around_of_standingsOf fits isStep)

theorem refusal?_of_timer {n : Node} {p : Problem} (h : Timer.ofNode n = .error p) :
    p.refusal? = none := by
  simp only [Timer.ofNode] at h
  split at h
  · cases h
  · cases h
    rfl

theorem timer_settled (n : Node) : Settled (Timer.read? n) := by
  unfold Timer.read?
  cases ht : Timer.ofNode n with
  | ok t => exact .pure _
  | error p => exact (Settled.report (refusal?_of_timer ht) n).bind fun _ => .pure none

theorem results_settled (r : Results) (name : String) (n : Node) : Settled (r.complete name n) := by
  unfold Results.complete
  refine (Settled.orDefault _ _ rfl _).bind fun file => ?_
  exact (Settled.orDefault _ _ rfl _).bind fun type => .pure _

theorem request_settled (n : Node) : Settled (Request.ofNode n) := by
  unfold Request.ofNode
  refine (Settled.filterMapM timer_settled _).bind fun timers => ?_
  refine (Settled.orDefault _ _ rfl _).bind fun method => ?_
  refine (Settled.orDefault _ _ rfl _).bind fun name => ?_
  cases (filled .results n.children).getLast? with
  | none => exact (Settled.pure none).bind fun _ => .pure _
  | some r =>
    dsimp only
    rw [map_eq_pure_bind]
    exact ((results_settled _ name n).bind fun results => .pure (some results)).bind fun _ => .pure _

/-- A request is read the same at any time. -/
theorem request_read (n : Node) : Reads (Request.ofNode n) (· = Request.described n) Answered := by
  obtain ⟨r, hr⟩ := request_settled n
  have hd : Request.described n = r := (hr .empty).1
  rwa [hd]

/-! What is found among the elements in one that is recognised. -/

variable {ctx : Context} {around : List Node} {m n : Node}

/-- No element is a script. -/
abbrev Scriptless (xs : List Standing) : Prop :=
  ∀ x ∈ xs, x.node.kind ≠ .script

theorem scriptless_cons {ns : List Node} :
    Scriptless (standingsOf around (n :: ns)) ↔
      n.kind ≠ .script ∧ Scriptless (standingsOf (n :: around) n.children) ∧
        Scriptless (standingsOf around ns) := by
  unfold Scriptless
  rw [standingsOf, List.forall_mem_append, standings_eq, List.forall_mem_cons, and_assoc]

theorem requestsFound_request (hk : n.kind = .http) (hr : recognised n around = true) :
    requestsFound around [n] = [Request.described n] := by
  have hbelow : requestsFound (n :: around) n.children = [] :=
    requestsFound_eq_nil fun c _ => by simp [recognised, fits, hk]
  rw [requestsFound_singleton, hbelow, hk, hr]
  rfl

theorem requestsFound_ignored (hr : recognised n around = false) : requestsFound around [n] = [] :=
  requestsFound_eq_nil (List.forall_mem_singleton.mpr hr)

theorem requestsFound_below (hk : n.kind ≠ .http) :
    requestsFound around [n] = requestsFound (n :: around) n.children := by
  rw [requestsFound_singleton, beq_false_of_ne hk]
  rfl

theorem requestsFound_loop (hk : m.kind = .loop) (hr : recognised m around = true) (ns : List Node) :
    requestsFound (m :: around) ns = (ns.filter (·.kind == .http)).map Request.described := by
  rw [requestsFound_eq_flatMap]
  induction ns with
  | nil => rfl
  | cons n ns ih =>
    rw [List.flatMap_cons, ih, List.filter_cons]
    by_cases hn : n.kind = .http
    · rw [requestsFound_request hn (by simp [recognised, fits, hk, hn, hr])]
      simp [hn]
    · rw [requestsFound_ignored (by simp [recognised, fits, hk, hn])]
      simp [hn]

theorem request_found (hk : n.kind = .http) (hr : recognised n around = true) :
    Reads (Request.ofNode n) (fun r => [r] = requestsFound around [n]) Unseen := by
  rw [requestsFound_request hk hr]
  refine (request_read n).unseen.mono ?_
  rintro _ rfl
  rfl

theorem loop_found (hk : n.kind = .loop) (hr : recognised n around = true) :
    Reads (Loop.ofNode n) (·.tests = requestsFound around [n]) Unseen := by
  rw [requestsFound_below (by simp [hk]), requestsFound_loop hk hr]
  unfold Loop.ofNode
  refine (Reads.mapM_eq fun c _ => (request_read c).unseen).bind fun tests htests => ?_
  dsimp only
  split
  · exact .pure htests
  · split
    · exact .pure htests
    · exact (Reads.report trivial).bind fun _ _ => .pure htests

mutual

/-- The steps of a controller have the requests that are found in its element. -/
theorem controller_found : ∀ (n : Node) (around : List Node), n.kind = .controller →
    recognised n around = true → Scriptless (standingsOf (n :: around) n.children) →
    Reads (Controller.ofNode ctx n) (·.requests = requestsFound around [n]) Unseen
  | ⟨name, children, attributes, content, line, source⟩, around, hk, hr, hs => by
    have hsteps := steps_found children _ around hk hr hs
    rw [requestsFound_below (by simp [hk]), Controller.ofNode]
    refine Reads.get.bind fun log _ => ?_
    refine Reads.count.bind fun _ _ => ?_
    refine hsteps.bind fun r hr => ?_
    refine (Reads.orDefault fun _ => trivial).bind fun name _ => ?_
    split
    · exact .pure hr
    · exact (Reads.report trivial).bind fun _ _ => .pure hr

theorem steps_found : ∀ (cs : List Node) (m : Node) (around : List Node), m.kind = .controller →
    recognised m around = true → Scriptless (standingsOf (m :: around) cs) →
    Reads (Controller.steps ctx cs) (fun r => requestsOf r.1 = requestsFound (m :: around) cs) Unseen
  | [], _, _, _, _, _ => .pure rfl
  | c :: cs, m, around, hk, hr, h => by
    obtain ⟨hc, hbelow, hcs⟩ := scriptless_cons.mp h
    have ih := steps_found cs m around hk hr hcs
    -- Whatever the first step is, its requests come before those of the others.
    have hjoin : ∀ es sets, requestsOf es = requestsFound (m :: around) [c] →
        Reads (do let (after, more) ← Controller.steps ctx cs; return (es ++ after, sets ++ more))
          (fun r => requestsOf r.1 = requestsFound (m :: around) (c :: cs)) Unseen := by
      intro es sets he
      refine ih.bind fun r hr => .pure ?_
      rw [requestsOf_append, he, hr, ← requestsFound_append, List.singleton_append]
    have hfits : recognised c (m :: around) = isStep c := by simp [recognised, fits, hk, hr]
    rw [Controller.steps]
    split
    · next hck =>
      have hcr : recognised c (m :: around) = true := by simp [hfits, isStep, hck]
      exact (request_found hck hcr).bind fun r hr => hjoin [.request r] [] hr
    · next hck =>
      have hcr : recognised c (m :: around) = true := by simp [hfits, isStep, hck]
      exact (loop_found hck hcr).bind fun l hl => hjoin [.loop l] [] ((List.append_nil _).trans hl)
    · next hck =>
      have hcr : recognised c (m :: around) = true := by simp [hfits, isStep, hck]
      exact (controller_found c _ hck hcr hbelow).bind fun k hk =>
        hjoin [.controller k] [] ((List.append_nil _).trans hk)
    · next hck => exact absurd hck hc
    · refine hjoin [] [] (Eq.symm ?_)
      refine requestsFound_ignored ?_
      simp_all [isStep]

end

/-- A step of a data set or of a repetition. -/
theorem step?_found {φ : Entry → List Request} (hrequest : ∀ r, φ (.request r) = [r])
    (hloop : ∀ l, φ (.loop l) = l.tests) (hcontroller : ∀ c, φ (.controller c) = c.requests)
    (hfits : recognised n around = isStep n) (hs : Scriptless (standingsOf (n :: around) n.children)) :
    Reads (step? ctx n) (fun o => o.toList.flatMap φ = requestsFound around [n]) Unseen := by
  unfold step?
  split
  · next hk =>
    have hr : recognised n around = true := by simp [hfits, isStep, hk]
    refine (request_found hk hr).bind fun r hr => .pure ?_
    rw [Option.toList_some, List.flatMap_singleton, hrequest, hr]
  · next hk =>
    have hr : recognised n around = true := by simp [hfits, isStep, hk]
    refine (controller_found n _ hk hr hs).bind fun c hc => .pure ?_
    rw [Option.toList_some, List.flatMap_singleton, hcontroller, hc]
  · next hk =>
    have hr : recognised n around = true := by simp [hfits, isStep, hk]
    refine (loop_found hk hr).bind fun l hl => .pure ?_
    rw [Option.toList_some, List.flatMap_singleton, hloop, hl]
  · refine .pure (Eq.symm (requestsFound_ignored ?_))
    simp_all [isStep]

theorem scriptless_of_mem {ns : List Node} (h : Scriptless (standingsOf around ns)) (hn : n ∈ ns) :
    Scriptless (standingsOf (n :: around) n.children) :=
  fun x hx => h x (mem_standingsOf.mpr ⟨n, hn, mem_standings.mpr (.inr hx)⟩)

theorem repetition_found (hk : n.kind = .repeated) (hr : recognised n around = true)
    (hs : Scriptless (standingsOf (n :: around) n.children)) :
    Reads (repetition ctx n) (fun e => e.requestsIn 1 = requestsFound around [n]) Unseen := by
  have hitem : ∀ c ∈ n.children, Reads (step? ctx c)
      (fun o => o.toList.flatMap Entry.requests = requestsFound (n :: around) [c]) Unseen := by
    intro c hc
    have hfits : recognised c (n :: around) = isStep c := by simp [recognised, fits, hk, hr]
    exact step?_found (fun _ => rfl) (fun _ => rfl) (fun _ => rfl) hfits (scriptless_of_mem hs hc)
  have hitems := Reads.filterMapM_flatMap hitem
  unfold repetition
  refine hitems.bind fun items hi => .pure ?_
  rw [requestsFound_below (by simp [hk]), requestsFound_eq_flatMap, ← hi, ← requestsOf_eq_flatMap]
  exact List.append_nil _

theorem dataSet_found (hk : n.kind = .csv) (hr : recognised n around = true)
    (hs : Scriptless (standingsOf (n :: around) n.children)) :
    Reads (DataSet.ofNode ctx n) (fun d => d.requests 1 = requestsFound around [n]) Unseen := by
  have hstep : ∀ c ∈ n.children, Reads
      (if c.kind == .repeated then if c.hasChildren then some <$> repetition ctx c else pure none
        else step? ctx c)
      (fun o => o.toList.flatMap (Entry.requestsIn 1) = requestsFound (n :: around) [c]) Unseen := by
    intro c hc
    have hcs := scriptless_of_mem hs hc
    split
    · next hck =>
      have hck := beq_iff_eq.mp hck
      split
      · next hf =>
        have hcr : recognised c (n :: around) = true := by simp [recognised, fits, hk, hr, hck, hf]
        refine (repetition_found hck hcr hcs).map fun e he => ?_
        rw [Option.toList_some, List.flatMap_singleton, he]
      · next hf =>
        refine .pure (Eq.symm (requestsFound_ignored ?_))
        simp [recognised, fits, hk, isStep, hck, hf]
    · next hck =>
      have hfits : recognised c (n :: around) = isStep c := by simp_all [recognised, fits]
      exact step?_found (fun _ => rfl) (fun _ => rfl) (fun _ => rfl) hfits hcs
  have hstack := Reads.filterMapM_flatMap hstep
  rw [requestsFound_below (by simp [hk]), requestsFound_eq_flatMap]
  unfold DataSet.ofNode
  refine hstack.bind fun stack hstack => ?_
  exact (Reads.orDefault fun _ => trivial).bind fun filename _ => .pure hstack

/-! Whole documents. -/

/-- The requests of the steps of a scenario, and of its data sets, are those that are recognised among
elements, the ones in data sets apart from the others. -/
structure Collects (xs : List Standing) (s : Scenario) : Prop where
  stack : requestsOf s.stack = requestsAmong (fun x => !x.inDataSet) xs
  dataSets : s.dataSets.flatMap (DataSet.requests 1) = requestsAmong Standing.inDataSet xs

theorem Collects.append {s t : Scenario} {xs ys : List Standing} (hs : Collects xs s)
    (ht : Collects ys t) : Collects (xs ++ ys) (s.append t) where
  stack := by rw [Scenario.append, requestsOf_append, hs.stack, ht.stack, requestsAmong_append]
  dataSets := by
    rw [Scenario.append, List.flatMap_append, hs.dataSets, ht.dataSets, requestsAmong_append]

theorem inDataSet_of_standings {x : Standing} (hx : x ∈ standings [] n) (hk : x.node.kind = .http)
    (hr : recognised x.node x.around = true) : x.inDataSet = (n.kind == .csv) := by
  rcases mem_standings.mp hx with rfl | hx
  · have hk : n.kind = .http := hk
    rw [hk]
    rfl
  · rw [(around_of_standingsOf _ hx hr).2, List.any_cons, List.any_nil, Bool.or_false]

/-- All requests below an element at the top are in the same place. -/
theorem requestsAmong_standings {p : Standing → Bool} {b : Bool}
    (h : ∀ x ∈ standings [] n, x.node.kind = .http → recognised x.node x.around = true → p x = b) :
    requestsAmong p (standings [] n) = if b then requestsFound [] [n] else [] := by
  rw [requestsAmong_congr h]
  cases b with
  | true => rw [requestsFound, standingsOf, standingsOf, List.append_nil]; rfl
  | false => simp [requestsAmong]

theorem requestsAmong_inDataSet :
    requestsAmong Standing.inDataSet (standings [] n) =
      if n.kind = .csv then requestsFound [] [n] else [] := by
  rw [requestsAmong_standings (b := n.kind == .csv)]
  · simp
  · intro x hx hk hr
    exact inDataSet_of_standings hx hk hr

theorem requestsAmong_outside :
    requestsAmong (fun x => !x.inDataSet) (standings [] n) =
      if n.kind = .csv then [] else requestsFound [] [n] := by
  rw [requestsAmong_standings (b := !(n.kind == .csv))]
  · by_cases hn : n.kind = .csv
    · simp [hn]
    · simp [hn]
  · intro x hx hk hr
    rw [inDataSet_of_standings hx hk hr]

theorem collects_stack {stack : List Entry} (hk : n.kind ≠ .csv)
    (h : requestsOf stack = requestsFound [] [n]) : Collects (standings [] n) ⟨stack, [], []⟩ where
  stack := by rw [requestsAmong_outside, if_neg hk, h]
  dataSets := by rw [requestsAmong_inDataSet, if_neg hk, List.flatMap_nil]

theorem collects_dataSet {d : DataSet} (hk : n.kind = .csv) (h : d.requests 1 = requestsFound [] [n]) :
    Collects (standings [] n) ⟨[], [d], []⟩ where
  stack := by rw [requestsAmong_outside, if_pos hk, requestsOf]
  dataSets := by rw [requestsAmong_inDataSet, if_pos hk, List.flatMap_singleton, h]

theorem collects_ignored {info : Info} (hr : recognised n [] = false) :
    Collects (standings [] n) ⟨[], [], info⟩ where
  stack := by rw [requestsAmong_outside, requestsFound_ignored hr, ite_self, requestsOf]
  dataSets := by rw [requestsAmong_inDataSet, requestsFound_ignored hr, ite_self, List.flatMap_nil]

theorem ofElement_collects (hs : Scriptless (standings [] n)) :
    Reads (ofElement ctx n) (Collects (standings [] n)) Unseen := by
  rw [standings_eq] at hs
  obtain ⟨hn, hs⟩ := List.forall_mem_cons.mp hs
  unfold ofElement
  split
  · next hk =>
    have hr : recognised n [] = false := by simp [recognised, fits, hk]
    split
    · obtain ⟨t, ht⟩ := timer_settled n
      refine ht.unseen.bind fun t _ => .pure (collects_stack (by simp [hk]) ?_)
      rw [requestsFound_ignored hr]
      cases t <;> rfl
    · exact .pure (collects_ignored hr)
  · next hk =>
    split
    · next hc =>
      have hr : recognised n [] = true := by simp [recognised, fits, hk, hc]
      refine (loop_found hk hr).bind fun l hl => .pure (collects_stack (by simp [hk]) ?_)
      exact (List.append_nil _).trans hl
    · next hc => exact .pure (collects_ignored (by simp [recognised, fits, hk, hc]))
  · next hk =>
    split
    · next hc =>
      have hr : recognised n [] = true := by simp [recognised, fits, hk, hc]
      refine (controller_found n _ hk hr hs).bind fun c hc => .pure (collects_stack (by simp [hk]) ?_)
      exact (List.append_nil _).trans hc
    · next hc => exact .pure (collects_ignored (by simp [recognised, fits, hk, hc]))
  · next hk => exact .pure (collects_ignored (by simp [recognised, fits, hk]))
  · next hk =>
    have hr : recognised n [] = true := by simp [recognised, fits, hk]
    exact (request_found hk hr).bind fun r hr => .pure (collects_stack (by simp [hk]) hr)
  · next hk =>
    split
    · next hc =>
      have hr : recognised n [] = true := by simp [recognised, fits, hk, hc]
      exact (dataSet_found hk hr hs).bind fun d hd => .pure (collects_dataSet hk hd)
    · next hc => exact .pure (collects_ignored (by simp [recognised, fits, hk, hc]))
  · next hk => exact absurd hk hn
  · refine .pure (collects_ignored ?_)
    simp_all [recognised, fits]

theorem ofElements_collects : ∀ ns : List Node, Scriptless (standingsOf [] ns) →
    Reads (ofElements ctx ns) (Collects (standingsOf [] ns)) Unseen
  | [], _ => .pure ⟨rfl, rfl⟩
  | n :: ns, h => by
    rw [standingsOf] at h ⊢
    obtain ⟨hn, hns⟩ := List.forall_mem_append.mp h
    rw [ofElements]
    refine (ofElement_collects hn).bind fun s hs => ?_
    exact (ofElements_collects ns hns).bind fun t ht => .pure (hs.append ht)

/-- Without scripts it makes no difference how documents are included. -/
theorem ofDocument_collects (disk : Storage.Disk) (settings : Settings) (depth : Nat)
    (chain : List Storage.Path) {root : Node} (h : Scriptless root.elements) :
    Reads (ofDocument disk settings depth chain root) (Collects root.elements) Unseen := by
  cases depth with
  | zero => exact ofElements_collects _ h
  | succ depth => exact ofElements_collects _ h

/-- The requests of a description that includes no other are all those that stand where they are
recognised, each one once and in document order. The ones in data sets, and no others, are collected
with the data sets. -/
theorem requests_collected (disk : Storage.Disk) (settings : Settings) {root : Node}
    (h : Scriptless root.elements) (log : Log) :
    let s := ((ofDescription disk settings root).run log).1
    requestsOf s.stack = requestsAmong (fun x => !x.inDataSet) root.elements ∧
      s.dataSets.flatMap (DataSet.requests 1) = requestsAmong Standing.inDataSet root.elements := by
  obtain ⟨hstack, hdataSets⟩ := (ofDocument_collects disk settings _ _ h log).1
  exact ⟨hstack, hdataSets⟩

/-! A description with requests at several depths, two of which are not recognised: one in a loop within a
loop, and one in an element of no known kind. -/

def part (name : String) (children : List Node) : Node :=
  ⟨name, children, [], "", 1, "<text>"⟩

def page (path : String) : Node :=
  part "http" [⟨"path", [], [], path, 1, "<text>"⟩]

def outline : Node :=
  part "suite" [page "/start",
    part "controller" [page "/search", part "loop" [page "/next", part "loop" [page "/lost"]]],
    part "csv" [part "repeat" [page "/login", part "controller" [page "/cart"]], page "/logout",
      part "group" [page "/lost"]],
    part "loop" [], page "/end"]

theorem requests_collected_outline :
    Scriptless outline.elements ∧
      let s := ((ofDescription ⟨[], []⟩ .standard outline).run .empty).1
      requestsOf s.stack = ["/start", "/search", "/next", "/end"].map (Request.described ∘ page) ∧
        s.dataSets.flatMap (DataSet.requests 1) =
          ["/login", "/cart", "/logout"].map (Request.described ∘ page) := by
  have h : Scriptless outline.elements := by decide
  obtain ⟨hstack, hdataSets⟩ := requests_collected ⟨[], []⟩ .standard h .empty
  exact ⟨h, hstack.trans rfl, hdataSets.trans rfl⟩

end LoadPlan.Scenario
