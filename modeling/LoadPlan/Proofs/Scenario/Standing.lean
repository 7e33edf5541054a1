import LoadPlan.Proofs.Scenario.Reads

/-! Where the elements of a description stand, and which of them are recognised there as something to be
run. What stands below an element that is not recognised is not recognised either. -/
namespace LoadPlan.Description

/-- An element and those it stands in, the closest first, up to the top of the document. The root of the
document is not among them. -/
structure Standing where
  node : Node
  around : List Node

namespace Standing

/-- The element stands in a data set. -/
def inDataSet (x : Standing) : Bool :=
  x.around.any (·.kind == .csv)

end Standing

namespace Node

mutual

/-- An element and all elements in it, in document order. -/
def standings (around : List Node) : Node → List Standing
  | ⟨name, children, attributes, content, line, source⟩ =>
    ⟨⟨name, children, attributes, content, line, source⟩, around⟩ ::
      standingsOf (⟨name, children, attributes, content, line, source⟩ :: around) children

def standingsOf (around : List Node) : List Node → List Standing
  | [] => []
  | n :: ns => standings around n ++ standingsOf around ns

end

/-- All elements of a document but its root, in document order. -/
def elements (root : Node) : List Standing :=
  standingsOf [] root.children

def isStep (n : Node) : Bool :=
  n.kind == .http || n.kind == .loop || n.kind == .controller

/-- What an element has to be in order to be recognised in another one, or at the top of a document. -/
def fits : Option Node → Node → Bool
  | none, n => n.kind == .http || (n.kind == .loop || n.kind == .controller || n.kind == .csv) && n.hasChildren
  | some m, n =>
    match m.kind with
    | .loop => n.kind == .http
    | .controller | .repeated => isStep n
    | .csv => isStep n || n.kind == .repeated && n.hasChildren
    | _ => false

/-- An element is recognised if it fits into one that is recognised, or at the top. -/
def recognised (n : Node) : List Node → Bool
  | [] => fits none n
  | m :: around => fits (some m) n && recognised m around

theorem standings_eq (around : List Node) (n : Node) :
    standings around n = ⟨n, around⟩ :: standingsOf (n :: around) n.children := by
  obtain ⟨name, children, attributes, content, line, source⟩ := n
  rw [standings]

theorem standingsOf_eq_flatMap (around ns : List Node) :
    standingsOf around ns = ns.flatMap (standings around) := by
  induction ns with
  | nil => rfl
  | cons n ns ih => rw [standingsOf, ih, List.flatMap_cons]

theorem mem_standings {x : Standing} {around : List Node} {n : Node} :
    x ∈ standings around n ↔ x = ⟨n, around⟩ ∨ x ∈ standingsOf (n :: around) n.children := by
  rw [standings_eq, List.mem_cons]

theorem mem_standingsOf {x : Standing} {around ns : List Node} :
    x ∈ standingsOf around ns ↔ ∃ n ∈ ns, x ∈ standings around n := by
  rw [standingsOf_eq_flatMap, List.mem_flatMap]

theorem kind_ne_csv_of_fits {m n : Node} (h : fits (some m) n = true) : n.kind ≠ .csv := by
  intro hn
  simp only [fits, isStep, hn] at h
  cases hm : m.kind <;> simp [hm] at h

/-! What is recognised stands in elements that are, and only the outermost of them can be a data set. -/

mutual

theorem around_of_standings {m : Node} {around : List Node} {x : Standing} :
    ∀ n : Node, x ∈ standings (m :: around) n → recognised x.node x.around = true →
      recognised n (m :: around) = true ∧ x.inDataSet = (m :: around).any (·.kind == .csv)
  | ⟨name, children, attributes, content, line, source⟩, hx, hr => by
    rw [mem_standings] at hx
    rcases hx with rfl | hx
    · exact ⟨hr, rfl⟩
    · obtain ⟨hn, hd⟩ := around_of_standingsOf children hx hr
      have hfits := (Bool.and_eq_true_iff.mp hn).1
      refine ⟨hn, ?_⟩
      rw [hd, List.any_cons, beq_false_of_ne (kind_ne_csv_of_fits hfits), Bool.false_or]

theorem around_of_standingsOf {m : Node} {around : List Node} {x : Standing} :
    ∀ ns : List Node, x ∈ standingsOf (m :: around) ns → recognised x.node x.around = true →
      recognised m around = true ∧ x.inDataSet = (m :: around).any (·.kind == .csv)
  | n :: ns, hx, hr => by
    rw [standingsOf, List.mem_append] at hx
    rcases hx with hx | hx
    · obtain ⟨hn, hd⟩ := around_of_standings n hx hr
      exact ⟨(Bool.and_eq_true_iff.mp hn).2, hd⟩
    · exact around_of_standingsOf ns hx hr

end

/-- What is recognised in an element, or is that element, stands in what is recognised. -/
theorem recognised_of_standings {around : List Node} {n : Node} {x : Standing} (hx : x ∈ standings around n)
    (hr : recognised x.node x.around = true) : recognised n around = true := by
  rcases mem_standings.mp hx with rfl | hx
  · exact hr
  · exact (around_of_standingsOf _ hx hr).1

end Node

end LoadPlan.Description

namespace LoadPlan.Scenario

open LoadPlan.Description (Node Standing)
open LoadPlan.Description.Node (standings standingsOf standings_eq standingsOf_eq_flatMap mem_standings
  mem_standingsOf recognised recognised_of_standings)

/-- The request that an element describes. What was read before has no part in it. -/
def Request.described (n : Node) : Request :=
  ((Request.ofNode n).run .empty).1

/-- The requests that are recognised among elements, as far as they stand in the right place. -/
def requestsAmong (p : Standing → Bool) (xs : List Standing) : List Request :=
  (xs.filter fun x => x.node.kind == .http && recognised x.node x.around && p x).map fun x =>
    Request.described x.node

/-- Those among elements that stand beside one another, or below. -/
def requestsFound (around ns : List Node) : List Request :=
  requestsAmong (fun _ => true) (standingsOf around ns)

theorem requestsAmong_append (p : Standing → Bool) (xs ys : List Standing) :
    requestsAmong p (xs ++ ys) = requestsAmong p xs ++ requestsAmong p ys := by
  simp only [requestsAmong, List.filter_append, List.map_append]

theorem requestsAmong_congr {p q : Standing → Bool} {xs : List Standing}
    (h : ∀ x ∈ xs, x.node.kind = .http → recognised x.node x.around = true → p x = q x) :
    requestsAmong p xs = requestsAmong q xs := by
  unfold requestsAmong
  congr 1
  refine List.filter_congr fun x hx => ?_
  by_cases hk : x.node.kind = .http
  · cases hr : recognised x.node x.around with
    | true => rw [h x hx hk hr]
    | false => simp
  · rw [beq_false_of_ne hk, Bool.false_and, Bool.false_and, Bool.false_and]

theorem requestsFound_append (around ns ms : List Node) :
    requestsFound around (ns ++ ms) = requestsFound around ns ++ requestsFound around ms := by
  rw [requestsFound, standingsOf_eq_flatMap, List.flatMap_append, requestsAmong_append,
    ← standingsOf_eq_flatMap, ← standingsOf_eq_flatMap]
  rfl

theorem requestsFound_eq_flatMap (around ns : List Node) :
    requestsFound around ns = ns.flatMap fun n => requestsFound around [n] := by
  induction ns with
  | nil => rfl
  | cons n ns ih => rw [← List.singleton_append, requestsFound_append, ih]; rfl

/-- Elements that are not recognised have no requests below them. -/
theorem requestsFound_eq_nil {around ns : List Node} (h : ∀ n ∈ ns, recognised n around = false) :
    requestsFound around ns = [] := by
  rw [requestsFound, requestsAmong, List.map_eq_nil_iff, List.filter_eq_nil_iff]
  intro x hx hr
  obtain ⟨n, hn, hx⟩ := mem_standingsOf.mp hx
  simp only [Bool.and_eq_true] at hr
  have hnr := recognised_of_standings hx hr.1.2
  rw [h n hn] at hnr
  cases hnr

/-- A request is found if it is recognised; the requests in an element of another kind are those below. -/
theorem requestsFound_singleton (around : List Node) (n : Node) :
    requestsFound around [n] =
      (if n.kind == .http && recognised n around then [Request.described n] else []) ++
        requestsFound (n :: around) n.children := by
  rw [requestsFound, standingsOf, standingsOf, List.append_nil, standings_eq, requestsAmong,
    List.filter_cons]
  split
  · next h => rw [if_pos (by simpa using h)]; rfl
  · next h => rw [if_neg (by simpa using h)]; rfl

end LoadPlan.Scenario
