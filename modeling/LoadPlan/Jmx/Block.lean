import LoadPlan.Jmx.Fragment

/-! Plans as blocks: each element is followed by a tree that holds what belongs to it. -/
namespace LoadPlan.Jmx

open LoadPlan.Markup (Element)

/-- An element together with the blocks in the tree after it. -/
structure Block where
  element : Element
  inside : List Block

instance : Inhabited Block := ⟨⟨default, []⟩⟩

namespace Block

mutual

/-- An element and its tree as siblings. -/
def elements : Block → List Element
  | ⟨element, inside⟩ => [element, Jmx.tree (elementsOf inside)]

/-- The elements of blocks in order, each with its tree. -/
def elementsOf : List Block → List Element
  | [] => []
  | b :: bs => elements b ++ elementsOf bs

end

/-- The tree that holds blocks. -/
def tree (bs : List Block) : Element :=
  Jmx.tree (elementsOf bs)

theorem fill_pair (e : Element) (bs : List Block) :
    (pair e).fill (elementsOf bs) = elementsOf [⟨e, bs⟩] := by
  rfl

theorem elementsOf_append (a b : List Block) :
    elementsOf (a ++ b) = elementsOf a ++ elementsOf b := by
  induction a with
  | nil => rfl
  | cons x a ih => simp [elementsOf, ih]

end Block

end LoadPlan.Jmx
