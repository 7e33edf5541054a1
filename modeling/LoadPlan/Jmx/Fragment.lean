import LoadPlan.Markup.Element

/-! Fragments of a plan: elements in a row, where a tree follows each other element and holds what belongs to it. -/
namespace LoadPlan.Jmx

open LoadPlan.Markup (Element)

def treeTag : String := "hashTree"

/-- Elements that are put into a tree one after the other. -/
abbrev Fragment := List Element

/-- The tree that holds elements. -/
def tree (inside : Fragment) : Element :=
  ⟨treeTag, [], "", inside⟩

@[simp] theorem tree_tag (inside : Fragment) : (tree inside).tag = treeTag := rfl

@[simp] theorem tree_children (inside : Fragment) : (tree inside).children = inside := rfl

/-- An element and a tree for what belongs to it, still empty. -/
def pair (e : Element) : Fragment :=
  [e, tree []]

namespace Fragment

/-- Put more elements at the end of the tree that follows the first element. -/
def fill (f more : Fragment) : Fragment :=
  match f with
  | e :: t :: rest => e :: { t with children := t.children ++ more } :: rest
  | _ => f

@[simp] theorem fill_nil (f : Fragment) : f.fill [] = f := by
  match f with
  | [] => rfl
  | [_] => rfl
  | e :: ⟨_, _, _, children⟩ :: rest => simp only [fill, List.append_nil]

theorem fill_fill (f a b : Fragment) : (f.fill a).fill b = f.fill (a ++ b) := by
  match f with
  | [] => rfl
  | [_] => rfl
  | e :: t :: rest => simp only [fill, List.append_assoc]

/-- Put more elements at the end, if there are any to put. -/
def extend (f : Fragment) : Option Fragment → Fragment
  | none => f
  | some more => f ++ more

end Fragment

end LoadPlan.Jmx
