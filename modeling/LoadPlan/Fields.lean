/-! Named values in the order in which their names first came. -/
namespace LoadPlan

abbrev Fields := List (String × String)

namespace Fields

def get? (fs : Fields) (name : String) : Option String :=
  List.lookup name fs

def getD (fs : Fields) (name fallback : String) : String :=
  (fs.get? name).getD fallback

/-- Set a value. A name already there keeps its place. -/
def set : Fields → String → String → Fields
  | [], name, value => [(name, value)]
  | (n, v) :: rest, name, value =>
    if n = name then (n, value) :: rest else (n, v) :: set rest name value

/-- The fields without those of the given names. -/
def without (fs : Fields) (names : List String) : Fields :=
  fs.filter fun f => !names.contains f.1

/-- Set the values of pairs in turn, so that the last one of a name counts. -/
def ofPairs (pairs : List (String × String)) : Fields :=
  pairs.foldl (fun fs p => fs.set p.1 p.2) []

theorem get?_set (fs : Fields) (name value other : String) :
    (fs.set name value).get? other = if other = name then some value else fs.get? other := by
  induction fs with
  | nil =>
    by_cases h : other = name
    · simp [set, get?, h]
    · have : (other == name) = false := by simpa using h
      simp [set, get?, List.lookup_cons, h, this]
  | cons f fs ih =>
    obtain ⟨n, v⟩ := f
    simp only [get?] at ih
    by_cases hn : n = name
    · subst hn
      by_cases ho : other = n
      · simp [set, get?, ho]
      · have : (other == n) = false := by simpa using ho
        simp [set, get?, List.lookup_cons, ho, this]
    · by_cases ho : other = n
      · subst ho
        simp [set, get?, hn]
      · have : (other == n) = false := by simpa using ho
        simp [set, get?, List.lookup_cons, hn, this, ih]

end Fields

end LoadPlan
