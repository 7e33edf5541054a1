/-! Reasons for which a YAML text has no content. -/
namespace LoadPlan.Yaml

/-- What breaks the rules of the format. -/
inductive Malformed
  /-- A character no text may hold, or one that begins nothing. -/
  | character
  | directive
  /-- An entry, a key or a value where none may stand. -/
  | indicator
  /-- A key without its colon. -/
  | key
  | name
  | tag
  | escape
  | quotes
  /-- The head of a block scalar. -/
  | header
  /-- Parts in an order that makes no node. -/
  | sequence
  /-- A name that stands for no node, or for two. -/
  | reference
  | documents
  /-- A tag without a meaning. -/
  | unknownTag
  /-- A node that is not of the shape its tag asks for. -/
  | shape
  | merge
  /-- A collection as a key. -/
  | keyKind
  | encodedBytes
  deriving DecidableEq, Repr

/-- What cannot be turned into the value its tag asks for. -/
inductive Unconvertible
  | noDigits
  | notNumber
  | notBoolean
  | notMoment
  /-- A month, day or time of day that does not exist. -/
  | noSuchMoment
  /-- A code beyond the last character. -/
  | noSuchCharacter
  | tooLarge
  deriving DecidableEq, Repr

inductive Failure
  | malformed (m : Malformed)
  | unconvertible (u : Unconvertible)
  deriving DecidableEq, Repr

instance : Coe Malformed Failure := ⟨.malformed⟩

instance : Coe Unconvertible Failure := ⟨.unconvertible⟩

end LoadPlan.Yaml
