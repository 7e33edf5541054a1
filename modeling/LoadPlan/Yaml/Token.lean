import LoadPlan.Yaml.Character
import LoadPlan.Yaml.Failure

/-! The pieces a YAML text is made of. -/
namespace LoadPlan.Yaml

inductive Token
  | version (major : Nat)
  /-- What a handle of tags stands for. -/
  | handle (name meaning : String)
  | otherDirective
  | documentStart
  | documentEnd
  | blockSequence
  | blockMapping
  | blockEnd
  | flowSequence
  | flowSequenceEnd
  | flowMapping
  | flowMappingEnd
  /-- The hyphen before an item. -/
  | item
  /-- The comma in flow collections. -/
  | comma
  | key
  | value
  | anchor (name : String)
  | reference (name : String)
  | tag (handle : Option String) (suffix : String)
  | scalar (s : Scalar) (plain : Bool)
  /-- From here on the text cannot be read. -/
  | broken (cause : Failure)
  deriving DecidableEq, Repr

end LoadPlan.Yaml
