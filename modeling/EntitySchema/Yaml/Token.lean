import EntitySchema.Yaml.Tag

/-!
Tokens of a YAML stream. Indentation has become explicit: a block collection starts and ends with
a token, and a key is announced before its content.
-/

namespace EntitySchema.Yaml

inductive ScalarStyle where
  | plain
  | singleQuoted
  | doubleQuoted
  | literal
  | folded
  deriving DecidableEq, Repr

inductive TokenContent where
  | streamEnd
  | directive (directive : Directive)
  | documentStart
  | documentEnd
  | blockSequenceStart
  | blockMappingStart
  | blockEnd
  | flowSequenceStart
  | flowSequenceEnd
  | flowMappingStart
  | flowMappingEnd
  | blockEntry
  | flowEntry
  | key
  | value
  | alias (name : Text)
  | anchor (name : Text)
  | tag (handle suffix : Text)
  | scalar (text : Text) (style : ScalarStyle)
  deriving DecidableEq, Repr

structure Token where
  content : TokenContent
  line : Nat
  deriving DecidableEq, Repr

end EntitySchema.Yaml
