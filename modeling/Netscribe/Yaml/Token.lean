import Netscribe.Yaml.Intake

/-!
# Tokens

The tokens of a document. Block structure shows in tokens that no character of the document stands
for: a block starts where a line is indented deeper and ends where a line is not, and a key is marked
once its value indicator is seen.
-/

namespace Netscribe.Yaml

inductive TokenKind where
  | streamEnd
  | versionDirective (major minor : Nat)
  | tagDirective (handle lead : String)
  | documentStart
  | documentEnd
  | blockSequenceStart
  | blockMappingStart
  | blockEnd
  | flowSequenceStart
  | flowSequenceEnd
  | flowMappingStart
  | flowMappingEnd
  | blockEntry
  | flowEntry
  | key
  | value
  | aliasOf (name : String)
  | anchor (name : String)
  | tag (handle suffix : String)
  | scalar (plain : Bool) (text : String)
deriving DecidableEq, Inhabited, Repr

/-- A token with the line it starts on, counted from zero. -/
structure Token where
  kind : TokenKind
  line : Nat
deriving DecidableEq, Inhabited, Repr

end Netscribe.Yaml
