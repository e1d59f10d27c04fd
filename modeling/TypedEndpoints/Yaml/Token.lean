import TypedEndpoints.Text.Utf8
import TypedEndpoints.Yaml.Cursor
/-!
The tokens of a YAML text. Block collections are bracketed by tokens of their own, which the scanner
derives from indentation. Tags are bytes, since their escapes may name bytes that are no text.
-/
namespace TypedEndpoints.Yaml

inductive Style where
  | plain
  | singleQuoted
  | doubleQuoted
  | literal
  | folded
deriving Repr, DecidableEq

inductive Token where
  | version (major minor : Nat)
  | tagHandle (handle : String) (start : Bytes)
  | documentStart
  | documentEnd
  | blockSequence
  | blockMapping
  | blockEnd
  | openSequence
  | closeSequence
  | openMapping
  | closeMapping
  | blockEntry
  | flowEntry
  | key
  | value
  | alias (name : String)
  | anchor (name : String)
  | tag (handle : String) (suffix : Bytes)
  | scalar (style : Style) (text : String)
deriving Repr, DecidableEq

end TypedEndpoints.Yaml
