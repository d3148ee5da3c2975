import Criteria.Json.Printer
import Criteria.Json.Reader
import Criteria.Tree.Stored

/-!
# Tree/Json — stored trees as JSON texts

A tree is read from the JSON text that stores it, or from the bytes of one in any encoding that
`Text.Encoding.detect` tells apart.
-/

namespace Criteria.Tree

/-- The tree that a JSON text stores. -/
def ofJson (limits : Limits) (source : Text) : Except DecodeError Tree :=
  match Json.read source with
  | .error .malformed => .error .unreadable
  | .error .tooDeep => .error .tooDeep
  | .ok value => decode limits value

/-- The tree that a JSON text in bytes stores. -/
def ofJsonBytes (limits : Limits) (bytes : List UInt8) : Except DecodeError Tree :=
  let (encoding, content) := Text.Encoding.detect bytes
  match encoding.decode content with
  | none => .error .unreadable
  | some source => ofJson limits source

end Criteria.Tree
