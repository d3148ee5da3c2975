import Criteria.Json.Token
import Criteria.Value.Key

/-!
# Json/Reader — from a JSON text to a value

The containers that are still open are kept in a list, so a token is read in one step: `value`
begins one, `resume` hands a finished value to the innermost open container, and `member` reads the
key of a field.  Containers may be open to a bounded depth.
-/

namespace Criteria.Json

/-- Why a text is no JSON value. -/
inductive Error
  | malformed
  | tooDeep
  deriving DecidableEq, Repr

/-- How many containers may be open at once. -/
def maxDepth : Nat := 990

/-- A container that is still open, the last of its parts first. -/
inductive Frame
  | array (done : List Value)
  | object (done : Fields) (key : Text)

/-- The object with these fields, the last one first. -/
def closeObject (done : Fields) : Value := .object (Fields.ofList done.reverse)

mutual

/-- The value of the whole text, whose tokens begin a value inside the open containers. -/
def value (frames : List Frame) : List Token → Except Error Value
  | .scalar v :: tokens => resume v frames tokens
  | .text s :: tokens => resume (.text s) frames tokens
  | .openArray :: tokens =>
    if maxDepth ≤ frames.length then .error .tooDeep
    else
      match tokens with
      | .closeArray :: tokens => resume (.list []) frames tokens
      | tokens => value (.array [] :: frames) tokens
  | .openObject :: tokens =>
    if maxDepth ≤ frames.length then .error .tooDeep
    else
      match tokens with
      | .closeObject :: tokens => resume (.object []) frames tokens
      | tokens => member [] frames tokens
  | _ => .error .malformed

/-- The value of the whole text once `v` is read inside the open containers. -/
def resume (v : Value) (frames : List Frame) (tokens : List Token) : Except Error Value :=
  match frames, tokens with
  | [], [] => .ok v
  | .array done :: frames, .comma :: tokens => value (.array (v :: done) :: frames) tokens
  | .array done :: frames, .closeArray :: tokens =>
    resume (.list (v :: done).reverse) frames tokens
  | .object done key :: frames, .comma :: tokens =>
    member ((.text key, v) :: done) frames tokens
  | .object done key :: frames, .closeObject :: tokens =>
    resume (closeObject ((.text key, v) :: done)) frames tokens
  | _, _ => .error .malformed

/-- The value of the whole text, whose tokens begin a field of the innermost object. -/
def member (done : Fields) (frames : List Frame) : List Token → Except Error Value
  | .text key :: .colon :: tokens => value (.object done key :: frames) tokens
  | _ => .error .malformed

end

/-- The value of a JSON text. -/
def read (source : Text) : Except Error Value := value [] (scan source)

end Criteria.Json
