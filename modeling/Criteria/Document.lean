import Criteria.Definition
import Criteria.Json.Reader
import Criteria.RuleSet.Compilation
import Criteria.Yaml.Reader

/-!
# Document — rule set documents in JSON and YAML

A document is read in the format it is labelled with, or else in the one its file name or its first
character tells; then it is validated as a definition.  What reads and validates it is a `Host`:
errors of the readers that concern the document become errors of the rule set, and anything else
that a host raises is handed on.  `Host.standard` has the readers and the validator of this library.
A file must be UTF-8, and its line ends are all read as line feeds.
-/

namespace Criteria

/-- The formats of documents. -/
inductive Format
  | json
  | yaml
  deriving DecidableEq, Repr

namespace Format

/-- The name of a format. -/
def label : Format → Text
  | json => "json".toList
  | yaml => "yaml".toList

/-! ## File names -/

/-- The parts of a path between slashes. -/
def splitPath : Text → Text × List Text
  | [] => ([], [])
  | c :: cs =>
    let (part, parts) := splitPath cs
    if c = '/' then ([], part :: parts) else (c :: part, parts)

/-- The last part of a path that names something. -/
def fileName (path : Text) : Text :=
  let (first, rest) := splitPath path
  (((first :: rest).filter fun part => part ≠ [] && part ≠ ['.']).getLast?).getD []

/-- The end of a name from its last point on; a point at either end of the name begins none. -/
def suffix (name : Text) : Text :=
  let tail := (name.reverse.takeWhile (· ≠ '.')).reverse
  if tail = [] ∨ name.length ≤ tail.length + 1 then [] else '.' :: tail

/-- The format that the name of a file tells. -/
def ofPath? (path : Text) : Option Format :=
  let ending := (suffix (fileName path)).map Char.toLower
  if ending = ".json".toList then some json
  else if ending = ".yaml".toList ∨ ending = ".yml".toList then some yaml
  else none

/-- The format that a text tells: JSON if it begins with a brace or a bracket. -/
def ofContent (content : Text) : Format :=
  match content.dropWhile Text.isBlank with
  | c :: _ => if c = '\x7b' ∨ c = '[' then json else yaml
  | [] => yaml

/-- The format of a text, given the path of its file if it has one. -/
def detect (content : Text) (path : Option Text) : Format :=
  (path.bind ofPath?).getD (ofContent content)

/-- The label a document is read under: the given one, or that of the format its content tells if
there is none or an empty one. -/
def labelFor (label : Option Text) (content : Text) : Text :=
  match label with
  | none | some [] => (ofContent content).label
  | some label => label

end Format

/-! ## Hosts -/

/-- Why a reader has no value for a text: it refuses it, or something else is raised. -/
inductive ReadError (ξ : Type)
  | refused
  | raised (x : ξ)
  deriving Repr

/-- **What the library runs on**: a reader of JSON, a reader of YAML, a validator, and what is
raised, if anything, where parsing a rule under limits exhausts the stack. -/
structure Host (ξ : Type) where
  json : Text → Except (ReadError ξ) Value
  yaml : Text → Except (ReadError ξ) Value
  validate : Validator
  exhausted : Limits → Text → Option ξ

/-- Why a document describes no rule set on a host: for an error about the document, or because the
host raised something. -/
inductive HostError (ξ : Type)
  | document (error : DocumentError)
  | raised (x : ξ)
  deriving Repr

namespace Host

variable {ξ : Type} (host : Host ξ)

/-- The fields of a document under a label: JSON if that is the label, and YAML under any other.  A
YAML document may be empty. -/
def fieldsOf (label content : Text) : Except (HostError ξ) Fields :=
  if label = Format.json.label then
    match host.json content with
    | .error .refused => .error (.document (.set (.unreadable label)))
    | .error (.raised x) => .error (.raised x)
    | .ok (.object fields) => .ok fields
    | .ok _ => .error (.document (.set (.notObject label "JSON".toList)))
  else
    match host.yaml content with
    | .error .refused => .error (.document (.set (.unreadable label)))
    | .error (.raised x) => .error (.raised x)
    | .ok .null => .ok []
    | .ok (.object fields) => .ok fields
    | .ok _ => .error (.document (.set (.notObject label "YAML".toList)))

/-- The definition of a document under a label. -/
def readLabelled (label content : Text) : Except (HostError ξ) Definition := do
  let fields ← host.fieldsOf label content
  (host.validate.definition fields).mapError fun issues => .document (.set (.invalid issues))

/-- The definition of a document. -/
def read (label : Option Text) (content : Text) : Except (HostError ξ) Definition :=
  host.readLabelled (Format.labelFor label content) content

/-- What parsing the rules of a definition raises: for the first of them that exhausts the stack,
unless one before it has no tree. -/
def raised? (limits : Limits) : List RuleDefinition → Option ξ
  | [] => none
  | rule :: rules =>
    match host.exhausted limits rule.source, Tree.parse limits rule.source with
    | some x, _ => some x
    | none, .ok _ => raised? limits rules
    | none, .error _ => none

/-- The set of a document under the limits it sets itself. -/
def ruleSet (label : Option Text) (warn : Bool) (content : Text) :
    Except (HostError ξ) RuleSet := do
  let d ← host.read label content
  let limits ← (RuleSet.limitsFor none d).mapError .document
  match host.raised? limits d.rules with
  | some x => .error (.raised x)
  | none => (RuleSet.ofDefinition none warn d).outcome.mapError .document

end Host

/-- What is too much for the readers here: the nesting of a document, or a number in one. -/
inductive Excess
  | nesting
  | number
  deriving DecidableEq, Repr

/-- Why a JSON text has no value, as a host has it. -/
def Json.Error.asReadError : Json.Error → ReadError Excess
  | malformed => .refused
  | tooDeep => .raised .nesting

/-- Why a YAML document has no value, as a host has it. -/
def Yaml.Failure.asReadError : Yaml.Failure → ReadError Excess
  | malformed | unsupported => .refused
  | tooLarge => .raised .number

/-- The host with the readers and the validator here, whose stack is never exhausted.  It refuses
what its reader of YAML does not support. -/
def Host.standard : Host Excess where
  json content := (Json.read content).mapError Json.Error.asReadError
  yaml content := (Yaml.read content).mapError Yaml.Failure.asReadError
  validate := Schema.validate
  exhausted _ _ := none

/-! ## Reading -/

/-- The error of a document on the standard host. -/
def HostError.settle : HostError Excess → DocumentError
  | document error => error
  | raised _ => .tooLarge

namespace Definition

/-- The definition of a document under a label. -/
def readLabelled (label content : Text) : Except DocumentError Definition :=
  (Host.standard.readLabelled label content).mapError HostError.settle

/-- The definition of a document; without a label, or with an empty one, the content tells the
format. -/
def read (label : Option Text) (content : Text) : Except DocumentError Definition :=
  (Host.standard.read label content).mapError HostError.settle

end Definition

/-! ## Files -/

/-- Why a file has no definition. -/
inductive LoadError
  | fileMissing
  | notUnicode
  | document (error : DocumentError)
  deriving Repr

/-- A text with all its line ends as line feeds. -/
def Text.normalizeLines : Text → Text
  | [] => []
  | '\r' :: '\n' :: cs => '\n' :: normalizeLines cs
  | '\r' :: cs => '\n' :: normalizeLines cs
  | c :: cs => c :: normalizeLines cs

/-- The definition of a file, given its path and its bytes if it is there. -/
def Definition.load (path : Text) (bytes : Option (List UInt8)) : Except LoadError Definition :=
  match bytes with
  | none => .error .fileMissing
  | some bytes =>
    match Text.Encoding.decode .utf8 bytes with
    | none => .error .notUnicode
    | some source =>
      let content := Text.normalizeLines source
      (Definition.readLabelled (Format.detect content (some path)).label content).mapError .document

end Criteria
