import Svidlet.Issue.Error
import Svidlet.Lib.Text

/-!
# Customizable SPIFFE IDs

`svidlet-issue/src/template.rs`. A template is a list of literals and placeholders; rendering puts
the workload's attributes in, and a regular expression built from the same list takes an ID apart
again.

The regular-expression engine is a crate of its own, so it is a parameter here: how a pattern
compiles, whether a text matches, what its groups captured. What is modelled is the pattern the
code hands to it.

A `SpiffeId` can only be made by `parse`, and carries the fact that it passed.
-/

namespace Svidlet.Issue

open Lib

/-! ## 1. Fields and attributes -/

/-- An attribute a template may substitute. -/
inductive Field where
  | trustDomain | cluster | ns | serviceAccount | podName | podUid | nodeName
  deriving DecidableEq, Repr

namespace Field

def all : List Field := [.trustDomain, .cluster, .ns, .serviceAccount, .podName, .podUid, .nodeName]

def asStr : Field → String
  | .trustDomain => "trust_domain"
  | .cluster => "cluster"
  | .ns => "namespace"
  | .serviceAccount => "service_account"
  | .podName => "pod_name"
  | .podUid => "pod_uid"
  | .nodeName => "node_name"

def parse (name : String) : Option Field := all.find? fun f => f.asStr = name

/-- `{name}` -/
def braced (name : String) : String := "\x7b" ++ name ++ "\x7d"

def known : String := ", ".intercalate (all.map fun f => braced f.asStr)

end Field

/-- Everything the kubelet told svidlet about a pod, before it becomes an ID. -/
structure WorkloadAttributes where
  trustDomain : String := ""
  cluster : String := ""
  ns : String := ""
  serviceAccount : String := ""
  podName : String := ""
  podUid : String := ""
  nodeName : String := ""
  deriving DecidableEq, Repr

namespace WorkloadAttributes

def get (attrs : WorkloadAttributes) : Field → String
  | .trustDomain => attrs.trustDomain
  | .cluster => attrs.cluster
  | .ns => attrs.ns
  | .serviceAccount => attrs.serviceAccount
  | .podName => attrs.podName
  | .podUid => attrs.podUid
  | .nodeName => attrs.nodeName

def set (attrs : WorkloadAttributes) (field : Field) (value : String) : WorkloadAttributes :=
  match field with
  | .trustDomain => { attrs with trustDomain := value }
  | .cluster => { attrs with cluster := value }
  | .ns => { attrs with ns := value }
  | .serviceAccount => { attrs with serviceAccount := value }
  | .podName => { attrs with podName := value }
  | .podUid => { attrs with podUid := value }
  | .nodeName => { attrs with nodeName := value }

end WorkloadAttributes

/-! ## 2. SPIFFE IDs -/

def maxIdLen : Nat := 2048

/-- The checks of `SpiffeId::parse`, in their order. -/
def checkId (raw : String) : Except Error Unit :=
  match stripPrefix raw "spiffe://" with
  | none => .error (.identity (debugStr raw ++ " does not start with spiffe://"))
  | some rest =>
    if raw.utf8ByteSize > maxIdLen then
      .error (.identity ("SPIFFE ID is " ++ toString raw.utf8ByteSize ++ " bytes, the maximum is "
        ++ toString maxIdLen))
    else
      let pair := (splitOnce '/' rest.toList).getD (rest.toList, [])
      if pair.1 = [] then .error (.identity (debugStr raw ++ " has an empty trust domain"))
      else if (splitChar '/' pair.2).any List.isEmpty && !pair.2.isEmpty then
        .error (.identity (debugStr raw ++ " has an empty path segment"))
      else .ok ()

/-- A validated SPIFFE ID. -/
structure SpiffeId where
  asStr : String
  valid : checkId asStr = .ok ()
  deriving DecidableEq

def SpiffeId.parse (raw : String) : Except Error SpiffeId :=
  match h : checkId raw with
  | .ok () => .ok ⟨raw, h⟩
  | .error e => .error e

/-- An ID is the text it was parsed from. -/
theorem SpiffeId.parse_asStr {raw : String} {id : SpiffeId} (h : SpiffeId.parse raw = .ok id) :
    id.asStr = raw := by
  unfold SpiffeId.parse at h
  split at h
  · cases h
    rfl
  · cases h

theorem SpiffeId.ext_asStr {a b : SpiffeId} (h : a.asStr = b.asStr) : a = b := by
  cases a
  cases b
  cases h
  rfl

/-! ## 3. Templates -/

inductive Part where
  | literal (text : String)
  | field (field : Field)
  deriving DecidableEq, Repr

/-- Reject anything that could smuggle a second path segment into the ID. -/
def segmentChar (c : Char) : Bool := c.isAlphanum || c = '-' || c = '.' || c = '_'

def checkSegment (field : Field) (value : String) : Except Error Unit :=
  if value.isEmpty then
    .error (.identity (field.asStr ++ " is empty, so no SPIFFE ID can be built"))
  else
    match value.toList.find? fun c => !segmentChar c with
    | some bad =>
      .error (.identity (field.asStr ++ " " ++ debugStr value ++ " contains " ++ debugChar bad
        ++ ", which is not allowed in a SPIFFE path segment"))
    | none => .ok ()

def pushLiteral (parts : List Part) (text : List Char) : List Part :=
  if text.isEmpty then parts else parts ++ [.literal (String.ofList text)]

/-- Split a template into literals and placeholders. `name` is the placeholder being read, if the
    scan is inside one; `{{` and `}}` outside one are literal braces. -/
def splitTemplate (raw : String) :
    List Char → Option (List Char) → List Char → List Part → Except Error (List Part)
  | [], none, text, parts => .ok (pushLiteral parts text)
  | [], some name, _, _ =>
    .error (.config ("SPIFFE ID template " ++ debugStr raw ++ " has an unclosed \x7b"
      ++ String.ofList name))
  | '}' :: rest, some name, text, parts =>
    match Field.parse (trim (String.ofList name)) with
    | some field => splitTemplate raw rest none [] (pushLiteral parts text ++ [.field field])
    | none =>
      .error (.config ("SPIFFE ID template " ++ debugStr raw ++ " uses unknown placeholder "
        ++ Field.braced (String.ofList name) ++ "; known placeholders are " ++ Field.known))
  | c :: rest, some name, text, parts => splitTemplate raw rest (some (name ++ [c])) text parts
  | '{' :: '{' :: rest, none, text, parts => splitTemplate raw rest none (text ++ ['{']) parts
  | '}' :: '}' :: rest, none, text, parts => splitTemplate raw rest none (text ++ ['}']) parts
  | '{' :: rest, none, text, parts => splitTemplate raw rest (some []) text parts
  | '}' :: _, none, _, _ =>
    .error (.config ("SPIFFE ID template " ++ debugStr raw
      ++ " has an unmatched \x7d; write \x7d\x7d for a literal brace"))
  | c :: rest, none, text, parts => splitTemplate raw rest none (text ++ [c]) parts

def split (raw : String) : Except Error (List Part) := splitTemplate raw raw.toList none [] []

/-- The fields in the order they appear; a repeated one is refused. -/
def collectFields : List Part → List Field → Except Error (List Field)
  | [], fields => .ok fields
  | .literal _ :: rest, fields => collectFields rest fields
  | .field f :: rest, fields =>
    if f ∈ fields then
      .error (.config ("SPIFFE ID template uses " ++ Field.braced f.asStr
        ++ " more than once, which is not supported"))
    else collectFields rest (fields ++ [f])

/-- Characters the code escapes in a literal part of the matcher. -/
def escape (text : String) : String := String.ofList (text.toList.flatMap fun c =>
    if c ∈ "\\.+*?()|[]\x7b\x7d^$#&-~".toList then ['\\', c] else [c])

def matcherPattern (parts : List Part) : String := "^" ++ String.join (parts.map fun
    | .literal text => escape text
    | .field _ => "([^/]+?)") ++ "$"

/-- The regular-expression engine. -/
structure RegexEngine where
  Regex : Type
  compile : String → Except String Regex
  isMatch : Regex → String → Bool
  /-- The groups of a match, group 0 first. -/
  captures : Regex → String → Option (List (Option String))

section

variable (E : RegexEngine)

structure IdTemplate where
  raw : String
  parts : List Part
  fields : List Field
  matcher : E.Regex

variable {E}

namespace IdTemplate

/-- The text of an ID, part by part, each value checked as it is put in. -/
def renderParts (attrs : WorkloadAttributes) : List Part → Except Error String
  | [] => .ok ""
  | .literal text :: rest => do return text ++ (← renderParts attrs rest)
  | .field f :: rest => do
    checkSegment f (attrs.get f)
    return attrs.get f ++ (← renderParts attrs rest)

def render (t : IdTemplate E) (attrs : WorkloadAttributes) : Except Error SpiffeId := do
  SpiffeId.parse (← renderParts attrs t.parts)

/-- Take the captured groups, in the order of the fields. -/
def readGroups (groups : List (Option String)) :
    List (Field × Nat) → WorkloadAttributes → Option WorkloadAttributes
  | [], attrs => some attrs
  | (f, i) :: rest, attrs => do
    let value ← (groups[i + 1]?).join
    readGroups groups rest (attrs.set f value)

/-- Take an ID apart again. -/
def attributesOf (t : IdTemplate E) (id : String) : Option WorkloadAttributes := do
  let groups ← E.captures t.matcher id
  readGroups groups t.fields.zipIdx {}

def probeAttributes (t : IdTemplate E) : WorkloadAttributes :=
  t.fields.zipIdx.foldl (fun attrs fi => attrs.set fi.1 ("probe" ++ toString fi.2)) {}

def compile (raw : String) : Except Error (IdTemplate E) := do
  let parts ← split raw
  let fields ← collectFields parts []
  if !startsWith raw "spiffe://" then
    throw (.config ("SPIFFE ID template " ++ debugStr raw ++ " must start with spiffe://"))
  if fields.isEmpty then
    throw (.config ("SPIFFE ID template " ++ debugStr raw
      ++ " substitutes nothing, so every workload would receive the same identity"))
  match E.compile (matcherPattern parts) with
  | .error e =>
    throw (.config ("SPIFFE ID template " ++ debugStr raw ++ " does not compile to a matcher: "
      ++ e))
  | .ok matcher =>
    let template : IdTemplate E := ⟨raw, parts, fields, matcher⟩
    let rendered ← template.render template.probeAttributes
    if template.attributesOf rendered.asStr ≠ some template.probeAttributes then
      throw (.config ("SPIFFE ID template " ++ debugStr raw
        ++ " renders IDs it cannot parse back; adjacent placeholders with no separator between "
        ++ "them are the usual cause"))
    return template

def requiredFields (t : IdTemplate E) : List Field := t.fields

end IdTemplate

/-! ## 4. Policies -/

def anchor (pattern : String) : String :=
  let start := if startsWith pattern "^" then "" else "^"
  let finish := if endsWith pattern "$" && !endsWith pattern "\\$" then "" else "$"
  start ++ pattern ++ finish

variable (E) in
/-- A template plus the operator's optional additional constraint. -/
structure IdPolicy where
  template : IdTemplate E
  pattern : Option E.Regex
  patternSrc : Option String

namespace IdPolicy

def new (template : String) (pattern : Option String) : Except Error (IdPolicy E) := do
  let template ← IdTemplate.compile template
  match pattern with
  | none => return ⟨template, none, none⟩
  | some src =>
    match E.compile (anchor src) with
    | .error e =>
      throw (.config ("spiffe_id_pattern " ++ debugStr src ++ " is not a valid regex: " ++ e))
    | .ok compiled => return ⟨template, some compiled, some src⟩

/-- Check an ID that already exists. -/
def check (policy : IdPolicy E) (id : String) : Except Error Unit :=
  match policy.pattern with
  | none => .ok ()
  | some pattern =>
    if E.isMatch pattern id then .ok ()
    else .error (.policy (id ++ " does not match spiffe_id_pattern "
      ++ debugStr (policy.patternSrc.getD "")))

/-- Build an ID and check it against the operator's pattern. -/
def render (policy : IdPolicy E) (attrs : WorkloadAttributes) : Except Error SpiffeId := do
  let id ← policy.template.render attrs
  policy.check id.asStr
  return id

def attributesOf (policy : IdPolicy E) (id : String) : Option WorkloadAttributes :=
  policy.template.attributesOf id

end IdPolicy

end

end Svidlet.Issue
