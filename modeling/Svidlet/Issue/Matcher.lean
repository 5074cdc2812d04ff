import Svidlet.Issue.Template

/-!
# Matching what templates compile to

The engine is a parameter of `IdTemplate`, since the code takes it from a crate. The patterns it is
given are of one simple kind: literal characters and groups `([^/]+?)`, between `^` and `$`. This
module is an engine for that kind, leftmost and lazy as the crate's is, so that policies can be
built and run.
-/

namespace Svidlet.Issue.Matcher

open Lib

/-- `more` is the rest of a group that has its first character. -/
inductive Piece where
  | char (c : Char)
  | group
  | more
  deriving DecidableEq, Repr

/-- Characters that stand for themselves only when escaped. -/
def isMeta (c : Char) : Bool := c ∈ "\\.+*?()|[]\x7b\x7d^$#&-~".toList

/-- The pieces of a pattern, after its `^`. -/
def parsePieces : List Char → Option (List Piece)
  | ['$'] => some []
  | '(' :: '[' :: '^' :: '/' :: ']' :: '+' :: '?' :: ')' :: rest =>
    (Piece.group :: ·) <$> parsePieces rest
  | '\\' :: c :: rest => if isMeta c then (Piece.char c :: ·) <$> parsePieces rest else none
  | c :: rest => if isMeta c then none else (Piece.char c :: ·) <$> parsePieces rest
  | [] => none

/-- Put a character in front of the first group. -/
def grow (d : Char) : List (List Char) → List (List Char)
  | [] => [[d]]
  | g :: gs => (d :: g) :: gs

/-- The groups of a match of the whole text. Every call consumes a piece or a character. -/
def groups : Nat → List Piece → List Char → Option (List (List Char))
  | 0, _, _ => none
  | _ + 1, [], [] => some []
  | _ + 1, [], _ :: _ => none
  | fuel + 1, .char c :: ps, d :: ds => if c = d then groups fuel ps ds else none
  | _ + 1, .char _ :: _, [] => none
  | fuel + 1, .group :: ps, d :: ds =>
    if d = '/' then none else grow d <$> groups fuel (.more :: ps) ds
  | _ + 1, .group :: _, [] => none
  | fuel + 1, .more :: ps, text =>
    -- lazy: first try to end the group here
    match groups fuel ps text with
    | some gs => some ([] :: gs)
    | none =>
      match text with
      | [] => none
      | d :: ds => if d = '/' then none else grow d <$> groups fuel (.more :: ps) ds

/-- The engine for template patterns. -/
def templateEngine : RegexEngine where
  Regex := List Piece
  compile pattern :=
    match pattern.toList with
    | '^' :: rest =>
      match parsePieces rest with
      | some pieces => .ok pieces
      | none => .error "unsupported pattern"
    | _ => .error "unsupported pattern"
  isMatch pieces text := (groups (text.length + pieces.length * 2 + 1) pieces text.toList).isSome
  captures pieces text :=
    (groups (text.length + pieces.length * 2 + 1) pieces text.toList).map fun gs =>
      some text :: gs.map fun g => some (String.ofList g)

end Svidlet.Issue.Matcher

namespace Svidlet.Issue

/-! ## A policy that runs -/

open Matcher (templateEngine)

/-- Policies over this engine can be compared. -/
instance : DecidableEq (IdPolicy templateEngine) := fun a b =>
  have : DecidableEq templateEngine.Regex := inferInstanceAs (DecidableEq (List Matcher.Piece))
  decidable_of_iff (a.template.raw = b.template.raw ∧ a.template.parts = b.template.parts ∧
      a.template.fields = b.template.fields ∧ a.template.matcher = b.template.matcher ∧
      a.pattern = b.pattern ∧ a.patternSrc = b.patternSrc) (by
    obtain ⟨⟨_, _, _, _⟩, _, _⟩ := a
    obtain ⟨⟨_, _, _, _⟩, _, _⟩ := b
    simp [and_assoc])

/-- The policy of a template with the four fields that name a workload. -/
def onePolicy : IdPolicy templateEngine where
  template :=
    { raw := "spiffe://\x7btrust_domain\x7d/cluster/\x7bcluster\x7d/ns/\x7bnamespace\x7d/sa/\x7bservice_account\x7d"
      parts := [.literal "spiffe://", .field .trustDomain, .literal "/cluster/", .field .cluster,
        .literal "/ns/", .field .ns, .literal "/sa/", .field .serviceAccount]
      fields := [.trustDomain, .cluster, .ns, .serviceAccount]
      matcher := "spiffe://".toList.map .char ++ .group :: "/cluster/".toList.map .char ++
        .group :: "/ns/".toList.map .char ++ .group :: "/sa/".toList.map .char ++ [.group] }
  pattern := none
  patternSrc := none

def oneId : SpiffeId := ⟨"spiffe://example.org/cluster/c/ns/n/sa/s", by decide⟩

end Svidlet.Issue
