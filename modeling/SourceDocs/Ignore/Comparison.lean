import SourceDocs.Ignore.Pattern

/-!
What a pattern is compared with. A pattern that is only text, or text behind any directories, is looked
up in a path or in its last name; one that ends in an extension is tried only on names with that
extension; all others are tried as expressions.
-/

namespace SourceDocs.Ignore

inductive Comparison where
  | path
  | name
  /-- The extension of the last name, and then the path as an expression. -/
  | extension
  | expression
deriving DecidableEq, Repr

def literals? (pattern : List Token) : Option Text :=
  pattern.mapM fun
    | .literal c => some c
    | _ => none

def isExtension : List Token → Bool
  | .literal '/' :: _ => false
  | .literal '.' :: _ => true
  | .literal _ :: rest => isExtension rest
  | _ => false

/-- Whether a pattern is the text of a directory and fits everything below it. -/
def isBeneath (pattern : List Token) : Bool :=
  match pattern.getLast? with
  | some .everythingBelow => (literals? pattern.dropLast).isSome
  | _ => false

def comparison (pattern : List Token) : Comparison :=
  let other : Comparison := if isExtension pattern.reverse then .extension else .expression
  match literals? pattern with
  | some text => if text.isEmpty then .expression else .path
  | none =>
    if isBeneath pattern then .path
    else match pattern with
      | .leadingDirectories :: rest =>
        match literals? rest with
        | some text =>
          if text.isEmpty then .expression else if text.contains '/' then .path else .name
        | none =>
          match rest with
          | .anyName :: .literal '.' :: ending =>
            match literals? ending with
            | some text => if text.contains '.' || text.contains '/' then other else .name
            | none => other
          | _ => other
      | _ => other

def asksForName (pattern : List Token) : Bool :=
  comparison pattern == .name || comparison pattern == .extension

end SourceDocs.Ignore
