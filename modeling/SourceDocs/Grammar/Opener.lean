import SourceDocs.Grammar.Basic

/-!
Which construct opens at a place in the code. Of the markers that stand there the longest wins; a
block style gives way to a shorter one that would also close inside the longer start, so that `/**/`
is an empty plain comment and not an open documentation comment.
-/

namespace SourceDocs

inductive Opener where
  | line (index : Nat) (marker : LineMarker)
  | block (index : Nat) (style : BlockStyle)
  | string (index : Nat) (delimiter : StringDelimiter)
deriving DecidableEq, Repr

def Opener.marker : Opener → Marker
  | .line _ marker => marker.marker
  | .block _ style => style.start
  | .string _ delimiter => delimiter.opening

/-- The longer of two openers, the first if they are equally long. -/
def Opener.longer (first second : Opener) : Opener :=
  if first.marker.bytes < second.marker.bytes then second else first

def BlockStyle.closesAtOnce (style : BlockStyle) (rest : Text) : Bool :=
  (style.start.text ++ style.stop.text).isPrefixOf rest

namespace Grammar

def lineAt (grammar : Grammar) (rest : Text) : Option Opener :=
  (grammar.lineMarkers.zipIdx.find? fun entry => entry.1.marker.isAt rest).map
    fun entry => .line entry.2 entry.1

/-- The first block style that starts here, or the first later and shorter one that would also
close at once. -/
def blockAt (grammar : Grammar) (rest : Text) : Option Opener :=
  let styles := grammar.blockStyles.zipIdx
  match styles.find? (fun entry => entry.1.start.isAt rest) with
  | none => none
  | some first =>
    let shorter := (styles.drop (first.2 + 1)).find? fun entry =>
      entry.1.start.bytes < first.1.start.bytes && entry.1.closesAtOnce rest
    let chosen := shorter.getD first
    some (.block chosen.2 chosen.1)

def stringAt (grammar : Grammar) (rest : Text) : Option Opener :=
  (grammar.strings.zipIdx.find? fun entry => entry.1.opening.isAt rest).map
    fun entry => .string entry.2 entry.1

def openerAt (grammar : Grammar) (rest : Text) : Option Opener :=
  match (grammar.blockAt rest).toList ++ (grammar.lineAt rest).toList ++
      (grammar.stringAt rest).toList with
  | [] => none
  | first :: others => some (others.foldl Opener.longer first)

end Grammar

end SourceDocs
