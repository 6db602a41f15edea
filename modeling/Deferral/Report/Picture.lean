import Deferral.Diagnostic
import Deferral.Source.Line
import Deferral.Text.Blank

/-!
# The picture of a diagnostic

A diagnostic is shown with the name of its file, the line it is about, and a caret under the place.
-/

namespace Deferral

/-- A text moved right to end at a column, `fill` standing in front. -/
def padLeft (fill : Char) (width : Nat) (text : List Char) : List Char :=
  List.replicate (width - text.length) fill ++ text

namespace LinePlace

/-- Whether a character is taken for indentation in front of a line. -/
def isIndent (c : Char) : Bool := c = ' ' || c = '\t'

/-- How many blanks and tabs a line starts with. -/
def indent (p : LinePlace) : Nat := (p.text.takeWhile isIndent).length

/-- The margin left of the bar, as wide as the line's number and one blank. -/
def margin (p : LinePlace) : Nat := p.number.repr.length + 2

/-- The line of its number and its text, without the blanks around it. -/
def textLine (p : LinePlace) : List Char :=
  p.number.repr.toList ++ [' ', '|', ' '] ++ Text.trimBlanks p.text

/-- The line of the caret, which stands as far right as the place is from the indentation. -/
def caretLine (p : LinePlace) : List Char :=
  padLeft ' ' p.margin ['|'] ++ ' ' :: padLeft '-' (p.offset - p.indent + 1) ['^']

/-- The three lines of a picture. -/
def picture (p : LinePlace) : List (List Char) :=
  [padLeft ' ' p.margin ['|'], p.textLine, p.caretLine]

end LinePlace

namespace Diagnostic

/-- The first line of a report: the name of the cause, the subject, and the advice. -/
def headline (d : Diagnostic) : String :=
  let head := "Error: " ++ d.cause.name ++ " in " ++ d.subject.text
  match d.cause.tip? with
  | some tip => head ++ " (" ++ tip ++ ")"
  | none => head

/-- The lines of a report on a diagnostic about `source` in `file`. A place outside the source has
no picture. -/
def report (d : Diagnostic) (file : String) (source : List Char) : List String :=
  let picture := match lineAt? source d.position.offset with
    | some place => place.picture.map String.ofList
    | none => []
  d.headline :: ("-> " ++ file) :: picture

end Diagnostic

end Deferral
