import Deferral.Diagnostic
import Deferral.Token.Basic
import Deferral.Tree.Operator
import Deferral.Tree.Qualifiers

/-!
# Phrases

A phrase is a run of tokens grouped by the grammar: it says what is an operand of what, and nothing
about names and types. Brackets group and leave no trace.
-/

namespace Deferral

/-- An expression as it is written. A call keeps where its closing bracket ends. -/
inductive Phrase where
  | number (t : Token)
  | truth (value : Bool) (t : Token)
  | name (t : Token)
  | unary (op : UnaryOp) (start : Position) (operand : Phrase)
  | binary (op : BinaryOp) (left right : Phrase)
  | assign (target value : Phrase)
  | call (callee : Phrase) (arguments : List Phrase) (stop : Position)

/-- A type as it is written. -/
inductive TypePhrase where
  | name (t : Token)
  | auto
  | decltype (e : Phrase)
  | decltypeAuto
  | qualified (inner : TypePhrase) (q : Qualifiers)
  | pointer (target : TypePhrase)
  | reference (target : TypePhrase)
  | sequence (element : TypePhrase)
  | array (element : TypePhrase) (extent : Phrase)

/-- Where the grammar fails: the parts that had been read in full by then, in order, and the
fault. A part has a meaning of its own, and what is wrong with it comes first. -/
structure Broken (α : Type) where
  parts : List α
  fault : Diagnostic

namespace Broken

/-- A failure in front of which more parts had been read. -/
def behind {α : Type} (parts : List α) (b : Broken α) : Broken α :=
  { b with parts := parts ++ b.parts }

end Broken

/-- A part of a type: a type or an expression inside one. -/
inductive TypePart where
  | type (t : TypePhrase)
  | expression (e : Phrase)

end Deferral
