import Deferral.Phrase.Expression

/-!
# The grammar of types

A type is an operand with suffixes, which apply from left to right: pointers, references,
qualifiers, sequences and arrays. Qualifiers may also stand in front of an operand, and then bind
tighter than any suffix.
-/

namespace Deferral

namespace TypePhrase

/-- The outcome of reading, which may break off behind some parts. -/
abbrev Reading := Except (Broken TypePart)

/-- Passes a token of one kind behind some parts. -/
def expectBehind (parts : List TypePart) (c : Cursor) (kind : TokenKind) :
    Reading (Token × Cursor) :=
  (c.expect kind).mapError fun fault => ⟨parts, fault⟩

/-- Reads an expression inside a type, behind some parts. -/
def expressionBehind (parts : List TypePart) (c : Cursor) : Reading (Phrase × Cursor) :=
  (Phrase.read c).mapError fun b => ⟨parts ++ b.parts.map .expression, b.fault⟩

/-- The qualifier that a token of a kind stands for. -/
def qualifier? : TokenKind → Option Qualifiers
  | .keyword .constKw => some .const
  | .keyword .volatileKw => some .volatile
  | _ => none

/-- Reads what stands in the square brackets behind `element`: nothing for a sequence, the extent
of an array. The opening bracket has been passed. -/
def bracketed (element : TypePhrase) (c : Cursor) : Reading (TypePhrase × Cursor) :=
  if c.kind = .mark .closeBracket then .ok (.sequence element, c.next)
  else do
    let (extent, c) ← expressionBehind [.type element] c
    let (_, c) ← expectBehind [.type element, .expression extent] c (.mark .closeBracket)
    return (.array element extent, c)

/-- Reads the suffixes of `left`. -/
def suffixes : (bound : Nat) → (left : TypePhrase) → Cursor → Reading (TypePhrase × Cursor)
  | 0, left, c => .ok (left, c)
  | bound + 1, left, c =>
    match c.kind with
    | .mark .star => suffixes bound (.pointer left) c.next
    | .mark .ampersand => suffixes bound (.reference left) c.next
    | .mark .openBracket => do
      let (left, c) ← bracketed left c.next
      suffixes bound left c
    | kind =>
      match qualifier? kind with
      | some q => suffixes bound (.qualified left q) c.next
      | none => .ok (left, c)

/-- Reads what follows the word `decltype`. -/
def decltypeOperand (c : Cursor) : Reading (TypePhrase × Cursor) := do
  let (_, c) ← expectBehind [] c (.mark .openParen)
  if c.kind = .keyword .autoKw ∧ c.secondKind = .mark .closeParen then
    return (.decltypeAuto, c.next.next)
  let (e, c) ← expressionBehind [] c
  let (_, c) ← expectBehind [.expression e] c (.mark .closeParen)
  return (.decltype e, c)

/-- Reads an operand that nests at most `depth` deep. -/
def operand : (depth : Nat) → Cursor → Reading (TypePhrase × Cursor)
  | 0, c => .error ⟨[], c.unexpectedFor "expected a type"⟩
  | depth + 1, c =>
    match c.kind with
    | .identifier => .ok (.name c.current, c.next)
    | .keyword .autoKw => .ok (.auto, c.next)
    | .keyword .decltypeKw => decltypeOperand c.next
    | .mark .openParen => do
      let (inner, c) ← operand depth c.next
      let (t, c) ← suffixes c.upcoming.length inner c
      let (_, c) ← expectBehind [.type t] c (.mark .closeParen)
      return (t, c)
    | kind =>
      match qualifier? kind with
      | some q => do
        let (t, c) ← operand depth c.next
        return (.qualified t q, c)
      | none => .error ⟨[], c.unexpectedFor "expected a type"⟩

/-- Reads a type. No type nests deeper than it has tokens. -/
def read (c : Cursor) : Reading (TypePhrase × Cursor) := do
  let (t, c) ← operand c.upcoming.length c
  suffixes c.upcoming.length t c

/-- The type that some tokens form. -/
def ofTokens (tokens : List Token) : Reading TypePhrase := do
  let (t, c) ← read (.ofTokens tokens)
  let _ ← expectBehind [.type t] c .endOfInput
  return t

end TypePhrase

end Deferral
