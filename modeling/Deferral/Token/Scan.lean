import Deferral.Diagnostic
import Deferral.Source.Line
import Deferral.Text.Blank
import Deferral.Token.Basic

/-!
# Scanning

A source is cut into lexemes from left to right, each the longest that its first character allows:
words, numbers, white space, comments and marks. White space and comments are dropped, every other
lexeme becomes a token, and one token for the end of the input closes the list.
-/

namespace Deferral

def isDigit (c : Char) : Bool := '0' ≤ c && c ≤ '9'

def isWordStart (c : Char) : Bool := ('a' ≤ c && c ≤ 'z') || ('A' ≤ c && c ≤ 'Z') || c == '_'

def isWordPart (c : Char) : Bool := isWordStart c || isDigit c

/-- A piece of the source: the text of a token, or text that no token keeps. -/
structure Lexeme where
  kind? : Option TokenKind
  text : List Char
deriving DecidableEq, Repr

namespace Lexeme

/-- A word is a keyword exactly when its whole text is reserved. -/
def word (text : List Char) : Lexeme :=
  ⟨some (match Keyword.ofSpelling? (String.ofList text) with
    | some reserved => .keyword reserved
    | none => .identifier), text⟩

/-- The fraction that may follow the digits of a number: a point and at least one digit. -/
def fraction : List Char → List Char
  | '.' :: d :: rest => if isDigit d then '.' :: d :: rest.takeWhile isDigit else []
  | _ => []

/-- A number: digits, and a fraction if one follows. -/
def number (source : List Char) : Lexeme :=
  ⟨some .number, source.takeWhile isDigit ++ fraction (source.dropWhile isDigit)⟩

/-- A comment runs up to the end of its line. -/
def comment (source : List Char) : Lexeme := ⟨none, source.takeWhile (· ≠ '\n')⟩

/-- The lexeme that a source starts with, if its first character starts any. -/
def atFront? : List Char → Option Lexeme
  | [] => none
  | c :: rest =>
    if isWordStart c then some (word (c :: rest.takeWhile isWordPart))
    else if isDigit c then some (number (c :: rest))
    else if Text.isBlank c then some ⟨none, c :: rest.takeWhile Text.isBlank⟩
    else if c = '/' ∧ rest.head? = some '/' then some (comment (c :: rest))
    else (Mark.atFront? (c :: rest)).map fun mark => ⟨some (.mark mark), mark.spelling.toList⟩

end Lexeme

namespace Token

/-- The tokens of the rest of a source, read at byte `offset`. The first `pending` characters belong
to a lexeme that has been taken already. -/
def scanFrom (file : String) : (pending offset : Nat) → List Char → Except Diagnostic (List Token)
  | _, offset, [] => .ok [.endOfInput ⟨offset, file⟩]
  | pending + 1, offset, c :: rest => scanFrom file pending (offset + c.utf8Size) rest
  | 0, offset, c :: rest =>
    match Lexeme.atFront? (c :: rest) with
    | none => .error { cause := .unrecognised (String.ofList [c]), position := ⟨offset, file⟩ }
    | some lexeme => do
      let tokens ← scanFrom file (lexeme.text.length - 1) (offset + c.utf8Size) rest
      match lexeme.kind? with
      | none => return tokens
      | some kind =>
        let span := ⟨⟨offset, file⟩, ⟨offset + byteLength lexeme.text, file⟩⟩
        return ⟨kind, String.ofList lexeme.text, span⟩ :: tokens

/-- The tokens of a source in `file`. -/
def scan (source : List Char) (file : String) : Except Diagnostic (List Token) :=
  scanFrom file 0 0 source

end Token

end Deferral
