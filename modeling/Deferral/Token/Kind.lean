/-!
# Kinds of tokens

A token is a number, an identifier, a reserved word, a mark, or the end of the input. Every kind has
a name of its own; reserved words and marks have one spelling each.
-/

namespace Deferral

/-- The reserved words. -/
inductive Keyword where
  | varKw | defKw | classKw | extensionKw | superKw | coroutineKw | returnKw | yieldKw | ifKw
  | elseKw | whileKw | breakKw | continueKw | trueKw | falseKw | autoKw | constKw | volatileKw
  | decltypeKw
deriving DecidableEq, Repr

namespace Keyword

def spelling : Keyword → String
  | .varKw => "var"
  | .defKw => "def"
  | .classKw => "class"
  | .extensionKw => "extension"
  | .superKw => "super"
  | .coroutineKw => "coroutine"
  | .returnKw => "return"
  | .yieldKw => "yield"
  | .ifKw => "if"
  | .elseKw => "else"
  | .whileKw => "while"
  | .breakKw => "break"
  | .continueKw => "continue"
  | .trueKw => "true"
  | .falseKw => "false"
  | .autoKw => "auto"
  | .constKw => "const"
  | .volatileKw => "volatile"
  | .decltypeKw => "decltype"

def name : Keyword → String
  | .varKw => "Var"
  | .defKw => "Def"
  | .classKw => "Class"
  | .extensionKw => "Extension"
  | .superKw => "Super"
  | .coroutineKw => "Coroutine"
  | .returnKw => "Return"
  | .yieldKw => "Yield"
  | .ifKw => "If"
  | .elseKw => "Else"
  | .whileKw => "While"
  | .breakKw => "Break"
  | .continueKw => "Continue"
  | .trueKw => "True"
  | .falseKw => "False"
  | .autoKw => "Auto"
  | .constKw => "Const"
  | .volatileKw => "Volatile"
  | .decltypeKw => "Decltype"

/-- Every reserved word. -/
def all : List Keyword :=
  [.varKw, .defKw, .classKw, .extensionKw, .superKw, .coroutineKw, .returnKw, .yieldKw, .ifKw,
   .elseKw, .whileKw, .breakKw, .continueKw, .trueKw, .falseKw, .autoKw, .constKw, .volatileKw,
   .decltypeKw]

theorem mem_all (word : Keyword) : word ∈ all := by cases word <;> decide

/-- The reserved word with a spelling, if there is one. -/
def ofSpelling? (text : String) : Option Keyword := all.find? (·.spelling == text)

theorem ofSpelling?_spelling (word : Keyword) : ofSpelling? word.spelling = some word := by
  cases word <;> decide

theorem spelling_injective {word other : Keyword} (h : word.spelling = other.spelling) :
    word = other := by
  have hw := ofSpelling?_spelling word
  rw [h, ofSpelling?_spelling other] at hw
  exact (Option.some.inj hw).symm

/-- The reserved words are the texts that `ofSpelling?` knows. -/
theorem ofSpelling?_eq_some_iff {text : String} {word : Keyword} :
    ofSpelling? text = some word ↔ text = word.spelling := by
  constructor
  · intro h
    have hs := List.find?_some h
    exact (eq_of_beq hs).symm
  · rintro rfl
    exact ofSpelling?_spelling word

end Keyword

/-- The punctuation and operator marks. -/
inductive Mark where
  | openBracket | closeBracket | openCurly | closeCurly | openParen | closeParen
  | assignment | equals | notMark | notEquals
  | less | lessEquals | greater | greaterEquals
  | orMark | andMark | ampersand
  | semicolon | colon | comma | arrow
  | plus | dash | slash | star | percent
deriving DecidableEq, Repr

namespace Mark

def spelling : Mark → String
  | .openBracket => "["
  | .closeBracket => "]"
  | .openCurly => "\x7b"
  | .closeCurly => "\x7d"
  | .openParen => "("
  | .closeParen => ")"
  | .assignment => "="
  | .equals => "=="
  | .notMark => "!"
  | .notEquals => "!="
  | .less => "<"
  | .lessEquals => "<="
  | .greater => ">"
  | .greaterEquals => ">="
  | .orMark => "||"
  | .andMark => "&&"
  | .ampersand => "&"
  | .semicolon => ";"
  | .colon => ":"
  | .comma => ","
  | .arrow => "->"
  | .plus => "+"
  | .dash => "-"
  | .slash => "/"
  | .star => "*"
  | .percent => "%"

def name : Mark → String
  | .openBracket => "OpenBracket"
  | .closeBracket => "CloseBracket"
  | .openCurly => "OpenCurly"
  | .closeCurly => "CloseCurly"
  | .openParen => "OpenParen"
  | .closeParen => "CloseParen"
  | .assignment => "Assignment"
  | .equals => "Equals"
  | .notMark => "Not"
  | .notEquals => "NotEquals"
  | .less => "Less"
  | .lessEquals => "LessEquals"
  | .greater => "Greater"
  | .greaterEquals => "GreaterEquals"
  | .orMark => "Or"
  | .andMark => "And"
  | .ampersand => "Ampersand"
  | .semicolon => "Semicolon"
  | .colon => "Colon"
  | .comma => "Comma"
  | .arrow => "Arrow"
  | .plus => "Plus"
  | .dash => "Dash"
  | .slash => "Slash"
  | .star => "Star"
  | .percent => "Percent"

/-- The mark that a text starts with, the longest if there are several. -/
def atFront? : List Char → Option Mark
  | '[' :: _ => some .openBracket
  | ']' :: _ => some .closeBracket
  | '\x7b' :: _ => some .openCurly
  | '\x7d' :: _ => some .closeCurly
  | '(' :: _ => some .openParen
  | ')' :: _ => some .closeParen
  | '=' :: '=' :: _ => some .equals
  | '=' :: _ => some .assignment
  | '!' :: '=' :: _ => some .notEquals
  | '!' :: _ => some .notMark
  | '<' :: '=' :: _ => some .lessEquals
  | '<' :: _ => some .less
  | '>' :: '=' :: _ => some .greaterEquals
  | '>' :: _ => some .greater
  | '|' :: '|' :: _ => some .orMark
  | '&' :: '&' :: _ => some .andMark
  | '&' :: _ => some .ampersand
  | ';' :: _ => some .semicolon
  | ':' :: _ => some .colon
  | ',' :: _ => some .comma
  | '-' :: '>' :: _ => some .arrow
  | '-' :: _ => some .dash
  | '+' :: _ => some .plus
  | '/' :: _ => some .slash
  | '*' :: _ => some .star
  | '%' :: _ => some .percent
  | _ => none

theorem atFront?_spelling (mark : Mark) : atFront? mark.spelling.toList = some mark := by
  cases mark <;> decide

end Mark

/-- What a token is. -/
inductive TokenKind where
  | endOfInput
  | number
  | identifier
  | keyword (w : Keyword)
  | mark (m : Mark)
deriving DecidableEq, Repr

namespace TokenKind

def name : TokenKind → String
  | .endOfInput => "EOF"
  | .number => "Number"
  | .identifier => "Identifier"
  | .keyword w => w.name
  | .mark m => m.name

/-- Whether a token of this kind opens a bracketed group. -/
def isOpening : TokenKind → Bool
  | .mark .openParen | .mark .openBracket | .mark .openCurly => true
  | _ => false

/-- Whether a token of this kind closes a bracketed group. -/
def isClosing : TokenKind → Bool
  | .mark .closeParen | .mark .closeBracket | .mark .closeCurly => true
  | _ => false

end TokenKind

end Deferral
