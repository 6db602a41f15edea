import Deferral.Source.Position
import Deferral.Token.Kind

/-!
# Tokens and excerpts

A token keeps its own text and its span. An excerpt is a run of tokens set aside to be read later,
together with the position it was set aside at.
-/

namespace Deferral

structure Token where
  kind : TokenKind
  text : String
  span : Span
deriving DecidableEq, Repr

namespace Token

/-- The token that ends every input. -/
def endOfInput (position : Position) : Token := ⟨.endOfInput, "EOF", .point position⟩

/-- How a token is shown by itself. -/
def shown (t : Token) : String :=
  "Token \x7b\nkind: " ++ t.kind.name ++ ",\nvalue: " ++ t.text ++ "\x7d"

end Token

/-- A run of tokens whose reading is put off, and the position of its first token. -/
structure Excerpt where
  tokens : List Token
  position : Position
deriving DecidableEq, Repr

namespace Excerpt

/-- From where the excerpt was set aside to the end of its last token. -/
def span (f : Excerpt) : Span :=
  ⟨f.position, (f.tokens.getLast?.map (·.span.stop)).getD f.position⟩

/-- The tokens of an excerpt with one blank between each two. -/
def text (f : Excerpt) : String := " ".intercalate (f.tokens.map (·.text))

/-- How an excerpt is shown where its type or expression would stand. -/
def shown (f : Excerpt) : String := "<unparsed " ++ f.text ++ ">"

end Excerpt

end Deferral
