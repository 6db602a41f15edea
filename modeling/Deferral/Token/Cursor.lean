import Deferral.Diagnostic
import Deferral.Token.Basic

/-!
# Reading tokens one by one

A cursor stands before the next token of a list. Beyond the last token it stands before the end of
the input for good.
-/

namespace Deferral

/-- The tokens still to come, the end of the input behind them, and where the token before ended. -/
structure Cursor where
  upcoming : List Token
  stop : Token
  endOfLast : Position
deriving DecidableEq, Repr

namespace Cursor

/-- The file that tokens come from. -/
def fileOf (tokens : List Token) : String := (tokens.head?.map (·.span.start.file)).getD "shell"

/-- Before the first of some tokens. If they lack the end of the input, it comes where the last of
them ends. -/
def ofTokens (tokens : List Token) : Cursor :=
  let start : Position := ⟨0, fileOf tokens⟩
  match tokens.getLast? with
  | none => ⟨[], .endOfInput start, start⟩
  | some last =>
    if last.kind = .endOfInput then ⟨tokens.dropLast, last, start⟩
    else ⟨tokens, .endOfInput last.span.stop, start⟩

/-- The next token. -/
def current (c : Cursor) : Token := c.upcoming.head?.getD c.stop

def kind (c : Cursor) : TokenKind := c.current.kind

def position (c : Cursor) : Position := c.current.span.start

/-- The kind of the token after the next. -/
def secondKind (c : Cursor) : TokenKind := ((c.upcoming.drop 1).head?.getD c.stop).kind

/-- Behind the next token. The end of the input is never passed. -/
def next (c : Cursor) : Cursor :=
  match c.upcoming with
  | [] => c
  | t :: rest => { c with upcoming := rest, endOfLast := t.span.stop }

@[simp] theorem current_cons (t stop : Token) (rest : List Token) (endOfLast : Position) :
    (Cursor.mk (t :: rest) stop endOfLast).current = t := rfl

@[simp] theorem current_nil (stop : Token) (endOfLast : Position) :
    (Cursor.mk [] stop endOfLast).current = stop := rfl

@[simp] theorem next_cons (t stop : Token) (rest : List Token) (endOfLast : Position) :
    (Cursor.mk (t :: rest) stop endOfLast).next = ⟨rest, stop, t.span.stop⟩ := rfl

@[simp] theorem stop_next (c : Cursor) : c.next.stop = c.stop := by
  obtain ⟨_ | ⟨t, rest⟩, stop, endOfLast⟩ := c <;> rfl

theorem upcoming_next (c : Cursor) : c.next.upcoming = c.upcoming.tail := by
  obtain ⟨_ | ⟨t, rest⟩, stop, endOfLast⟩ := c <;> rfl

/-- The next token is not one that may stand here. -/
def unexpected (c : Cursor) : Diagnostic :=
  { cause := .unexpected c.current.text, position := c.position }

/-- The next token is not one that may stand here, for a reason given. -/
def unexpectedFor (c : Cursor) (detail : String) : Diagnostic :=
  { cause := .unexpectedDetailed c.current.text detail, position := c.position }

/-- Passes a token of one kind. -/
def expect (c : Cursor) (kind : TokenKind) : Except Diagnostic (Token × Cursor) :=
  if c.kind = kind then .ok (c.current, c.next) else .error c.unexpected

/-- The tokens of one group from `depth` brackets deep up to the first outside all brackets whose
kind ends the group. That token is looked at before brackets are counted, so that a bracket may end
a group. A closing bracket too many and the end of the input end no group, whatever may end it. -/
def setAsideFrom (ends : List TokenKind) :
    (depth : Nat) → (upcoming : List Token) → (endOfLast : Position) → (stop : Token) →
      Except Diagnostic (List Token × Cursor)
  | _, [], endOfLast, stop => .error (Cursor.mk [] stop endOfLast).unexpected
  | depth, t :: rest, endOfLast, stop =>
    if t.kind = .endOfInput then .error (Cursor.mk (t :: rest) stop endOfLast).unexpected
    else if depth = 0 ∧ ends.contains t.kind then .ok ([], ⟨t :: rest, stop, endOfLast⟩)
    else if t.kind.isOpening then
      (setAsideFrom ends (depth + 1) rest t.span.stop stop).map fun (taken, c) => (t :: taken, c)
    else if t.kind.isClosing then
      if depth = 0 then .error (Cursor.mk (t :: rest) stop endOfLast).unexpected
      else
        (setAsideFrom ends (depth - 1) rest t.span.stop stop).map fun (taken, c) => (t :: taken, c)
    else (setAsideFrom ends depth rest t.span.stop stop).map fun (taken, c) => (t :: taken, c)

/-- Sets aside the tokens up to the first outside all brackets whose kind is among `ends`, at least
one. The token that ends them is next. -/
def setAside (ends : List TokenKind) (c : Cursor) : Except Diagnostic (Excerpt × Cursor) :=
  match setAsideFrom ends 0 c.upcoming c.endOfLast c.stop with
  | .error d => .error d
  | .ok ([], _) => .error c.unexpected
  | .ok (tokens, after) => .ok (⟨tokens, c.position⟩, after)

end Cursor

end Deferral
