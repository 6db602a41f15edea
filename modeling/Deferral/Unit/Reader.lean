import Deferral.Resolution.Basic
import Deferral.Token.Cursor

/-!
# Reading a unit token by token

Reading moves a cursor over the tokens and enters what it reads into the symbol table. When it fails
the cursor is gone, but what has been declared by then stays declared.
-/

namespace Deferral

/-- A computation over a cursor and the symbol table. -/
abbrev Reader := StateT Cursor Resolution

namespace Reader

def kind : Reader TokenKind := Cursor.kind <$> get

def position : Reader Position := Cursor.position <$> get

/-- Where the token read last ends. -/
def endOfLast : Reader Position := Cursor.endOfLast <$> get

/-- Passes the next token. -/
def advance : Reader Token := modifyGet fun c => (c.current, c.next)

/-- Passes a token of one kind. -/
def expect (kind : TokenKind) : Reader Token := do
  match (← get).expect kind with
  | .ok (t, c) =>
    set c
    return t
  | .error d => throw d

/-- Passes a token if it is of one kind, and says whether it was. -/
def accept (kind : TokenKind) : Reader Bool := do
  if (← Reader.kind) = kind then
    let _ ← advance
    return true
  else return false

/-- Passes an identifier; `purpose` says what it is to name. -/
def identifierFor (purpose : String) : Reader Token := do
  let c ← get
  if c.kind = .identifier then advance
  else throw (c.unexpectedFor ("expected identifier during " ++ purpose))

/-- Sets aside the tokens up to the first outside all brackets whose kind is among `ends`. -/
def setAside (ends : List TokenKind) : Reader Excerpt := do
  match (← get).setAside ends with
  | .ok (f, c) =>
    set c
    return f
  | .error d => throw d

/-- What `pick` finds in the symbol table. -/
def look {α : Type} (pick : SymbolTable → α) : Reader α := (Resolution.look pick : Resolution α)

/-- Changes the symbol table. -/
def change (f : SymbolTable → SymbolTable) : Reader Unit := (modify f : Resolution Unit)

/-- Declares a name in the innermost scope. -/
def declare (name : String) (kind : Declared) (span : Span) : Reader DeclId := do
  let id ← look (·.nextDecl)
  change fun t => t.declare { name, kind, scope := t.innermost, span }
  return id

/-- Makes a scope inside the innermost one and saves it for an owner. -/
def newScope (owner : ScopeOwner) : Reader ScopeId := do
  let id ← look (·.nextScope)
  change fun t => (t.addScope t.innermost).assignScope owner id
  return id

/-- Uses up a block number. -/
def takeBlock : Reader Nat := do
  let id ← look (·.nextBlock)
  change (·.takeBlock)
  return id

/-- Reads with a scope active. -/
def under {α : Type} (scope : ScopeId) (action : Reader α) : Reader α :=
  fun c => Resolution.under scope (action c)

/-- Reads items while `more` holds of the next token's kind. Every item takes a token, so that there
are no more of them than tokens to come. -/
def manyWithin {α : Type} (more : TokenKind → Bool) (item : Reader α) :
    (bound : Nat) → Reader (List α)
  | 0 => return []
  | bound + 1 => do
    if more (← kind) then
      let first ← item
      let rest ← manyWithin more item bound
      return first :: rest
    else return []

/-- Reads items while `more` holds of the next token's kind. -/
def many {α : Type} (more : TokenKind → Bool) (item : Reader α) : Reader (List α) := do
  manyWithin more item (← get).upcoming.length

end Reader

end Deferral
