import Deferral.Proofs.Constant.Names
import Deferral.Proofs.Execution.Resolving
import Deferral.Proofs.Table.Edit
import Deferral.Resolution.Definition

/-!
# Settling constants

Evaluating an expression may define the constants it reads, and these the constants they read. All
that changes are declarations of constants, and of these only such as are not being computed. A
constant whose declared type has an extent that reads a constant being computed cannot get its type
meanwhile.
-/

namespace Deferral

namespace SymbolTable

/-- A constant whose value is being computed. -/
def Pending (t : SymbolTable) (c : DeclId) : Prop := c ∈ t.binding ∧ t.constant? c = none

/-- A constant whose declared type is deferred and has an extent that reads `c`. -/
def Awaits (t : SymbolTable) (id c : DeclId) : Prop :=
  (t.decl id).isConstant = true ∧ ∃ f phrase, (t.decl id).ownType? = some (.deferred f) ∧
    TypePhrase.ofTokens f.tokens = .ok phrase ∧
    c ∈ phrase.constantNames (t.enter (t.decl id).scope)

/-- What settling constants does to a table, and settling the object `own` before it gets its value.
-/
structure Settles (own : Option DeclId) (t t' : SymbolTable) : Prop where
  edits : t.Reaches t'
  evolves : t.Evolves t'
  scopes : t'.scopes = t.scopes
  saved : t'.saved = t.saved
  active : t'.active = t.active
  binding : t'.binding = t.binding
  nextBlock : t'.nextBlock = t.nextBlock
  size : t'.decls.size = t.decls.size
  others : ∀ id, (t.decl id).isConstant = false → some id ≠ own → t'.decl id = t.decl id
  pending : ∀ c, t.Pending c → t'.constant? c = none
  held : ∀ c, t.Pending c → some c ≠ own → t'.decl c = t.decl c
  shielded : ∀ id c, t.Pending c → t.Awaits id c → (t'.decl id).ownType? = (t.decl id).ownType?

/-! ## What names stand for -/

variable {t t' t'' : SymbolTable}

theorem findWithin_congr (scopes : t'.scopes = t.scopes) (name : String) :
    ∀ steps id, t'.findWithin name steps id = t.findWithin name steps id := by
  intro steps
  induction steps with
  | zero => intro id; rfl
  | succ steps ih =>
    intro id
    have ih' : t'.findWithin name steps = t.findWithin name steps := funext ih
    simp only [findWithin, scope, scopes, ih']

theorem find_congr (scopes : t'.scopes = t.scopes) (innermost : t'.innermost = t.innermost)
    (name : String) : t'.find name = t.find name := by
  simp only [find, findFrom, scopes, innermost, findWithin_congr scopes]

theorem named?_congr (scopes : t'.scopes = t.scopes) (innermost : t'.innermost = t.innermost)
    (extensions : ∀ id, (t'.decl id).isExtension = (t.decl id).isExtension) (name : String) :
    t'.named? name = t.named? name := by
  have preferred : t'.preferred? = t.preferred? := by
    funext set
    simp only [preferred?, extensions]
  simp only [named?, find_congr scopes innermost, preferred]

end SymbolTable

theorem Phrase.constantNames_congr {t t' : SymbolTable}
    (named : ∀ name, t'.named? name = t.named? name) :
    ∀ p : Phrase, p.constantNames t' = p.constantNames t
  | .name t => by simp only [constantNames, named]
  | .unary _ _ operand => constantNames_congr named operand
  | .binary _ left right => by
    simp only [constantNames, constantNames_congr named left, constantNames_congr named right]
  | .number _ | .truth _ _ | .assign _ _ | .call _ _ _ => rfl

theorem TypePhrase.constantNames_congr {t t' : SymbolTable}
    (named : ∀ name, t'.named? name = t.named? name) :
    ∀ p : TypePhrase, p.constantNames t' = p.constantNames t
  | .array element extent => by
    simp only [constantNames, constantNames_congr named element,
      Phrase.constantNames_congr named extent]
  | .qualified t _ | .pointer t | .reference t | .sequence t => constantNames_congr named t
  | .name _ | .auto | .decltype _ | .decltypeAuto => rfl

namespace SymbolTable

namespace Settles

variable {own : Option DeclId} {t t' t'' : SymbolTable}

theorem isExtension (h : Settles own t t') (id : DeclId) :
    (t'.decl id).isExtension = (t.decl id).isExtension := by
  by_cases lt : id.index < t.decls.size
  · have evolves := (h.evolves.decls id lt).kind
    unfold Decl.isExtension
    generalize (t.decl id).kind = k at evolves
    generalize (t'.decl id).kind = k' at evolves
    cases evolves with
    | @classDecl sort _ _ _ _ => cases sort <;> rfl
    | _ => rfl
  · have outside : t.decls.size ≤ id.index := by omega
    rw [decl_eq_default outside, decl_eq_default (h.size ▸ outside)]

theorem innermost (h : Settles own t t') : t'.innermost = t.innermost := by
  simp only [SymbolTable.innermost, h.active]

theorem named? (h : Settles own t t') (name : String) : t'.named? name = t.named? name :=
  named?_congr h.scopes h.innermost h.isExtension name

theorem pending_of (h : Settles own t t') {c : DeclId} (pending : t.Pending c) : t'.Pending c :=
  ⟨h.binding ▸ pending.1, h.pending c pending⟩

theorem pending_back (h : Settles own t t') {c : DeclId} (pending : t'.Pending c) :
    t.Pending c := by
  refine ⟨h.binding ▸ pending.1, ?_⟩
  cases known : t.constant? c with
  | none => rfl
  | some v =>
    have unknown := pending.2
    rw [(h.evolves.constants c v known).1] at unknown
    cases unknown

theorem scope (h : Settles own t t') (id : DeclId) : (t'.decl id).scope = (t.decl id).scope := by
  by_cases lt : id.index < t.decls.size
  · exact (h.evolves.decls id lt).scope
  · have outside : t.decls.size ≤ id.index := by omega
    rw [decl_eq_default outside, decl_eq_default (h.size ▸ outside)]

/-- A declared type that has not been read yet waits for the same constants. -/
theorem awaits (h : Settles own t t') {id c : DeclId} (awaits : t.Awaits id c)
    (same : (t'.decl id).ownType? = (t.decl id).ownType?) : t'.Awaits id c := by
  obtain ⟨constant, f, phrase, deferred, read, member⟩ := awaits
  refine ⟨h.evolves.isConstant constant, f, phrase, same.trans deferred, read, ?_⟩
  have named : ∀ name, (t'.enter (t.decl id).scope).named? name =
      (t.enter (t.decl id).scope).named? name :=
    named?_congr h.scopes rfl h.isExtension
  rw [h.scope, TypePhrase.constantNames_congr named]
  exact member

theorem refl (own : Option DeclId) (t : SymbolTable) : Settles own t t where
  edits := .refl t
  evolves := .refl t
  scopes := rfl
  saved := rfl
  active := rfl
  binding := rfl
  nextBlock := rfl
  size := rfl
  others := fun _ _ _ => rfl
  pending := fun _ pending => pending.2
  held := fun _ _ _ => rfl
  shielded := fun _ _ _ _ => rfl

theorem trans (h : Settles own t t') (h' : Settles own t' t'') : Settles own t t'' where
  edits := h.edits.trans h'.edits
  evolves := h.evolves.trans h'.evolves
  scopes := h'.scopes.trans h.scopes
  saved := h'.saved.trans h.saved
  active := h'.active.trans h.active
  binding := h'.binding.trans h.binding
  nextBlock := h'.nextBlock.trans h.nextBlock
  size := h'.size.trans h.size
  others := fun id constant other => by
    have same := h.others id constant other
    rw [h'.others id (same ▸ constant) other, same]
  pending := fun c pending => h'.pending c (h.pending_of pending)
  held := fun c pending other => by
    rw [h'.held c (h.pending_of pending) other, h.held c pending other]
  shielded := fun id c pending awaits => by
    have same := h.shielded id c pending awaits
    rw [h'.shielded id c (h.pending_of pending) (h.awaits awaits same), same]

/-- What is settled for no object is settled for any. -/
theorem weaken (h : Settles none t t') (own : Option DeclId) : Settles own t t' where
  __ := h
  others := fun id constant _ => h.others id constant (by simp)
  held := fun c pending _ => h.held c pending (by simp)

theorem sound (h : Settles own t t') (sound : t.Sound) : t'.Sound := h.edits.sound sound

theorem value? (h : Settles own t t') {e : Expr} {v : Constant}
    (value : e.value? t.constant? = some v) : e.value? t'.constant? = some v :=
  Expr.value?_mono (fun d w known => (h.evolves.constants d w known).1) e v value

end Settles

/-- Constants that wait for all of `ds` keep their declared type. -/
def Shields (ds : List DeclId) (t t' : SymbolTable) : Prop :=
  ∀ id, (∀ c ∈ ds, t.Awaits id c) → (t'.decl id).ownType? = (t.decl id).ownType?

theorem Shields.refl (ds : List DeclId) (t : SymbolTable) : Shields ds t t := fun _ _ => rfl

theorem Shields.append {ds ds' : List DeclId} (h : Shields ds t t') (settles : Settles none t t')
    (h' : Shields ds' t' t'') : Shields (ds ++ ds') t t'' := by
  intro id awaits
  have same := h id fun c member => awaits c (by simp [member])
  rw [h' id fun c member => settles.awaits (awaits c (by simp [member])) same, same]

end SymbolTable

end Deferral
