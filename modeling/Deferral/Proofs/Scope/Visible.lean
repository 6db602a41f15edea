import Mathlib.Logic.Relation
import Deferral.Proofs.Pass.Overload
import Deferral.Proofs.Typing.References

/-!
# What is seen from a scope

A name is looked up in a scope and in those around it. What it stands for hangs on no more than the
parents of these scopes and the first proper declaration of each overload set in them.
-/

namespace Deferral

namespace SymbolTable

variable {t t' : SymbolTable} {s p a : ScopeId} {name : String} {d : DeclId}

/-- The scope `p` is the parent of `s`. -/
def IsInside (t : SymbolTable) (s p : ScopeId) : Prop := (t.scope s).parent = some p

/-- `a` is the scope `s` or one around it. -/
abbrev Around (t : SymbolTable) : (s a : ScopeId) → Prop := Relation.ReflTransGen t.IsInside

/-- The scope `s` is that of a block, and `p` its parent. -/
def IsBlockIn (t : SymbolTable) (s p : ScopeId) : Prop :=
  t.IsInside s p ∧ ∃ b, t.scopeOf? (.block b) = some s

/-- The scope `s` is `a`, or that of a block in `a` at any depth. -/
abbrev Encloses (t : SymbolTable) (a s : ScopeId) : Prop := Relation.ReflTransGen t.IsBlockIn s a

theorem around_of_findWithin {set : Overloads} : ∀ {steps : Nat} {s : ScopeId},
    t.findWithin name steps s = some set → ∃ a, t.Around s a ∧ (t.scope a).find? name = some set
  | 0, _, h => by cases h
  | steps + 1, s, h => by
    unfold findWithin at h
    split at h
    · rename_i found
      obtain rfl := Option.some.inj h
      exact ⟨s, .refl, found⟩
    · obtain ⟨p, parent, h⟩ := Option.bind_eq_some_iff.mp h
      obtain ⟨a, around, found⟩ := around_of_findWithin h
      exact ⟨a, .head parent around, found⟩

/-- What a name stands for is bound to it in a scope around. -/
theorem Denotes.binds (h : t.Denotes s name d) : ∃ a, t.Around s a ∧ t.Binds a name d := by
  obtain ⟨set, found, first⟩ := h
  obtain ⟨a, around, found⟩ := around_of_findWithin found
  exact ⟨a, around, Names.binds_of_find? found (List.mem_of_find?_eq_some first)⟩

/-! ## Tables that agree -/

/-- Two tables agree on a scope: on its parent and on what its names stand for. -/
structure AgreesOn (t t' : SymbolTable) (a : ScopeId) : Prop where
  parent : (t'.scope a).parent = (t.scope a).parent
  names : ∀ name, ((t'.scope a).find? name).map t'.firstProper? =
    ((t.scope a).find? name).map t.firstProper?

theorem firstProper?_congr (same : ∀ id, (t'.decl id).isExtension = (t.decl id).isExtension) :
    t'.firstProper? = t.firstProper? := by
  funext set
  simp only [firstProper?, same]

theorem AgreesOn.of_scope (same : ∀ id, (t'.decl id).isExtension = (t.decl id).isExtension)
    (scope : t'.scope a = t.scope a) : t.AgreesOn t' a :=
  ⟨by rw [scope], fun name => by rw [scope, firstProper?_congr same]⟩

theorem findWithin_of_agreesOn (name : String) : ∀ (steps : Nat) {s : ScopeId},
    (∀ a, t.Around s a → t.AgreesOn t' a) →
    (t'.findWithin name steps s).map t'.firstProper? = (t.findWithin name steps s).map t.firstProper?
  | 0, _, _ => rfl
  | steps + 1, s, agree => by
    obtain ⟨parent, names⟩ := agree s .refl
    have same := names name
    unfold findWithin
    cases found : (t.scope s).find? name with
    | some set =>
      rw [found] at same
      obtain ⟨set', found', first⟩ := Option.map_eq_some_iff.mp same
      simp only [found', Option.map_some, first]
    | none =>
      rw [found, Option.map_none, Option.map_eq_none_iff] at same
      simp only [same]
      rw [parent]
      cases outer : (t.scope s).parent with
      | none => rfl
      | some p =>
        exact findWithin_of_agreesOn name steps fun a around => agree a (.head outer around)

/-- What is found is found in any greater number of steps. -/
theorem findWithin_of_le {set : Overloads} : ∀ {steps more : Nat} {s : ScopeId}, steps ≤ more →
    t.findWithin name steps s = some set → t.findWithin name more s = some set
  | 0, _, _, _, h => by cases h
  | steps + 1, 0, _, le, _ => absurd le (Nat.not_succ_le_zero steps)
  | steps + 1, more + 1, s, le, h => by
    unfold findWithin at h ⊢
    split at h
    · exact h
    · obtain ⟨p, parent, h⟩ := Option.bind_eq_some_iff.mp h
      refine Option.bind_eq_some_iff.mpr ⟨p, parent, ?_⟩
      exact findWithin_of_le (Nat.le_of_succ_le_succ le) h

/-- A name keeps what it stands for while the tables agree on all scopes around. -/
theorem Denotes.of_agreesOn (h : t.Denotes s name d) (size : t.scopes.size ≤ t'.scopes.size)
    (agree : ∀ a, t.Around s a → t.AgreesOn t' a) : t'.Denotes s name d := by
  obtain ⟨set, found, first⟩ := h
  have same := findWithin_of_agreesOn name t.scopes.size agree
  rw [show t.findWithin name t.scopes.size s = some set from found, Option.map_some, first] at same
  obtain ⟨set', found', first'⟩ := Option.map_eq_some_iff.mp same
  exact ⟨set', findWithin_of_le size found', first'⟩

theorem Lexical.of_agreesOn {e : Expr} (h : t.Lexical s e) (size : t.scopes.size ≤ t'.scopes.size)
    (agree : ∀ a, t.Around s a → t.AgreesOn t' a) : t'.Lexical s e :=
  fun ref member => (h ref member).of_agreesOn size agree

theorem Lexical.of_scopes {e : Expr} (h : t.Lexical s e) (scopes : t'.scopes = t.scopes)
    (same : ∀ id, (t'.decl id).isExtension = (t.decl id).isExtension) : t'.Lexical s e :=
  h.of_agreesOn (by rw [scopes]) fun a _ => .of_scope same (scope_congr scopes a)

theorem Denotes.of_scopes (h : t.Denotes s name d) (scopes : t'.scopes = t.scopes)
    (same : ∀ id, (t'.decl id).isExtension = (t.decl id).isExtension) : t'.Denotes s name d :=
  h.of_agreesOn (by rw [scopes]) fun a _ => .of_scope same (scope_congr scopes a)

end SymbolTable

end Deferral
