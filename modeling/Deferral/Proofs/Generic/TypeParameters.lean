import Deferral.Proofs.Pass.Signature
import Deferral.Proofs.Scope.Visible

/-!
# Type parameters in types

The type parameters in a type that has been read are bound where it was read. The type of a parameter that
is declared `auto` has one more, which takes the place of `auto`, and no other.
-/

namespace Deferral

open SymbolTable

namespace Ty

mutual

/-- The type parameters that occur in a type. What `decltype` keeps is an expression, not a part of the
type. -/
def typeParameters : Ty → List DeclId
  | .named .typeParameter d _ => [d]
  | .function parameters result => typeParametersIn parameters ++ result.typeParameters
  | .reference t | .qualified t _ | .pointer t | .array t _ | .sequence t => t.typeParameters
  | _ => []

/-- The type parameters that occur in several types. -/
def typeParametersIn : List Ty → List DeclId
  | [] => []
  | t :: rest => t.typeParameters ++ typeParametersIn rest

end

mutual

/-- A type without a meaning that is still to be found has no type parameters. -/
theorem typeParameters_of_not_dependent : ∀ (t : Ty), t.isDependent = false → t.typeParameters = []
  | .function parameters result, h => by
    obtain ⟨known, all⟩ := Bool.or_eq_false_iff.mp h
    rw [typeParameters, typeParametersIn_of_not_dependent parameters all,
      typeParameters_of_not_dependent result known, List.append_nil]
  | .reference t, h | .qualified t _, h | .pointer t, h | .array t _, h | .sequence t, h =>
    typeParameters_of_not_dependent t h
  | .named .typeParameter _ _, h => by cases h
  | .named .classType _ _, _ | .named .unionType _ _, _ | .named .enumType _ _, _ => rfl
  | .void, _ | .bool, _ | .integer _ _, _ | .float _, _ | .decltype _, _ | .metatype, _ => rfl
  | .auto, _ | .decltypeAuto, _ | .deferred _, _ => rfl

theorem typeParametersIn_of_not_dependent : ∀ (ts : List Ty), anyDependent ts = false →
    typeParametersIn ts = []
  | [], _ => rfl
  | t :: rest, h => by
    obtain ⟨known, all⟩ := Bool.or_eq_false_iff.mp h
    rw [typeParametersIn, typeParameters_of_not_dependent t known, typeParametersIn_of_not_dependent rest all]
    rfl

end

@[simp] theorem typeParameters_toReference (t : Ty) : t.toReference.typeParameters = t.typeParameters := by
  cases t <;> rfl

@[simp] theorem typeParameters_addQualifiers (t : Ty) (q : Qualifiers) :
    (t.addQualifiers q).typeParameters = t.typeParameters := by
  unfold addQualifiers
  split
  · rfl
  · split <;> rfl

theorem typeParameters_of_builtin? {name : String} {t : Ty} (h : builtin? name = some t) :
    t.typeParameters = [] := by
  obtain ⟨before, after, split, -⟩ := List.lookup_eq_some_iff.mp h
  have member : (name, t) ∈ before ++ (name, t) :: after := by simp
  rw [← split] at member
  simp only [List.mem_cons, Prod.mk.injEq, List.not_mem_nil, or_false] at member
  rcases member with h | h | h | h | h | h | h | h | h | h | h | h | h <;> (rw [h.2]; rfl)

end Ty

/-! ## Types that are read -/

variable {t t' : SymbolTable} {type : Ty} {d : DeclId}

/-- A name leads to a declaration in some scope. -/
def SymbolTable.IsNamed (t : SymbolTable) (d : DeclId) : Prop := ∃ s name, t.Binds s name d

theorem SymbolTable.IsNamed.of_scopes (h : t.IsNamed d) (scopes : t'.scopes = t.scopes) : t'.IsNamed d := by
  obtain ⟨s, name, binds⟩ := h
  refine ⟨s, name, ?_⟩
  unfold Binds at binds ⊢
  rwa [scope_congr scopes]

theorem SymbolTable.isNamed_of_namedType {token : Token} (h : t.namedType token = .ok type)
    (occurs : d ∈ type.typeParameters) : t.IsNamed d := by
  unfold namedType at h
  split at h
  · rename_i builtin
    obtain rfl := Except.ok.inj h
    rw [Ty.typeParameters_of_builtin? builtin] at occurs
    cases occurs
  obtain ⟨set, looked, h⟩ := bind_eq_ok_iff.mp h
  have found : t.find token.text = some set := by
    unfold overloads at looked
    split at looked <;> simp_all
  obtain ⟨s, -, held⟩ := around_of_findWithin found
  split at h
  · rename_i type' stands
    obtain rfl := Except.ok.inj h
    unfold typeOf? at stands
    split at stands
    · obtain rfl := Option.some.inj stands
      cases occurs
    split at stands
    · obtain rfl := Option.some.inj stands
      cases occurs
    obtain ⟨p, first, rfl⟩ := Option.map_eq_some_iff.mp stands
    obtain rfl := List.mem_singleton.mp occurs
    exact ⟨s, _, Names.binds_of_find? held (List.mem_of_find?_eq_some first)⟩
  · cases h

namespace TypePhrase

open Resolution

theorem typeParameters_ofDecltype (e : Expr) : (ofDecltype e).typeParameters = [] := by
  unfold ofDecltype
  split
  · rfl
  · rename_i known
    exact Ty.typeParameters_of_not_dependent e.type (Bool.eq_false_iff.mpr known)

/-- Whatever is evaluated on the way, the type parameters in a type have names where it is resolved. -/
theorem isNamed_of_resolved {bind : DeclId → Resolution Unit} : ∀ (phrase : TypePhrase) {t t' : SymbolTable}
    {type : Ty}, Runs (phrase.resolved bind) t (.ok type) t' → ∀ d ∈ type.typeParameters, t.IsNamed d
  | .name token, _, _, _, h, _, occurs =>
    isNamed_of_namedType (runs_ofExcept.mp (runs_bind_get.mp h)).1.symm occurs
  | .auto, _, _, _, h, _, occurs | .decltypeAuto, _, _, _, h, _, occurs => by
    obtain rfl := Except.ok.inj (runs_pure.mp h).1
    cases occurs
  | .decltype e, _, _, _, h, _, occurs => by
    obtain ⟨typed, -, same⟩ := runs_map.mp h
    obtain ⟨e', -, rfl⟩ := map_eq_ok_iff.mp same.symm
    rw [typeParameters_ofDecltype] at occurs
    cases occurs
  | .qualified inner q, _, _, _, h, d, occurs => by
    obtain ⟨r, run, same⟩ := runs_map.mp h
    obtain ⟨type, rfl, rfl⟩ := map_eq_ok_iff.mp same.symm
    exact isNamed_of_resolved inner run d (by simpa using occurs)
  | .reference target, _, _, _, h, d, occurs => by
    obtain ⟨r, run, same⟩ := runs_map.mp h
    obtain ⟨type, rfl, rfl⟩ := map_eq_ok_iff.mp same.symm
    exact isNamed_of_resolved target run d (by simpa using occurs)
  | .pointer inner, _, _, _, h, d, occurs | .sequence inner, _, _, _, h, d, occurs => by
    obtain ⟨r, run, same⟩ := runs_map.mp h
    obtain ⟨type, rfl, rfl⟩ := map_eq_ok_iff.mp same.symm
    exact isNamed_of_resolved inner run d occurs
  | .array element extent, _, _, _, h, d, occurs => by
    rcases runs_bind.mp h with ⟨_, -, wrong⟩ | ⟨type, t₁, first, rest⟩
    · cases wrong
    rcases runs_bind.mp rest with ⟨_, -, wrong⟩ | ⟨e, t₂, -, rest⟩
    · cases wrong
    rcases runs_bind.mp rest with ⟨_, -, wrong⟩ | ⟨v, t₃, -, last⟩
    · cases wrong
    obtain ⟨n, -, rfl⟩ := (runs_arrayOf last).2 _ rfl
    exact isNamed_of_resolved element first d occurs

/-- The type parameters in a type that is read have names where it is read. -/
theorem isNamed_of_typeOf (sound : t.Sound) {tokens : List Token}
    (h : Runs (typeOf ensureConstant tokens) t (.ok type) t') (occurs : d ∈ type.typeParameters) :
    t.IsNamed d := by
  obtain ⟨phrase, read, -⟩ := (runs_typeOf binds_ensureConstant sound h).known type rfl
  unfold typeOf at h
  rw [read] at h
  exact isNamed_of_resolved phrase h d occurs

end TypePhrase

/-! ## The place of `auto` -/

namespace Signature

/-- What takes the place of `auto` in the type of a parameter brings its type parameters, and none are lost. -/
theorem typeParameters_replaceAuto (replacement : Ty) : ∀ (type : Ty), isUntyped type = true →
    (replaceAuto replacement type).typeParameters = replacement.typeParameters := by
  intro type untyped
  fun_induction replaceAuto replacement type with
  | case1 => rfl
  | case2 t ih => simpa using ih untyped
  | case3 t q ih => simpa using ih untyped
  | case4 t _ _ _ => simp_all [isUntyped]

end Signature

end Deferral
