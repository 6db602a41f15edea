import Deferral.Declaration.Id

/-!
# Scopes

A scope maps names to overload sets, the declarations of one name in the order in which they were
made, and knows the scope that encloses it. The names are kept in order.
-/

namespace Deferral

/-- The declarations of one name in one scope, in order. -/
abbrev Overloads := List DeclId

/-- Overload sets by name, the names increasing. -/
abbrev Names := List (String × Overloads)

namespace Names

def find? (names : Names) (name : String) : Option Overloads := names.lookup name

/-- Changes the overload set of a name. A name without one gets what the empty set changes to. -/
def alter (name : String) (f : Overloads → Overloads) : Names → Names
  | [] => [(name, f [])]
  | (other, set) :: rest =>
    if name = other then (other, f set) :: rest
    else if name < other then (name, f []) :: (other, set) :: rest
    else (other, set) :: alter name f rest

@[simp] theorem alter_nil (name : String) (f : Overloads → Overloads) :
    alter name f [] = [(name, f [])] := rfl

theorem alter_cons (name : String) (f : Overloads → Overloads) (other : String) (set : Overloads)
    (rest : Names) : alter name f ((other, set) :: rest) =
      if name = other then (other, f set) :: rest
      else if name < other then (name, f []) :: (other, set) :: rest
      else (other, set) :: alter name f rest := rfl

/-- Whether names increase, as they do however often sets are altered. -/
def Increasing (names : Names) : Prop := names.Pairwise fun entry later => entry.1 < later.1

theorem find?_cons (names : Names) (other name : String) (set : Overloads) :
    find? ((other, set) :: names) name = if name = other then some set else names.find? name := by
  unfold find?
  rw [List.lookup_cons]
  by_cases h : name = other
  · simp [h]
  · simp [h, beq_eq_false_iff_ne.mpr h]

theorem find?_eq_none_of_lt {names : Names} {name : String}
    (before : ∀ entry ∈ names, name < entry.1) : names.find? name = none := by
  induction names with
  | nil => rfl
  | cons entry rest ih =>
    have ne : name ≠ entry.1 := by
      intro same
      have less := before entry (List.mem_cons_self ..)
      rw [same] at less
      exact String.lt_irrefl _ less
    rw [find?_cons, if_neg ne]
    exact ih fun entry member => before entry (List.mem_cons_of_mem _ member)

theorem mem_alter {name : String} {f : Overloads → Overloads} {names : Names}
    {entry : String × Overloads} (h : entry ∈ alter name f names) :
    entry.1 = name ∨ entry ∈ names := by
  induction names with
  | nil => simp_all
  | cons first rest ih =>
    obtain ⟨other, set⟩ := first
    rw [alter_cons] at h
    split at h
    · grind
    · split at h <;> grind

theorem increasing_alter {names : Names} (increasing : names.Increasing) (name : String)
    (f : Overloads → Overloads) : Increasing (alter name f names) := by
  induction names with
  | nil => exact List.pairwise_singleton ..
  | cons entry rest ih =>
    obtain ⟨other, set⟩ := entry
    obtain ⟨first, increasing⟩ := List.pairwise_cons.mp increasing
    rw [alter_cons]
    split
    · exact List.pairwise_cons.mpr ⟨first, increasing⟩
    · rename_i ne
      split
      · rename_i before
        refine List.pairwise_cons.mpr ⟨?_, List.pairwise_cons.mpr ⟨first, increasing⟩⟩
        intro entry member
        obtain rfl | member := List.mem_cons.mp member
        · exact before
        · exact String.lt_trans before (first entry member)
      · rename_i after
        refine List.pairwise_cons.mpr ⟨?_, ih increasing⟩
        intro entry member
        obtain same | member := mem_alter member
        · rw [same]
          exact Decidable.byContradiction fun h =>
            ne (String.le_antisymm (String.not_lt.mp h) (String.not_lt.mp after))
        · exact first entry member

/-- The set of the altered name is what the set it had changes to. -/
theorem find?_alter_self {names : Names} (increasing : names.Increasing) (name : String)
    (f : Overloads → Overloads) :
    (alter name f names).find? name = some (f ((names.find? name).getD [])) := by
  induction names with
  | nil => simp [find?]
  | cons entry rest ih =>
    obtain ⟨other, set⟩ := entry
    obtain ⟨first, increasing⟩ := List.pairwise_cons.mp increasing
    rw [alter_cons]
    split
    · rename_i same
      simp [same, find?_cons]
    · rename_i ne
      split
      · rename_i before
        have absent : find? rest name = none := find?_eq_none_of_lt fun entry member =>
          String.lt_trans before (first entry member)
        simp [find?_cons, ne, absent]
      · simp [find?_cons, ne, ih increasing]

/-- All other sets stay as they are. -/
theorem find?_alter_of_ne {name other : String} (h : other ≠ name) (f : Overloads → Overloads)
    (names : Names) : (alter name f names).find? other = names.find? other := by
  induction names with
  | nil => simp [find?_cons, h]
  | cons entry rest ih =>
    obtain ⟨first, set⟩ := entry
    rw [alter_cons]
    split
    · rename_i same
      subst same
      simp [find?_cons, h]
    · split
      · simp [find?_cons, h]
      · simp [find?_cons, ih]

end Names

structure Scope where
  parent : Option ScopeId
  names : Names
deriving Inhabited, DecidableEq, Repr

namespace Scope

/-- A scope without names. -/
def child (parent : ScopeId) : Scope := ⟨some parent, []⟩

def find? (s : Scope) (name : String) : Option Overloads := s.names.find? name

/-- Appends declarations to the overload set of a name. -/
def extend (s : Scope) (name : String) (decls : Overloads) : Scope :=
  { s with names := Names.alter name (· ++ decls) s.names }

theorem find?_extend_self {s : Scope} (increasing : s.names.Increasing) (name : String)
    (decls : Overloads) :
    (s.extend name decls).find? name = some ((s.find? name).getD [] ++ decls) :=
  Names.find?_alter_self increasing name _

theorem find?_extend_of_ne (s : Scope) {name other : String} (h : other ≠ name)
    (decls : Overloads) : (s.extend name decls).find? other = s.find? other :=
  Names.find?_alter_of_ne h _ s.names

@[simp] theorem parent_extend (s : Scope) (name : String) (decls : Overloads) :
    (s.extend name decls).parent = s.parent := rfl

/-- Appends every overload set of `names`. -/
def extendAll (s : Scope) (names : Names) : Scope :=
  names.foldl (fun s (name, decls) => s.extend name decls) s

end Scope

/-- What a saved scope belongs to: a declaration's parameters or members, a block, or the expression
that is a function's body. -/
inductive ScopeOwner where
  | decl (id : DeclId)
  | block (id : Nat)
  | body (id : DeclId)
deriving DecidableEq, Repr

/-- How an owner is written in messages. -/
def ScopeOwner.text : ScopeOwner → String
  | .decl id => "Decl(DeclId(" ++ id.index.repr ++ "))"
  | .block id => "Block(" ++ id.repr ++ ")"
  | .body id => "Body(DeclId(" ++ id.index.repr ++ "))"

end Deferral
