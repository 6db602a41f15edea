import Deferral.Proofs.Reading.Layered
import Deferral.Proofs.SecondPass.Resolved
import Deferral.Token.Scan

/-!
# Every scope lies in the global one

Sources may be read one after the other into the same table, well or not, and passes run over what has
been read in any order and as often as may be. The scopes of the table stay layered all the while.
Following the scopes around a scope therefore comes to the global scope without passing any scope twice,
and looking up a name ends.
-/

namespace Deferral

namespace SymbolTable

variable {t t' : SymbolTable} {L : Layering} {s p : ScopeId} {name : String}

/-! ## Around a scope -/

/-- The rank falls from scope to scope on the way outward. -/
theorem Layers.exists_path (h : t.Layers L) (s : ScopeId) (lt : s.index < t.scopes.size) :
    ∃ outer : List ScopeId, (s :: outer).getLast? = some .global ∧
      (s :: outer).IsChain (fun a b => t.IsInside a b ∧ L.rank b < L.rank a) ∧
      ∀ a ∈ s :: outer, a.index < t.scopes.size := by
  induction rank : L.rank s using Nat.strongRecOn generalizing s with
  | ind n ih =>
    by_cases outermost : s = .global
    · subst outermost
      refine ⟨[], rfl, .singleton _, fun a member => ?_⟩
      rw [List.mem_singleton.mp member]
      exact lt
    · obtain ⟨p, inside, inRange, less⟩ := h.inside s lt outermost
      obtain ⟨outer, last, chain, all⟩ := ih (L.rank p) (rank ▸ less) p inRange rfl
      exact ⟨p :: outer, last, .cons_cons ⟨inside, less⟩ chain, List.forall_mem_cons.mpr ⟨lt, all⟩⟩

/-- No scope is passed twice where the rank falls. -/
theorem nodup_of_isChain {path : List ScopeId}
    (h : path.IsChain fun a b => t.IsInside a b ∧ L.rank b < L.rank a) : path.Nodup := by
  have falls : path.IsChain fun a b => L.rank b < L.rank a := h.imp fun _ _ step => step.2
  have : IsTrans ScopeId fun a b => L.rank b < L.rank a := ⟨fun _ _ _ h h' => Nat.lt_trans h' h⟩
  exact (List.isChain_iff_pairwise.mp falls).imp fun less same => by
    rw [same] at less
    exact Nat.lt_irrefl _ less

/-- There are no more scopes on the way outward than there are scopes. -/
theorem length_le_of_nodup {path : List ScopeId} (nodup : path.Nodup)
    (all : ∀ a ∈ path, a.index < t.scopes.size) : path.length ≤ t.scopes.size := by
  have indices : (path.map ScopeId.index).Nodup :=
    nodup.map fun a b same => by
      obtain ⟨i⟩ := a
      obtain ⟨j⟩ := b
      exact congrArg ScopeId.mk same
  have within : path.map ScopeId.index ⊆ List.range t.scopes.size := by
    intro i member
    obtain ⟨a, passed, rfl⟩ := List.mem_map.mp member
    exact List.mem_range.mpr (all a passed)
  simpa using (List.subperm_of_subset indices within).length_le

/-! ## Looking up a name -/

/-- A name is looked up in a scope, and where the scope has not got it in the one around it, until it
is found or there is no scope around. -/
inductive Finds (t : SymbolTable) (name : String) : ScopeId → Option Overloads → Prop
  | here {s : ScopeId} {set : Overloads} : (t.scope s).find? name = some set →
      Finds t name s (some set)
  | outward {s p : ScopeId} {set? : Option Overloads} : (t.scope s).find? name = none →
      t.IsInside s p → Finds t name p set? → Finds t name s set?
  | nowhere {s : ScopeId} : (t.scope s).find? name = none → (t.scope s).parent = none →
      Finds t name s none

/-- Looking up a name takes no more steps than there are scopes on the way outward. -/
theorem finds_findWithin (outermost : (t.scope .global).parent = none) :
    ∀ (outer : List ScopeId) {s : ScopeId} {steps : Nat}, (s :: outer).IsChain t.IsInside →
    (s :: outer).getLast? = some .global → outer.length < steps →
    t.Finds name s (t.findWithin name steps s)
  | _, _, 0, _, _, enough => absurd enough (Nat.not_lt_zero _)
  | [], s, steps + 1, _, last, _ => by
    obtain rfl : s = .global := Option.some.inj last
    unfold findWithin
    split
    · rename_i found
      exact .here found
    · rename_i absent
      rw [outermost]
      exact .nowhere absent outermost
  | p :: outer, s, steps + 1, chain, last, enough => by
    obtain ⟨inside, chain⟩ := List.isChain_cons_cons.mp chain
    unfold findWithin
    split
    · rename_i found
      exact .here found
    · rename_i absent
      rw [show (t.scope s).parent = some p from inside]
      exact .outward absent inside
        (finds_findWithin outermost outer chain last (Nat.lt_of_succ_lt_succ enough))

theorem Layers.finds (h : t.Layers L) (lt : s.index < t.scopes.size) (name : String) :
    t.Finds name s (t.findFrom s name) := by
  obtain ⟨outer, last, chain, all⟩ := h.exists_path s lt
  exact finds_findWithin h.outermost outer (chain.imp fun _ _ step => step.1) last
    (length_le_of_nodup (nodup_of_isChain chain) all)

/-- Nothing is declared in the empty table, and its one scope is the global one. -/
theorem layered_empty : SymbolTable.empty.Layered := by
  refine ⟨⟨fun _ => 0, fun _ => false⟩,
    { global := built_empty.global
      outermost := rfl
      surface := rfl
      inside := fun s lt ne => ?_
      bound := fun b => absurd (built_empty.bound b).1 (Nat.not_lt_zero _)
      opened := fun owns => by cases owns
      saved := fun owns => by cases owns
      declared := fun id => ?_
      active := built_empty.active }⟩
  · exact absurd (congrArg ScopeId.mk (Nat.lt_one_iff.mp lt)) ne
  · rw [decl_eq_default (Nat.zero_le _)]
    exact Nat.zero_lt_one

end SymbolTable

/-! ## Reading and passing any number of times -/

/-- A table that comes of reading sources, well or not, and of running passes over units that have been
read, beginning with the empty table; and the units that have come of it. -/
inductive Reached : SymbolTable → List SourceUnit → Prop
  | empty : Reached .empty []
  | read {t t' : SymbolTable} {us : List SourceUnit} {tokens : List Token} {u : SourceUnit} :
      Reached t us → Resolution.Runs (SourceUnit.read tokens) t (.ok u) t' → Reached t' (u :: us)
  | failed {t t' : SymbolTable} {us : List SourceUnit} {tokens : List Token} {d : Diagnostic} :
      Reached t us → Resolution.Runs (SourceUnit.read tokens) t (.error d) t' → Reached t' us
  | signatures {t t' : SymbolTable} {us : List SourceUnit} {u u' : SourceUnit}
      {reported : List Diagnostic} : Reached t us → u ∈ us →
      u.resolveSignatures.run t = ((u', reported), t') → Reached t' (u' :: us)
  | definitions {t t' : SymbolTable} {us : List SourceUnit} {u u' : SourceUnit}
      {reported : List Diagnostic} : Reached t us → u ∈ us →
      u.resolveDefinitions.run t = ((u', reported), t') → Reached t' (u' :: us)

/-- What is seen of the table once a unit has been read and both passes have been run over it. -/
def SourceUnit.resolved? {β : Type} (tokens : List Token) (see : SymbolTable → β) : Option β :=
  seen? tokens .empty fun u t => see (u.resolve.run t).2

namespace Reached

variable {t t' : SymbolTable} {us : List SourceUnit}

/-- Both passes, one after the other. -/
theorem resolve {u u' : SourceUnit} {reported : List Diagnostic} (h : Reached t us) (member : u ∈ us)
    (run : u.resolve.run t = ((u', reported), t')) : ∃ u₁, Reached t' (u' :: u₁ :: us) := by
  obtain ⟨⟨⟨u₁, reported₁⟩, t₁⟩, first⟩ : ∃ out, u.resolveSignatures.run t = out := ⟨_, rfl⟩
  obtain ⟨⟨⟨u₂, reported₂⟩, t₂⟩, second⟩ : ∃ out, u₁.resolveDefinitions.run t₁ = out := ⟨_, rfl⟩
  obtain ⟨same, rfl⟩ := Prod.mk.inj ((SourceUnit.run_resolve first second).symm.trans run)
  obtain ⟨rfl, -⟩ := Prod.mk.inj same
  exact ⟨u₁, (h.signatures member first).definitions (List.mem_cons_self ..) second⟩

theorem exists_of_resolved? {β : Type} {tokens : List Token} {see : SymbolTable → β} {b : β}
    (seen : SourceUnit.resolved? tokens see = some b) : ∃ t us, Reached t us ∧ see t = b := by
  obtain ⟨u, t, read, same⟩ := SourceUnit.exists_of_seen? seen
  obtain ⟨u₁, reached⟩ := (Reached.empty.read read).resolve (List.mem_cons_self ..)
    (show u.resolve.run t = (((u.resolve.run t).1.1, (u.resolve.run t).1.2), (u.resolve.run t).2) from rfl)
  exact ⟨_, _, reached, same⟩

/-- Every step keeps the table layered, and all units stand in the global scope. -/
theorem layered (h : Reached t us) : t.Layered ∧ ∀ u ∈ us, u.scope = .global := by
  induction h with
  | empty => exact ⟨SymbolTable.layered_empty, fun _ none => by cases none⟩
  | read _ run ih =>
    exact ⟨(SourceUnit.stays_read ih.1 run).layered,
      List.forall_mem_cons.mpr ⟨SourceUnit.scope_of_read run, ih.2⟩⟩
  | failed _ run ih => exact ⟨(SourceUnit.stays_read ih.1 run).layered, ih.2⟩
  | @signatures t _ _ u _ _ _ member run ih =>
    have lt : u.scope.index < t.scopes.size := by
      rw [ih.2 u member]
      exact ih.1.elim fun _ layers => layers.global
    obtain ⟨stays, same⟩ := SourceUnit.stays_resolveSignatures ih.1 lt run
    exact ⟨stays.layered, List.forall_mem_cons.mpr ⟨same.trans (ih.2 u member), ih.2⟩⟩
  | @definitions _ _ _ u _ _ _ member run ih =>
    obtain ⟨rests, same⟩ := SourceUnit.rests_resolveDefinitions run
    exact ⟨(SymbolTable.StaysLayered.of_rests ih.1 rests.toLeavesScopes).layered,
      List.forall_mem_cons.mpr ⟨same.trans (ih.2 u member), ih.2⟩⟩

end Reached

/-- From every scope the scopes around it lead to the global one, each of them passed once, and looking
up a name from it ends, with what bounded search finds. -/
theorem leads_outward_of_reached {t : SymbolTable} {us : List SourceUnit} (h : Reached t us)
    {s : ScopeId} (lt : s.index < t.scopes.size) :
    (∃ path : List ScopeId, path.head? = some s ∧ path.getLast? = some .global ∧
      path.IsChain t.IsInside ∧ path.Nodup) ∧
    ∀ name, t.Finds name s (t.findFrom s name) := by
  obtain ⟨⟨L, layers⟩, -⟩ := h.layered
  obtain ⟨outer, last, chain, -⟩ := layers.exists_path s lt
  exact ⟨⟨s :: outer, rfl, last, chain.imp fun _ _ step => step.1, SymbolTable.nodup_of_isChain chain⟩,
    fun name => layers.finds lt name⟩

/-- A function that breaks off behind its name. -/
def brokenOff : List Token := (Token.scan "def f(".toList "broken").toOption.getD []

/-- An extension in front of its class. -/
def lateClass : List Token :=
  (Token.scan "extension C { } class C { }".toList "late").toOption.getD []

/-- The scope of the extension comes to lie inside that of the class, which is the later one. -/
theorem leads_outward_of_lateClass : ∃ t us, Reached t us ∧ t.scopes.size = 4 ∧
    t.IsInside ⟨2⟩ ⟨3⟩ ∧
    (∃ path : List ScopeId, path.head? = some ⟨2⟩ ∧ path.getLast? = some .global ∧
      path.IsChain t.IsInside ∧ path.Nodup) ∧
    ∀ name, t.Finds name ⟨2⟩ (t.findFrom ⟨2⟩ name) := by
  have ran : ((SourceUnit.read brokenOff).run.run .empty).1.isOk = false ∧
      SourceUnit.seen? lateClass ((SourceUnit.read brokenOff).run.run .empty).2 (fun u t₂ =>
        ((u.resolve.run t₂).2.scopes.size, ((u.resolve.run t₂).2.scope ⟨2⟩).parent)) = some (4, some ⟨3⟩) := by
    unfold brokenOff lateClass
    rewrite [String.toList_ofList, String.toList_ofList]
    decide +kernel
  obtain ⟨⟨outcome, t₁⟩, broken⟩ : ∃ out, (SourceUnit.read brokenOff).run.run .empty = out := ⟨_, rfl⟩
  rw [broken] at ran
  obtain ⟨failed, ran⟩ := ran
  cases outcome with
  | ok u => cases failed
  | error d =>
    obtain ⟨u, t₂, read, seen⟩ := SourceUnit.exists_of_seen? ran
    obtain ⟨⟨⟨u', reported⟩, t₃⟩, resolved⟩ : ∃ out, u.resolve.run t₂ = out := ⟨_, rfl⟩
    rw [resolved] at seen
    obtain ⟨size, inside⟩ := Prod.mk.inj seen
    obtain ⟨u₁, reached⟩ := ((Reached.empty.failed broken).read read).resolve
      (List.mem_cons_self ..) resolved
    exact ⟨t₃, _, reached, size, inside, leads_outward_of_reached reached (by rw [size]; decide)⟩

end Deferral
