import Deferral.Proofs.Safety.Reading
import Deferral.Proofs.Scope.Global

/-!
# Internal faults do not occur

In whatever order sources are read and passes are run over what has been read, the table stays
furnished, and every unit that has come of it finds its blocks and its declarations. So no pass ever
reports that the table is not as it should be.
-/

namespace Deferral

open SymbolTable

/-- Nothing is declared in the empty table. -/
theorem SymbolTable.furnished_empty : SymbolTable.empty.Furnished := fun id => by
  have absent : (SymbolTable.empty.decl id).kind = .typeParameter :=
    kind_eq_typeParameter (Nat.zero_le id.index)
  rw [absent]
  trivial

namespace Reached

variable {t : SymbolTable} {us : List SourceUnit}

/-- Every step leaves the table furnished, with no constant being computed, and all units find what
they take for granted. -/
theorem furnished (h : Reached t us) : t.Furnished ∧ t.binding = [] ∧
    ∀ u ∈ us, t.Knows (Stmt.blocksIn u.body) (Stmt.declaresIn u.body) := by
  induction h with
  | empty => exact ⟨furnished_empty, rfl, fun _ none => by cases none⟩
  | @read t _ _ tokens _ _ run ih =>
    obtain ⟨furnished, idle, known⟩ := ih
    obtain ⟨upholds, read⟩ := SourceUnit.safe_read tokens t furnished run
    exact ⟨upholds.furnished, upholds.binding.trans idle,
      List.forall_mem_cons.mpr ⟨read, fun u member => upholds.retains.knows (known u member)⟩⟩
  | @failed t _ _ tokens _ _ run ih =>
    obtain ⟨furnished, idle, known⟩ := ih
    obtain ⟨upholds, -⟩ := SourceUnit.safe_read tokens t furnished run
    exact ⟨upholds.furnished, upholds.binding.trans idle,
      fun u member => upholds.retains.knows (known u member)⟩
  | @signatures _ _ _ u _ _ _ member run ih =>
    obtain ⟨furnished, idle, known⟩ := ih
    obtain ⟨upholds, walked, -⟩ := SourceUnit.safe_resolveSignatures furnished (known u member) run
    exact ⟨upholds.furnished, upholds.binding.trans idle,
      List.forall_mem_cons.mpr ⟨walked, fun u member => upholds.retains.knows (known u member)⟩⟩
  | @definitions _ _ _ u _ _ _ member run ih =>
    obtain ⟨furnished, idle, known⟩ := ih
    obtain ⟨upholds, walked, -⟩ := SourceUnit.safe_resolveDefinitions furnished (known u member) run
    exact ⟨upholds.furnished, upholds.binding.trans idle,
      List.forall_mem_cons.mpr ⟨walked, fun u member => upholds.retains.knows (known u member)⟩⟩

/-- Both passes over a unit that has been read report no internal fault. -/
theorem sane_resolve (h : Reached t us) {u : SourceUnit} (member : u ∈ us) :
    ∀ d ∈ (u.resolve.run t).1.2, d.cause.isInternal = false := by
  obtain ⟨furnished, -, known⟩ := h.furnished
  obtain ⟨⟨⟨u₁, first⟩, t₁⟩, run₁⟩ : ∃ out, u.resolveSignatures.run t = out := ⟨_, rfl⟩
  obtain ⟨⟨⟨u₂, second⟩, t₂⟩, run₂⟩ : ∃ out, u₁.resolveDefinitions.run t₁ = out := ⟨_, rfl⟩
  obtain ⟨upholds, walked, sane₁⟩ := SourceUnit.safe_resolveSignatures furnished (known u member) run₁
  obtain ⟨-, -, sane₂⟩ := SourceUnit.safe_resolveDefinitions upholds.furnished walked run₂
  rw [SourceUnit.run_resolve run₁ run₂]
  exact fun d reported => (List.mem_append.mp reported).elim (sane₁ d) (sane₂ d)

end Reached

/-- Neither pass over a unit, nor both of them, report an internal fault: for every block in it a scope
has been saved, every declaration that it states can be stated, and every declaration of the table finds
what it takes for granted. -/
theorem no_internal_fault_of_reached {t : SymbolTable} {us : List SourceUnit} (h : Reached t us)
    {u : SourceUnit} (member : u ∈ us) :
    (t.Furnished ∧ (∀ b ∈ Stmt.blocksIn u.body, t.Saves (.block b)) ∧
      ∀ id ∈ Stmt.declaresIn u.body, (t.decl id).IsStated) ∧
    (∀ d ∈ (u.resolveSignatures.run t).1.2, d.cause.isInternal = false) ∧
    (∀ d ∈ (u.resolveDefinitions.run t).1.2, d.cause.isInternal = false) ∧
    ∀ d ∈ (u.resolve.run t).1.2, d.cause.isInternal = false := by
  obtain ⟨furnished, -, known⟩ := h.furnished
  have known := known u member
  refine ⟨⟨furnished, known.blocks, known.stated⟩, ?_, ?_, h.sane_resolve member⟩
  · obtain ⟨-, -, sane⟩ := SourceUnit.safe_resolveSignatures furnished known rfl
    exact sane
  · obtain ⟨-, -, sane⟩ := SourceUnit.safe_resolveDefinitions furnished known rfl
    exact sane

/-- A class and an extension of it, with a member that refers to nothing. -/
def danglingMember : List Token :=
  (Token.scan "class C { def f() = x; } extension C { var y: Z; }".toList "dangling").toOption.getD []

/-- What is at fault in the members of a class is reported again when both passes are repeated, and
nothing else is. -/
theorem no_internal_fault_of_danglingMember : ∃ t us u, Reached t us ∧ u ∈ us ∧
    (u.resolve.run t).1.2.map (fun d => d.cause.name) = ["NameError", "NameError"] ∧
    ∀ d ∈ (u.resolve.run t).1.2, d.cause.isInternal = false := by
  have ran : SourceUnit.seen? danglingMember .empty (fun u t =>
      ((u.resolve.run t).1.1.resolve.run (u.resolve.run t).2).1.2.map fun d => d.cause.name) =
      some ["NameError", "NameError"] := by
    unfold danglingMember
    rewrite [String.toList_ofList]
    decide +kernel
  obtain ⟨u, t, read, seen⟩ := SourceUnit.exists_of_seen? ran
  obtain ⟨u₁, reached⟩ := (Reached.empty.read read).resolve (List.mem_cons_self ..)
    (show u.resolve.run t = (((u.resolve.run t).1.1, (u.resolve.run t).1.2), (u.resolve.run t).2) from rfl)
  have member : (u.resolve.run t).1.1 ∈ (u.resolve.run t).1.1 :: u₁ :: [u] := List.mem_cons_self ..
  exact ⟨_, _, _, reached, member, seen, (no_internal_fault_of_reached reached member).2.2.2⟩

end Deferral
