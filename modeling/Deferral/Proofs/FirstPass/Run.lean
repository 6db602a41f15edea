import Deferral.Proofs.Pass.Merged
import Deferral.Proofs.Pass.Relation

/-!
# Runs of the first pass

A statement keeps its expressions, and where nothing is reported it loses the declarations of
extensions and nothing else. Functions and classes are walked in tables from which what is inside
them has been taken out.
-/

namespace Deferral

open Reporting SymbolTable

/-- Scopes have been saved for blocks. -/
def SymbolTable.HasBlocks (t : SymbolTable) (blocks : List Nat) : Prop :=
  ∀ b ∈ blocks, ∃ scope, t.scopeOf? (.block b) = some scope

namespace Signature

variable {declare : DeclId → Reporting Unit} {R : PassRelation}

/-! ## Statements -/

/-- What the first pass makes of a statement. -/
structure Walked (s : Stmt) (ρ : List Diagnostic) (t : SymbolTable) (s' : Stmt)
    (ρ' : List Diagnostic) : Prop where
  expressions : s'.expressions = s.expressions
  quiet : ρ' = ρ → s' = s.merged t ∧ t.HasBlocks s.blocks

/-- What the first pass makes of the statements of a sequence. -/
structure WalkedAll (body : List Stmt) (ρ : List Diagnostic) (t : SymbolTable) (body' : List Stmt)
    (ρ' : List Diagnostic) : Prop where
  expressions : Stmt.expressionsIn body' = Stmt.expressionsIn body
  quiet : ρ' = ρ →
    withoutExtensions t body' = Stmt.mergedIn t body ∧ t.HasBlocks (Stmt.blocksIn body)

mutual

theorem ends_statement (walks : R.Walks) : ∀ (s : Stmt) {ρ ρ' : List Diagnostic}
    {t t' : SymbolTable} {s' : Stmt}, R.Holds declare s.declares → t.Sound →
    Ends (statement declare s) ρ t s' ρ' t' → R s.declares ρ t ρ' t' ∧ Walked s ρ t s' ρ'
  | .block id body span, _, _, _, _, _, holds, sound, h => by
    obtain ⟨outcome, ρ₁, t₁, looked, rest⟩ := ends_bind.mp h
    obtain ⟨run, rfl⟩ := ends_attempt.mp looked
    obtain ⟨rfl, known⟩ := Resolution.runs_scopeOf run
    cases outcome with
    | error d =>
      obtain ⟨_, _, _, reported, last⟩ := ends_bind.mp rest
      obtain ⟨rfl, rfl⟩ := ends_report.mp reported
      obtain ⟨rfl, rfl, rfl⟩ := ends_pure.mp last
      exact ⟨walks.report d (List.nil_sublist _) (walks.refl sound), rfl,
        fun quiet => absurd quiet (reported_ne (List.prefix_refl _) d)⟩
    | ok scope =>
      obtain ⟨walked, _, _, under, last⟩ := ends_bind.mp rest
      obtain ⟨rfl, rfl, rfl⟩ := ends_pure.mp last
      obtain ⟨t₂, walk, rfl⟩ := ends_under.mp under
      obtain ⟨walked', _, _, walk, filtered⟩ := ends_bind.mp walk
      obtain ⟨rfl, rfl, rfl⟩ := ends_look.mp filtered
      obtain ⟨relation, all⟩ := ends_statements walks body holds (sound.enter scope) walk
      have same := (walks.passes relation).advances.isExtension
      refine ⟨walks.leave relation, ?_, fun quiet => ?_⟩
      · simp only [Stmt.expressions, expressionsIn_withoutExtensions, all.expressions]
      · obtain ⟨merged, blocks⟩ := all.quiet quiet
        refine ⟨?_, fun b member => ?_⟩
        · have entered : Stmt.mergedIn (t₁.enter scope) body = Stmt.mergedIn t₁ body := by
            apply Stmt.mergedIn_congr
            intro other
            rfl
          rw [withoutExtensions_congr same, merged, entered, Stmt.merged]
        · rcases List.mem_cons.mp member with rfl | member
          · exact ⟨scope, known scope rfl⟩
          · exact blocks b member
  | .declaration id span, _, _, _, _, _, holds, sound, h => by
    obtain ⟨_, _, _, declared, rest⟩ := ends_bind.mp h
    obtain ⟨rfl, rfl, rfl⟩ := ends_pure.mp rest
    exact ⟨holds id (by simp [Stmt.declares]) sound declared, rfl,
      fun _ => ⟨rfl, fun _ none => (by cases none)⟩⟩
  | .conditional condition onTrue onFalse span, _, _, _, _, _, holds, sound, h => by
    obtain ⟨onTrue', _, _, first, rest⟩ := ends_bind.mp h
    obtain ⟨relation, walked⟩ := ends_statement walks onTrue
      (holds.mono fun _ m => by simp [Stmt.declares, m]) sound first
    obtain ⟨onFalse', _, _, second, last⟩ := ends_bind.mp rest
    obtain ⟨relation', expressions, quiet'⟩ := ends_alternative walks onFalse
      (holds.mono fun _ m => by simp [Stmt.declares, m]) (walks.sound relation sound) second
    obtain ⟨rfl, rfl, rfl⟩ := ends_pure.mp last
    refine ⟨walks.trans relation relation', ?_, fun quiet => ?_⟩
    · simp only [Stmt.expressions, walked.expressions, expressions]
    · have advances := (walks.passes relation).advances
      obtain ⟨quiet₁, quiet₂⟩ := (walks.passes relation).quiet (walks.passes relation') quiet
      obtain ⟨rfl, blocks⟩ := walked.quiet quiet₁
      obtain ⟨rfl, blocks'⟩ := quiet' quiet₂
      refine ⟨?_, fun b member => ?_⟩
      · simp only [Stmt.merged, Stmt.mergedBehindElse_congr advances.isExtension]
      · rcases List.mem_append.mp member with member | member
        · exact blocks b member
        · exact advances.scopeOf? (.block b) ▸ blocks' b member
  | .whileLoop condition body span, _, _, _, _, _, holds, sound, h => by
    obtain ⟨body', _, _, first, rest⟩ := ends_bind.mp h
    obtain ⟨relation, walked⟩ := ends_statement walks body holds sound first
    obtain ⟨rfl, rfl, rfl⟩ := ends_pure.mp rest
    refine ⟨relation, ?_, fun quiet => ?_⟩
    · simp only [Stmt.expressions, walked.expressions]
    · obtain ⟨rfl, blocks⟩ := walked.quiet quiet
      exact ⟨rfl, blocks⟩
  | .returning _ _, _, _, _, _, _, _, sound, h | .yielding _ _, _, _, _, _, _, _, sound, h
  | .breaking _, _, _, _, _, _, _, sound, h | .continuing _, _, _, _, _, _, _, sound, h
  | .expression _, _, _, _, _, _, _, sound, h => by
    obtain ⟨rfl, rfl, rfl⟩ := ends_pure.mp h
    exact ⟨walks.refl sound, rfl, fun _ => ⟨rfl, fun _ none => (by cases none)⟩⟩

theorem ends_statements (walks : R.Walks) : ∀ (body : List Stmt) {ρ ρ' : List Diagnostic}
    {t t' : SymbolTable} {body' : List Stmt}, R.Holds declare (Stmt.declaresIn body) → t.Sound →
    Ends (statements declare body) ρ t body' ρ' t' →
    R (Stmt.declaresIn body) ρ t ρ' t' ∧ WalkedAll body ρ t body' ρ'
  | [], _, _, _, _, _, _, sound, h => by
    obtain ⟨rfl, rfl, rfl⟩ := ends_pure.mp h
    exact ⟨walks.refl sound, rfl, fun _ => ⟨rfl, fun _ none => (by cases none)⟩⟩
  | s :: body, _, _, _, _, _, holds, sound, h => by
    obtain ⟨s', _, _, first, rest⟩ := ends_bind.mp h
    obtain ⟨relation, walked⟩ := ends_statement walks s
      (holds.mono fun _ m => by simp [Stmt.declaresIn, m]) sound first
    obtain ⟨rest', _, _, others, last⟩ := ends_bind.mp rest
    obtain ⟨relation', all⟩ := ends_statements walks body
      (holds.mono fun _ m => by simp [Stmt.declaresIn, m]) (walks.sound relation sound) others
    obtain ⟨rfl, rfl, rfl⟩ := ends_pure.mp last
    refine ⟨walks.trans relation relation', ?_, fun quiet => ?_⟩
    · simp only [Stmt.expressionsIn, walked.expressions, all.expressions]
    · have advances := (walks.passes relation).advances
      obtain ⟨quiet₁, quiet₂⟩ := (walks.passes relation).quiet (walks.passes relation') quiet
      obtain ⟨rfl, blocks⟩ := walked.quiet quiet₁
      obtain ⟨merged, blocks'⟩ := all.quiet quiet₂
      rw [withoutExtensions_congr advances.isExtension,
        Stmt.mergedIn_congr advances.isExtension] at merged
      refine ⟨?_, fun b member => ?_⟩
      · simp only [withoutExtensions_cons, Stmt.mergedIn, Stmt.declaration?_merged, merged]
      · rcases List.mem_append.mp member with member | member
        · exact blocks b member
        · exact advances.scopeOf? (.block b) ▸ blocks' b member

theorem ends_alternative (walks : R.Walks) : ∀ (onFalse : Option Stmt) {ρ ρ' : List Diagnostic}
    {t t' : SymbolTable} {onFalse' : Option Stmt},
    R.Holds declare (Stmt.declaresBehindElse onFalse) → t.Sound →
    Ends (alternative declare onFalse) ρ t onFalse' ρ' t' →
    R (Stmt.declaresBehindElse onFalse) ρ t ρ' t' ∧
      Stmt.expressionsBehindElse onFalse' = Stmt.expressionsBehindElse onFalse ∧
      (ρ' = ρ → onFalse' = Stmt.mergedBehindElse t onFalse ∧
        t.HasBlocks (Stmt.blocksBehindElse onFalse))
  | none, _, _, _, _, _, _, sound, h => by
    obtain ⟨rfl, rfl, rfl⟩ := ends_pure.mp h
    exact ⟨walks.refl sound, rfl, fun _ => ⟨rfl, fun _ none => (by cases none)⟩⟩
  | some s, _, _, _, _, _, holds, sound, h => by
    obtain ⟨s', first, rfl⟩ := ends_map.mp h
    obtain ⟨relation, walked⟩ := ends_statement walks s holds sound first
    refine ⟨relation, walked.expressions, fun quiet => ?_⟩
    obtain ⟨rfl, blocks⟩ := walked.quiet quiet
    exact ⟨rfl, blocks⟩

end

/-- A sequence loses the declarations of extensions. -/
theorem ends_sequence (walks : R.Walks) {body body' : List Stmt} {ρ ρ' : List Diagnostic}
    {t t' : SymbolTable} (holds : R.Holds declare (Stmt.declaresIn body)) (sound : t.Sound)
    (h : Ends (sequence declare body) ρ t body' ρ' t') :
    R (Stmt.declaresIn body) ρ t ρ' t' ∧
      Stmt.expressionsIn body' = Stmt.expressionsIn body ∧
      (ρ' = ρ → body' = Stmt.mergedIn t body ∧ t.HasBlocks (Stmt.blocksIn body)) := by
  obtain ⟨walked, _, _, walk, filtered⟩ := ends_bind.mp h
  obtain ⟨rfl, rfl, rfl⟩ := ends_look.mp filtered
  obtain ⟨relation, all⟩ := ends_statements walks body holds sound walk
  have same := (walks.passes relation).advances.isExtension
  refine ⟨relation, by rw [expressionsIn_withoutExtensions, all.expressions], fun quiet => ?_⟩
  obtain ⟨merged, blocks⟩ := all.quiet quiet
  exact ⟨by rw [withoutExtensions_congr same, merged], blocks⟩

end Signature

end Deferral
