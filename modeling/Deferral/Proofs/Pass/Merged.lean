import Deferral.Proofs.Table.Contents
import Deferral.Unit.Signature

/-!
# Statements without extensions

What is left of a statement when the declarations of extensions are taken out of its sequences: its
expressions, its blocks and all other declarations.
-/

namespace Deferral

mutual

/-- A statement without the declarations of extensions in its sequences. -/
def Stmt.merged (t : SymbolTable) : Stmt → Stmt
  | .block id body span => .block id (mergedIn t body) span
  | .conditional e onTrue onFalse span =>
    .conditional e (onTrue.merged t) (mergedBehindElse t onFalse) span
  | .whileLoop e body span => .whileLoop e (body.merged t) span
  | .returning value span => .returning value span
  | .yielding value span => .yielding value span
  | .breaking span => .breaking span
  | .continuing span => .continuing span
  | .declaration id span => .declaration id span
  | .expression e => .expression e

def Stmt.mergedIn (t : SymbolTable) : List Stmt → List Stmt
  | [] => []
  | s :: rest =>
    if s.declaration?.any fun id => (t.decl id).isExtension then mergedIn t rest
    else s.merged t :: mergedIn t rest

def Stmt.mergedBehindElse (t : SymbolTable) : Option Stmt → Option Stmt
  | none => none
  | some s => some (s.merged t)

end

namespace Stmt

@[simp] theorem declaration?_merged (t : SymbolTable) (s : Stmt) :
    (s.merged t).declaration? = s.declaration? := by
  cases s <;> rfl

variable {t t' : SymbolTable}

mutual

theorem merged_congr (same : ∀ id, (t'.decl id).isExtension = (t.decl id).isExtension) :
    ∀ s : Stmt, s.merged t' = s.merged t
  | .block _ body _ => by simp only [merged, mergedIn_congr same body]
  | .conditional _ onTrue onFalse _ => by
    simp only [merged, merged_congr same onTrue, mergedBehindElse_congr same onFalse]
  | .whileLoop _ body _ => by simp only [merged, merged_congr same body]
  | .returning _ _ | .yielding _ _ | .expression _ | .breaking _ | .continuing _ => rfl
  | .declaration _ _ => rfl

theorem mergedIn_congr (same : ∀ id, (t'.decl id).isExtension = (t.decl id).isExtension) :
    ∀ body : List Stmt, mergedIn t' body = mergedIn t body
  | [] => rfl
  | s :: rest => by
    simp only [mergedIn, same, merged_congr same s, mergedIn_congr same rest]

theorem mergedBehindElse_congr
    (same : ∀ id, (t'.decl id).isExtension = (t.decl id).isExtension) :
    ∀ onFalse : Option Stmt, mergedBehindElse t' onFalse = mergedBehindElse t onFalse
  | none => rfl
  | some s => by simp only [mergedBehindElse, merged_congr same s]

end

variable (t)

theorem eq_declaration {s : Stmt} {p : DeclId → Bool} (h : s.declaration?.any p = true) :
    ∃ id span, s = .declaration id span := by
  cases s with
  | declaration id span => exact ⟨id, span, rfl⟩
  | _ => cases h

mutual

theorem expressions_merged : ∀ s : Stmt, (s.merged t).expressions = s.expressions
  | .block _ body _ => by simp only [merged, expressions, expressionsIn_merged body]
  | .conditional _ onTrue onFalse _ => by
    simp only [merged, expressions, expressions_merged onTrue,
      expressionsBehindElse_merged onFalse]
  | .whileLoop _ body _ => by simp only [merged, expressions, expressions_merged body]
  | .returning _ _ | .yielding _ _ | .expression _ | .breaking _ | .continuing _ => rfl
  | .declaration _ _ => rfl

theorem expressionsIn_merged : ∀ body : List Stmt,
    expressionsIn (mergedIn t body) = expressionsIn body
  | [] => rfl
  | s :: rest => by
    unfold mergedIn
    split
    · rename_i extension
      obtain ⟨id, span, rfl⟩ := eq_declaration extension
      simp only [expressionsIn, expressions, expressionsIn_merged rest, List.nil_append]
    · simp only [expressionsIn, expressions_merged s, expressionsIn_merged rest]

theorem expressionsBehindElse_merged : ∀ onFalse : Option Stmt,
    expressionsBehindElse (mergedBehindElse t onFalse) = expressionsBehindElse onFalse
  | none => rfl
  | some s => by simp only [mergedBehindElse, expressionsBehindElse, expressions_merged s]

end

mutual

theorem blocks_merged : ∀ s : Stmt, (s.merged t).blocks = s.blocks
  | .block _ body _ => by simp only [merged, blocks, blocksIn_merged body]
  | .conditional _ onTrue onFalse _ => by
    simp only [merged, blocks, blocks_merged onTrue, blocksBehindElse_merged onFalse]
  | .whileLoop _ body _ => by simp only [merged, blocks, blocks_merged body]
  | .returning _ _ | .yielding _ _ | .expression _ | .breaking _ | .continuing _ => rfl
  | .declaration _ _ => rfl

theorem blocksIn_merged : ∀ body : List Stmt, blocksIn (mergedIn t body) = blocksIn body
  | [] => rfl
  | s :: rest => by
    unfold mergedIn
    split
    · rename_i extension
      obtain ⟨id, span, rfl⟩ := eq_declaration extension
      simp only [blocksIn, blocks, blocksIn_merged rest, List.nil_append]
    · simp only [blocksIn, blocks_merged s, blocksIn_merged rest]

theorem blocksBehindElse_merged : ∀ onFalse : Option Stmt,
    blocksBehindElse (mergedBehindElse t onFalse) = blocksBehindElse onFalse
  | none => rfl
  | some s => by simp only [mergedBehindElse, blocksBehindElse, blocks_merged s]

end

mutual

theorem mem_declares_of_merged {id : DeclId} : ∀ s : Stmt,
    id ∈ (s.merged t).declares → id ∈ s.declares
  | .block _ body _, h => mem_declaresIn_of_merged body h
  | .conditional _ onTrue onFalse _, h => by
    rcases List.mem_append.mp h with h | h
    · exact List.mem_append_left _ (mem_declares_of_merged onTrue h)
    · exact List.mem_append_right _ (mem_declaresBehindElse_of_merged onFalse h)
  | .whileLoop _ body _, h => mem_declares_of_merged body h
  | .declaration _ _, h => h
  | .returning _ _, h | .yielding _ _, h | .expression _, h | .breaking _, h
  | .continuing _, h => h

theorem mem_declaresIn_of_merged {id : DeclId} : ∀ body : List Stmt,
    id ∈ declaresIn (mergedIn t body) → id ∈ declaresIn body
  | [], h => h
  | s :: rest, h => by
    unfold mergedIn at h
    split at h
    · exact List.mem_append_right _ (mem_declaresIn_of_merged rest h)
    · rcases List.mem_append.mp h with h | h
      · exact List.mem_append_left _ (mem_declares_of_merged s h)
      · exact List.mem_append_right _ (mem_declaresIn_of_merged rest h)

theorem mem_declaresBehindElse_of_merged {id : DeclId} : ∀ onFalse : Option Stmt,
    id ∈ declaresBehindElse (mergedBehindElse t onFalse) → id ∈ declaresBehindElse onFalse
  | none, h => h
  | some s, h => mem_declares_of_merged s h

end

mutual

theorem merged_merged : ∀ s : Stmt, (s.merged t).merged t = s.merged t
  | .block _ body _ => by simp only [merged, mergedIn_merged body]
  | .conditional _ onTrue onFalse _ => by
    simp only [merged, merged_merged onTrue, mergedBehindElse_merged onFalse]
  | .whileLoop _ body _ => by simp only [merged, merged_merged body]
  | .returning _ _ | .yielding _ _ | .expression _ | .breaking _ | .continuing _ => rfl
  | .declaration _ _ => rfl

theorem mergedIn_merged : ∀ body : List Stmt, mergedIn t (mergedIn t body) = mergedIn t body
  | [] => rfl
  | s :: rest => by
    rw [mergedIn]
    split
    · exact mergedIn_merged rest
    · rename_i other
      rw [mergedIn, declaration?_merged, if_neg other, merged_merged s, mergedIn_merged rest]

theorem mergedBehindElse_merged : ∀ onFalse : Option Stmt,
    mergedBehindElse t (mergedBehindElse t onFalse) = mergedBehindElse t onFalse
  | none => rfl
  | some s => by simp only [mergedBehindElse, merged_merged s]

end

end Stmt

namespace Signature

theorem withoutExtensions_cons (t : SymbolTable) (s : Stmt) (rest : List Stmt) :
    withoutExtensions t (s :: rest) =
      if s.declaration?.any fun id => (t.decl id).isExtension then withoutExtensions t rest
      else s :: withoutExtensions t rest := by
  unfold withoutExtensions
  rw [List.filter_cons]
  cases (s.declaration?.any fun id => (t.decl id).isExtension) <;> rfl

theorem withoutExtensions_congr {t t' : SymbolTable}
    (same : ∀ id, (t'.decl id).isExtension = (t.decl id).isExtension) (body : List Stmt) :
    withoutExtensions t' body = withoutExtensions t body := by
  unfold withoutExtensions
  simp only [same]

theorem expressionsIn_withoutExtensions (t : SymbolTable) (body : List Stmt) :
    Stmt.expressionsIn (withoutExtensions t body) = Stmt.expressionsIn body := by
  induction body with
  | nil => rfl
  | cons s rest ih =>
    rw [withoutExtensions_cons]
    split
    · rename_i extension
      obtain ⟨id, span, rfl⟩ := Stmt.eq_declaration extension
      simp only [Stmt.expressionsIn, Stmt.expressions, ih, List.nil_append]
    · simp only [Stmt.expressionsIn, ih]

end Signature

end Deferral
