import Mathlib.Algebra.Group.End
import Mathlib.Data.Fintype.Sum
import Deferral.Proofs.Renaming.SecondPass
import Deferral.Token.Scan

/-!
# Hygiene

What a source means hangs on which of its identifiers are the same, not on what they are called. Only
the builtin types have names of their own, and the type parameters that a function gets for its
parameters declared `auto`: these are declared in the scope of the function as `T0`, `T1` and so on, so
that its body sees them before anything of that name around it.
-/

namespace Deferral

open Resolution SymbolTable

/-! ## Names with a meaning of their own -/

/-- The names of the builtin types, and those made up for parameters declared `auto`. -/
def Ty.IsReserved (name : String) : Prop :=
  (Ty.builtin? name).isSome = true ∨ ∃ k : Nat, name = "T" ++ k.repr

theorem Ty.not_isReserved {name : String} (other : (Ty.builtin? name).isSome = false)
    (initial : name.toList.head? ≠ some 'T') : ¬ Ty.IsReserved name := by
  rintro (builtin | ⟨k, rfl⟩)
  · rw [other] at builtin
    cases builtin
  · exact initial (by simp)

namespace Token

/-- A token with another text, if it is an identifier. -/
def renamedBy (ρ : String → String) (t : Token) : Token :=
  if t.kind = .identifier then { t with text := ρ t.text } else t

/-- The identifiers among some tokens. -/
def identifiers (tokens : List Token) : List String :=
  (tokens.filter (·.kind = .identifier)).map (·.text)

theorem mem_identifiers {tokens : List Token} {t : Token} (member : t ∈ tokens)
    (identifier : t.kind = .identifier) : t.text ∈ identifiers tokens :=
  List.mem_map_of_mem (List.mem_filter.mpr ⟨member, decide_eq_true identifier⟩)

/-- New names for the identifiers among some tokens: different ones for different identifiers, and no
reserved name is given up or taken. -/
structure Admits (tokens : List Token) (ρ : String → String) : Prop where
  injective : ∀ n ∈ identifiers tokens, ∀ m ∈ identifiers tokens, ρ n = ρ m → n = m
  reserved : ∀ n ∈ identifiers tokens, Ty.IsReserved n ∨ Ty.IsReserved (ρ n) → ρ n = n

end Token

/-! ## Renamings of all names -/

namespace Renaming

/-- A renaming of all names that gives the identifiers among some tokens their new names. -/
def Extends (σ : Renaming) (ρ : String → String) (tokens : List Token) : Prop :=
  ∀ n ∈ Token.identifiers tokens, σ.name n = ρ n

/-- On finitely many names, an injective map is part of a permutation that moves nothing but these names
and what they are mapped to. -/
theorem exists_perm (names : Finset String) {ρ : String → String} (injective : Set.InjOn ρ names) :
    ∃ p : Equiv.Perm String, (∀ n ∈ names, p n = ρ n) ∧
      ∀ n, n ∉ names ∪ names.image ρ → p n = n := by
  obtain ⟨g, agrees⟩ := Finset.exists_equiv_extend_of_card_eq
    (α := { n // n ∈ names ∪ names.image ρ }) (t := names ∪ names.image ρ)
    (Fintype.card_coe _) (s := Finset.univ.filter (·.1 ∈ names)) (f := fun n => ρ n.1)
    (fun m mapped => by
      obtain ⟨n, member, rfl⟩ := Finset.mem_image.mp mapped
      exact Finset.mem_union_right _ (Finset.mem_image_of_mem ρ (Finset.mem_filter.mp member).2))
    (fun n inside m inside' same => Subtype.ext
      (injective (Finset.mem_filter.mp inside).2 (Finset.mem_filter.mp inside').2 same))
  refine ⟨Equiv.Perm.ofSubtype g, fun n member => ?_, fun n outside => ?_⟩
  · rw [Equiv.Perm.ofSubtype_apply_of_mem g (Finset.mem_union_left _ member)]
    exact agrees _ (Finset.mem_filter.mpr ⟨Finset.mem_univ _, member⟩)
  · exact Equiv.Perm.ofSubtype_apply_of_not_mem g outside

/-- The reserved identifiers stay, so that only the others have to be permuted; no reserved name is
among these or what they become. -/
theorem exists_extends {ρ : String → String} {tokens : List Token} (admits : Token.Admits tokens ρ) :
    ∃ σ : Renaming, σ.Extends ρ tokens := by
  classical
  let moved := (Token.identifiers tokens).toFinset.filter (¬ Ty.IsReserved ·)
  have free : ∀ n ∈ moved, n ∈ Token.identifiers tokens ∧ ¬ Ty.IsReserved n := fun n member =>
    ⟨List.mem_toFinset.mp (Finset.mem_filter.mp member).1, (Finset.mem_filter.mp member).2⟩
  obtain ⟨p, agrees, fixes⟩ := exists_perm moved fun n member m member' same =>
    admits.injective n (free n member).1 m (free m member').1 same
  have stays : ∀ n, Ty.IsReserved n → p n = n := by
    intro n reserved
    refine fixes n fun member => ?_
    rcases Finset.mem_union.mp member with member | image
    · exact (free n member).2 reserved
    · obtain ⟨m, source, rfl⟩ := Finset.mem_image.mp image
      rw [admits.reserved m (free m source).1 (.inr reserved)] at reserved
      exact (free m source).2 reserved
  refine ⟨⟨p, fun n builtin => stays n (.inl builtin), fun k => stays _ (.inr ⟨k, rfl⟩)⟩, ?_⟩
  intro n member
  by_cases reserved : Ty.IsReserved n
  · exact (stays n reserved).trans (admits.reserved n member (.inl reserved)).symm
  · exact agrees n (Finset.mem_filter.mpr ⟨List.mem_toFinset.mpr member, reserved⟩)

theorem Extends.map_renamedBy {σ : Renaming} {ρ : String → String} {tokens : List Token}
    (h : σ.Extends ρ tokens) : tokens.map (·.renamedBy ρ) = tokens.map (·.renamed σ) := by
  refine List.map_congr_left fun t member => ?_
  unfold Token.renamedBy Token.renamed
  split
  · rename_i identifier
    rw [h _ (Token.mem_identifiers member identifier)]
  · rfl

end Renaming

/-! ## Sources -/

namespace SourceUnit

variable {tokens : List Token} {ρ : String → String} {u : SourceUnit} {t : SymbolTable}

/-- Tokens are read, and the unit goes through both passes; then the same tokens with other names for
their identifiers are read as the same unit but for these names, and the passes make of it the same and
report the same, but for these names. -/
theorem hygienic_of_read (admits : Token.Admits tokens ρ)
    (reads : Runs (read tokens) .empty (.ok u) t) :
    (∃ σ : Renaming, σ.Extends ρ tokens) ∧
      ∀ σ : Renaming, σ.Extends ρ tokens →
        ∃ t', Runs (read (tokens.map (·.renamedBy ρ))) .empty (.ok (u.renamed σ)) t' ∧
          t.Renamed σ t' ∧
          Reporting.Collects σ (fun u u' => u' = u.renamed σ) (u.resolve.run t)
            ((u.renamed σ).resolve.run t') := by
  refine ⟨Renaming.exists_extends admits, fun σ extends_ => ?_⟩
  rw [extends_.map_renamedBy]
  obtain ⟨r', t', reads', related, same⟩ := follows_read (σ := σ) tokens .empty reads
  cases related with
  | ok related =>
    subst related
    exact ⟨t', reads', same, u.renamed_resolve same⟩

/-- A class, and a function that uses it beside a parameter declared `auto`. -/
def sheltered : List Token :=
  (Token.scan "class A { } def f(x: auto, y: A) { var z: A; }".toList "shelter").toOption.getD []

/-- The class and the function change names. -/
def exchange (name : String) : String :=
  if name = "A" then "f" else if name = "f" then "A" else name

theorem hygienic_of_sheltered : Token.Admits sheltered exchange ∧
    ∃ u t, Runs (read sheltered) .empty (.ok u) t ∧
      ((∃ σ : Renaming, σ.Extends exchange sheltered) ∧
        ∀ σ : Renaming, σ.Extends exchange sheltered →
          ∃ t', Runs (read (sheltered.map (·.renamedBy exchange))) .empty (.ok (u.renamed σ)) t' ∧
            t.Renamed σ t' ∧
            Reporting.Collects σ (fun u u' => u' = u.renamed σ) (u.resolve.run t)
              ((u.renamed σ).resolve.run t')) := by
  have names : Token.identifiers sheltered = ["A", "f", "x", "y", "A", "z", "A"] := by
    unfold sheltered
    rewrite [String.toList_ofList]
    decide +kernel
  have free : ∀ n ∈ Token.identifiers sheltered,
      ((Ty.builtin? n).isSome = false ∧ n.toList.head? ≠ some 'T') ∧
        (Ty.builtin? (exchange n)).isSome = false ∧ (exchange n).toList.head? ≠ some 'T' := by
    rw [names]
    decide +kernel
  have admits : Token.Admits sheltered exchange :=
    { injective := by
        rw [names]
        decide +kernel
      reserved := by
        rintro n member (reserved | reserved)
        · exact absurd reserved (Ty.not_isReserved (free n member).1.1 (free n member).1.2)
        · exact absurd reserved (Ty.not_isReserved (free n member).2.1 (free n member).2.2) }
  have ran : seen? sheltered .empty (fun _ _ => true) = some true := by
    unfold sheltered
    rewrite [String.toList_ofList]
    decide +kernel
  obtain ⟨u, t, reads, -⟩ := exists_of_seen? ran
  exact ⟨admits, u, t, reads, hygienic_of_read admits reads⟩

/-- A class `T0`, and a variable of it in a function with a parameter declared `auto`. -/
def capturing : List Token :=
  (Token.scan "class T0 { } def f(x: auto) { var y: T0; }".toList "capture").toOption.getD []

/-- Another name for `T0`. -/
def release (name : String) : String := if name = "T0" then "U" else name

/-- The variable is of the type parameter made for `x`; with another name for the class it is of the
class. -/
theorem captured_by_typeParameter :
    (∀ n ∈ Token.identifiers capturing, ∀ m ∈ Token.identifiers capturing,
      release n = release m → n = m) ∧
    (∀ n, (Ty.builtin? n).isSome = true → release n = n) ∧
    (∀ n ∈ Token.identifiers capturing, (Ty.builtin? (release n)).isSome = false ∧
      (Keyword.ofSpelling? (release n)).isSome = false) ∧
    ∃ u t u' t', Runs (read capturing) .empty (.ok u) t ∧
      Runs (read (capturing.map (·.renamedBy release))) .empty (.ok u') t' ∧
      ((u.resolve.run t).2.decl ⟨3⟩).ownType? = some (.named .typeParameter ⟨4⟩ "T0") ∧
      ((u'.resolve.run t').2.decl ⟨3⟩).ownType? = some (.named .classType ⟨0⟩ "U") := by
  have names : Token.identifiers capturing = ["T0", "f", "x", "y", "T0"] := by
    unfold capturing
    rewrite [String.toList_ofList]
    decide +kernel
  refine ⟨?_, ?_, ?_, ?_⟩
  · rw [names]
    decide +kernel
  · intro n builtin
    unfold release
    split
    · subst n
      cases builtin
    · rfl
  · rw [names]
    decide +kernel
  · have ran : seen? capturing .empty (fun u t => ((u.resolve.run t).2.decl ⟨3⟩).ownType?.any
        (·.same (.named .typeParameter ⟨4⟩ "T0"))) = some true := by
      unfold capturing
      rewrite [String.toList_ofList]
      decide +kernel
    have ran' : seen? (capturing.map (·.renamedBy release)) .empty (fun u t =>
        ((u.resolve.run t).2.decl ⟨3⟩).ownType?.any (·.same (.named .classType ⟨0⟩ "U"))) = some true := by
      unfold capturing
      rewrite [String.toList_ofList]
      decide +kernel
    obtain ⟨u, t, reads, typed⟩ := exists_of_seen? ran
    obtain ⟨u', t', reads', typed'⟩ := exists_of_seen? ran'
    exact ⟨u, t, u', t', reads, reads', Ty.any_same_named typed, Ty.any_same_named typed'⟩

end SourceUnit

end Deferral
