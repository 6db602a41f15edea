import Deferral.Phrase.Type
import Deferral.Proofs.Renaming.Outcome

/-!
# The grammar of renamed tokens

Which phrase some tokens form hangs on their kinds alone, so that renamed tokens form the renamed phrase.
Where the grammar fails it fails for the renamed tokens in the same way, behind the same parts.
-/

namespace Deferral

variable {σ : Renaming} {α β β' γ γ' : Type}

namespace Cursor

/-- A cursor over renamed tokens. -/
def renamed (σ : Renaming) (c : Cursor) : Cursor :=
  ⟨c.upcoming.map (·.renamed σ), c.stop.renamed σ, c.endOfLast⟩

variable (c : Cursor)

@[simp] theorem current_renamed : (c.renamed σ).current = c.current.renamed σ := by
  obtain ⟨_ | ⟨t, rest⟩, stop, last⟩ := c <;> rfl

@[simp] theorem kind_renamed : (c.renamed σ).kind = c.kind := by
  simp [kind]

@[simp] theorem position_renamed : (c.renamed σ).position = c.position := by
  simp [position]

@[simp] theorem secondKind_renamed : (c.renamed σ).secondKind = c.secondKind := by
  obtain ⟨_ | ⟨t, _ | ⟨t', rest⟩⟩, stop, last⟩ := c <;> simp [secondKind, renamed]

@[simp] theorem next_renamed : (c.renamed σ).next = c.next.renamed σ := by
  obtain ⟨_ | ⟨t, rest⟩, stop, last⟩ := c <;> simp [next, renamed]

@[simp] theorem length_upcoming_renamed :
    (c.renamed σ).upcoming.length = c.upcoming.length := List.length_map _

theorem unexpected_renamed : c.unexpected.Renamed σ (c.renamed σ).unexpected := by
  unfold unexpected
  rw [current_renamed, position_renamed]
  exact .of_cause (.unexpected c.current) _

theorem unexpectedFor_renamed (detail : String) :
    (c.unexpectedFor detail).Renamed σ ((c.renamed σ).unexpectedFor detail) := by
  unfold unexpectedFor
  rw [current_renamed, position_renamed]
  exact .of_cause (.unexpectedDetailed c.current detail) _

theorem follows_expect (kind : TokenKind) :
    σ.Follows (fun out out' => out' = out.map (·.renamed σ) (·.renamed σ)) (c.expect kind)
      ((c.renamed σ).expect kind) := by
  unfold expect
  simp only [kind_renamed, current_renamed, next_renamed]
  split
  · exact .ok rfl
  · exact .error c.unexpected_renamed

theorem ofTokens_renamed (ts : List Token) :
    ofTokens (ts.map (·.renamed σ)) = (ofTokens ts).renamed σ := by
  have file : fileOf (ts.map (·.renamed σ)) = fileOf ts := by
    cases ts <;> simp [fileOf]
  have mark (position : Position) :
      (Token.endOfInput position).renamed σ = .endOfInput position :=
    Token.renamed_of_ne (by simp [Token.endOfInput])
  unfold ofTokens
  rw [file, List.getLast?_map]
  cases last : ts.getLast? with
  | none =>
    obtain rfl := List.getLast?_eq_none_iff.mp last
    simp [renamed, mark]
  | some t =>
    dsimp only [Option.map]
    rw [Token.kind_renamed]
    split
    · simp [renamed, List.map_dropLast]
    · simp [renamed, mark]

/-- Tokens are set aside by their kinds. -/
theorem follows_setAsideFrom (ends : List TokenKind) (depth : Nat) (upcoming : List Token)
    (endOfLast : Position) (stop : Token) :
    σ.Follows (fun out out' => out' = out.map (List.map (·.renamed σ)) (·.renamed σ))
      (setAsideFrom ends depth upcoming endOfLast stop)
      (setAsideFrom ends depth (upcoming.map (·.renamed σ)) endOfLast (stop.renamed σ)) := by
  induction upcoming generalizing depth endOfLast with
  | nil => exact .error (unexpected_renamed ⟨[], stop, endOfLast⟩)
  | cons t rest ih =>
    have further (depth : Nat) :
        σ.Follows (fun out out' => out' = out.map (List.map (·.renamed σ)) (·.renamed σ))
          ((setAsideFrom ends depth rest t.span.stop stop).map fun out => (t :: out.1, out.2))
          ((setAsideFrom ends depth (rest.map (·.renamed σ)) t.span.stop (stop.renamed σ)).map
            fun out => (t.renamed σ :: out.1, out.2)) :=
      (ih depth t.span.stop).map fun _ _ same => by subst same; rfl
    rw [List.map_cons]
    unfold setAsideFrom
    simp only [Token.kind_renamed, Token.span_renamed]
    split
    · exact .error (unexpected_renamed ⟨t :: rest, stop, endOfLast⟩)
    split
    · exact .ok rfl
    split
    · exact further _
    split
    · split
      · exact .error (unexpected_renamed ⟨t :: rest, stop, endOfLast⟩)
      · exact further _
    · exact further _

theorem follows_setAside (ends : List TokenKind) :
    σ.Follows (fun out out' => out' = out.map (·.renamed σ) (·.renamed σ)) (c.setAside ends)
      ((c.renamed σ).setAside ends) := by
  have taken := follows_setAsideFrom (σ := σ) ends 0 c.upcoming c.endOfLast c.stop
  unfold setAside
  generalize setAsideFrom ends 0 c.upcoming c.endOfLast c.stop = out at taken
  change σ.Follows _ out (setAsideFrom ends 0 (c.renamed σ).upcoming (c.renamed σ).endOfLast
    (c.renamed σ).stop) at taken
  generalize setAsideFrom ends 0 (c.renamed σ).upcoming (c.renamed σ).endOfLast
    (c.renamed σ).stop = out' at taken
  cases taken with
  | error fault => exact .error fault
  | @ok out _ same =>
    subst same
    obtain ⟨_ | ⟨t, taken⟩, after⟩ := out
    · exact .error c.unexpected_renamed
    · refine .ok ?_
      simp [Excerpt.renamed]

end Cursor

/-! ## Phrases -/

/-- A name as it is written, renamed. -/
def Token.named (σ : Renaming) (t : Token) : Token := { t with text := σ.name t.text }

theorem Token.renamed_of_eq {t : Token} (identifier : t.kind = .identifier) :
    t.renamed σ = t.named σ := if_pos identifier

mutual

/-- A phrase with its names renamed. -/
def Phrase.renamed (σ : Renaming) : Phrase → Phrase
  | .number t => .number t
  | .truth value t => .truth value t
  | .name t => .name (t.named σ)
  | .unary op start operand => .unary op start (operand.renamed σ)
  | .binary op left right => .binary op (left.renamed σ) (right.renamed σ)
  | .assign target value => .assign (target.renamed σ) (value.renamed σ)
  | .call callee arguments stop =>
    .call (callee.renamed σ) (Phrase.allRenamed σ arguments) stop

/-- Phrases with their names renamed. -/
def Phrase.allRenamed (σ : Renaming) : List Phrase → List Phrase
  | [] => []
  | p :: rest => p.renamed σ :: Phrase.allRenamed σ rest

end

theorem Phrase.allRenamed_eq_map (ps : List Phrase) :
    Phrase.allRenamed σ ps = ps.map (Phrase.renamed σ) := by
  induction ps with
  | nil => rfl
  | cons p rest ih => exact congrArg _ ih

/-- A type as it is written, with its names renamed. -/
def TypePhrase.renamed (σ : Renaming) : TypePhrase → TypePhrase
  | .name t => .name (t.named σ)
  | .auto => .auto
  | .decltype e => .decltype (e.renamed σ)
  | .decltypeAuto => .decltypeAuto
  | .qualified inner q => .qualified (inner.renamed σ) q
  | .pointer target => .pointer (target.renamed σ)
  | .reference target => .reference (target.renamed σ)
  | .sequence element => .sequence (element.renamed σ)
  | .array element extent => .array (element.renamed σ) (extent.renamed σ)

/-- A part of a type with its names renamed. -/
def TypePart.renamed (σ : Renaming) : TypePart → TypePart
  | .type t => .type (t.renamed σ)
  | .expression e => .expression (e.renamed σ)

/-- Two readings that correspond, or break off behind parts that correspond with faults of which one is
the other renamed. -/
inductive Broken.Follows (σ : Renaming) (p : α → α) (g : β → β') :
    Except (Broken α) β → Except (Broken α) β' → Prop
  | ok {b : β} {b' : β'} : b' = g b → Follows σ p g (.ok b) (.ok b')
  | error {parts : List α} {d d' : Diagnostic} : d.Renamed σ d' →
      Follows σ p g (.error ⟨parts, d⟩) (.error ⟨parts.map p, d'⟩)

namespace Broken.Follows

variable {p : α → α} {g : β → β'} {h : γ → γ'} {x : Except (Broken α) β}
  {x' : Except (Broken α) β'}

theorem bind (follows : Follows σ p g x x') {k : β → Except (Broken α) γ}
    {k' : β' → Except (Broken α) γ'} (rest : ∀ b, x = .ok b → Follows σ p h (k b) (k' (g b))) :
    Follows σ p h (x >>= k) (x' >>= k') := by
  cases follows with
  | ok same =>
    subst same
    exact rest _ rfl
  | error fault => exact .error fault

theorem behind (follows : Follows σ p g x x') (parts : List α) :
    Follows σ p g (x.mapError (.behind parts)) (x'.mapError (.behind (parts.map p))) := by
  cases follows with
  | ok same => exact .ok same
  | @error more d d' fault =>
    have moved : Follows σ p g (.error ⟨parts ++ more, d⟩ : Except (Broken α) β)
        (.error ⟨(parts ++ more).map p, d'⟩) := .error fault
    rwa [List.map_append] at moved

end Broken.Follows

namespace Phrase

open Broken (Follows)

/-- A reader of phrases to which names do not matter. -/
def Nameless (σ : Renaming) (g : α → α) (read : Cursor → Reading (α × Cursor)) : Prop :=
  ∀ c, Follows σ (renamed σ) (Prod.map g (Cursor.renamed σ)) (read c) (read (c.renamed σ))

variable {inner : Power → Cursor → Reading (Phrase × Cursor)}

theorem follows_expectBehind (parts : List Phrase) (c : Cursor) (kind : TokenKind) :
    Follows σ (renamed σ) (Prod.map (Token.renamed σ) (Cursor.renamed σ)) (expectBehind parts c kind)
      (expectBehind (parts.map (renamed σ)) (c.renamed σ) kind) := by
  have expects := c.follows_expect (σ := σ) kind
  unfold expectBehind
  generalize c.expect kind = out at expects
  generalize (c.renamed σ).expect kind = out' at expects
  cases expects with
  | ok same => exact .ok same
  | error fault => exact .error fault

theorem nameless_operand (nested : ∀ power, Nameless σ (renamed σ) (inner power)) :
    Nameless σ (renamed σ) (operand inner) := by
  intro c
  have unary (op : UnaryOp) :
      Follows σ (renamed σ) (Prod.map (renamed σ) (Cursor.renamed σ))
        (inner .unary c.next >>= fun out => .ok (.unary op c.position out.1, out.2))
        (inner .unary (c.renamed σ).next >>= fun out =>
          .ok (.unary op (c.renamed σ).position out.1, out.2)) := by
    rw [Cursor.next_renamed, Cursor.position_renamed]
    exact (nested _ _).bind fun _ _ => .ok rfl
  unfold operand
  rw [Cursor.kind_renamed, Cursor.current_renamed]
  split
  · rename_i number
    refine .ok ?_
    rw [Cursor.next_renamed, Token.renamed_of_ne (fun identifier => by
      rw [Cursor.kind, identifier] at number
      cases number)]
    rfl
  · rename_i word
    refine .ok ?_
    rw [Cursor.next_renamed, Token.renamed_of_ne (fun identifier => by
      rw [Cursor.kind, identifier] at word
      cases word)]
    rfl
  · rename_i word
    refine .ok ?_
    rw [Cursor.next_renamed, Token.renamed_of_ne (fun identifier => by
      rw [Cursor.kind, identifier] at word
      cases word)]
    rfl
  · rename_i identifier
    refine .ok ?_
    rw [Cursor.next_renamed, Token.renamed_of_eq identifier]
    rfl
  · exact unary .negate
  · exact unary .not
  · rw [Cursor.next_renamed]
    refine (nested _ _).bind ?_
    rintro ⟨e, after⟩ -
    refine (follows_expectBehind [e] after _).bind fun _ _ => ?_
    exact .ok rfl
  · exact .error c.unexpected_renamed

theorem nameless_arguments (nested : ∀ power, Nameless σ (renamed σ) (inner power)) :
    ∀ (bound : Nat) (isFirst : Bool),
      Nameless σ (List.map (renamed σ)) (arguments inner bound isFirst)
  | 0, _, c => .error c.unexpected_renamed
  | bound + 1, isFirst, c => by
    have rest (c : Cursor) :
        Follows σ (renamed σ) (Prod.map (List.map (renamed σ)) (Cursor.renamed σ))
          (inner .lowest c >>= fun first =>
            (arguments inner bound false first.2).mapError (.behind [first.1]) >>= fun rest =>
              .ok (first.1 :: rest.1, rest.2))
          (inner .lowest (c.renamed σ) >>= fun first =>
            (arguments inner bound false first.2).mapError (.behind [first.1]) >>= fun rest =>
              .ok (first.1 :: rest.1, rest.2)) := by
      refine (nested _ _).bind ?_
      rintro ⟨e, c⟩ -
      refine ((nameless_arguments nested bound false c).behind [e]).bind fun _ _ => ?_
      exact .ok rfl
    unfold arguments
    rw [Cursor.kind_renamed]
    split
    · exact .ok rfl
    · cases isFirst with
      | true => exact rest c
      | false =>
        have comma := follows_expectBehind (σ := σ) [] c (.mark .comma)
        show Follows _ _ _ (((·.2) <$> expectBehind [] c (.mark .comma)) >>= _)
          (((·.2) <$> expectBehind [] (c.renamed σ) (.mark .comma)) >>= _)
        generalize expectBehind [] c (.mark .comma) = out at comma
        rw [List.map_nil] at comma
        generalize expectBehind [] (c.renamed σ) (.mark .comma) = out' at comma
        cases comma with
        | error fault => exact .error fault
        | @ok passed _ same =>
          subst same
          exact rest passed.2

theorem follows_continueWith (nested : ∀ power, Nameless σ (renamed σ) (inner power))
    (form : Continuation) (left : Phrase) (c : Cursor) :
    Follows σ (renamed σ) (Prod.map (renamed σ) (Cursor.renamed σ)) (continueWith inner form left c)
      (continueWith inner form (left.renamed σ) (c.renamed σ)) := by
  cases form with
  | binary op | assign =>
    unfold continueWith
    rw [Cursor.next_renamed]
    refine ((nested _ _).behind [left]).bind fun _ _ => ?_
    exact .ok rfl
  | call =>
    unfold continueWith
    rw [Cursor.next_renamed, Cursor.length_upcoming_renamed]
    refine ((nameless_arguments nested _ true _).behind [left]).bind ?_
    rintro ⟨es, after⟩ -
    refine (follows_expectBehind (left :: es) after _).bind fun _ _ => .ok ?_
    simp [renamed, allRenamed_eq_map]

theorem follows_extend (nested : ∀ power, Nameless σ (renamed σ) (inner power)) (power : Power) :
    ∀ (bound : Nat) (left : Phrase) (c : Cursor),
      Follows σ (renamed σ) (Prod.map (renamed σ) (Cursor.renamed σ)) (extend inner power bound left c)
        (extend inner power bound (left.renamed σ) (c.renamed σ))
  | 0, _, _ => .ok rfl
  | bound + 1, left, c => by
    unfold extend
    rw [Cursor.kind_renamed]
    cases Continuation.ofKind? c.kind with
    | none => exact .ok rfl
    | some form =>
      dsimp only
      split
      · exact .ok rfl
      · exact (follows_continueWith nested form left c).bind fun out _ =>
          follows_extend nested power bound out.1 out.2

theorem nameless_expression : ∀ (depth : Nat) (power : Power),
    Nameless σ (renamed σ) (expression depth power)
  | 0, _, c => .error c.unexpected_renamed
  | depth + 1, power, c => by
    have nested : ∀ power, Nameless σ (renamed σ) (Phrase.expression depth power) :=
      nameless_expression depth
    unfold Phrase.expression
    refine (nameless_operand nested c).bind ?_
    rintro ⟨left, c⟩ -
    show Follows _ _ _ _ (extend _ power (c.renamed σ).upcoming.length (left.renamed σ) (c.renamed σ))
    rw [Cursor.length_upcoming_renamed]
    exact follows_extend nested power _ left c

theorem nameless_read : Nameless σ (renamed σ) read := by
  intro c
  unfold read
  rw [Cursor.length_upcoming_renamed]
  exact nameless_expression _ _ c

/-- Renamed tokens form the renamed phrase. -/
theorem follows_ofTokens (ts : List Token) :
    Follows σ (renamed σ) (renamed σ) (ofTokens ts) (ofTokens (ts.map (·.renamed σ))) := by
  unfold ofTokens
  rw [Cursor.ofTokens_renamed]
  refine (nameless_read _).bind ?_
  rintro ⟨e, c⟩ -
  exact (follows_expectBehind [e] c _).bind fun _ _ => .ok rfl

end Phrase

/-! ## Types -/

namespace TypePhrase

open Broken (Follows)

/-- A reader of types to which names do not matter. -/
def Nameless (σ : Renaming) (read : Cursor → Reading (TypePhrase × Cursor)) : Prop :=
  ∀ c, Follows σ (TypePart.renamed σ) (Prod.map (renamed σ) (Cursor.renamed σ)) (read c)
    (read (c.renamed σ))

theorem follows_expectBehind (parts : List TypePart) (c : Cursor) (kind : TokenKind) :
    Follows σ (TypePart.renamed σ) (Prod.map (Token.renamed σ) (Cursor.renamed σ))
      (expectBehind parts c kind)
      (expectBehind (parts.map (TypePart.renamed σ)) (c.renamed σ) kind) := by
  have expects := c.follows_expect (σ := σ) kind
  unfold expectBehind
  generalize c.expect kind = out at expects
  generalize (c.renamed σ).expect kind = out' at expects
  cases expects with
  | ok same => exact .ok same
  | error fault => exact .error fault

theorem follows_expressionBehind (parts : List TypePart) (c : Cursor) :
    Follows σ (TypePart.renamed σ) (Prod.map (Phrase.renamed σ) (Cursor.renamed σ))
      (expressionBehind parts c)
      (expressionBehind (parts.map (TypePart.renamed σ)) (c.renamed σ)) := by
  have reads := Phrase.nameless_read (σ := σ) c
  unfold expressionBehind
  generalize Phrase.read c = out at reads
  generalize Phrase.read (c.renamed σ) = out' at reads
  cases reads with
  | ok same => exact .ok same
  | @error more d d' fault =>
    have moved : Follows σ (TypePart.renamed σ) (Prod.map (Phrase.renamed σ) (Cursor.renamed σ))
        (.error ⟨parts ++ more.map TypePart.expression, d⟩)
        (.error ⟨(parts ++ more.map TypePart.expression).map (TypePart.renamed σ), d'⟩) := .error fault
    simpa [Except.mapError, Function.comp_def, TypePart.renamed] using moved

theorem follows_bracketed (element : TypePhrase) (c : Cursor) :
    Follows σ (TypePart.renamed σ) (Prod.map (renamed σ) (Cursor.renamed σ)) (bracketed element c)
      (bracketed (element.renamed σ) (c.renamed σ)) := by
  unfold bracketed
  rw [Cursor.kind_renamed, Cursor.next_renamed]
  split
  · exact .ok rfl
  · refine (follows_expressionBehind [.type element] c).bind ?_
    rintro ⟨extent, c⟩ -
    exact (follows_expectBehind [.type element, .expression extent] c _).bind fun _ _ => .ok rfl

theorem follows_suffixes : ∀ (bound : Nat) (left : TypePhrase) (c : Cursor),
    Follows σ (TypePart.renamed σ) (Prod.map (renamed σ) (Cursor.renamed σ)) (suffixes bound left c)
      (suffixes bound (left.renamed σ) (c.renamed σ))
  | 0, _, _ => .ok rfl
  | bound + 1, left, c => by
    unfold suffixes
    rw [Cursor.kind_renamed, Cursor.next_renamed]
    split
    · exact follows_suffixes bound (.pointer left) c.next
    · exact follows_suffixes bound (.reference left) c.next
    · exact (follows_bracketed left c.next).bind fun out _ => follows_suffixes bound out.1 out.2
    · cases qualifier? c.kind with
      | none => exact .ok rfl
      | some q => exact follows_suffixes bound (.qualified left q) c.next

theorem nameless_decltypeOperand : Nameless σ decltypeOperand := by
  intro c
  unfold decltypeOperand
  refine (follows_expectBehind [] c _).bind ?_
  rintro ⟨_, c⟩ -
  dsimp only [Prod.map]
  rw [Cursor.kind_renamed, Cursor.secondKind_renamed, Cursor.next_renamed, Cursor.next_renamed]
  split
  · exact .ok rfl
  · refine (follows_expressionBehind [] c).bind ?_
    rintro ⟨e, c⟩ -
    exact (follows_expectBehind [.expression e] c _).bind fun _ _ => .ok rfl

theorem nameless_operand : ∀ depth : Nat, Nameless σ (operand depth)
  | 0, c => .error (c.unexpectedFor_renamed _)
  | depth + 1, c => by
    unfold operand
    rw [Cursor.kind_renamed, Cursor.next_renamed, Cursor.current_renamed]
    split
    · rename_i identifier
      refine .ok ?_
      rw [Token.renamed_of_eq identifier]
      rfl
    · exact .ok rfl
    · exact nameless_decltypeOperand c.next
    · refine (nameless_operand depth c.next).bind ?_
      rintro ⟨inner, c⟩ -
      show Follows _ _ _ _ (suffixes (c.renamed σ).upcoming.length (inner.renamed σ) (c.renamed σ) >>= _)
      rw [Cursor.length_upcoming_renamed]
      refine (follows_suffixes _ inner c).bind ?_
      rintro ⟨t, c⟩ -
      exact (follows_expectBehind [.type t] c _).bind fun _ _ => .ok rfl
    · cases qualifier? c.kind with
      | none => exact .error (c.unexpectedFor_renamed _)
      | some q => exact (nameless_operand depth c.next).bind fun _ _ => .ok rfl

theorem nameless_read : Nameless σ read := by
  intro c
  unfold read
  rw [Cursor.length_upcoming_renamed]
  refine (nameless_operand _ c).bind ?_
  rintro ⟨t, c⟩ -
  show Follows _ _ _ _ (suffixes (c.renamed σ).upcoming.length (t.renamed σ) (c.renamed σ))
  rw [Cursor.length_upcoming_renamed]
  exact follows_suffixes _ t c

/-- Renamed tokens form the renamed type. -/
theorem follows_ofTokens (ts : List Token) :
    Follows σ (TypePart.renamed σ) (renamed σ) (ofTokens ts) (ofTokens (ts.map (·.renamed σ))) := by
  unfold ofTokens
  rw [Cursor.ofTokens_renamed]
  refine (nameless_read _).bind ?_
  rintro ⟨t, c⟩ -
  exact (follows_expectBehind [.type t] c _).bind fun _ _ => .ok rfl

end TypePhrase

end Deferral
