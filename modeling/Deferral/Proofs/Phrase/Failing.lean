import Deferral.Phrase.Type

/-!
# Where the grammar fails

Reading an expression or a type breaks off over nothing but tokens, however much has been read by then.
-/

namespace Deferral

variable {α β π π' : Type}

/-- Reading breaks off, if it does, over the grammar of tokens. -/
def Grammatical (x : Except (Broken π) α) : Prop :=
  ∀ b, x = .error b → b.fault.cause.isGrammatical = true

theorem grammatical_ok (a : α) : Grammatical (.ok a : Except (Broken π) α) :=
  fun _ h => by cases h

theorem grammatical_error {b : Broken π} (h : b.fault.cause.isGrammatical = true) :
    Grammatical (.error b : Except (Broken π) α) :=
  fun _ same => Except.error.inj same ▸ h

theorem Grammatical.bind {x : Except (Broken π) α} {f : α → Except (Broken π) β}
    (h : Grammatical x) (h' : ∀ a, Grammatical (f a)) : Grammatical (x >>= f) := by
  cases x with
  | error b => exact fun _ same => h _ (congrArg _ (Except.error.inj same))
  | ok a => exact h' a

theorem Grammatical.map {x : Except (Broken π) α} (h : Grammatical x) (f : α → β) :
    Grammatical (f <$> x) := by
  cases x with
  | error b => exact fun _ same => h _ (congrArg _ (Except.error.inj same))
  | ok a => exact grammatical_ok _

/-- More may have been read in front, the fault stays. -/
theorem Grammatical.mapError {x : Except (Broken π) α} (h : Grammatical x)
    (f : Broken π → Broken π') (fault : ∀ b, (f b).fault = b.fault) :
    Grammatical (x.mapError f) := by
  cases x with
  | error b => exact grammatical_error (by rw [fault]; exact h b rfl)
  | ok a => exact grammatical_ok a

theorem Grammatical.behind {x : Except (Broken π) α} (h : Grammatical x) (parts : List π) :
    Grammatical (x.mapError (·.behind parts)) := h.mapError _ fun _ => rfl

/-- A token that is not there is at fault. -/
theorem grammatical_expect (c : Cursor) (kind : TokenKind) (parts : List π) :
    Grammatical ((c.expect kind).mapError fun fault => (⟨parts, fault⟩ : Broken π)) := by
  unfold Cursor.expect
  split
  · exact grammatical_ok _
  · exact grammatical_error rfl

namespace Phrase

variable {read : Power → Cursor → Reading (Phrase × Cursor)}

theorem grammatical_operand (reads : ∀ power c, Grammatical (read power c)) (c : Cursor) :
    Grammatical (operand read c) := by
  unfold operand
  split
  · exact grammatical_ok _
  · exact grammatical_ok _
  · exact grammatical_ok _
  · exact grammatical_ok _
  · exact (reads _ _).bind fun _ => grammatical_ok _
  · exact (reads _ _).bind fun _ => grammatical_ok _
  · exact (reads _ _).bind fun _ => (grammatical_expect _ _ _).bind fun _ => grammatical_ok _
  · exact grammatical_error rfl

theorem grammatical_arguments (reads : ∀ power c, Grammatical (read power c)) (bound : Nat) :
    ∀ isFirst c, Grammatical (arguments read bound isFirst c) := by
  induction bound with
  | zero => exact fun _ _ => grammatical_error rfl
  | succ bound ih =>
    intro isFirst c
    have rest (c : Cursor) := (reads .lowest c).bind fun first =>
      ((ih false first.2).behind [first.1]).bind fun others => grammatical_ok (first.1 :: others.1, others.2)
    unfold arguments
    split
    · exact grammatical_ok _
    · cases isFirst with
      | true => exact (grammatical_ok c).bind rest
      | false => exact ((grammatical_expect c _ _).map _).bind rest

theorem grammatical_continueWith (reads : ∀ power c, Grammatical (read power c))
    (form : Continuation) (left : Phrase) (c : Cursor) :
    Grammatical (continueWith read form left c) := by
  cases form with
  | binary op => exact ((reads _ _).behind _).bind fun _ => grammatical_ok _
  | assign => exact ((reads _ _).behind _).bind fun _ => grammatical_ok _
  | call =>
    exact ((grammatical_arguments reads _ _ _).behind _).bind fun _ =>
      (grammatical_expect _ _ _).bind fun _ => grammatical_ok _

theorem grammatical_extend (reads : ∀ power c, Grammatical (read power c)) (power : Power)
    (bound : Nat) : ∀ left c, Grammatical (extend read power bound left c) := by
  induction bound with
  | zero => exact fun _ _ => grammatical_ok _
  | succ bound ih =>
    intro left c
    unfold extend
    split
    · exact grammatical_ok _
    split
    · exact grammatical_ok _
    · exact (grammatical_continueWith reads _ _ _).bind fun _ => ih _ _

theorem grammatical_expression (depth : Nat) : ∀ power c, Grammatical (expression depth power c) := by
  induction depth with
  | zero => exact fun _ _ => grammatical_error rfl
  | succ depth ih =>
    exact fun _ c => (grammatical_operand ih c).bind fun _ => grammatical_extend ih _ _ _ _

theorem grammatical_ofTokens (tokens : List Token) : Grammatical (ofTokens tokens) :=
  (grammatical_expression _ _ _).bind fun _ =>
    (grammatical_expect _ _ _).bind fun _ => grammatical_ok _

end Phrase

namespace TypePhrase

theorem grammatical_expressionBehind (parts : List TypePart) (c : Cursor) :
    Grammatical (expressionBehind parts c) :=
  (Phrase.grammatical_expression _ _ _).mapError _ fun _ => rfl

theorem grammatical_bracketed (element : TypePhrase) (c : Cursor) :
    Grammatical (bracketed element c) := by
  unfold bracketed
  split
  · exact grammatical_ok _
  · exact (grammatical_expressionBehind _ _).bind fun _ =>
      (grammatical_expect _ _ _).bind fun _ => grammatical_ok _

theorem grammatical_suffixes (bound : Nat) : ∀ left c, Grammatical (suffixes bound left c) := by
  induction bound with
  | zero => exact fun _ _ => grammatical_ok _
  | succ bound ih =>
    intro left c
    unfold suffixes
    split
    · exact ih _ _
    · exact ih _ _
    · exact (grammatical_bracketed _ _).bind fun _ => ih _ _
    · split
      · exact ih _ _
      · exact grammatical_ok _

theorem grammatical_decltypeOperand (c : Cursor) : Grammatical (decltypeOperand c) := by
  refine (grammatical_expect _ _ _).bind fun ⟨_, c⟩ => ?_
  dsimp only
  split
  · exact grammatical_ok _
  · exact (grammatical_expressionBehind _ _).bind fun _ =>
      (grammatical_expect _ _ _).bind fun _ => grammatical_ok _

theorem grammatical_operand (depth : Nat) : ∀ c, Grammatical (operand depth c) := by
  induction depth with
  | zero => exact fun _ => grammatical_error rfl
  | succ depth ih =>
    intro c
    unfold operand
    split
    · exact grammatical_ok _
    · exact grammatical_ok _
    · exact grammatical_decltypeOperand _
    · exact (ih _).bind fun _ => (grammatical_suffixes _ _ _).bind fun _ =>
        (grammatical_expect _ _ _).bind fun _ => grammatical_ok _
    · split
      · exact (ih _).bind fun _ => grammatical_ok _
      · exact grammatical_error rfl

theorem grammatical_ofTokens (tokens : List Token) : Grammatical (ofTokens tokens) :=
  Grammatical.bind ((grammatical_operand _ _).bind fun _ => grammatical_suffixes _ _ _) fun _ =>
    (grammatical_expect _ _ _).bind fun _ => grammatical_ok _

end TypePhrase

end Deferral
