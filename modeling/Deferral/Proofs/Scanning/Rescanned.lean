import Deferral.Proofs.Execution.Outcome
import Deferral.Proofs.Scanning.Spelling

/-!
# Tokens that are scanned again

An excerpt is shown as the texts of its tokens with a blank between each two. A blank parts any two tokens: no word
or number runs on behind it, no mark is continued across it and no slash begins a comment. So the text of an
excerpt is scanned into the tokens that were set aside.
-/

namespace Deferral

namespace Lexeme

variable {text rest : List Char}

/-- A number in front of what does not run on from it. -/
theorem atFront?_number (matched : Pattern.number.Matches text) (apart : Apart rest) :
    atFront? (text ++ rest) = some ⟨some .number, text⟩ := by
  obtain ⟨whole, nonempty, inside, rfl | ⟨digits, some, insideFraction, rfl⟩⟩ := matched
  · exact atFront?_digits nonempty inside apart
  obtain ⟨first, tail, rfl⟩ := List.exists_cons_of_ne_nil nonempty
  obtain ⟨d, digits, rfl⟩ := List.exists_cons_of_ne_nil some
  have digit := inside first (List.mem_cons_self ..)
  have start : ¬ isWordStart first = true := fun start => Pattern.not_isDigit_of_isWordStart start digit
  have run : (first :: tail ++ '.' :: d :: (digits ++ rest)).takeWhile isDigit = first :: tail :=
    takeWhile_append_of_head inside fun c head => by obtain rfl := Option.some.inj head; decide
  have behind : (first :: tail ++ '.' :: d :: (digits ++ rest)).dropWhile isDigit =
      '.' :: d :: (digits ++ rest) := by
    rw [List.dropWhile_append_of_pos inside]
    rfl
  have ends : (digits ++ rest).takeWhile isDigit = digits :=
    takeWhile_append_of_head (fun c member => insideFraction c (List.mem_cons_of_mem _ member))
      fun c head => (Bool.or_eq_false_iff.mp (apart c head).1).2
  have point : isDigit d = true := insideFraction d (List.mem_cons_self ..)
  have whole : number (first :: (tail ++ '.' :: d :: (digits ++ rest))) =
      ⟨Option.some .number, first :: tail ++ '.' :: d :: digits⟩ := by
    rw [number, ← List.cons_append, run, behind, fraction, if_pos point, ends]
  rw [List.append_assoc, List.cons_append, List.cons_append, List.cons_append, atFront?, if_neg start,
    if_pos digit, whole]

end Lexeme

/-! ## In front of a blank -/

/-- Nothing, or a blank and what is behind it. -/
inductive Parted : List Char → Prop
  | nothing : Parted []
  | blank (rest : List Char) : Parted (' ' :: rest)

namespace Parted

variable {rest : List Char}

theorem apart (h : Parted rest) : Apart rest := by
  cases h with
  | nothing => exact .nil
  | blank rest => exact .cons (by decide) (by decide) rest

/-- No two marks make a longer one across a blank. -/
theorem atFront?_mark (h : Parted rest) (m : Mark) : Mark.atFront? (m.spelling.toList ++ rest) = some m := by
  cases h with
  | nothing => rw [List.append_nil, Mark.atFront?_spelling]
  | blank rest => cases m <;> rfl

theorem ne_slash (h : Parted rest) : rest.head? ≠ some '/' := by
  cases h with
  | nothing => exact fun none => by cases none
  | blank rest => exact fun slash => by cases slash

end Parted

namespace Token.IsScanned

variable {t : Token}

/-- A token is found again where nothing, or a blank, comes behind its text. -/
theorem lexes (h : t.IsScanned) (inside : t.kind ≠ .endOfInput) {rest : List Char} (parted : Parted rest) :
    Lexes (t.text.toList ++ rest) [t.lexeme] rest := by
  obtain ⟨p, text, same, matched, makes⟩ := h.exists_pattern inside
  have word (kind : t.kind = .identifier) : IsIdentifier t.text := h.isIdentifier kind
  unfold Token.lexeme
  rw [same, String.toList_ofList] at *
  generalize t.kind = kind at makes word ⊢
  cases makes with
  | keyword w => exact .keyword w parted.apart
  | identifier free =>
    have lexes := Lexes.identifier (word rfl) parted.apart
    rwa [Lexeme.identifier, String.toList_ofList] at lexes
  | number => exact .keep (Lexeme.atFront?_number matched parted.apart) .done
  | mark m =>
    obtain rfl : text = m.spelling.toList := matched
    exact .mark (parted.atFront?_mark m) fun _ => parted.ne_slash

/-- The text of a token does not begin with white space. -/
theorem not_isBlank_head (h : t.IsScanned) (inside : t.kind ≠ .endOfInput) {rest : List Char} {c : Char}
    (head : (t.text.toList ++ rest).head? = some c) : Text.isBlank c = false := by
  obtain ⟨p, text, same, matched, makes⟩ := h.exists_pattern inside
  obtain ⟨first, tail, shape⟩ := List.exists_cons_of_ne_nil matched.ne_nil
  rw [same, String.toList_ofList, shape] at head
  obtain rfl := Option.some.inj head
  have starts : p.Starts first := Pattern.starts_of_matches (shape ▸ matched) (List.prefix_refl _)
  refine Bool.eq_false_iff.mpr ?_
  generalize t.kind = kind at makes
  cases makes with
  | keyword _ | identifier _ => exact Pattern.not_isBlank_of_isWordStart starts
  | number => exact Pattern.not_isBlank_of_isDigit starts
  | mark m => exact (Pattern.plain_of_starts_mark starts).2.2

end Token.IsScanned

namespace Excerpt

/-- By induction on the tokens: each is found in front of the blank behind it, and no token begins with
white space, so that the blank is passed over by itself. -/
theorem lexes_intercalate : ∀ {tokens : List Token}, (∀ t ∈ tokens, t.IsScanned ∧ t.kind ≠ .endOfInput) →
    Lexes ([' '].intercalate (tokens.map (·.text.toList))) (tokens.map Token.lexeme) []
  | [], _ => .done
  | [t], scanned => by
    obtain ⟨isScanned, inside⟩ := scanned t (List.mem_cons_self ..)
    simpa using isScanned.lexes inside .nothing
  | t :: u :: tokens, scanned => by
    obtain ⟨⟨isScanned, inside⟩, others⟩ := List.forall_mem_cons.mp scanned
    obtain ⟨next, between⟩ := others u (List.mem_cons_self ..)
    obtain ⟨more, front⟩ : ∃ more, [' '].intercalate ((u :: tokens).map (·.text.toList)) =
        u.text.toList ++ more := by
      cases tokens with
      | nil => exact ⟨[], by simp⟩
      | cons v tokens =>
        rw [List.map_cons, List.map_cons, List.intercalate_cons_cons, List.append_assoc]
        exact ⟨_, rfl⟩
    have blank : Lexes (' ' :: [' '].intercalate ((u :: tokens).map (·.text.toList))) []
        ([' '].intercalate ((u :: tokens).map (·.text.toList))) :=
      .blank fun c head => next.not_isBlank_head between (front ▸ head)
    rw [List.map_cons, List.map_cons, List.intercalate_cons_cons, List.append_assoc]
    exact (isScanned.lexes inside (.blank _)).append (blank.append (lexes_intercalate others))

variable {source : List Char} {file : String} {tokens : List Token} {f : Excerpt}

/-- Tokens of a source that stand one behind the other, set aside, are scanned back from their text with a blank
between each two: in any file the same kinds and texts come in the same order, and then the end of the input. -/
theorem scan_text (scanned : Token.scan source file = .ok tokens) (run : f.tokens <:+: tokens)
    (inside : ∀ t ∈ f.tokens, t.kind ≠ .endOfInput) (other : String) :
    ∃ back stop, Token.scan f.text.toList other = .ok (back ++ [stop]) ∧ stop.kind = .endOfInput ∧
      (∀ t ∈ back, t.kind ≠ .endOfInput) ∧ back.map Token.lexeme = f.tokens.map Token.lexeme := by
  have lexes : Lexes f.text.toList (f.tokens.map Token.lexeme) [] := by
    rw [text, String.toList_intercalate, List.map_map]
    exact lexes_intercalate fun t member => ⟨⟨source, file, tokens, scanned, run.mem member⟩, inside t member⟩
  exact lexes.scan other

/-- Signs that would run together or begin a comment, a fraction and a word that begins like a keyword. -/
def divided : List Char := "x== =y/ /1.50--> returned< =!=;".toList

theorem scan_text_divided : ∃ (tokens : List Token) (f : Excerpt), Token.scan divided "divided" = .ok tokens ∧
    f.tokens <:+: tokens ∧
    (∀ t ∈ f.tokens, t.kind ≠ .endOfInput) ∧ f.text = "== = y / / 1.50 - -> returned < = !=" ∧
    ∃ back stop, Token.scan f.text.toList "again" = .ok (back ++ [stop]) ∧ stop.kind = .endOfInput ∧
      (∀ t ∈ back, t.kind ≠ .endOfInput) ∧ back.map Token.lexeme = f.tokens.map Token.lexeme := by
  have ran : ((Token.scan divided "divided").toOption.map fun tokens =>
      (((tokens.drop 1).take 12).all (·.kind ≠ .endOfInput),
        Excerpt.text ⟨(tokens.drop 1).take 12, ⟨1, "divided"⟩⟩)) =
      some (true, "== = y / / 1.50 - -> returned < = !=") := by
    unfold divided
    rewrite [String.toList_ofList]
    decide +kernel
  obtain ⟨tokens, scanned, found⟩ := map_toOption_eq_some_iff.mp ran
  obtain ⟨inside, text⟩ := Prod.mk.inj found
  have run : (tokens.drop 1).take 12 <:+: tokens :=
    (List.take_prefix ..).isInfix.trans (List.drop_suffix ..).isInfix
  have inside : ∀ t ∈ (tokens.drop 1).take 12, t.kind ≠ .endOfInput := by simpa using inside
  exact ⟨tokens, ⟨_, ⟨1, "divided"⟩⟩, scanned, run, inside, text, scan_text scanned run inside "again"⟩

end Excerpt

end Deferral
