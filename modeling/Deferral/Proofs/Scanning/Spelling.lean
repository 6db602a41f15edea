import Deferral.Proofs.Scanning.Lossless
import Deferral.Resolution.Expression

/-!
# Texts that are put together from lexemes

A word, a number or a mark in front of a text is the lexeme found there unless what comes behind runs on from
it. A text that is written so, lexeme by lexeme, is scanned into the tokens that were written.
-/

namespace Deferral

/-! ## Lexemes -/

/-- A name that an identifier can have. -/
def IsIdentifier (name : String) : Prop :=
  Pattern.word.Matches name.toList ∧ Keyword.ofSpelling? name = none

instance (text : List Char) : Decidable (Pattern.word.Matches text) :=
  decidable_of_iff (text.head?.any isWordStart = true ∧ text.tail.all isWordPart = true) <| by
    cases text with
    | nil => simp [Pattern.Matches]
    | cons first rest => simp [Pattern.Matches]

instance (name : String) : Decidable (IsIdentifier name) := inferInstanceAs (Decidable (_ ∧ _))

/-- What a token is apart from its place. -/
def Token.lexeme (t : Token) : Lexeme := ⟨some t.kind, t.text.toList⟩

namespace Lexeme

def identifier (name : String) : Lexeme := ⟨some .identifier, name.toList⟩

def keyword (w : Keyword) : Lexeme := ⟨some (.keyword w), w.spelling.toList⟩

def natural (n : Nat) : Lexeme := ⟨some .number, n.repr.toList⟩

def mark (m : Mark) : Lexeme := ⟨some (.mark m), m.spelling.toList⟩

end Lexeme

theorem Token.lexeme_eq_iff {t : Token} {kind : TokenKind} {text : String} :
    t.lexeme = ⟨some kind, text.toList⟩ ↔ t.kind = kind ∧ t.text = text := by
  simp [lexeme, String.toList_inj]

/-! ## What does not run on -/

/-- What stands in front of a text is not continued by it: neither a word nor a number. -/
def Apart (rest : List Char) : Prop := ∀ c, rest.head? = some c → isWordPart c = false ∧ c ≠ '.'

theorem Apart.nil : Apart [] := fun _ head => by cases head

theorem Apart.cons {c : Char} (part : isWordPart c = false) (point : c ≠ '.') (rest : List Char) :
    Apart (c :: rest) := fun d head => by
  obtain rfl := Option.some.inj head
  exact ⟨part, point⟩

/-- A run of characters of one class ends where a text of another begins. -/
theorem takeWhile_append_of_head {p : Char → Bool} {front rest : List Char} (inside : ∀ c ∈ front, p c = true)
    (ends : ∀ c, rest.head? = some c → p c = false) : (front ++ rest).takeWhile p = front := by
  rw [List.takeWhile_append_of_pos inside]
  cases rest with
  | nil => simp
  | cons c rest => simp [ends c rfl]

namespace Lexeme

variable {text rest : List Char}

theorem atFront?_word (word : Pattern.word.Matches text) (apart : Apart rest) :
    atFront? (text ++ rest) = some (Lexeme.word text) := by
  obtain ⟨first, tail, rfl, start, parts⟩ := word
  have run := takeWhile_append_of_head parts fun c head => (apart c head).1
  simp [atFront?, start, run]

/-- Digits in front of what is neither a digit nor a fraction. -/
theorem atFront?_digits (nonempty : text ≠ []) (digits : ∀ c ∈ text, isDigit c = true)
    (apart : Apart rest) : atFront? (text ++ rest) = some ⟨some .number, text⟩ := by
  have notDigit : ∀ c, rest.head? = some c → isDigit c = false := fun c head => by
    have part := (apart c head).1
    simp only [isWordPart, Bool.or_eq_false_iff] at part
    exact part.2
  have run := takeWhile_append_of_head digits notDigit
  have behind : (text ++ rest).dropWhile isDigit = rest := by
    rw [List.dropWhile_append_of_pos digits]
    cases rest with
    | nil => rfl
    | cons c rest => simp [notDigit c rfl]
  have whole : fraction rest = [] := by
    cases rest with
    | nil => rfl
    | cons c rest =>
      have point := (apart c rfl).2
      unfold fraction
      split
      · rename_i same
        exact absurd (List.cons.inj same).1 point
      · rfl
  obtain ⟨first, tail, rfl⟩ := List.exists_cons_of_ne_nil nonempty
  have digit := digits first (List.mem_cons_self ..)
  have start : isWordStart first = false :=
    Bool.eq_false_iff.mpr fun start => Pattern.not_isDigit_of_isWordStart start digit
  rw [List.cons_append] at run behind ⊢
  simp [atFront?, start, digit, number, run, behind, whole]

/-- A mark that is found begins a lexeme, as long as a slash does not begin a comment. -/
theorem atFront?_mark {m : Mark} (found : Mark.atFront? (m.spelling.toList ++ rest) = some m)
    (comment : m = .slash → rest.head? ≠ some '/') :
    atFront? (m.spelling.toList ++ rest) = some (mark m) := by
  obtain ⟨c, tail, same⟩ := List.exists_cons_of_ne_nil
    (List.length_pos_iff.mp (Pattern.length_spelling_pos m))
  obtain ⟨start, digit, blank⟩ := Pattern.plain_of_starts_mark (m := m) (c := c) (by simp [Pattern.Starts, same])
  have slash : ¬ (c = '/' ∧ (tail ++ rest).head? = some '/') := by
    rintro ⟨rfl, next⟩
    cases m <;> simp_all [Mark.spelling]
  rw [same, List.cons_append] at found ⊢
  rw [atFront?, if_neg start, if_neg digit, if_neg blank, if_neg slash, found]
  simp [mark, same]

/-- A blank in front of what is none. -/
theorem atFront?_blank (ends : ∀ c, rest.head? = some c → Text.isBlank c = false) :
    atFront? ([' '] ++ rest) = some ⟨none, [' ']⟩ := by
  have run : ([] ++ rest).takeWhile Text.isBlank = [] :=
    takeWhile_append_of_head (fun _ member => absurd member List.not_mem_nil) ends
  rw [List.nil_append] at run
  rw [List.cons_append, List.nil_append, atFront?, if_neg (by decide), if_neg (by decide),
    if_pos (by decide), run]

end Lexeme

/-! ## Texts -/

/-- A text consists of lexemes and of a rest that is left. What no token keeps is passed over. -/
inductive Lexes : List Char → List Lexeme → List Char → Prop
  | done {left : List Char} : Lexes left [] left
  | skip {text source left : List Char} {lexemes : List Lexeme} :
      Lexeme.atFront? (text ++ source) = some ⟨none, text⟩ → Lexes source lexemes left →
      Lexes (text ++ source) lexemes left
  | keep {kind : TokenKind} {text source left : List Char} {lexemes : List Lexeme} :
      Lexeme.atFront? (text ++ source) = some ⟨some kind, text⟩ → Lexes source lexemes left →
      Lexes (text ++ source) (⟨some kind, text⟩ :: lexemes) left

namespace Lexes

variable {source middle left rest : List Char} {lexemes lexemes' : List Lexeme}

theorem append (h : Lexes source lexemes middle) (h' : Lexes middle lexemes' left) :
    Lexes source (lexemes ++ lexemes') left := by
  induction h with
  | done => exact h'
  | skip front _ ih => exact .skip front (ih h')
  | keep front _ ih => exact .keep front (ih h')

theorem ne_nil_of_atFront? {text : List Char} {kind? : Option TokenKind}
    (front : Lexeme.atFront? source = some ⟨kind?, text⟩) : text ≠ [] :=
  have ⟨_, longest, _⟩ := Pattern.longest_of_atFront? front
  longest.matched.ne_nil

/-- Only what stands behind all text ends it. -/
theorem ne_endOfInput_of_atFront? {text : List Char} {kind : TokenKind}
    (front : Lexeme.atFront? source = some ⟨some kind, text⟩) : kind ≠ .endOfInput := by
  obtain ⟨p, -, makes⟩ := Pattern.longest_of_atFront? front
  rintro rfl
  cases makes

/-- By induction on the text: the tokens of a text that is used up are its lexemes. -/
theorem scanFrom (h : Lexes source lexemes []) (file : String) (offset : Nat) :
    ∃ tokens stop, Token.scanFrom file 0 offset source = .ok (tokens ++ [stop]) ∧
      stop.kind = .endOfInput ∧ (∀ t ∈ tokens, t.kind ≠ .endOfInput) ∧
      tokens.map Token.lexeme = lexemes := by
  generalize used : ([] : List Char) = left at h
  induction h generalizing offset with
  | done =>
    subst used
    exact ⟨[], _, rfl, rfl, nofun, rfl⟩
  | @skip text _ _ _ front _ ih =>
    obtain ⟨tokens, stop, scanned, ended, before, same⟩ := ih (offset + byteLength text) used
    refine ⟨tokens, stop, ?_, ended, before, same⟩
    rw [@Token.scanFrom_lexeme file ⟨none, text⟩ _ front (ne_nil_of_atFront? front), scanned]
    rfl
  | @keep kind text _ _ _ front _ ih =>
    obtain ⟨tokens, stop, scanned, ended, before, same⟩ := ih (offset + byteLength text) used
    let span : Span := ⟨⟨offset, file⟩, ⟨offset + byteLength text, file⟩⟩
    refine ⟨⟨kind, String.ofList text, span⟩ :: tokens, stop, ?_, ended,
      List.forall_mem_cons.mpr ⟨ne_endOfInput_of_atFront? front, before⟩, ?_⟩
    · rw [@Token.scanFrom_lexeme file ⟨some kind, text⟩ _ front (ne_nil_of_atFront? front), scanned]
      rfl
    · simp [Token.lexeme, same]

theorem scan (h : Lexes source lexemes []) (file : String) :
    ∃ tokens stop, Token.scan source file = .ok (tokens ++ [stop]) ∧ stop.kind = .endOfInput ∧
      (∀ t ∈ tokens, t.kind ≠ .endOfInput) ∧ tokens.map Token.lexeme = lexemes := h.scanFrom file 0

/-! One lexeme in front of a text. -/

theorem identifier {name : String} (h : IsIdentifier name) (apart : Apart rest) :
    Lexes (name.toList ++ rest) [.identifier name] rest := by
  refine .keep ?_ .done
  rw [Lexeme.atFront?_word h.1 apart, Lexeme.word, String.ofList_toList, h.2]

theorem keyword (w : Keyword) (apart : Apart rest) :
    Lexes (w.spelling.toList ++ rest) [.keyword w] rest := by
  have word : Pattern.word.Matches w.spelling.toList := by
    cases w <;> exact ⟨_, _, rfl, by decide, List.all_eq_true.mp (by decide)⟩
  refine .keep ?_ .done
  rw [Lexeme.atFront?_word word apart, Lexeme.word, String.ofList_toList, Keyword.ofSpelling?_spelling]

theorem isDigit_of_mem_repr {n : Nat} {c : Char} (member : c ∈ n.repr.toList) : isDigit c = true := by
  rw [Nat.toList_repr] at member
  have digit := Nat.isDigit_of_mem_toDigits (by decide) (by decide) member
  simpa [Char.isDigit, isDigit, Char.le_def] using digit

theorem natural (n : Nat) (apart : Apart rest) : Lexes (n.repr.toList ++ rest) [.natural n] rest := by
  have nonempty : n.repr.toList ≠ [] := by
    rw [Nat.toList_repr]
    exact Nat.toDigits_ne_nil
  exact .keep (Lexeme.atFront?_digits nonempty (fun _ => isDigit_of_mem_repr) apart) .done

theorem mark {m : Mark} (found : Mark.atFront? (m.spelling.toList ++ rest) = some m)
    (comment : m = .slash → rest.head? ≠ some '/') :
    Lexes (m.spelling.toList ++ rest) [.mark m] rest :=
  .keep (Lexeme.atFront?_mark found comment) .done

/-- Only a slash may begin a comment. -/
theorem plainMark {m : Mark} (found : Mark.atFront? (m.spelling.toList ++ rest) = some m) (ne : m ≠ .slash) :
    Lexes (m.spelling.toList ++ rest) [.mark m] rest := .mark found fun same => absurd same ne

theorem blank (ends : ∀ c, rest.head? = some c → Text.isBlank c = false) : Lexes (' ' :: rest) [] rest :=
  .skip (Lexeme.atFront?_blank ends) .done

end Lexes

/-! ## Numbers -/

/-- The digits of a number denote it. -/
theorem natural?_repr (n : Nat) : Decimal.natural? n.repr.toList = some n := by
  have folded : ∀ (digits : List Char) (m : Nat), (∀ c ∈ digits, isDigit c = true) →
      digits.foldlM (fun n c => (Decimal.digitValue? c).map (10 * n + ·)) m =
        some (Nat.ofDigitChars 10 digits m) := by
    intro digits
    induction digits with
    | nil => intro m _; rfl
    | cons c digits ih =>
      intro m inside
      have digit : '0' ≤ c ∧ c ≤ '9' := by simpa [isDigit] using inside c (List.mem_cons_self ..)
      rw [List.foldlM_cons, Decimal.digitValue?, if_pos digit]
      exact ih _ fun d member => inside d (List.mem_cons_of_mem _ member)
  have nonempty : n.repr.toList.isEmpty = false := by
    rw [Nat.toList_repr, List.isEmpty_eq_false_iff]
    exact Nat.toDigits_ne_nil
  rw [Decimal.natural?, nonempty, if_neg Bool.false_ne_true, folded _ _ fun _ => Lexes.isDigit_of_mem_repr,
    Nat.toList_repr, Nat.ofDigitChars_toDigits (by decide) (by decide)]

/-- There is no point among the digits of a number. -/
theorem contains_point_repr (n : Nat) : n.repr.toList.contains '.' = false := by
  simp only [List.contains_eq_mem, decide_eq_false_iff_not]
  exact fun point => absurd (Lexes.isDigit_of_mem_repr point) (by decide)

/-- A number that is written in digits is read as itself, if it fits a literal. -/
theorem Expr.ofNumber_repr {t : Token} {n : Nat} (text : t.text = n.repr) (small : n ≤ greatestInteger) :
    ofNumber t = .ok (ofInteger n t.span) := by
  simp only [ofNumber, text, contains_point_repr, natural?_repr, if_pos small, Bool.false_eq_true, if_false]

/-! ## Tokens of a text -/

/-- A token of some text. -/
def Token.IsScanned (t : Token) : Prop := ∃ source file tokens, Token.scan source file = .ok tokens ∧ t ∈ tokens

/-- The text of a token matches the pattern that makes its kind. -/
theorem Token.IsScanned.exists_pattern {t : Token} (h : t.IsScanned) (inside : t.kind ≠ .endOfInput) :
    ∃ (p : Pattern) (text : List Char), t.text = String.ofList text ∧ p.Matches text ∧
      p.Makes text t.kind := by
  obtain ⟨source, file, tokens, scanned, member⟩ := h
  have outcome := Token.cuts_of_scanFrom file 0 source
  rw [Token.scan] at scanned
  rw [scanned] at outcome
  obtain ⟨body, cuts, rfl⟩ := outcome
  rcases List.mem_append.mp member with cut | last
  · obtain ⟨p, _, text, _, -, same, -, -, longest, makes⟩ := cuts.liesIn [] rfl t cut
    exact ⟨p, text, same, longest.matched, makes⟩
  · obtain rfl := List.mem_singleton.mp last
    exact absurd rfl inside

/-- The text of an identifier is a name that identifiers can have. -/
theorem Token.IsScanned.isIdentifier {t : Token} (h : t.IsScanned) (kind : t.kind = .identifier) :
    IsIdentifier t.text := by
  obtain ⟨p, text, same, matched, makes⟩ := h.exists_pattern (by simp [kind])
  rw [kind] at makes
  cases makes with
  | identifier free =>
    refine ⟨by rwa [same, String.toList_ofList], ?_⟩
    refine Option.eq_none_iff_forall_ne_some.mpr fun w reserved => free w ?_
    rw [← Keyword.ofSpelling?_eq_some_iff.mp reserved, same, String.toList_ofList]

end Deferral
