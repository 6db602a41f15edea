import Mathlib.Data.List.Infix
import Mathlib.Data.List.TakeWhile
import Deferral.Token.Scan

/-!
# Token patterns

What a lexeme may be is said here by patterns, without an order in which they are tried: a word, a
number, a run of blanks, a comment, or one of the marks. `Lexeme.atFront?` finds the longest text in
front of a source that any pattern matches, and finds none only where no pattern matches.
-/

namespace Deferral

/-- The forms that a lexeme may have. -/
inductive Pattern where
  | word | number | blanks | comment
  | mark (m : Mark)

namespace Pattern

/-- The texts that a pattern matches as a whole. -/
def Matches : Pattern → List Char → Prop
  | .word, text => ∃ first rest, text = first :: rest ∧ isWordStart first ∧
      ∀ c ∈ rest, isWordPart c
  | .number, text => ∃ whole, whole ≠ [] ∧ (∀ c ∈ whole, isDigit c) ∧
      (text = whole ∨
        ∃ digits, digits ≠ [] ∧ (∀ c ∈ digits, isDigit c) ∧ text = whole ++ '.' :: digits)
  | .blanks, text => text ≠ [] ∧ ∀ c ∈ text, Text.isBlank c
  | .comment, text => ∃ line, text = '/' :: '/' :: line ∧ '\n' ∉ line
  | .mark m, text => text = m.spelling.toList

/-- The kind of token that a pattern makes of a text. Blanks and comments make none. -/
inductive Makes : Pattern → List Char → TokenKind → Prop
  | keyword (w : Keyword) : Makes .word w.spelling.toList (.keyword w)
  | identifier {text : List Char} (free : ∀ w : Keyword, text ≠ w.spelling.toList) :
      Makes .word text .identifier
  | number {text : List Char} : Makes .number text .number
  | mark {text : List Char} (m : Mark) : Makes (.mark m) text (.mark m)

/-- The patterns whose texts no token keeps. -/
def isSkipped : Pattern → Bool
  | .blanks | .comment => true
  | _ => false

/-- `text` is in front of `source`, matches a pattern, and is no shorter than any other text in front
of `source` that matches any pattern. -/
structure Longest (p : Pattern) (text source : List Char) : Prop where
  matched : p.Matches text
  front : text <+: source
  longest : ∀ (q : Pattern) (other : List Char), q.Matches other → other <+: source →
    other.length ≤ text.length

/-! ## Characters

No character starts lexemes of two of the forms word, number, blanks and mark. -/

theorem toNat_of_isDigit {c : Char} (h : isDigit c) : 48 ≤ c.toNat ∧ c.toNat ≤ 57 := by
  simpa [isDigit, Char.le_def, UInt32.le_iff_toNat_le] using h

theorem toNat_of_isWordStart {c : Char} (h : isWordStart c) :
    (97 ≤ c.toNat ∧ c.toNat ≤ 122) ∨ (65 ≤ c.toNat ∧ c.toNat ≤ 90) ∨ c.toNat = 95 := by
  simp only [isWordStart, Bool.or_eq_true, Bool.and_eq_true, decide_eq_true_eq, beq_iff_eq,
    Char.le_def, UInt32.le_iff_toNat_le] at h
  obtain (h | h) | rfl := h
  · exact .inl h
  · exact .inr (.inl h)
  · decide

theorem not_isDigit_of_isWordStart {c : Char} (h : isWordStart c) : ¬ isDigit c := by
  intro digit
  have := toNat_of_isWordStart h
  have := toNat_of_isDigit digit
  omega

theorem not_isBlank_of_isWordStart {c : Char} (h : isWordStart c) : ¬ Text.isBlank c := by
  have := toNat_of_isWordStart h
  simp only [Text.isBlank, Bool.or_eq_true, Bool.and_eq_true, decide_eq_true_eq, beq_iff_eq]
  omega

theorem not_isBlank_of_isDigit {c : Char} (h : isDigit c) : ¬ Text.isBlank c := by
  have := toNat_of_isDigit h
  simp only [Text.isBlank, Bool.or_eq_true, Bool.and_eq_true, decide_eq_true_eq, beq_iff_eq]
  omega

theorem Matches.ne_nil {p : Pattern} {text : List Char} (matched : p.Matches text) : text ≠ [] := by
  rintro rfl
  cases p with
  | word => obtain ⟨_, _, same, -⟩ := matched; cases same
  | number =>
    obtain ⟨whole, nonempty, -, same | ⟨digits, -, -, same⟩⟩ := matched
    · exact nonempty same.symm
    · exact absurd same.symm (by simp)
  | blanks => exact matched.1 rfl
  | comment => obtain ⟨_, same, -⟩ := matched; cases same
  | mark m => cases m <;> exact absurd (show [] = _ from matched) (by decide)

/-- The characters that the texts of a pattern may start with. -/
def Starts : Pattern → Char → Prop
  | .word, c => isWordStart c
  | .number, c => isDigit c
  | .blanks, c => Text.isBlank c
  | .comment, c => c = '/'
  | .mark m, c => m.spelling.toList.head? = some c

theorem starts_of_matches {p : Pattern} {text rest : List Char} {c : Char} (matched : p.Matches text)
    (front : text <+: c :: rest) : p.Starts c := by
  cases p with
  | word =>
    obtain ⟨first, tail, rfl, start, -⟩ := matched
    obtain ⟨rfl, -⟩ := List.cons_prefix_cons.mp front
    exact start
  | number =>
    obtain ⟨_ | ⟨first, whole⟩, nonempty, digits, shape⟩ := matched
    · exact absurd rfl nonempty
    · have head : text.head? = some first := by
        obtain rfl | ⟨_, -, -, rfl⟩ := shape <;> rfl
      rw [List.head?_eq_some_iff] at head
      obtain ⟨tail, rfl⟩ := head
      obtain ⟨rfl, -⟩ := List.cons_prefix_cons.mp front
      exact digits first (List.mem_cons_self ..)
  | blanks =>
    obtain ⟨nonempty, blanks⟩ := matched
    obtain rfl | ⟨tail, rfl, -⟩ := List.prefix_cons_iff.mp front
    · exact absurd rfl nonempty
    · exact blanks c (List.mem_cons_self ..)
  | comment =>
    obtain ⟨line, rfl, -⟩ := matched
    exact (List.cons_prefix_cons.mp front).1.symm
  | mark m =>
    obtain rfl : text = m.spelling.toList := matched
    obtain none | ⟨tail, same, -⟩ := List.prefix_cons_iff.mp front
    · cases m <;> simp [Mark.spelling] at none
    · simp [Starts, same]

theorem plain_of_starts_mark {m : Mark} {c : Char} (h : Starts (.mark m) c) :
    ¬ isWordStart c ∧ ¬ isDigit c ∧ ¬ Text.isBlank c := by
  cases m <;> (obtain rfl := Option.some.inj h; decide)

/-! ## The longest text of each form -/

/-- A run of characters of one class in front of a source is no longer than the longest. -/
theorem length_le_takeWhile {α : Type} {p : α → Bool} {front source : List α}
    (inside : ∀ a ∈ front, p a) (h : front <+: source) :
    front.length ≤ (source.takeWhile p).length := by
  obtain ⟨back, rfl⟩ := h
  rw [List.takeWhile_append_of_pos inside, List.length_append]
  exact Nat.le_add_right ..

theorem longest_word {c : Char} (start : isWordStart c) (rest : List Char) :
    Longest .word (c :: rest.takeWhile isWordPart) (c :: rest) where
  matched := ⟨c, _, rfl, start, fun _ => List.mem_takeWhile_imp⟩
  front := List.cons_prefix_cons.mpr ⟨rfl, List.takeWhile_prefix _⟩
  longest q other matched front := by
    have starts := starts_of_matches matched front
    cases q with
    | word =>
      obtain ⟨first, tail, rfl, -, parts⟩ := matched
      exact Nat.succ_le_succ (length_le_takeWhile parts (List.cons_prefix_cons.mp front).2)
    | number => exact absurd starts (not_isDigit_of_isWordStart start)
    | blanks => exact absurd starts (not_isBlank_of_isWordStart start)
    | comment =>
      obtain rfl : c = '/' := starts
      exact absurd start (by decide)
    | mark m => exact absurd start (plain_of_starts_mark starts).1

theorem matches_number {source : List Char} (nonempty : source.takeWhile isDigit ≠ []) :
    Matches .number (source.takeWhile isDigit ++ Lexeme.fraction (source.dropWhile isDigit)) := by
  refine ⟨_, nonempty, fun _ => List.mem_takeWhile_imp, ?_⟩
  generalize source.dropWhile isDigit = rest
  unfold Lexeme.fraction
  split
  · rename_i d rest
    by_cases digit : isDigit d
    · refine .inr ⟨d :: rest.takeWhile isDigit, by simp, ?_, by simp [digit]⟩
      simpa [digit] using fun _ => List.mem_takeWhile_imp
    · exact .inl (by simp [digit])
  · exact .inl (List.append_nil _)

theorem fraction_isPrefixOf (rest : List Char) : Lexeme.fraction rest <+: rest := by
  unfold Lexeme.fraction
  split
  · split
    · exact List.prefix_append_right_inj ['.', _] |>.mpr (List.takeWhile_prefix _)
    · exact List.nil_prefix
  · exact List.nil_prefix

theorem number_prefix (source : List Char) :
    source.takeWhile isDigit ++ Lexeme.fraction (source.dropWhile isDigit) <+: source := by
  conv => rhs; rw [← List.takeWhile_append_dropWhile (p := isDigit) (l := source)]
  exact (List.prefix_append_right_inj _).mpr (fraction_isPrefixOf _)

/-- A number in front of a source is no longer than its digits and the fraction that follows. -/
theorem length_le_number {text source : List Char} (matched : Matches .number text)
    (front : text <+: source) :
    text.length ≤
      (source.takeWhile isDigit ++ Lexeme.fraction (source.dropWhile isDigit)).length := by
  obtain ⟨whole, -, inside, rfl | ⟨_ | ⟨d, digits⟩, nonempty, insideFraction, rfl⟩⟩ := matched
  · exact (length_le_takeWhile inside front).trans (by simp)
  · exact absurd rfl nonempty
  · obtain ⟨back, rfl⟩ := front
    have run : (whole ++ '.' :: d :: digits ++ back).takeWhile isDigit = whole := by
      rw [List.append_assoc, List.takeWhile_append_of_pos inside]
      simp [show isDigit '.' = false from rfl]
    have behind : (whole ++ '.' :: d :: digits ++ back).dropWhile isDigit =
        '.' :: d :: (digits ++ back) := by
      rw [List.append_assoc, List.dropWhile_append_of_pos inside]
      simp [show isDigit '.' = false from rfl]
    have digit : isDigit d := insideFraction d (List.mem_cons_self ..)
    have tail := length_le_takeWhile
      (fun c member => insideFraction c (List.mem_cons_of_mem _ member))
      (List.prefix_append digits back)
    rw [run, behind]
    simp [Lexeme.fraction, digit, tail]

theorem longest_number {c : Char} (digit : isDigit c) (rest : List Char) :
    Longest .number (Lexeme.number (c :: rest)).text (c :: rest) where
  matched := matches_number (by simp [digit])
  front := number_prefix _
  longest q other matched front := by
    have starts := starts_of_matches matched front
    cases q with
    | word => exact absurd digit (not_isDigit_of_isWordStart starts)
    | number => exact length_le_number matched front
    | blanks => exact absurd starts (not_isBlank_of_isDigit digit)
    | comment =>
      obtain rfl : c = '/' := starts
      exact absurd digit (by decide)
    | mark m => exact absurd digit (plain_of_starts_mark starts).2.1

theorem longest_blanks {c : Char} (blank : Text.isBlank c) (rest : List Char) :
    Longest .blanks (c :: rest.takeWhile Text.isBlank) (c :: rest) where
  matched := ⟨by simp, by simpa [blank] using fun _ => List.mem_takeWhile_imp⟩
  front := List.cons_prefix_cons.mpr ⟨rfl, List.takeWhile_prefix _⟩
  longest q other matched front := by
    have starts := starts_of_matches matched front
    cases q with
    | word => exact absurd blank (not_isBlank_of_isWordStart starts)
    | number => exact absurd blank (not_isBlank_of_isDigit starts)
    | blanks =>
      have bound := length_le_takeWhile matched.2 front
      rwa [List.takeWhile_cons_of_pos blank] at bound
    | comment =>
      obtain rfl : c = '/' := starts
      exact absurd blank (by decide)
    | mark m => exact absurd blank (plain_of_starts_mark starts).2.2

theorem longest_comment (rest : List Char) :
    Longest .comment (Lexeme.comment ('/' :: '/' :: rest)).text ('/' :: '/' :: rest) where
  matched := ⟨rest.takeWhile (· ≠ '\n'), by simp [Lexeme.comment],
    fun member => by simpa using List.mem_takeWhile_imp member⟩
  front := List.takeWhile_prefix _
  longest q other matched front := by
    have starts := starts_of_matches matched front
    cases q with
    | word => exact absurd starts (by decide : ¬ isWordStart '/')
    | number => exact absurd starts (by decide : ¬ isDigit '/')
    | blanks => exact absurd starts (by decide : ¬ Text.isBlank '/')
    | comment =>
      obtain ⟨line, rfl, one⟩ := matched
      refine length_le_takeWhile (fun c member => ?_) front
      obtain rfl | inside : c = '/' ∨ c ∈ line := by simpa using member
      · decide
      · exact decide_eq_true fun same => one (same ▸ inside)
    | mark m =>
      -- The only mark that starts with a slash is the slash itself.
      obtain rfl : other = m.spelling.toList := matched
      cases m <;> first | exact absurd starts (by decide) | simp [Mark.spelling, Lexeme.comment]

/-- A mark that is found in front of a source stands there. -/
theorem prefix_of_mark {source : List Char} {m : Mark} (h : Mark.atFront? source = some m) :
    m.spelling.toList <+: source := by
  unfold Mark.atFront? at h
  split at h <;> cases h <;> exact List.prefix_append _ _

theorem length_spelling_pos (m : Mark) : 1 ≤ m.spelling.toList.length := by cases m <;> decide

/-- A mark of one character, with which a longer one starts as well, is found unless the text behind
makes it the longer one. -/
theorem exists_mark_of_pair (first second : Char) (short long : Mark) (back : List Char)
    (pair : ∀ tail, Mark.atFront? (first :: second :: tail) = some long)
    (single : (∀ tail, back = second :: tail → False) →
      Mark.atFront? (first :: back) = some short) :
    ∃ found, Mark.atFront? (first :: back) = some found ∧ 1 ≤ found.spelling.toList.length := by
  by_cases h : ∃ tail, back = second :: tail
  · obtain ⟨tail, rfl⟩ := h
    exact ⟨long, pair tail, length_spelling_pos long⟩
  · exact ⟨short, single fun tail same => h ⟨tail, same⟩, length_spelling_pos short⟩

/-- Where a mark stands in front of a source, one that is no shorter is found. -/
theorem exists_mark_of_prefix {source : List Char} {m : Mark} (h : m.spelling.toList <+: source) :
    ∃ found, Mark.atFront? source = some found ∧
      m.spelling.toList.length ≤ found.spelling.toList.length := by
  obtain ⟨back, rfl⟩ := h
  cases m with
  | assignment =>
    exact exists_mark_of_pair '=' '=' .assignment .equals back (fun _ => rfl)
      fun _ => by simp [Mark.atFront?]
  | notMark =>
    exact exists_mark_of_pair '!' '=' .notMark .notEquals back (fun _ => rfl)
      fun _ => by simp [Mark.atFront?]
  | less =>
    exact exists_mark_of_pair '<' '=' .less .lessEquals back (fun _ => rfl)
      fun _ => by simp [Mark.atFront?]
  | greater =>
    exact exists_mark_of_pair '>' '=' .greater .greaterEquals back (fun _ => rfl)
      fun _ => by simp [Mark.atFront?]
  | ampersand =>
    exact exists_mark_of_pair '&' '&' .ampersand .andMark back (fun _ => rfl)
      fun _ => by simp [Mark.atFront?]
  | dash =>
    exact exists_mark_of_pair '-' '>' .dash .arrow back (fun _ => rfl)
      fun _ => by simp [Mark.atFront?]
  | _ => exact ⟨_, rfl, Nat.le_refl _⟩

/-- The mark that is found is the longest lexeme, unless the characters start one of another form. -/
theorem longest_mark {c : Char} {rest : List Char} {m : Mark} (notWord : ¬ isWordStart c)
    (notDigit : ¬ isDigit c) (notBlank : ¬ Text.isBlank c)
    (notComment : ¬ (c = '/' ∧ rest.head? = some '/'))
    (found : Mark.atFront? (c :: rest) = some m) :
    Longest (.mark m) m.spelling.toList (c :: rest) where
  matched := rfl
  front := prefix_of_mark found
  longest q other matched front := by
    have starts := starts_of_matches matched front
    cases q with
    | word => exact absurd starts notWord
    | number => exact absurd starts notDigit
    | blanks => exact absurd starts notBlank
    | comment =>
      obtain ⟨line, rfl, -⟩ := matched
      obtain ⟨rfl, back, rfl⟩ := List.cons_prefix_cons.mp front
      exact absurd ⟨rfl, rfl⟩ notComment
    | mark m' =>
      obtain rfl : other = m'.spelling.toList := matched
      obtain ⟨found', equation, le⟩ := exists_mark_of_prefix front
      rw [found] at equation
      cases equation
      exact le

theorem makes_word (text : List Char) :
    ∃ kind, (Lexeme.word text).kind? = some kind ∧ Makes .word text kind := by
  refine ⟨_, rfl, ?_⟩
  cases h : Keyword.ofSpelling? (String.ofList text) with
  | none =>
    refine .identifier fun w same => ?_
    rw [same, String.ofList_toList, Keyword.ofSpelling?_spelling] at h
    cases h
  | some w =>
    obtain rfl : text = w.spelling.toList := by
      rw [← Keyword.ofSpelling?_eq_some_iff.mp h, String.toList_ofList]
    exact .keyword w

/-! ## The lexeme in front of a source -/

/-- Where a lexeme is found, it is the longest text that a pattern matches, and the pattern says what
becomes of it. -/
theorem longest_of_atFront? {source : List Char} {lexeme : Lexeme}
    (h : Lexeme.atFront? source = some lexeme) :
    ∃ p, Longest p lexeme.text source ∧
      match lexeme.kind? with
      | none => p.isSkipped
      | some kind => p.Makes lexeme.text kind := by
  obtain _ | ⟨c, rest⟩ := source
  · cases h
  rw [Lexeme.atFront?] at h
  split at h
  · rename_i start
    cases h
    obtain ⟨kind, equation, makes⟩ := makes_word (c :: rest.takeWhile isWordPart)
    exact ⟨.word, longest_word start rest, by rw [equation]; exact makes⟩
  rename_i notWord
  split at h
  · rename_i digit
    cases h
    exact ⟨.number, longest_number digit rest, .number⟩
  rename_i notDigit
  split at h
  · rename_i blank
    cases h
    exact ⟨.blanks, longest_blanks blank rest, rfl⟩
  rename_i notBlank
  split at h
  · rename_i slashes
    obtain ⟨rfl, slashes⟩ := slashes
    obtain ⟨rest, rfl⟩ := List.head?_eq_some_iff.mp slashes
    cases h
    exact ⟨.comment, longest_comment rest, rfl⟩
  rename_i notComment
  obtain ⟨m, found, rfl⟩ := Option.map_eq_some_iff.mp h
  exact ⟨.mark m, longest_mark notWord notDigit notBlank notComment found, .mark m⟩

/-- Where no lexeme is found, no pattern matches any text in front of the source. -/
theorem not_matches_of_atFront?_eq_none {c : Char} {rest : List Char}
    (h : Lexeme.atFront? (c :: rest) = none) (p : Pattern) (text : List Char)
    (front : text <+: c :: rest) : ¬ p.Matches text := by
  intro matched
  have starts := starts_of_matches matched front
  rw [Lexeme.atFront?] at h
  split at h
  · cases h
  split at h
  · cases h
  split at h
  · cases h
  split at h
  · cases h
  rename_i notWord notDigit notBlank notComment
  cases p with
  | word => exact notWord starts
  | number => exact notDigit starts
  | blanks => exact notBlank starts
  | comment =>
    obtain ⟨line, rfl, -⟩ := matched
    obtain ⟨rfl, back, rfl⟩ := List.cons_prefix_cons.mp front
    exact notComment ⟨rfl, rfl⟩
  | mark m =>
    obtain rfl : text = m.spelling.toList := matched
    obtain ⟨found, equation, -⟩ := exists_mark_of_prefix front
    rw [Option.map_eq_none_iff.mp h] at equation
    cases equation

end Pattern

end Deferral
