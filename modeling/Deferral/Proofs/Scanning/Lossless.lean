import Mathlib.Data.List.Chain
import Deferral.Proofs.Scanning.Pattern

/-!
# Scanning loses nothing and takes the longest lexeme

A source is cut from the left, each time at the end of the longest text that any pattern matches,
until it is used up or no pattern matches (`Cuts`). Main statement: the tokens of a source lie in it
one behind the other, each with the text that stands at its span and the longest in its place, and
between them nothing is left out but blanks and comments; a source without tokens is refused at the
first place where no pattern matches.
-/

namespace Deferral

/-- From byte `offset` on, longest texts are cut off a source until another is left. The texts that
are not skipped make the tokens. -/
inductive Cuts (file : String) : Nat → List Char → List Token → List Char → Prop
  | done {offset : Nat} {source : List Char} : Cuts file offset source [] source
  | skip {offset : Nat} {p : Pattern} {text source left : List Char} {tokens : List Token}
      (longest : p.Longest text (text ++ source)) (skipped : p.isSkipped)
      (next : Cuts file (offset + byteLength text) source tokens left) :
      Cuts file offset (text ++ source) tokens left
  | token {offset : Nat} {p : Pattern} {text source left : List Char} {tokens : List Token}
      {kind : TokenKind} (longest : p.Longest text (text ++ source)) (makes : p.Makes text kind)
      (next : Cuts file (offset + byteLength text) source tokens left) :
      Cuts file offset (text ++ source)
        (⟨kind, String.ofList text, ⟨offset, file⟩, ⟨offset + byteLength text, file⟩⟩ :: tokens) left

/-- Nothing but blanks and comments, in front of `behind`. A comment ends before a newline or with
the source. -/
inductive Skipped : (gap behind : List Char) → Prop
  | nothing {behind : List Char} : Skipped [] behind
  | blank {c : Char} {gap behind : List Char} (blank : Text.isBlank c) (rest : Skipped gap behind) :
      Skipped (c :: gap) behind
  | comment {line gap behind : List Char} (one : '\n' ∉ line)
      (ends : gap ++ behind = [] ∨ (gap ++ behind).head? = some '\n') (rest : Skipped gap behind) :
      Skipped ('/' :: '/' :: line ++ gap) behind

/-- Between two byte offsets a source has nothing but blanks and comments. -/
def IsGap (source : List Char) (start stop : Nat) : Prop :=
  ∃ front gap behind, source = front ++ gap ++ behind ∧ byteLength front = start ∧
    start + byteLength gap = stop ∧ Skipped gap behind

/-- A token has the text that stands in the source at its span, which is the longest there that any
pattern matches, and the kind that the pattern gives to it. -/
def Token.LiesIn (t : Token) (source : List Char) (file : String) : Prop :=
  ∃ (p : Pattern) (front text behind : List Char),
    source = front ++ text ++ behind ∧
    t.text = String.ofList text ∧
    t.span = ⟨⟨byteLength front, file⟩, ⟨byteLength front + byteLength text, file⟩⟩ ∧
    byteLength front < byteLength front + byteLength text ∧
    p.Longest text (text ++ behind) ∧ p.Makes text t.kind

/-- The tokens of a source that has been cut up to its end. -/
structure Lossless (source : List Char) (file : String) (tokens : List Token) : Prop where
  /-- The last token spans the end of the source, and every other one lies in it. -/
  closed : ∃ body, tokens = body ++ [.endOfInput ⟨byteLength source, file⟩] ∧
    ∀ t ∈ body, t.LiesIn source file
  /-- Each token ends where a later one starts or before that, and starts before it. -/
  ordered : tokens.Pairwise fun t later =>
    t.span.stop.offset ≤ later.span.start.offset ∧ t.span.start.offset < later.span.start.offset
  /-- Nothing but blanks and comments is left out, at the start and between two tokens. -/
  gaps : List.IsChain (fun s later : Span => IsGap source s.stop.offset later.start.offset)
    (.point ⟨0, file⟩ :: tokens.map (·.span))

/-- A source that has been cut up to a character with which no text begins that any pattern
matches, and the diagnostic for it. -/
def Stuck (source : List Char) (file : String) (d : Diagnostic) : Prop :=
  ∃ (front : List Char) (c : Char) (rest : List Char) (tokens : List Token),
    source = front ++ c :: rest ∧ Cuts file 0 source tokens (c :: rest) ∧
    (∀ (p : Pattern) (text : List Char), text <+: c :: rest → ¬ p.Matches text) ∧
    d = { cause := .unrecognised (String.ofList [c]), position := ⟨byteLength front, file⟩ }

/-! ## What scanning does -/

namespace Token

theorem scanFrom_taken (file : String) (taken : List Char) (offset : Nat) (rest : List Char) :
    scanFrom file taken.length offset (taken ++ rest) =
      scanFrom file 0 (offset + byteLength taken) rest := by
  induction taken generalizing offset with
  | nil => rfl
  | cons c taken ih =>
    show scanFrom file taken.length (offset + c.utf8Size) (taken ++ rest) = _
    rw [ih, byteLength_cons, Nat.add_assoc]

theorem scanFrom_lexeme (file : String) {lexeme : Lexeme} {rest : List Char}
    (h : Lexeme.atFront? (lexeme.text ++ rest) = some lexeme) (nonempty : lexeme.text ≠ [])
    (offset : Nat) :
    scanFrom file 0 offset (lexeme.text ++ rest) = do
      let tokens ← scanFrom file 0 (offset + byteLength lexeme.text) rest
      match lexeme.kind? with
      | none => return tokens
      | some kind =>
        return ⟨kind, String.ofList lexeme.text,
          ⟨offset, file⟩, ⟨offset + byteLength lexeme.text, file⟩⟩ :: tokens := by
  obtain ⟨c, taken, shape⟩ := List.exists_cons_of_ne_nil nonempty
  have behind : scanFrom file (lexeme.text.length - 1) (offset + c.utf8Size) (taken ++ rest) =
      scanFrom file 0 (offset + byteLength lexeme.text) rest := by
    rw [shape, List.length_cons, Nat.add_sub_cancel, scanFrom_taken, byteLength_cons, Nat.add_assoc]
  rw [shape, List.cons_append] at h
  rw [shape, List.cons_append, scanFrom, h, ← shape]
  exact behind ▸ rfl

/-- What scanning has done by the time it ends, at a byte offset that the characters cut off until
then make up. -/
theorem cuts_of_scanFrom (file : String) (offset : Nat) (source : List Char) :
    match scanFrom file 0 offset source with
    | .ok tokens => ∃ body, Cuts file offset source body [] ∧
        tokens = body ++ [.endOfInput ⟨offset + byteLength source, file⟩]
    | .error d => ∃ (front : List Char) (c : Char) (rest : List Char) (tokens : List Token),
        source = front ++ c :: rest ∧ Cuts file offset source tokens (c :: rest) ∧
        (∀ (p : Pattern) (text : List Char), text <+: c :: rest → ¬ p.Matches text) ∧
        d = { cause := .unrecognised (String.ofList [c]),
              position := ⟨offset + byteLength front, file⟩ } := by
  -- A lexeme may take any number of characters, so that the length of the source has to fall.
  induction hlength : source.length using Nat.strong_induction_on generalizing offset source with
  | _ length ih =>
  subst hlength
  cases hfront : Lexeme.atFront? source with
  | none =>
    obtain _ | ⟨c, rest⟩ := source
    · exact ⟨[], .done, by simp⟩
    · rw [scanFrom, hfront]
      exact ⟨[], c, rest, [], rfl, .done, Pattern.not_matches_of_atFront?_eq_none hfront, rfl⟩
  | some lexeme =>
    obtain ⟨p, longest, role⟩ := Pattern.longest_of_atFront? hfront
    obtain ⟨rest, rfl⟩ := longest.front
    have nonempty := longest.matched.ne_nil
    have shorter : rest.length < (lexeme.text ++ rest).length := by
      have := List.length_pos_iff.mpr nonempty
      rw [List.length_append]
      omega
    have behind := ih rest.length shorter (offset + byteLength lexeme.text) rest rfl
    rw [scanFrom_lexeme file hfront nonempty]
    generalize scanFrom file 0 (offset + byteLength lexeme.text) rest = outcome at behind
    cases outcome with
    | error d =>
      obtain ⟨front, c, left, tokens, rfl, cuts, stuck, rfl⟩ := behind
      cases hkind : lexeme.kind? with
      | none =>
        rw [hkind] at role
        exact ⟨lexeme.text ++ front, c, left, tokens, by simp, .skip longest role cuts, stuck,
          by simp [Nat.add_assoc]⟩
      | some kind =>
        rw [hkind] at role
        exact ⟨lexeme.text ++ front, c, left, _, by simp, .token longest role cuts, stuck,
          by simp [Nat.add_assoc]⟩
    | ok tokens =>
      obtain ⟨body, cuts, rfl⟩ := behind
      cases hkind : lexeme.kind? with
      | none =>
        rw [hkind] at role
        exact ⟨body, .skip longest role cuts, by simp [Nat.add_assoc]⟩
      | some kind =>
        rw [hkind] at role
        exact ⟨_ :: body, .token longest role cuts, by simp [Nat.add_assoc]⟩

end Token

/-! ## What is left out -/

theorem Skipped.append {gap more behind whole : List Char} (first : Skipped gap whole)
    (split : whole = more ++ behind) (second : Skipped more behind) :
    Skipped (gap ++ more) behind := by
  induction first with
  | nothing => exact second
  | blank blank _ ih => exact .blank blank (ih split)
  | comment one ends _ ih =>
    subst split
    rw [List.append_assoc]
    exact .comment one (by rwa [List.append_assoc]) (ih rfl)

theorem skipped_of_blanks {text : List Char} (blanks : ∀ c ∈ text, Text.isBlank c)
    (behind : List Char) : Skipped text behind := by
  induction text with
  | nil => exact .nothing
  | cons c text ih =>
    exact .blank (blanks c (List.mem_cons_self ..))
      (ih fun d member => blanks d (List.mem_cons_of_mem _ member))

/-- The longest blanks, or the longest comment, are nothing but that. -/
theorem Pattern.Longest.skipped {p : Pattern} {text behind : List Char}
    (longest : p.Longest text (text ++ behind)) (skipped : p.isSkipped) : Skipped text behind := by
  cases p with
  | blanks => exact skipped_of_blanks longest.matched.2 behind
  | comment =>
    obtain ⟨line, rfl, one⟩ := longest.matched
    have ends : behind = [] ∨ behind.head? = some '\n' := by
      obtain _ | ⟨c, rest⟩ := behind
      · exact .inl rfl
      · refine .inr (congrArg some (Decidable.byContradiction fun ne => ?_))
        -- Otherwise the comment would take `c` as well.
        have longer := longest.longest .comment ('/' :: '/' :: (line ++ [c]))
          ⟨line ++ [c], rfl, by simpa using ⟨one, Ne.symm ne⟩⟩ ⟨rest, by simp⟩
        exact absurd longer (by simp)
    have comment : Skipped ('/' :: '/' :: line ++ []) behind := .comment one ends .nothing
    rwa [List.append_nil] at comment
  | word | number | mark m => cases skipped

namespace Cuts

variable {file : String} {offset : Nat} {source left : List Char} {tokens : List Token}

/-- Every token lies where it has been cut off. -/
theorem liesIn (cuts : Cuts file offset source tokens left) (front : List Char)
    (start : byteLength front = offset) : ∀ t ∈ tokens, t.LiesIn (front ++ source) file := by
  induction cuts generalizing front with
  | done => exact fun t member => absurd member List.not_mem_nil
  | @skip offset p text source left tokens longest _ _ ih =>
    have behind := ih (front ++ text) (by rw [byteLength_append, start])
    rwa [List.append_assoc] at behind
  | @token offset p text source left tokens kind longest makes _ ih =>
    intro t member
    obtain rfl | member := List.mem_cons.mp member
    · have positive : 0 < byteLength text :=
        (List.length_pos_iff.mpr longest.matched.ne_nil).trans_le (length_le_byteLength text)
      exact ⟨p, front, text, source, by simp, rfl, by simp [start], by omega, longest, makes⟩
    · have behind := ih (front ++ text) (by rw [byteLength_append, start])
      rw [List.append_assoc] at behind
      exact behind t member

/-- Tokens are not empty and lie between the two ends of what has been cut. -/
theorem within (cuts : Cuts file offset source tokens left) :
    ∀ t ∈ tokens, offset ≤ t.span.start.offset ∧ t.span.start.offset < t.span.stop.offset ∧
      t.span.stop.offset ≤ offset + byteLength source := by
  induction cuts with
  | done => exact fun t member => absurd member List.not_mem_nil
  | skip _ _ _ ih =>
    intro t member
    have := ih t member
    rw [byteLength_append]
    omega
  | @token offset p text source left tokens kind longest _ _ ih =>
    have positive : 0 < byteLength text :=
      (List.length_pos_iff.mpr longest.matched.ne_nil).trans_le (length_le_byteLength text)
    intro t member
    rw [byteLength_append]
    obtain rfl | member := List.mem_cons.mp member
    · exact ⟨Nat.le_refl _, Nat.lt_add_of_pos_right positive, by dsimp only; omega⟩
    · have := ih t member
      omega

/-- Tokens, and the end of the source behind them, come one after the other. -/
theorem ordered (cuts : Cuts file offset source tokens left) :
    (tokens ++ [Token.endOfInput ⟨offset + byteLength source, file⟩]).Pairwise fun t later =>
      t.span.stop.offset ≤ later.span.start.offset ∧
        t.span.start.offset < later.span.start.offset := by
  have inside := cuts.within
  refine List.pairwise_append.mpr ⟨?_, List.pairwise_singleton .., ?_⟩
  · clear inside
    induction cuts with
    | done => exact .nil
    | skip _ _ _ ih => exact ih
    | @token offset p text source left tokens kind longest _ next ih =>
      have positive : 0 < byteLength text :=
        (List.length_pos_iff.mpr longest.matched.ne_nil).trans_le (length_le_byteLength text)
      refine List.pairwise_cons.mpr ⟨fun later member => ?_, ih⟩
      have := next.within later member
      dsimp only
      omega
  · intro t member last isLast
    obtain rfl := List.mem_singleton.mp isLast
    have := inside t member
    change _ ≤ offset + byteLength source ∧ _ < offset + byteLength source
    omega

/-- Between the tokens, and the end of the source behind them, there are gaps. Before the next token
the characters `gap` behind `front` have been skipped already. -/
theorem gaps (cuts : Cuts file offset source tokens left) (all : left = [])
    (front gap : List Char) (before : Span) (start : before.stop.offset = byteLength front)
    (reached : byteLength (front ++ gap) = offset) (skipped : Skipped gap source) :
    List.IsChain
      (fun s later : Span => IsGap (front ++ gap ++ source) s.stop.offset later.start.offset)
      (before ::
        (tokens ++ [Token.endOfInput ⟨offset + byteLength source, file⟩]).map (·.span)) := by
  induction cuts generalizing front gap before with
  | done =>
    subst all
    refine .cons_cons ⟨front, gap, [], rfl, start.symm, ?_, skipped⟩ (.singleton _)
    change before.stop.offset + byteLength gap = _ + byteLength []
    rw [start, ← byteLength_append, reached, byteLength_nil, Nat.add_zero]
  | @skip offset p text source left tokens longest isSkipped _ ih =>
    have behind := ih all front (gap ++ text) before start
      (by rw [← List.append_assoc, byteLength_append, reached])
      (skipped.append rfl (longest.skipped isSkipped))
    simpa only [byteLength_append, List.append_assoc, Nat.add_assoc] using behind
  | @token offset p text source left tokens kind longest makes _ ih =>
    have behind := ih all (front ++ gap ++ text) []
      ⟨⟨offset, file⟩, ⟨offset + byteLength text, file⟩⟩
      (by rw [byteLength_append, reached])
      (by rw [List.append_nil, byteLength_append, reached]) .nothing
    refine .cons_cons ⟨front, gap, text ++ source, rfl, start.symm, ?_, skipped⟩ ?_
    · rw [← reached, byteLength_append, start]
    · change List.IsChain _ (_ :: (tokens ++ _).map _)
      simpa only [byteLength_append, List.append_assoc, List.nil_append, Nat.add_assoc] using behind

end Cuts

/-! ## The main statement -/

/-- Scanning loses nothing and takes the longest lexeme in every place. -/
theorem Token.scan_lossless (source : List Char) (file : String) :
    match Token.scan source file with
    | .ok tokens => Lossless source file tokens
    | .error d => Stuck source file d := by
  have outcome := Token.cuts_of_scanFrom file 0 source
  unfold Token.scan
  generalize Token.scanFrom file 0 0 source = result at outcome
  cases result with
  | error d =>
    obtain ⟨front, c, rest, tokens, split, cuts, stuck, rfl⟩ := outcome
    exact ⟨front, c, rest, tokens, split, cuts, stuck, by rw [Nat.zero_add]⟩
  | ok tokens =>
    obtain ⟨body, cuts, rfl⟩ := outcome
    exact {
      closed := ⟨body, by rw [Nat.zero_add], cuts.liesIn [] rfl⟩
      ordered := cuts.ordered
      gaps := cuts.gaps rfl [] [] _ rfl rfl .nothing }

end Deferral
