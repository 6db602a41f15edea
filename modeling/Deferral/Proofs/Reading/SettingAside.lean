import Deferral.Proofs.Execution.Outcome
import Deferral.Proofs.Reading.Building
import Deferral.Proofs.Reading.Grammar
import Deferral.Token.Scan

/-!
# Where setting aside stops

Tokens are set aside up to the first that ends them outside of all brackets. That token is left where it
is, and the symbol table is not looked at. Where no run of tokens ends so, the error points to the token in
front of which nothing more can be set aside.
-/

namespace Deferral

variable {ends : List TokenKind} {t s stop : Token} {passed upcoming : List Token}

/-- Tokens that are passed over from `depth` brackets deep without coming to an end: brackets are closed no more
often than they are open, and neither the end of the input nor, outside of brackets, one of `ends` is among
them. -/
structure GoesOn (ends : List TokenKind) (depth : Int) (passed : List Token) : Prop where
  above : ∀ before, before <+: passed → 0 ≤ depth + bracketDepth before
  inside : ∀ t ∈ passed, t.kind ≠ .endOfInput
  outside : ∀ before t, before ++ [t] <+: passed → depth + bracketDepth before = 0 → t.kind ∉ ends

namespace GoesOn

variable {depth : Int}

theorem nil (above : 0 ≤ depth) : GoesOn ends depth [] where
  above before p := by
    rw [List.prefix_nil.mp p]
    simpa using above
  inside _ none := absurd none List.not_mem_nil
  outside before t p := by simp at p

theorem cons (above : 0 ≤ depth) (first : t.kind ≠ .endOfInput) (outer : depth = 0 → t.kind ∉ ends)
    (rest : GoesOn ends (depth + t.turn) passed) : GoesOn ends depth (t :: passed) where
  above := forall_prefix_cons_depth.mpr ⟨above, rest.above⟩
  inside := List.forall_mem_cons.mpr ⟨first, rest.inside⟩
  outside := forall_prefix_cons_outside.mpr ⟨outer, rest.outside⟩

end GoesOn

namespace Cursor

/-- What has been set aside: a run of tokens that does not go past the end of the input, with the position of the
first, in front of a token that ends it and that the cursor then stands before. The end of the input ends no
run, not even where it is among `ends`. -/
structure SetsAside (c : Cursor) (ends : List TokenKind) (f : Excerpt) (c' : Cursor) : Prop where
  start : f.position = c.position
  run : IsRun ends f.tokens
  inside : ∀ t ∈ f.tokens, t.kind ≠ .endOfInput
  ended : ∃ s rest, c.upcoming = f.tokens ++ s :: rest ∧ s.kind ∈ ends ∧ s.kind ≠ .endOfInput ∧
    c' = ⟨s :: rest, c.stop, (f.tokens.getLast?.map (·.span.stop)).getD c.endOfLast⟩

/-- In front of this token nothing more can be set aside: it is the end of the input, or it would end a run
that is empty, or it closes a bracket that is not open. -/
structure StopsAt (c : Cursor) (ends : List TokenKind) (passed : List Token) (s : Token) : Prop where
  behind : ∃ rest, c.upcoming = passed ++ rest ∧ s = rest.head?.getD c.stop
  goesOn : GoesOn ends 0 passed
  stops : s.kind = .endOfInput ∨ passed = [] ∧ s.kind ∈ ends ∨
    bracketDepth passed = 0 ∧ s.kind ∉ ends ∧ s.kind.isClosing = true

theorem setAside_eq_ok_iff_setsAside {c c' : Cursor} {f : Excerpt} :
    c.setAside ends = .ok (f, c') ↔ c.SetsAside ends f c' := by
  rw [setAside_eq_ok_iff]
  constructor
  · rintro ⟨some, start, s, rest, same, stops, after⟩
    exact ⟨start, ⟨some, stops.balanced⟩, stops.inside, s, rest, same, stops.ended, stops.notLast, after⟩
  · rintro ⟨start, run, inside, s, rest, same, ended, notLast, after⟩
    exact ⟨run.nonempty, start, s, rest, same, ⟨run.balanced, inside, ended, notLast⟩, after⟩

/-- By induction on the tokens: what cannot be set aside is refused at the end of the input or at a bracket that is
closed without being open. -/
theorem refused_of_setAsideFrom (final : stop.kind = .endOfInput) {d : Diagnostic} :
    ∀ {upcoming : List Token} {depth : Nat} {endOfLast : Position},
    setAsideFrom ends depth upcoming endOfLast stop = .error d →
    ∃ passed s, (∃ rest, upcoming = passed ++ rest ∧ s = rest.head?.getD stop) ∧
      GoesOn ends depth passed ∧ d = { cause := .unexpected s.text, position := s.span.start } ∧
      (s.kind = .endOfInput ∨
        depth + bracketDepth passed = 0 ∧ s.kind ∉ ends ∧ s.kind.isClosing = true)
  | [], depth, _, refused => by
    obtain rfl := Except.error.inj refused
    exact ⟨[], stop, ⟨[], rfl, rfl⟩, .nil (Int.natCast_nonneg depth), rfl, .inl final⟩
  | t :: rest, depth, endOfLast, refused => by
    have met : Meets ends depth t rest endOfLast stop _ := meets_setAsideFrom
    rw [refused] at met
    generalize same : Except.error d = out at met
    cases met with
    | refused why =>
      obtain rfl := Except.error.inj same
      refine ⟨[], t, ⟨t :: rest, rfl, rfl⟩, .nil (Int.natCast_nonneg depth), rfl, why.imp_right ?_⟩
      rintro ⟨rfl, outer, closing⟩
      exact ⟨rfl, outer, closing⟩
    | ended => cases same
    | @passed depth' inside outer turned =>
      cases inner : setAsideFrom ends depth' rest t.span.stop stop with
      | ok out =>
        rw [inner] at same
        cases same
      | error d' =>
        rw [inner] at same
        obtain rfl := Except.error.inj same
        obtain ⟨passed, s, ⟨behind, rfl, next⟩, goesOn, points, why⟩ := refused_of_setAsideFrom final inner
        rw [turned] at goesOn why
        refine ⟨t :: passed, s, ⟨behind, rfl, next⟩, .cons (Int.natCast_nonneg depth) inside ?_ goesOn, points,
          ?_⟩
        · exact fun zero => outer (Int.natCast_eq_zero.mp zero)
        · rwa [bracketDepth_cons, ← Int.add_assoc]

/-- Where nothing can be set aside, the error points to the token that stopped it. -/
theorem stopsAt_of_setAside {c : Cursor} (final : c.stop.kind = .endOfInput) {d : Diagnostic}
    (refused : c.setAside ends = .error d) :
    ∃ passed s, c.StopsAt ends passed s ∧ d = { cause := .unexpected s.text, position := s.span.start } := by
  unfold setAside at refused
  split at refused
  · rename_i outcome
    obtain rfl := Except.error.inj refused
    obtain ⟨passed, s, behind, goesOn, points, why⟩ := refused_of_setAsideFrom final outcome
    refine ⟨passed, s, ⟨behind, goesOn, why.imp_right fun closing => .inr ?_⟩, points⟩
    simpa using closing
  · rename_i outcome
    obtain rfl := Except.error.inj refused
    obtain ⟨s, rest, same, stops, -⟩ := setAsideFrom_eq_ok_iff.mp outcome
    refine ⟨[], s, ⟨⟨s :: rest, same, rfl⟩, .nil (Int.le_refl 0), .inr (.inl ⟨rfl, stops.ended⟩)⟩, ?_⟩
    simp [unexpected, position, current, same]
  · cases refused

end Cursor

namespace Reader

open Resolution (Runs)

/-- Setting aside goes by the cursor alone. -/
theorem runs_setAside {c : Cursor} {t t' : SymbolTable} {r : Except Diagnostic (Excerpt × Cursor)} :
    Runs ((setAside ends).run c) t r t' ↔ r = c.setAside ends ∧ t' = t := by
  have ran : Runs ((setAside ends).run c) t (c.setAside ends) t := by
    unfold Runs setAside
    rw [StateT.run_bind, StateT.run_get, pure_bind]
    cases c.setAside ends <;> rfl
  constructor
  · exact fun h => h.unique ran
  · rintro ⟨rfl, rfl⟩
    exact ran

/-- Setting tokens aside stops exactly before the first of them that ends them. It succeeds with a run that is not
empty, from whose brackets nothing is left open or closed too often, which does not go past the end of the
input and before no shorter part of which a token outside of brackets ends it. If no tokens are such a run, it
is refused at the token that stopped it. The symbol table stays as it is. -/
theorem setAside_is_exact (ends : List TokenKind) (c : Cursor) (t : SymbolTable)
    (final : c.stop.kind = .endOfInput) :
    (∀ f c' t', Runs ((setAside ends).run c) t (.ok (f, c')) t' ↔ c.SetsAside ends f c' ∧ t' = t) ∧
    ((∀ f c', ¬ c.SetsAside ends f c') → ∃ passed s, c.StopsAt ends passed s ∧
      Runs ((setAside ends).run c) t
        (.error { cause := .unexpected s.text, position := s.span.start }) t) := by
  refine ⟨fun f c' t' => ?_, fun none => ?_⟩
  · rw [runs_setAside, eq_comm, Cursor.setAside_eq_ok_iff_setsAside]
  · cases outcome : c.setAside ends with
    | ok out => exact absurd (Cursor.setAside_eq_ok_iff_setsAside.mp outcome) (none out.1 out.2)
    | error d =>
      obtain ⟨passed, s, stops, points⟩ := Cursor.stopsAt_of_setAside final outcome
      exact ⟨passed, s, stops, runs_setAside.mpr ⟨by rw [outcome, points], rfl⟩⟩

/-- Before the tokens of a text. -/
def atFrontOf (text : String) : Cursor := .ofTokens ((Token.scan text.toList "shell").toOption.getD [])

/-- Semicolons inside of brackets end nothing, and a bracket that is not open is not closed. -/
theorem setAside_is_exact_grouped :
    (atFrontOf "(1; [2;]); x").stop.kind = .endOfInput ∧ (atFrontOf "1);").stop.kind = .endOfInput ∧
    (∃ f c', f.text = "( 1 ; [ 2 ; ] )" ∧ c'.position = ⟨9, "shell"⟩ ∧
      (atFrontOf "(1; [2;]); x").SetsAside [.mark .semicolon] f c') ∧
    ∃ passed s, (atFrontOf "1);").StopsAt [.mark .semicolon] passed s ∧ s.span.start = ⟨1, "shell"⟩ := by
  have first : (atFrontOf "(1; [2;]); x").stop.kind = .endOfInput := by decide +kernel
  have second : (atFrontOf "1);").stop.kind = .endOfInput := by decide +kernel
  have ran : ((atFrontOf "(1; [2;]); x").setAside [.mark .semicolon]).toOption.map
      (fun out => (out.1.text, out.2.position)) = some ("( 1 ; [ 2 ; ] )", ⟨9, "shell"⟩) := by
    decide +kernel
  have refused : (atFrontOf "1);").setAside [.mark .semicolon] =
      .error { cause := .unexpected ")", position := ⟨1, "shell"⟩ } := by
    decide +kernel
  obtain ⟨⟨f, c'⟩, taken, found⟩ := map_toOption_eq_some_iff.mp ran
  obtain ⟨text, place⟩ := Prod.mk.inj found
  obtain ⟨aside, -⟩ := ((setAside_is_exact [.mark .semicolon] _ .empty first).1 f c' .empty).mp
    (runs_setAside.mpr ⟨taken.symm, rfl⟩)
  obtain ⟨succeeds, fails⟩ := setAside_is_exact [.mark .semicolon] _ .empty second
  have points : Runs ((setAside [.mark .semicolon]).run (atFrontOf "1);")) .empty _ .empty :=
    runs_setAside.mpr ⟨refused.symm, rfl⟩
  obtain ⟨passed, s, stops, run⟩ := fails fun f c' aside => by
    cases (((succeeds f c' .empty).mpr ⟨aside, rfl⟩).unique points).1
  have same := Except.error.inj (run.unique points).1
  exact ⟨first, second, ⟨f, c', text, place, aside⟩, passed, s, stops, congrArg Diagnostic.position same⟩

end Reader

end Deferral
