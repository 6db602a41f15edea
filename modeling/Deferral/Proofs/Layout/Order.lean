import Deferral.Proofs.Layout.SecondPass
import Deferral.Proofs.Layout.Source
import Deferral.Proofs.Safety.NoInternalFault

/-!
# Diagnostics and the source

Whatever is at fault in a source is reported where one of its tokens starts, and what is found outside
constants and extensions in the order of the source. A constant is defined where it is first needed, and the
members of an extension are resolved with those of its class, so that what is at fault in them may be
reported out of turn.
-/

namespace Deferral

open SymbolTable Layout

/-! ## Passes over one source -/

/-- A table that comes of passes over a unit that has been read, and over what has come of it, and the units
that have come of it. -/
inductive SourceUnit.Worked (u : SourceUnit) (t : SymbolTable) : SymbolTable → List SourceUnit → Prop
  | read : Worked u t t [u]
  | signatures {t₁ t₂ : SymbolTable} {us : List SourceUnit} {v v' : SourceUnit}
      {reported : List Diagnostic} : Worked u t t₁ us → v ∈ us →
      v.resolveSignatures.run t₁ = ((v', reported), t₂) → Worked u t t₂ (v' :: us)
  | definitions {t₁ t₂ : SymbolTable} {us : List SourceUnit} {v v' : SourceUnit}
      {reported : List Diagnostic} : Worked u t t₁ us → v ∈ us →
      v.resolveDefinitions.run t₁ = ((v', reported), t₂) → Worked u t t₂ (v' :: us)

namespace SourceUnit

variable {u v : SourceUnit} {t t₁ : SymbolTable} {us : List SourceUnit} {L : Layout} {hi : Nat}

theorem Worked.reached (h : Worked u t t₁ us) (read : Reached t [u]) : Reached t₁ us := by
  induction h with
  | read => exact read
  | signatures _ member run ih => exact ih.signatures member run
  | definitions _ member run ih => exact ih.definitions member run

/-- Passes keep the table and the units of a source laid out. -/
theorem Worked.laid (h : Worked u t t₁ us) (laid : t.LaidOut L)
    (lies : Stmt.AllLieIn L t.decls.size 0 hi u.body) :
    t₁.LaidOut L ∧ ∀ v ∈ us, Stmt.AllLieIn L t₁.decls.size 0 hi v.body := by
  induction h with
  | read => exact ⟨laid, List.forall_mem_singleton.mpr lies⟩
  | @signatures _ _ _ v _ _ _ member run ih =>
    obtain ⟨stays, body, -⟩ := lists_resolveSignatures ih.1 (Nat.zero_le hi) (ih.2 v member) run
    exact ⟨stays.laid, List.forall_mem_cons.mpr ⟨body, fun w member =>
      (ih.2 w member).mono stays.size (.refl L 0 hi) (Nat.zero_le hi)⟩⟩
  | @definitions _ _ _ v _ _ _ member run ih =>
    obtain ⟨stays, body, -⟩ := lists_resolveDefinitions ih.1 (Nat.zero_le hi) (ih.2 v member) run
    exact ⟨stays.laid, List.forall_mem_cons.mpr ⟨body, fun w member =>
      (ih.2 w member).mono stays.size (.refl L 0 hi) (Nat.zero_le hi)⟩⟩

/-- What one pass reports comes of the source, in its order. -/
structure ReportsFrom (L : Layout) (hi : Nat) (reported : List Diagnostic) : Prop where
  lists : L.Lists 0 hi reported
  external : ∀ d ∈ reported, d.cause.isInternal = false

/-- Each pass over what has come of a source reports what comes of the source. -/
theorem Worked.reports (h : Worked u t t₁ us) (read : Reached t [u]) (laid : t.LaidOut L)
    (lies : Stmt.AllLieIn L t.decls.size 0 hi u.body) (member : v ∈ us) :
    ReportsFrom L hi (v.resolveSignatures.run t₁).1.2 ∧
      ReportsFrom L hi (v.resolveDefinitions.run t₁).1.2 := by
  obtain ⟨furnished, -, known⟩ := (h.reached read).furnished
  obtain ⟨laid, lie⟩ := h.laid laid lies
  obtain ⟨-, -, lists₁⟩ := lists_resolveSignatures laid (Nat.zero_le hi) (lie v member) rfl
  obtain ⟨-, -, lists₂⟩ := lists_resolveDefinitions laid (Nat.zero_le hi) (lie v member) rfl
  obtain ⟨-, -, sane₁⟩ := safe_resolveSignatures furnished (known v member) rfl
  obtain ⟨-, -, sane₂⟩ := safe_resolveDefinitions furnished (known v member) rfl
  exact ⟨⟨lists₁, sane₁⟩, lists₂, sane₂⟩

end SourceUnit

/-! ## Places -/

/-- A diagnostic is about names, types and values, and points to a token of the source: if it is about an
excerpt, to the first token of one that was captured when the source was read. -/
structure Diagnostic.PointsInto (d : Diagnostic) (tokens : List Token) (captured : Excerpt → Prop) : Prop where
  meant : d.cause.isGrammatical = false
  token : ∃ t ∈ tokens, d.position = t.span.start
  excerpt : ∀ what detail, d.cause = .badExcerpt what detail →
    ∃ f, captured f ∧ ∃ first rest, f.tokens = first :: rest ∧ d.position = first.span.start

theorem Cause.isGrammatical_of_isPlain {cause : Cause} (h : cause.isPlain = true) :
    cause.isGrammatical = false := by
  cases cause <;> first | rfl | cases h

theorem Layout.Admits.pointsInto {t : SymbolTable} {tokens : List Token} {P : Excerpt → Prop} {lo hi : Nat}
    {d : Diagnostic} (h : ((t.layout tokens).holding P).Admits lo hi d)
    (external : d.cause.isInternal = false) : d.PointsInto tokens P := by
  obtain ⟨token, member, start⟩ := (h.within external).1
  have place : ∃ t ∈ tokens, d.position = t.span.start := ⟨token, member, start.symm⟩
  cases h with
  | internal broken =>
    rw [broken] at external
    cases external
  | plain h =>
    refine ⟨Cause.isGrammatical_of_isPlain h.plain, place, fun what detail same => ?_⟩
    have plain := h.plain
    rw [same] at plain
    cases plain
  | excerpt f cause captured same within =>
    obtain ⟨what, detail, is⟩ := cause
    obtain ⟨⟨first, rest, tokens, start⟩, held⟩ := captured
    exact ⟨by rw [is]; rfl, place, fun _ _ _ => ⟨f, held, first, rest, tokens, same.trans start⟩⟩

/-- All tokens of a source are in its file. -/
theorem Token.file_of_scan {source : List Char} {file : String} {tokens : List Token}
    (scanned : Token.scan source file = .ok tokens) : ∀ t ∈ tokens, t.span.start.file = file := by
  have lossless := Token.scan_lossless source file
  rw [scanned] at lossless
  obtain ⟨body, rfl, inside⟩ := lossless.closed
  intro t member
  rcases List.mem_append.mp member with member | last
  · obtain ⟨p, front, text, behind, -, -, span, -⟩ := inside t member
    rw [span]
  · rw [List.mem_singleton.mp last]
    rfl

namespace SourceUnit

variable {source : List Char} {file : String} {tokens : List Token}

/-- Whatever cannot be read of a source fails at one of its tokens, in whatever table, and whatever passes
report over a source that has been read points to one of them, in the file of the source. -/
theorem diagnostics_point_into_source (scanned : Token.scan source file = .ok tokens) :
    (∀ t d t', (read tokens).run.run t = (.error d, t') → ∃ token ∈ tokens, d.position = token.span.start) ∧
    ∀ u t, (read tokens).run.run .empty = (.ok u, t) → ∀ t₁ us, Worked u t t₁ us → ∀ v ∈ us,
      ∀ d ∈ (v.resolve.run t₁).1.2, d.PointsInto tokens (u.Captures t) ∧ d.position.file = file ∧
        (file ≠ Position.nowhere.file → d.position ≠ .nowhere) := by
  constructor
  · intro t d t' failed
    obtain ⟨token, member, start⟩ := position_of_read (Cursor.inOrder_ofTokens scanned).2 failed
    exact ⟨token, member, start.symm⟩
  · intro u t read t₁ us worked v member d reported
    obtain ⟨laid, hi, lies⟩ := laidOut_read scanned read
    have reached := Reached.empty.read read
    obtain ⟨⟨⟨v₁, first⟩, t₂⟩, run₁⟩ : ∃ out, v.resolveSignatures.run t₁ = out := ⟨_, rfl⟩
    obtain ⟨⟨⟨v₂, second⟩, t₃⟩, run₂⟩ : ∃ out, v₁.resolveDefinitions.run t₂ = out := ⟨_, rfl⟩
    have reports₁ := (worked.reports reached laid lies member).1
    have reports₂ := ((worked.signatures member run₁).reports reached laid lies (List.mem_cons_self ..)).2
    rw [run₁] at reports₁
    rw [run₂] at reports₂
    rw [run_resolve run₁ run₂] at reported
    have points : d.PointsInto tokens (u.Captures t) := by
      rcases List.mem_append.mp reported with inside | inside
      · exact (reports₁.lists.admits d inside).pointsInto (reports₁.external d inside)
      · exact (reports₂.lists.admits d inside).pointsInto (reports₂.external d inside)
    obtain ⟨token, inSource, start⟩ := points.token
    have sameFile : d.position.file = file := by rw [start, Token.file_of_scan scanned token inSource]
    exact ⟨points, sameFile, fun ne same => ne (by rw [← sameFile, same])⟩

/-- A type that nothing is called, and an initializer that breaks off. -/
def brokenInitializer : List Char := "var a: Missing; var b: int32 = 1 + ;".toList

theorem diagnostics_point_into_brokenInitializer : ∃ tokens u t,
    Token.scan brokenInitializer "broken" = .ok tokens ∧ (read tokens).run.run .empty = (.ok u, t) ∧
    (u.resolve.run t).1.2.map (fun d => (d.cause.name, d.position.offset)) =
      [("NameError", 7), ("SyntaxError", 31)] ∧
    ∀ d ∈ (u.resolve.run t).1.2, d.PointsInto tokens (u.Captures t) ∧ d.position.file = "broken" ∧
      ("broken" ≠ Position.nowhere.file → d.position ≠ .nowhere) := by
  have ran : (Token.scan brokenInitializer "broken").toOption.map (fun tokens =>
      seen? tokens .empty fun u t => (u.resolve.run t).1.2.map fun d => (d.cause.name, d.position.offset)) =
        some (some [("NameError", 7), ("SyntaxError", 31)]) := by
    unfold brokenInitializer
    rewrite [String.toList_ofList]
    decide +kernel
  obtain ⟨tokens, scanned, ran⟩ := map_toOption_eq_some_iff.mp ran
  obtain ⟨u, t, accepted, seen⟩ := exists_of_seen? ran
  exact ⟨tokens, u, t, scanned, accepted, seen, (diagnostics_point_into_source scanned).2 u t accepted t [u]
    .read u (List.mem_singleton_self u)⟩

/-- Whatever a pass over a source reports outside constants and extensions comes in the order of the
source. -/
theorem faults_follow_source {u v : SourceUnit} {t t₁ : SymbolTable} {us : List SourceUnit}
    (scanned : Token.scan source file = .ok tokens) (read : (read tokens).run.run .empty = (.ok u, t))
    (worked : Worked u t t₁ us) (member : v ∈ us) :
    let Follow := fun d d' : Diagnostic => ¬t.IsApart d.position → ¬t.IsApart d'.position →
      d.position.offset ≤ d'.position.offset
    (v.resolveSignatures.run t₁).1.2.Pairwise Follow ∧ (v.resolveDefinitions.run t₁).1.2.Pairwise Follow := by
  obtain ⟨laid, hi, lies⟩ := laidOut_read scanned read
  obtain ⟨first, second⟩ := worked.reports (Reached.empty.read read) laid lies member
  have timely {reported : List Diagnostic}
      (reports : ReportsFrom ((t.layout tokens).holding (u.Captures t)) hi reported) :
      reported.Pairwise fun d d' => ¬t.IsApart d.position → ¬t.IsApart d'.position →
        d.position.offset ≤ d'.position.offset :=
    reports.lists.order.imp_of_mem fun {d d'} here there follow outside outside' =>
      follow ⟨reports.external d here, outside⟩ ⟨reports.external d' there, outside'⟩
  exact ⟨timely first, timely second⟩

/-- Variables of types that nothing is called, one of them in an extension. -/
def lateMember : List Char :=
  "class C { } var a: Missing; extension C { var b: Gone; } var c: Lost;".toList

theorem run_lateMember : ∃ tokens u t, Token.scan lateMember "late" = .ok tokens ∧
    (read tokens).run.run .empty = (.ok u, t) ∧
    (u.resolveSignatures.run t).1.2.map (fun d => d.position.offset) = [49, 19, 64] := by
  have ran : (Token.scan lateMember "late").toOption.map (fun tokens =>
      seen? tokens .empty fun u t => (u.resolveSignatures.run t).1.2.map fun d => d.position.offset) =
        some (some [49, 19, 64]) := by
    unfold lateMember
    rewrite [String.toList_ofList]
    decide +kernel
  obtain ⟨tokens, scanned, ran⟩ := map_toOption_eq_some_iff.mp ran
  obtain ⟨u, t, accepted, seen⟩ := exists_of_seen? ran
  exact ⟨tokens, u, t, scanned, accepted, seen⟩

/-- What is at fault in the extension is reported first, and the rest in the order of the source. -/
theorem faults_follow_lateMember : ∃ tokens u t, Token.scan lateMember "late" = .ok tokens ∧
    (read tokens).run.run .empty = (.ok u, t) ∧
    (u.resolveSignatures.run t).1.2.map (fun d => d.position.offset) = [49, 19, 64] ∧
    (u.resolveSignatures.run t).1.2.Pairwise fun d d' => ¬t.IsApart d.position →
      ¬t.IsApart d'.position → d.position.offset ≤ d'.position.offset := by
  obtain ⟨tokens, u, t, scanned, accepted, offsets⟩ := run_lateMember
  exact ⟨tokens, u, t, scanned, accepted, offsets,
    (faults_follow_source scanned accepted .read (List.mem_singleton_self u)).1⟩

/-- Not all that a pass reports comes in the order of the source. -/
theorem not_in_order_lateMember : ¬∀ (source : List Char) (file : String) (tokens : List Token)
    (u : SourceUnit) (t : SymbolTable), Token.scan source file = .ok tokens →
    (read tokens).run.run .empty = (.ok u, t) →
    (u.resolveSignatures.run t).1.2.Pairwise fun d d' => d.position.offset ≤ d'.position.offset := by
  intro inOrder
  obtain ⟨tokens, u, t, scanned, accepted, offsets⟩ := run_lateMember
  have sorted := List.pairwise_map.mpr (inOrder _ _ tokens u t scanned accepted)
  rw [offsets] at sorted
  exact absurd sorted (by decide)

end SourceUnit

end Deferral
