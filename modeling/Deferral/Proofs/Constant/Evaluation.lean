import Deferral.Proofs.Constant.Settling

/-!
# Runs of evaluation

Evaluating an expression settles the constants it reads, and ends in the value that the expression
has once these are known. Types are resolved the same way, since their extents are evaluated.
-/

namespace Deferral

open Resolution SymbolTable

/-- What evaluation asks of the way constants are bound: a run on a constant settles constants,
keeps the declared types that wait for it, and if it ends well the constant has a value. -/
structure Binds (bind : DeclId → Resolution Unit) : Prop where
  settles : ∀ {id : DeclId} {t t' : SymbolTable} {r : Except Diagnostic Unit}, t.Sound →
    (t.decl id).isConstant = true → Runs (bind id) t r t' → Settles none t t'
  shields : ∀ {id : DeclId} {t t' : SymbolTable} {r : Except Diagnostic Unit}, t.Sound →
    (t.decl id).isConstant = true → Runs (bind id) t r t' → Shields [id] t t'
  known : ∀ {id : DeclId} {t t' : SymbolTable}, t.Sound → (t.decl id).isConstant = true →
    Runs (bind id) t (.ok ()) t' → (t'.constant? id).isSome = true

/-- What a run of evaluation does. -/
structure Evaluated (e : Expr) (t : SymbolTable) (r : Except Diagnostic Constant)
    (t' : SymbolTable) : Prop where
  settles : Settles none t t'
  shields : Shields e.constantNames t t'
  value : ∀ v, r = .ok v → e.value? t'.constant? = some v

namespace Expr

variable {bind : DeclId → Resolution Unit} {t t' : SymbolTable}

theorem runs_computed {span : Span} {x : Except EvaluationFault Constant}
    {r : Except Diagnostic Constant} (h : Runs (computed span x) t r t') :
    t' = t ∧ ∀ v, r = .ok v → x.toOption = some v := by
  cases x with
  | ok c =>
    obtain ⟨rfl, rfl⟩ := runs_pure.mp h
    exact ⟨rfl, fun v same => by simpa [Except.toOption] using Except.ok.inj same⟩
  | error fault =>
    obtain ⟨rfl, rfl⟩ := runs_fail.mp h
    exact ⟨rfl, fun v same => by cases same⟩

theorem runs_truth {span : Span} {c : Constant} {r : Except Diagnostic Bool}
    (h : Runs (truth span c) t r t') : t' = t ∧ ∀ b, r = .ok b → c.truth? = some b := by
  cases c with
  | boolean b =>
    obtain ⟨rfl, rfl⟩ := runs_pure.mp h
    exact ⟨rfl, fun v same => by simpa [Constant.truth?] using Except.ok.inj same⟩
  | integer _ =>
    obtain ⟨rfl, rfl⟩ := runs_fail.mp h
    exact ⟨rfl, fun v same => by cases same⟩
  | float _ =>
    obtain ⟨rfl, rfl⟩ := runs_fail.mp h
    exact ⟨rfl, fun v same => by cases same⟩

theorem runs_evaluateName (binds : Binds bind) (sound : t.Sound) {d : DeclId} {name : String}
    {type : Ty} {span : Span} {r : Except Diagnostic Constant}
    (h : Runs (evaluateName bind d name span) t r t') :
    Evaluated ⟨.name d name, type, span⟩ t r t' := by
  -- Looking up the value changes nothing more.
  have look : ∀ {s s' : SymbolTable} {r : Except Diagnostic Constant}
      {valueOf : Option Constant → Resolution Constant},
      Runs (Resolution.look (·.constant? d) >>= valueOf) s r s' →
      (∀ c, valueOf (some c) = pure c) →
      valueOf none = notEvaluable (.notConstant name) span →
      s' = s ∧ ∀ v, r = .ok v → s.constant? d = some v := by
    intro s s' r valueOf run known unknown
    rw [runs_bind_look] at run
    cases stored : s.constant? d with
    | some c =>
      rw [stored, known] at run
      obtain ⟨rfl, rfl⟩ := runs_pure.mp run
      exact ⟨rfl, fun v same => by rw [Except.ok.inj same]⟩
    | none =>
      rw [stored, unknown] at run
      obtain ⟨rfl, rfl⟩ := runs_fail.mp run
      exact ⟨rfl, fun v same => by cases same⟩
  unfold evaluateName at h
  rw [runs_bind_look] at h
  split at h
  · rename_i constant
    rcases runs_bind.mp h with ⟨fault, bound, rfl⟩ | ⟨_, t₁, bound, h⟩
    · exact ⟨binds.settles sound constant bound, binds.shields sound constant bound,
        fun v same => by cases same⟩
    · obtain ⟨rfl, value⟩ := look h (fun _ => rfl) rfl
      exact ⟨binds.settles sound constant bound, binds.shields sound constant bound, value⟩
  · rcases runs_bind.mp h with ⟨_, done, -⟩ | ⟨_, _, done, h⟩
    · cases (runs_pure.mp done).1
    obtain ⟨-, rfl⟩ := runs_pure.mp done
    obtain ⟨rfl, value⟩ := look h (fun _ => rfl) rfl
    exact ⟨.refl none _, .refl _ _, value⟩

/-- A run that ends at its first part. -/
theorem faulted_of_part {e e' : Expr} {d : Diagnostic}
    (h : Evaluated e' t (.error d) t') (names : ∃ rest, e.constantNames = e'.constantNames ++ rest) :
    Evaluated e t (.error d) t' := by
  obtain ⟨rest, names⟩ := names
  refine ⟨h.settles, fun id awaits => ?_, fun v same => by cases same⟩
  exact h.shields id fun c member => awaits c (by simp [names, member])

theorem runs_evaluateWith (binds : Binds bind) : ∀ (e : Expr) {t t' : SymbolTable}
    {r : Except Diagnostic Constant}, t.Sound → Runs (e.evaluateWith bind) t r t' →
    Evaluated e t r t'
  | ⟨.deferred _, _, _⟩, _, _, _, _, h => by
    obtain ⟨rfl, rfl⟩ := runs_fail.mp h
    exact ⟨.refl none _, .refl _ _, fun v same => by cases same⟩
  | ⟨.boolean _, _, _⟩, _, _, _, _, h | ⟨.integer _, _, _⟩, _, _, _, _, h
  | ⟨.float _, _, _⟩, _, _, _, _, h => by
    obtain ⟨rfl, rfl⟩ := runs_pure.mp h
    exact ⟨.refl none _, .refl _ _, fun v same => congrArg some (Except.ok.inj same)⟩
  | ⟨.name _ _, _, _⟩, _, _, _, sound, h => runs_evaluateName binds sound h
  | ⟨.unary op e, type, _⟩, _, _, _, sound, h => by
    rcases runs_bind.mp h with ⟨fault, operand, rfl⟩ | ⟨c, t₁, operand, h⟩
    · exact faulted_of_part (runs_evaluateWith binds e sound operand) ⟨[], by simp [constantNames]⟩
    obtain ⟨settles, shields, value⟩ := runs_evaluateWith binds e sound operand
    obtain ⟨rfl, result⟩ := runs_computed h
    exact ⟨settles, shields, fun v same =>
      Option.bind_eq_some_iff.mpr ⟨c, value c rfl, result v same⟩⟩
  | ⟨.converted conversion e, type, _⟩, _, _, _, sound, h => by
    rcases runs_bind.mp h with ⟨fault, operand, rfl⟩ | ⟨c, t₁, operand, h⟩
    · exact faulted_of_part (runs_evaluateWith binds e sound operand) ⟨[], by simp [constantNames]⟩
    obtain ⟨settles, shields, value⟩ := runs_evaluateWith binds e sound operand
    obtain ⟨rfl, result⟩ := runs_computed h
    exact ⟨settles, shields, fun v same =>
      Option.bind_eq_some_iff.mpr ⟨c, value c rfl, result v same⟩⟩
  | ⟨.binary (.arithmetic _) left right, _, _⟩, _, _, _, sound, h
  | ⟨.binary (.comparison _) left right, _, _⟩, _, _, _, sound, h => by
    rcases runs_bind.mp h with ⟨fault, first, rfl⟩ | ⟨l, t₁, first, h⟩
    · exact faulted_of_part (runs_evaluateWith binds left sound first) ⟨_, rfl⟩
    obtain ⟨settles, shields, valueLeft⟩ := runs_evaluateWith binds left sound first
    rcases runs_bind.mp h with ⟨fault, second, rfl⟩ | ⟨r, t₂, second, h⟩
    · have rest := runs_evaluateWith binds right (settles.sound sound) second
      exact ⟨settles.trans rest.settles, shields.append settles rest.shields,
        fun v same => by cases same⟩
    obtain ⟨settles', shields', valueRight⟩ :=
      runs_evaluateWith binds right (settles.sound sound) second
    obtain ⟨rfl, result⟩ := runs_computed h
    exact ⟨settles.trans settles', shields.append settles shields', fun v same =>
      Option.bind_eq_some_iff.mpr ⟨l, settles'.value? (valueLeft l rfl),
        Option.bind_eq_some_iff.mpr ⟨r, valueRight r rfl, result v same⟩⟩⟩
  | ⟨.binary (.connective op) left right, _, _⟩, _, _, _, sound, h => by
    rcases runs_bind.mp h with ⟨fault, first, rfl⟩ | ⟨c, t₁, first, h⟩
    · exact faulted_of_part (runs_evaluateWith binds left sound first) ⟨_, rfl⟩
    obtain ⟨settles, shields, valueLeft⟩ := runs_evaluateWith binds left sound first
    have leftOnly : Shields (left.constantNames ++ right.constantNames) _ t₁ :=
      shields.append settles (.refl _ _)
    rcases runs_bind.mp h with ⟨fault, truth, rfl⟩ | ⟨l, t₂, truth, rest⟩
    · obtain ⟨rfl, -⟩ := runs_truth truth
      exact ⟨settles, leftOnly, fun v same => by cases same⟩
    obtain ⟨rfl, truthLeft⟩ := runs_truth truth
    split at rest
    · rename_i decided
      obtain ⟨rfl, rfl⟩ := runs_pure.mp rest
      refine ⟨settles, leftOnly, fun v same => ?_⟩
      refine Option.bind_eq_some_iff.mpr ⟨c, valueLeft c rfl, ?_⟩
      refine Option.bind_eq_some_iff.mpr ⟨l, truthLeft l rfl, ?_⟩
      rw [if_pos decided]
      exact congrArg some (Except.ok.inj same)
    rename_i undecided
    rcases runs_bind.mp rest with ⟨fault, second, rfl⟩ | ⟨c', t₃, second, rest⟩
    · have right := runs_evaluateWith binds right (settles.sound sound) second
      exact ⟨settles.trans right.settles, shields.append settles right.shields,
        fun v same => by cases same⟩
    obtain ⟨settles', shields', valueRight⟩ :=
      runs_evaluateWith binds right (settles.sound sound) second
    rcases runs_bind.mp rest with ⟨fault, truth, rfl⟩ | ⟨r, t₄, truth, last⟩
    · obtain ⟨rfl, -⟩ := runs_truth truth
      exact ⟨settles.trans settles', shields.append settles shields', fun v same => by cases same⟩
    obtain ⟨rfl, truthRight⟩ := runs_truth truth
    obtain ⟨rfl, rfl⟩ := runs_pure.mp last
    refine ⟨settles.trans settles', shields.append settles shields', fun v same => ?_⟩
    refine Option.bind_eq_some_iff.mpr ⟨c, settles'.value? (valueLeft c rfl), ?_⟩
    refine Option.bind_eq_some_iff.mpr ⟨l, truthLeft l rfl, ?_⟩
    rw [if_neg undecided]
    refine Option.bind_eq_some_iff.mpr ⟨c', valueRight c' rfl, ?_⟩
    exact Option.bind_eq_some_iff.mpr ⟨r, truthRight r rfl, congrArg some (Except.ok.inj same)⟩
  | ⟨.call _ _, _, _⟩, _, _, _, _, h | ⟨.assign _ _, _, _⟩, _, _, _, _, h => by
    obtain ⟨rfl, rfl⟩ := runs_fail.mp h
    exact ⟨.refl none _, .refl _ _, fun v same => by cases same⟩

end Expr

/-! ## Types -/

/-- What a run that resolves a type does whose extents read the constants `ds`: it cannot end well
while one of these is being computed. -/
structure Resolved (ds : List DeclId) (t : SymbolTable) (r : Except Diagnostic Ty)
    (t' : SymbolTable) : Prop where
  settles : Settles none t t'
  shields : Shields ds t t'
  normal : ∀ type, r = .ok type → type.Normal
  known : ∀ type, r = .ok type → ∀ c, t.Pending c → c ∉ ds

theorem Resolved.of_same {ds : List DeclId} {t : SymbolTable} {r : Except Diagnostic Ty}
    (normal : ∀ type, r = .ok type → type.Normal)
    (known : ∀ type, r = .ok type → ds = []) : Resolved ds t r t :=
  ⟨.refl none t, .refl ds t, normal, fun type same c _ => by simp [known type same]⟩

theorem Resolved.of_fault {ds : List DeclId} {t t' : SymbolTable} {d : Diagnostic}
    (settles : Settles none t t') (shields : Shields ds t t') : Resolved ds t (.error d) t' :=
  ⟨settles, shields, fun _ same => (by cases same), fun _ same => (by cases same)⟩

/-- Building around a type that has been resolved. -/
theorem Resolved.map {ds : List DeclId} {t t' : SymbolTable} {r : Except Diagnostic Ty}
    (h : Resolved ds t r t') {f : Ty → Ty} (normal : ∀ type, type.Normal → (f type).Normal) :
    Resolved ds t (r.map f) t' := by
  refine ⟨h.settles, h.shields, fun type same => ?_, fun type same => ?_⟩
  · cases r with
    | error d => cases same
    | ok inner => exact Except.ok.inj same ▸ normal inner (h.normal inner rfl)
  · cases r with
    | error d => cases same
    | ok inner => exact h.known inner rfl

namespace SymbolTable

theorem normal_of_namedType {t : SymbolTable} {token : Token} {type : Ty}
    (h : t.namedType token = .ok type) : type.Normal := by
  unfold namedType at h
  split at h
  · rename_i builtin
    exact Except.ok.inj h ▸ Ty.normal_of_builtin? builtin
  · obtain ⟨set, -, h⟩ := bind_eq_ok_iff.mp h
    split at h
    · rename_i found
      obtain rfl := Except.ok.inj h
      unfold typeOf? at found
      split at found
      · exact Option.some.inj found ▸ trivial
      split at found
      · exact Option.some.inj found ▸ trivial
      · obtain ⟨id, -, rfl⟩ := Option.map_eq_some_iff.mp found
        trivial
    · cases h

end SymbolTable

namespace TypePhrase

variable {bind : DeclId → Resolution Unit} {t t' : SymbolTable}

theorem normal_ofDecltype {e : Expr} (h : e.Normal) : (ofDecltype e).Normal := by
  unfold ofDecltype
  split
  · rename_i dependent
    exact ⟨h, dependent⟩
  · exact h.type

theorem runs_typedIn {e : Phrase} {r : Except Diagnostic Expr} :
    Runs (typedIn e) t r t' ↔ r = e.typed t ∧ t' = t := by
  unfold typedIn
  rw [runs_bind_get, runs_ofExcept]

theorem runs_arrayOf {element : Ty} {extent : Constant} {position : Position}
    {r : Except Diagnostic Ty} (h : Runs (arrayOf element extent position) t r t') :
    t' = t ∧ ∀ type, r = .ok type →
      ∃ n : Nat, extent = .integer n ∧ type = .array element n := by
  unfold arrayOf at h
  split at h
  · obtain ⟨rfl, rfl⟩ := runs_pure.mp h
    exact ⟨rfl, fun type same => ⟨_, rfl, (Except.ok.inj same).symm⟩⟩
  · obtain ⟨rfl, rfl⟩ := runs_fail.mp h
    exact ⟨rfl, fun type same => by cases same⟩

theorem runs_resolved (binds : Binds bind) : ∀ (phrase : TypePhrase) {t t' : SymbolTable}
    {r : Except Diagnostic Ty}, t.Sound → Runs (phrase.resolved bind) t r t' →
    Resolved (phrase.constantNames t) t r t'
  | .name token, _, _, _, _, h => by
    obtain ⟨rfl, rfl⟩ := runs_ofExcept.mp (runs_bind_get.mp h)
    exact .of_same (fun type found => normal_of_namedType found) fun _ _ => rfl
  | .auto, _, _, _, _, h | .decltypeAuto, _, _, _, _, h => by
    obtain ⟨rfl, rfl⟩ := runs_pure.mp h
    exact .of_same (fun type same => Except.ok.inj same ▸ trivial) fun _ _ => rfl
  | .decltype e, _, _, _, sound, h => by
    obtain ⟨typed, run, rfl⟩ := runs_map.mp h
    obtain ⟨rfl, rfl⟩ := runs_typedIn.mp run
    refine .of_same (fun type same => ?_) fun _ _ => rfl
    cases typed : e.typed _ with
    | error d => rw [typed] at same; cases same
    | ok e' =>
      rw [typed] at same
      obtain rfl := Except.ok.inj same
      exact normal_ofDecltype (Phrase.wellTyped_of_typed sound.normalUses e e' typed).normal
  | .qualified inner q, _, _, _, sound, h => by
    obtain ⟨r, run, rfl⟩ := runs_map.mp h
    exact (runs_resolved binds inner sound run).map fun _ normal => normal.addQualifiers q
  | .pointer target, _, _, _, sound, h => by
    obtain ⟨r, run, rfl⟩ := runs_map.mp h
    exact (runs_resolved binds target sound run).map fun _ normal => normal
  | .reference target, _, _, _, sound, h => by
    obtain ⟨r, run, rfl⟩ := runs_map.mp h
    exact (runs_resolved binds target sound run).map fun _ normal => normal.toReference
  | .sequence element, _, _, _, sound, h => by
    obtain ⟨r, run, rfl⟩ := runs_map.mp h
    exact (runs_resolved binds element sound run).map fun _ normal => normal
  | .array element extent, t, t', _, sound, h => by
    rcases runs_bind.mp h with ⟨fault, first, rfl⟩ | ⟨type, t₁, first, rest⟩
    · obtain ⟨settles, shields, -, -⟩ := runs_resolved binds element sound first
      exact .of_fault settles (shields.append settles (.refl _ _))
    obtain ⟨settles, shields, normal, known⟩ := runs_resolved binds element sound first
    have sound₁ := settles.sound sound
    rcases runs_bind.mp rest with ⟨fault, second, rfl⟩ | ⟨e, t₂, second, evaluate⟩
    · obtain ⟨-, rfl⟩ := runs_typedIn.mp second
      exact .of_fault settles (shields.append settles (.refl _ _))
    obtain ⟨typed, rfl⟩ := runs_typedIn.mp second
    -- The extent reads what its phrase reads, before and after the element has been resolved.
    have reads := Phrase.reads_of_typed extent e typed.symm
    rw [Phrase.constantNames_congr settles.named?] at reads
    have well := Phrase.wellTyped_of_typed sound₁.normalUses extent e typed.symm
    rcases runs_bind.mp evaluate with ⟨fault, third, rfl⟩ | ⟨v, t₃, third, last⟩
    · obtain ⟨settles', shields', -⟩ := Expr.runs_evaluateWith binds e sound₁ third
      rw [reads.names] at shields'
      exact .of_fault (settles.trans settles') (shields.append settles shields')
    obtain ⟨settles', shields', value⟩ := Expr.runs_evaluateWith binds e sound₁ third
    rw [reads.names] at shields'
    obtain ⟨rfl, array⟩ := runs_arrayOf last
    refine ⟨settles.trans settles', shields.append settles shields', fun array' same => ?_,
      fun array' same c pending member => ?_⟩
    · obtain ⟨n, -, rfl⟩ := array array' same
      exact normal type rfl
    · obtain ⟨n, rfl, -⟩ := array array' same
      rcases List.mem_append.mp member with member | member
      · exact known type rfl c pending member
      · have unknown := settles'.pending c (settles.pending_of pending)
        rw [← reads.names] at member
        obtain ⟨⟨b, truth⟩, -⟩ := Expr.truth_of_unknown unknown well reads.direct member
          (value _ rfl)
        cases truth

/-- What a run does that reads a type from some tokens. -/
structure Read (tokens : List Token) (t : SymbolTable) (r : Except Diagnostic Ty)
    (t' : SymbolTable) : Prop where
  settles : Settles none t t'
  shields : ∀ phrase, ofTokens tokens = .ok phrase → Shields (phrase.constantNames t) t t'
  normal : ∀ type, r = .ok type → type.Normal
  known : ∀ type, r = .ok type → ∃ phrase, ofTokens tokens = .ok phrase ∧ ∀ c, t.Pending c →
    c ∉ phrase.constantNames t

theorem runs_check (binds : Binds bind) (sound : t.Sound) {part : TypePart}
    {r : Except Diagnostic Unit} (h : Runs (check bind part) t r t') : Settles none t t' := by
  cases part with
  | type phrase =>
    obtain ⟨r, run, -⟩ := runs_map.mp h
    exact (runs_resolved binds phrase sound run).settles
  | expression e =>
    obtain ⟨r, run, -⟩ := runs_map.mp h
    obtain ⟨-, rfl⟩ := runs_typedIn.mp run
    exact .refl none _

theorem runs_checks (binds : Binds bind) : ∀ (parts : List TypePart) {t t' : SymbolTable}
    {r : Except Diagnostic PUnit}, t.Sound → Runs (parts.forM (check bind)) t r t' →
    Settles none t t'
  | [], _, _, _, _, h => by
    obtain ⟨-, rfl⟩ := runs_pure.mp h
    exact .refl none _
  | part :: rest, _, _, _, sound, h => by
    rcases runs_bind.mp h with ⟨fault, first, -⟩ | ⟨_, t₁, first, h⟩
    · exact runs_check binds sound first
    have settles := runs_check binds sound first
    exact settles.trans (runs_checks binds rest (settles.sound sound) h)

theorem runs_typeOf (binds : Binds bind) (sound : t.Sound) {tokens : List Token}
    {r : Except Diagnostic Ty} (h : Runs (typeOf bind tokens) t r t') : Read tokens t r t' := by
  unfold typeOf at h
  split at h
  · rename_i phrase read
    have resolved := runs_resolved binds phrase sound h
    refine ⟨resolved.settles, fun phrase' read' => ?_, resolved.normal,
      fun type same => ⟨phrase, read, resolved.known type same⟩⟩
    rw [read] at read'
    exact Except.ok.inj read' ▸ resolved.shields
  · rename_i broken read
    have unread : ∀ phrase, ofTokens tokens ≠ .ok phrase := fun phrase read' => by
      rw [read] at read'
      cases read'
    have settles : Settles none t t' ∧ ∀ type, r ≠ .ok type := by
      rcases runs_bind.mp h with ⟨fault, checked, rfl⟩ | ⟨_, t₁, checked, h⟩
      · exact ⟨runs_checks binds broken.parts sound checked, fun _ same => (by cases same)⟩
      · obtain ⟨rfl, rfl⟩ := runs_throw.mp h
        exact ⟨runs_checks binds broken.parts sound checked, fun _ same => by cases same⟩
    exact ⟨settles.1, fun phrase read' => absurd read' (unread phrase),
      fun type same => absurd same (settles.2 type), fun type same => absurd same (settles.2 type)⟩

end TypePhrase

end Deferral
