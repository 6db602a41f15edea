import Deferral.Proofs.Extension.Shifting
import Deferral.Proofs.Reading.Accepting

/-!
# Statements behind something else

Each statement of the grammar that can be read by itself can be read in other surroundings, where it is the
same statement with shifted numbers.
-/

namespace Deferral

open SymbolTable Reader

variable {S : Surroundings} {e : Extent}

namespace Grammar

/-- A reader of statements reads the same statement in the surroundings `S`. -/
abbrev ShiftsStatement (S : Surroundings) (e : Extent) (x x' : Reader Stmt) : Prop :=
  Shifts S e (fun e₁ s s' => S.shift.Same e₁ (fun L => s.labelled L) fun L => s'.labelled L) x x'

theorem shifts_typeUpTo (ends : List TokenKind) :
    Shifts S e (fun e₁ type type' => S.shift.Same e₁ (fun L => type.labelled L.decl)
      fun L => type'.labelled L.decl) (typeUpTo ends) (typeUpTo ends) :=
  (shifts_setAside ends).map fun _ _ _ same _ _ _ => congrArg Ty.deferred same.symm

theorem shifts_expressionUpTo (ends : List TokenKind) :
    Shifts S e (fun e₁ value value' => S.shift.Same e₁ (fun L => value.labelled L.decl)
      fun L => value'.labelled L.decl) (expressionUpTo ends) (expressionUpTo ends) :=
  (shifts_setAside ends).map fun _ f f' same _ _ _ => by
    show Expr.mk (.deferred f.unplaced) _ _ = Expr.mk (.deferred f'.unplaced) _ _
    rw [same]
    rfl

theorem starved_expressionUpTo (ends : List TokenKind) : Starved (expressionUpTo ends) :=
  (starved_setAside ends).map _

theorem starved_endStatement (start : Position) : Starved (endStatement start) :=
  (starved_expect (by decide)).bind _

theorem shifts_endStatement (start start' : Position) :
    Shifts S e (fun _ _ _ => True) (endStatement start) (endStatement start') :=
  (shifts_expect (by decide)).bind fun _ _ _ _ _ => shifts_pure fun _ _ => trivial

/-- A declaration that has been read is declared, and stands as a statement. -/
theorem shifts_declaring (name : String) (kind kind' : Declared) (start start' : Position)
    (new : S.shift.Same e (fun L => kind.labelled L) fun L => kind'.labelled L)
    (empty : ∀ scope span, (Decl.mk name kind scope span).members?.getD [] = [])
    (empty' : ∀ scope span, (Decl.mk name kind' scope span).members?.getD [] = []) :
    ShiftsStatement S e
      (do
        let span ← endStatement start
        let id ← Reader.declare name kind span
        return .declaration id span)
      (do
        let span ← endStatement start'
        let id ← Reader.declare name kind' span
        return .declaration id span) := by
  refine (shifts_endStatement _ _).bind fun e₁ span span' le _ => ?_
  refine (shifts_declare kind kind' span span' (new.mono le) (empty · _) (empty' · _)).bind ?_
  rintro e₂ id _ - ⟨rfl, lt⟩
  exact shifts_pure fun e₃ le L L' agrees =>
    congrArg (Stmt.declaration · .nowhere) (agrees.held id (Nat.lt_of_lt_of_le lt le.1))

/-- The result type of a function. -/
theorem shifts_someTypeUpTo (ends : List TokenKind) :
    Shifts S e (fun e₁ type? type?' => S.shift.Same e₁ (fun L => type?.map (Ty.labelled L.decl))
      fun L => type?'.map (Ty.labelled L.decl)) (some <$> typeUpTo ends) (some <$> typeUpTo ends) :=
  (shifts_typeUpTo ends).map fun _ _ _ same => same.map some

/-- The initializer of an object, or the value that is returned. -/
theorem shifts_someExpressionUpTo (ends : List TokenKind) :
    Shifts S e (fun e₁ value? value?' => S.shift.Same e₁ (fun L => value?.map (Expr.labelled L.decl))
      fun L => value?'.map (Expr.labelled L.decl)) (some <$> expressionUpTo ends)
      (some <$> expressionUpTo ends) :=
  (shifts_expressionUpTo ends).map fun _ _ _ same => same.map some

theorem shifts_variableStatement : ShiftsStatement S e variableStatement variableStatement := by
  refine shifts_bind_advance (fun word word' _ => ?_) fun _ => (starved_identifierFor _).bind _
  refine (shifts_identifierFor _).bind fun e₁ name name' _ text => ?_
  refine (shifts_expect (by decide)).bind fun e₂ _ _ _ _ => ?_
  refine (shifts_typeUpTo _).bind fun e₃ type type' _ same => ?_
  have finish {e₄ : Extent} {init init' : Option Expr} (le : e₃ ≤ e₄)
      (sameInit : S.shift.Same e₄ (fun L => init.map (Expr.labelled L.decl))
        fun L => init'.map (Expr.labelled L.decl)) :=
    shifts_declaring name.text (.object .var type init) (.object .var type' init') word.span.start word'.span.start
      ((same.mono le).map₂ sameInit (Declared.object .var)) (fun _ _ => rfl) fun _ _ => rfl
  refine shifts_bind_accept (by decide) (fun defined => ?_) ?_
  · cases defined with
    | true =>
      refine (shifts_someExpressionUpTo _).bind fun e₄ init init' le sameInit => ?_
      rw [text]
      exact finish le sameInit
    | false =>
      refine (shifts_pure (A := fun _ init init' => init = none ∧ init' = none)
        fun _ _ => ⟨rfl, rfl⟩).bind ?_
      rintro e₄ _ _ le ⟨rfl, rfl⟩
      rw [text]
      exact finish le (Shift.same_const none)
  · exact starved_pure_bind ((starved_endStatement _).bind _)

theorem shifts_constantStatement (start start' : Position) (name : String) :
    ShiftsStatement S e (constantStatement start name) (constantStatement start' name) := by
  refine (shifts_expect (by decide)).bind fun e₁ _ _ _ _ => ?_
  refine (shifts_typeUpTo _).bind fun e₂ type type' _ same => ?_
  refine (shifts_expect (by decide)).bind fun e₃ _ _ le₃ _ => ?_
  refine (shifts_expressionUpTo _).bind fun e₄ init init' le₄ sameInit => ?_
  exact shifts_declaring _ _ _ start start' ((same.mono (le_trans le₃ le₄)).map₂ (sameInit.map some)
    (Declared.object .constant)) (fun _ _ => rfl) fun _ _ => rfl

theorem shifts_superStatement : ShiftsStatement S e superStatement superStatement := by
  refine shifts_bind_advance (fun word word' _ => ?_) fun _ => (starved_identifierFor _).bind _
  refine (shifts_identifierFor _).bind fun e₁ name name' _ text => ?_
  refine (shifts_expect (by decide)).bind fun e₂ _ _ _ _ => ?_
  refine (shifts_typeUpTo _).bind fun e₃ type type' _ same => ?_
  rw [text]
  exact shifts_declaring _ _ _ _ _ (same.map Declared.super) (fun _ _ => rfl) fun _ _ => rfl

/-! ## Parameters -/

/-- Two declarations have been made in step. -/
abbrev DeclsShift (S : Surroundings) (e : Extent) (id id' : DeclId) : Prop :=
  id' = S.shift.decl id ∧ id.index < e.decls

theorem DeclsShift.mono {e e' : Extent} {id id' : DeclId} (le : e ≤ e') (h : DeclsShift S e id id') :
    DeclsShift S e' id id' := ⟨h.1, Nat.lt_of_lt_of_le h.2 le.1⟩

theorem shifts_parameter : Shifts S e (DeclsShift S) parameter parameter := by
  refine (shifts_identifierFor _).bind fun e₁ name name' _ text => ?_
  refine (shifts_expect (by decide)).bind fun e₂ _ _ _ _ => ?_
  refine (shifts_typeUpTo _).bind fun e₃ type type' _ same => ?_
  refine shifts_seen.bind fun e₄ stop stop' le _ => ?_
  rw [text]
  exact shifts_declare _ _ _ _ ((same.mono le).map Declared.parameter) (fun _ => rfl) fun _ => rfl

theorem shifts_furtherParameter : Shifts S e (DeclsShift S) (expect comma >>= fun _ => Grammar.parameter)
    (expect comma >>= fun _ => Grammar.parameter) :=
  (shifts_expect (by decide)).bind fun _ _ _ _ _ => shifts_parameter

theorem shortens_furtherParameter :
    Shortens (expect comma >>= fun _ => Grammar.parameter : Reader DeclId) := by
  intro c t id c' t' scanned reads
  obtain ⟨mark, c₁, passed, reads⟩ := peel_expect scanned (by decide) reads
  have shorter := (copied_parameter passed.behind reads).1.length_lt
  rw [passed.upcoming, List.length_cons]
  omega

/-- The parameters of a function have been made in step. -/
abbrev AllShift (S : Surroundings) (e : Extent) (ids ids' : List DeclId) : Prop :=
  List.Forall₂ (DeclsShift S e) ids ids'

theorem AllShift.same {ids ids' : List DeclId} (h : AllShift S e ids ids') :
    S.shift.Same e (fun L => ids.map L.decl) fun L => ids'.map L.decl := by
  intro L L' agrees
  induction h with
  | nil => rfl
  | cons first _ ih => exact congrArg₂ List.cons ((agrees.decl _ first.2).trans (by rw [first.1])) ih

theorem starved_parameter : Starved parameter := (starved_identifierFor _).bind _

theorem shifts_parameters : Shifts S e (AllShift S) parameters parameters := by
  have finish {e₁ : Extent} {all all' : List DeclId} (shifted : AllShift S e₁ all all') :
      Shifts S e₁ (AllShift S) (expect closeParen >>= fun _ => pure all)
        (expect closeParen >>= fun _ => pure all') :=
    (shifts_expect (by decide)).bind fun _ _ _ le _ => shifts_pure fun _ le' =>
      shifted.imp fun _ _ => DeclsShift.mono (le_trans le le')
  refine (shifts_expect (by decide)).bind fun e₁ _ _ _ _ => shifts_bind_kind (fun kind => ?_) ?_
  · split
    · exact finish .nil
    · unfold parameterList
      simp only [bind_assoc]
      refine shifts_parameter.bind fun e₂ first first' _ related => ?_
      refine shifts_bind_many shifts_furtherParameter shortens_furtherParameter
        (fun _ _ _ _ le => DeclsShift.mono le) _ (fun e₃ others others' le all => ?_) fun others => ?_
      · exact finish (.cons (related.mono le) all)
      · exact starved_pure_bind ((starved_expect (by decide)).bind _)
  · exact (starved_parameter.bind _).bind _

/-- What a function says of its result comes in front of a body. -/
theorem shifts_bind_resultType {β β' : Type} {B : Extent → β → β' → Prop} {f : Option Ty → Reader β}
    {f' : Option Ty → Reader β'}
    (rest : ∀ e₁ result result', e ≤ e₁ → S.shift.Same e₁ (fun L => result.map (Ty.labelled L.decl))
      (fun L => result'.map (Ty.labelled L.decl)) → Shifts S e₁ B (f result) (f' result'))
    (starved : Starved (f none)) : Shifts S e B (resultType >>= f) (resultType >>= f') := by
  unfold resultType
  simp only [bind_assoc]
  refine shifts_bind_accept (by decide) (fun named => ?_) ?_
  · cases named with
    | true =>
      exact (shifts_someTypeUpTo _).bind rest
    | false => exact rest e none none (le_refl _) (Shift.same_const none)
  · exact starved

/-! ## Statements with others inside -/

section Nested

variable {statement statement' : Reader Stmt}
  (statements : ∀ e : Extent, ShiftsStatement S e statement statement')

theorem same_allLabelled {body body' : List Stmt}
    (h : List.Forall₂ (fun s s' : Stmt => S.shift.Same e (fun L => s.labelled L) fun L => s'.labelled L)
      body body') :
    S.shift.Same e (fun L => Stmt.allLabelled L body) fun L => Stmt.allLabelled L body' := by
  intro L L' agrees
  induction h with
  | nil => rfl
  | cons first _ ih => exact congrArg₂ List.cons (first L L' agrees) ih

theorem Copying.shortens (copying : Copying statement) : Shortens statement :=
  fun _ _ _ _ _ scanned reads => (copying scanned reads).grammar.length_lt

include statements

theorem shifts_blockBody (copying : Copying statement) :
    Shifts S e (fun e₁ body body' => S.shift.Same e₁ (fun L => Stmt.allLabelled L body)
      fun L => Stmt.allLabelled L body') (blockBody statement) (blockBody statement') := by
  refine (shifts_expect (by decide)).bind fun e₁ _ _ _ _ => ?_
  refine shifts_bind_many (statements _) copying.shortens (fun _ _ _ _ le same => same.mono le) _
    (fun e₂ body body' _ all => ?_) fun body => (starved_expect (by decide)).bind _
  exact (shifts_expect (by decide)).bind fun e₃ _ _ le _ => shifts_pure fun _ le' =>
    (same_allLabelled all).mono (le_trans le le')

theorem shifts_blockStatement (copying : Copying statement) :
    ShiftsStatement S e (blockStatement statement) (blockStatement statement') := by
  refine shifts_seen.bind fun e₁ start start' _ _ => shifts_takeBlock.bind ?_
  rintro e₂ id _ - ⟨rfl, lt⟩
  refine (shifts_newScope (.block id)).bind ?_
  rintro e₃ scope _ le ⟨rfl, inside⟩
  refine ((shifts_blockBody statements copying).under inside).bind fun e₄ body body' le' same => ?_
  refine shifts_seen.bind fun e₅ stop stop' le₅ _ => shifts_pure fun e₆ le₆ L L' agrees => ?_
  have block := agrees.block id (Nat.lt_of_lt_of_le lt
    (le_trans le (le_trans le' (le_trans le₅ le₆))).2.2)
  have all := same L L' (agrees.mono (le_trans le₅ le₆))
  exact congrArg₂ (Stmt.block · · .nowhere) block all

theorem shifts_functionBody (copying : Copying statement) {id : DeclId} :
    Shifts S e (fun e₁ body body' => S.shift.Same e₁ (fun L => body.labelled L) fun L => body'.labelled L)
      (functionBody statement id) (functionBody statement' (S.shift.decl id)) := by
  refine shifts_bind_get (fun c c' same inside => ?_) (starved_bind_get fun c ended => ?_)
  · rw [same]
    split
    · refine Shifts.at ?_ c c'
      exact (shifts_blockStatement statements copying).map fun _ _ _ same => same.map Body.statement
    split
    · refine shiftsAt_bind_advance inside fun _ _ => (shifts_newScope (.body id)).bind fun e₁ _ _ _ _ =>
        (shifts_expressionUpTo _).bind fun e₂ value value' _ same => ?_
      exact (shifts_expect (by decide)).bind fun e₃ _ _ le _ => shifts_pure fun _ le' =>
        (same.map Body.expression).mono (le_trans le le')
    split
    · exact shiftsAt_bind_advance inside fun _ _ => shifts_pure fun _ _ _ _ _ => rfl
    · exact (shifts_throw _).at c c'
  · rw [ended, if_neg (by decide), if_neg (by decide), if_neg (by decide)]
    exact starved_throw _

omit statements in
theorem starved_functionBody (id : DeclId) : Starved (functionBody statement id) := by
  refine starved_bind_get fun c ended => ?_
  rw [ended, if_neg (by decide), if_neg (by decide), if_neg (by decide)]
  exact starved_throw _

theorem shifts_functionParts (copying : Copying statement) {id : DeclId} :
    Shifts S e (fun e₁ c c' => S.shift.Same e₁ (fun L => c.labelled L) fun L => c'.labelled L)
      (functionParts statement id) (functionParts statement' (S.shift.decl id)) := by
  refine shifts_parameters.bind fun e₁ ids ids' _ all => ?_
  refine shifts_bind_resultType (fun e₂ result result' le same => ?_) ((starved_functionBody id).bind _)
  refine (shifts_functionBody statements copying).bind fun e₃ body body' le' sameBody => ?_
  refine shifts_pure fun e₄ le₄ L L' agrees => ?_
  have parameters := all.same L L' (agrees.mono (le_trans le (le_trans le' le₄)))
  have result₁ := same L L' (agrees.mono (le_trans le' le₄))
  have body₁ := sameBody L L' (agrees.mono le₄)
  dsimp only at parameters result₁ body₁
  have implied (b : Body) (M : Labels) : (impliedResult b).labelled M.decl = impliedResult (b.labelled M) := by
    cases b <;> rfl
  have results : (result.getD (impliedResult body)).labelled L.decl =
      (result'.getD (impliedResult body')).labelled L'.decl := by
    cases result with
    | none =>
      cases result' with
      | none =>
        show (impliedResult body).labelled L.decl = (impliedResult body').labelled L'.decl
        rw [implied, implied, body₁]
      | some _ => cases result₁
    | some type =>
      cases result' with
      | none => cases result₁
      | some type' => exact Option.some.inj result₁
  simp only [Callable.labelled, parameters, results, body₁]
  rfl

/-- The declaration of a function is filled in once its parts have been read. -/
theorem shifts_functionStatement (copying : Copying statement) (sort : CallableSort)
    (start start' : Position) (name : String) :
    ShiftsStatement S e (functionStatement statement sort start name)
      (functionStatement statement' sort start' name) := by
  refine (shifts_declare (.callable sort .announced) (.callable sort .announced) _ _
    (fun _ _ _ => rfl) (fun _ => rfl) fun _ => rfl).bind ?_
  rintro e₁ id _ - ⟨rfl, lt⟩
  refine (shifts_newScope (.decl id)).bind ?_
  rintro e₂ scope _ le₂ ⟨rfl, inside⟩
  refine ((shifts_functionParts statements copying).under inside).bind fun e₃ c c' le₃ same => ?_
  refine shifts_seen.bind fun e₄ stop stop' le₄ _ => ?_
  have present : id.index < e₄.decls := Nat.lt_of_lt_of_le lt (le_trans le₂ (le_trans le₃ le₄)).1
  refine (shifts_modifyDecl present (fun d d' e₅ le₅ sameDecl => ?_) fun d d' e₅ _ _ sameMembers => ?_).bind
    fun e₅ _ _ le₅ _ => shifts_pure fun e₆ le₆ L L' agrees => ?_
  · intro L L' agrees
    have filled : (d.mapCallable fun _ => c).labelled L = (d'.mapCallable fun _ => c').labelled L' := by
      rw [Decl.labelled_mapCallable d (g := fun _ => c.labelled L) fun _ => rfl,
        Decl.labelled_mapCallable d' (g := fun _ => c'.labelled L') fun _ => rfl]
      have same₁ := same L L' (agrees.mono (le_trans le₄ le₅))
      have decl := sameDecl L L' agrees
      dsimp only at same₁ decl
      rw [same₁, decl]
    exact filled
  · intro L L' agrees
    have members (d : Decl) (c : Callable) (span : Span) :
        ({ d.mapCallable (fun _ => c) with span } : Decl).members? = d.members? :=
      d.members?_mapCallable _
    dsimp only
    rw [members, members]
    exact sameMembers L L' agrees
  · exact congrArg (Stmt.declaration · .nowhere)
      (agrees.held id (Nat.lt_of_lt_of_le present (le_trans le₅ le₆).1))

theorem shifts_definitionStatement (copying : Copying statement) :
    ShiftsStatement S e (definitionStatement statement) (definitionStatement statement') := by
  refine shifts_bind_advance (fun word word' _ => ?_) fun _ => (starved_identifierFor _).bind _
  refine (shifts_identifierFor _).bind fun e₁ name name' _ text => ?_
  refine shifts_bind_get (fun c c' same _ => ?_) (starved_bind_get fun c ended => ?_)
  · rw [same, text]
    split
    · exact (shifts_constantStatement _ _ _).at c c'
    split
    · exact (shifts_functionStatement statements copying _ _ _ _).at c c'
    · exact (shifts_throw _).at c c'
  · rw [ended, if_neg (by decide), if_neg (by decide)]
    exact starved_throw _

theorem shifts_coroutineStatement (copying : Copying statement) :
    ShiftsStatement S e (coroutineStatement statement) (coroutineStatement statement') := by
  refine shifts_bind_advance (fun word word' _ => ?_) fun _ => (starved_identifierFor _).bind _
  refine (shifts_identifierFor _).bind fun e₁ name name' _ text => ?_
  rw [text]
  exact shifts_functionStatement statements copying _ _ _ _

omit statements in
/-- The kind of a class comes in front of its members. -/
theorem shifts_bind_classKind {β β' : Type} {B : Extent → β → β' → Prop} (sort : ClassSort)
    {f : Ty → Reader β} {f' : Ty → Reader β'}
    (rest : ∀ e₁ kind kind', e ≤ e₁ → S.shift.Same e₁ (fun L => kind.labelled L.decl)
      (fun L => kind'.labelled L.decl) → Shifts S e₁ B (f kind) (f' kind'))
    (starved : Starved (f .metatype)) : Shifts S e B (classKind sort >>= f) (classKind sort >>= f') := by
  unfold classKind
  cases sort with
  | primary =>
    simp only [if_true, bind_assoc]
    refine shifts_bind_accept (by decide) (fun named => ?_) starved
    cases named with
    | true => exact (shifts_typeUpTo _).bind rest
    | false => exact rest e _ _ (le_refl _) (Shift.same_const _)
  | extension => exact rest e _ _ (le_refl _) (Shift.same_const _)

theorem shifts_classStatement (copying : Copying statement) (sort : ClassSort) :
    ShiftsStatement S e (classStatement statement sort) (classStatement statement' sort) := by
  refine shifts_bind_advance (fun word word' _ => ?_) fun _ => (starved_identifierFor _).bind _
  refine (shifts_identifierFor _).bind fun e₁ name name' _ text => ?_
  rw [text]
  refine shifts_bind_classKind sort (fun e₂ kind kind' _ same => ?_) ?_
  · refine (shifts_declare (.classDecl sort kind []) (.classDecl sort kind' []) _ _
      (same.map (Declared.classDecl sort · [])) (fun _ => rfl) fun _ => rfl).bind ?_
    rintro e₃ id _ - ⟨rfl, lt⟩
    refine (shifts_newScope (.decl id)).bind ?_
    rintro e₄ scope _ le₄ ⟨rfl, inside⟩
    refine ((shifts_blockBody statements copying).under inside).bind fun e₅ body body' le₅ sameBody => ?_
    refine shifts_seen.bind fun e₆ stop stop' le₆ _ => ?_
    have present : id.index < e₆.decls := Nat.lt_of_lt_of_le lt (le_trans le₄ (le_trans le₅ le₆)).1
    refine (shifts_modifyDecl present (fun d d' e₇ le₇ sameDecl => ?_)
      fun d d' e₇ le₇ sameDecl _ => ?_).bind fun e₇ _ _ le₇ _ => shifts_pure fun e₈ le₈ L L' agrees => ?_
    · intro L L' agrees
      have filled : (d.mapMembers fun _ => body).labelled L = (d'.mapMembers fun _ => body').labelled L' := by
        rw [Decl.labelled_mapMembers, Decl.labelled_mapMembers]
        exact sameDecl L L' agrees
      exact filled
    · intro L L' agrees
      have sort₁ := congrArg (fun d : Decl => d.members?.isSome) (sameDecl L L' agrees)
      dsimp only at sort₁ ⊢
      rw [Decl.isSome_members?_labelled, Decl.isSome_members?_labelled] at sort₁
      have filled (d : Decl) (body : List Stmt) (span : Span) :
          ({ d.mapMembers (fun _ => body) with span } : Decl).members?.getD [] =
            if d.members?.isSome then body else [] := by
        show (d.mapMembers fun _ => body).members?.getD [] = _
        rw [Decl.members?_mapMembers]
        cases d.members? <;> rfl
      rw [filled, filled, sort₁]
      split
      · exact sameBody L L' (agrees.mono (le_trans le₆ le₇))
      · rfl
    · exact congrArg (Stmt.declaration · .nowhere)
        (agrees.held id (Nat.lt_of_lt_of_le present (le_trans le₇ le₈).1))
  · refine starved_bind_of_stays (fun _ _ _ _ _ reads => (reads_declare_iff.mp reads).2.1) fun id => ?_
    refine starved_bind_of_stays (fun _ _ _ _ _ reads => (reads_newScope_iff.mp reads).2.1) fun scope => ?_
    exact (((starved_expect (by decide)).bind _).under _).bind _

omit statements in
theorem shifts_returnStatement : ShiftsStatement S e returnStatement returnStatement := by
  have finish {e₁ : Extent} {value value' : Option Expr} (start start' : Position)
      (same : S.shift.Same e₁ (fun L => value.map (Expr.labelled L.decl))
        fun L => value'.map (Expr.labelled L.decl)) :
      ShiftsStatement S e₁ (endStatement start >>= fun span => pure (.returning value span))
        (endStatement start' >>= fun span => pure (.returning value' span)) :=
    (shifts_endStatement _ _).bind fun e₂ _ _ le _ => shifts_pure fun _ le' =>
      (same.map (Stmt.returning · .nowhere)).mono (le_trans le le')
  have starved (kind : TokenKind) (start : Position) (ended : kind = .endOfInput) :
      Starved (do
        let value ← if kind = semicolon then pure none else some <$> expressionUpTo [semicolon]
        return Stmt.returning value (← endStatement start)) := by
    rw [if_neg (by rw [ended]; decide)]
    exact ((starved_expressionUpTo _).map _).bind _
  refine shifts_bind_advance (fun word word' _ => ?_) fun word => ?_
  · refine shifts_bind_kind (fun kind => ?_) (starved _ _ rfl)
    split
    · exact finish _ _ (Shift.same_const none)
    · exact (shifts_someExpressionUpTo _).bind fun e₁ value value' _ same => finish _ _ same
  · exact starved_bind_kind (starved _ _ rfl)

omit statements in
theorem shifts_yieldStatement : ShiftsStatement S e yieldStatement yieldStatement := by
  refine shifts_bind_advance (fun word word' _ => ?_) fun _ => (starved_expressionUpTo _).bind _
  refine (shifts_expressionUpTo _).bind fun e₁ value value' _ same => ?_
  exact (shifts_endStatement _ _).bind fun e₂ _ _ le _ => shifts_pure fun _ le' =>
    (same.map (Stmt.yielding · .nowhere)).mono (le_trans le le')

omit statements in
theorem shifts_condition :
    Shifts S e (fun e₁ value value' => S.shift.Same e₁ (fun L => value.labelled L.decl)
      fun L => value'.labelled L.decl) condition condition := by
  refine (shifts_expect (by decide)).bind fun e₁ _ _ _ _ => ?_
  refine (shifts_expressionUpTo _).bind fun e₂ value value' _ same => ?_
  exact (shifts_expect (by decide)).bind fun e₃ _ _ le _ => shifts_pure fun _ le' =>
    same.mono (le_trans le le')

omit statements in
theorem starved_condition : Starved condition := (starved_expect (by decide)).bind _

theorem shifts_ifStatement : ShiftsStatement S e (ifStatement statement) (ifStatement statement') := by
  have finish {e₁ : Extent} {value value' : Expr} {onTrue onTrue' : Stmt} {onFalse onFalse' : Option Stmt}
      (start start' : Position)
      (same : S.shift.Same e₁ (fun L => value.labelled L.decl) fun L => value'.labelled L.decl)
      (first : S.shift.Same e₁ (fun L => onTrue.labelled L) fun L => onTrue'.labelled L)
      (second : S.shift.Same e₁ (fun L => Stmt.elseLabelled L onFalse)
        fun L => Stmt.elseLabelled L onFalse') :
      ShiftsStatement S e₁
        (endOfLast >>= fun stop => pure (.conditional value onTrue onFalse ⟨start, stop⟩))
        (endOfLast >>= fun stop => pure (.conditional value' onTrue' onFalse' ⟨start', stop⟩)) :=
    shifts_seen.bind fun e₂ _ _ le _ => shifts_pure fun _ le' =>
      ((same.map₂ (first.map₂ second Prod.mk) fun value both =>
        Stmt.conditional value both.1 both.2 .nowhere)).mono (le_trans le le')
  refine shifts_bind_advance (fun word word' _ => ?_) fun _ => starved_condition.bind _
  refine shifts_condition.bind fun e₁ value value' _ same => ?_
  refine (statements _).bind fun e₂ onTrue onTrue' le first => ?_
  refine shifts_accept_else.bind fun e₃ _ more le' accepted => ?_
  subst accepted
  cases more with
  | true =>
    have elses : Shifts S e₃ (fun e₁ s s' => S.shift.Same e₁ (fun L => Stmt.elseLabelled L s)
        fun L => Stmt.elseLabelled L s') (some <$> statement) (some <$> statement') :=
      (statements _).map fun _ _ _ same _ _ agrees => congrArg some (same _ _ agrees)
    refine elses.bind fun e₄ s s' le₄ second => ?_
    exact finish _ _ (same.mono (le_trans le (le_trans le' le₄))) (first.mono (le_trans le' le₄)) second
  | false => exact finish _ _ (same.mono (le_trans le le')) (first.mono le') (Shift.same_const none)

theorem shifts_whileStatement : ShiftsStatement S e (whileStatement statement) (whileStatement statement') := by
  refine shifts_bind_advance (fun word word' _ => ?_) fun _ => starved_condition.bind _
  refine shifts_condition.bind fun e₁ value value' _ same => ?_
  refine (statements _).bind fun e₂ body body' le inner => ?_
  exact shifts_seen.bind fun e₃ _ _ le₃ _ => shifts_pure fun _ le₄ =>
    ((same.mono le).map₂ inner (Stmt.whileLoop · · .nowhere)).mono (le_trans le₃ le₄)

omit statements in
theorem shifts_jumpStatement {form : Span → Stmt}
    (plain : ∀ L span span', (form span).labelled L = (form span').labelled L)
    (bare : ∀ L L' span, (form span).labelled L = (form span).labelled L') :
    ShiftsStatement S e (jumpStatement form) (jumpStatement form) := by
  refine shifts_bind_advance (fun word word' _ => ?_) fun _ => (starved_endStatement _).bind _
  exact (shifts_endStatement _ _).bind fun e₁ span span' _ _ => shifts_pure fun _ _ L L' _ =>
    (plain L span span').trans (bare L L' span')

omit statements in
theorem shifts_expressionStatement : ShiftsStatement S e expressionStatement expressionStatement := by
  refine (shifts_expressionUpTo _).bind fun e₁ value value' _ same => ?_
  exact (shifts_expect (by decide)).bind fun e₂ _ _ le _ => shifts_pure fun _ le' =>
    (same.map Stmt.expression).mono (le_trans le le')

theorem shifts_statementOf (copying : Copying statement) (kind : TokenKind) :
    ShiftsStatement S e (statementOf statement kind) (statementOf statement' kind) := by
  unfold statementOf
  split
  · exact shifts_variableStatement
  · exact shifts_definitionStatement statements copying
  · exact shifts_coroutineStatement statements copying
  · exact shifts_classStatement statements copying .primary
  · exact shifts_classStatement statements copying .extension
  · exact shifts_superStatement
  · exact shifts_blockStatement statements copying
  · exact shifts_returnStatement
  · exact shifts_yieldStatement
  · exact shifts_ifStatement statements
  · exact shifts_whileStatement statements
  · exact shifts_jumpStatement (fun _ _ _ => rfl) fun _ _ _ => rfl
  · exact shifts_jumpStatement (fun _ _ _ => rfl) fun _ _ _ => rfl
  · exact shifts_expressionStatement

end Nested

/-- Deeper statements may be read in the surroundings. -/
theorem shifts_statementWithin : ∀ {depth depth' : Nat} {e : Extent}, depth ≤ depth' →
    ShiftsStatement S e (statementWithin depth) (statementWithin depth')
  | 0, _, _, _ => fun _ _ _ _ _ _ _ _ _ _ _ reads => absurd (peel_get reads) reads_throw
  | depth + 1, 0, _, le => absurd le (Nat.not_succ_le_zero depth)
  | depth + 1, _ + 1, _, le =>
    shifts_bind_kind (fun kind => shifts_statementOf
        (fun _ => shifts_statementWithin (Nat.le_of_succ_le_succ le)) (copying_statementWithin depth) kind)
      ((starved_expressionUpTo _).bind _)

/-- A statement is read in the surroundings wherever statements may nest as deep as there are tokens. -/
theorem shiftsAt_statement {c c' : Cursor} {depth : Nat} (deep : c.upcoming.length ≤ depth) :
    ShiftsAt S e (fun e₁ s s' => S.shift.Same e₁ (fun L => s.labelled L) fun L => s'.labelled L)
      statement (statementWithin depth) c c' :=
  fun _ _ _ _ _ _ within grown ahead reads =>
    shifts_statementWithin deep within grown ahead (peel_get reads)

/-! ## Fragments -/

/-- A loop over statements that goes on while no bracket closes what it stands in. -/
structure Loops (more : TokenKind → Bool) (item : Reader Stmt) (length : Nat) : Prop where
  goesOn : ∀ k, k ≠ .endOfInput → k ≠ closeCurly → more k = true
  item : ∀ ⦃S e c c'⦄, c'.upcoming.length ≤ length →
    ShiftsAt S e (fun e₁ s s' => S.shift.Same e₁ (fun L => s.labelled L) fun L => s'.labelled L)
      statement item c c'

/-- A loop reads the statements `body` first, however it goes on behind them. -/
def Advances (more : TokenKind → Bool) (item : Reader Stmt) (c : Cursor) (t : SymbolTable)
    (body : List Stmt) (c' : Cursor) (t' : SymbolTable) : Prop :=
  ∀ ⦃rest c₂ t₂⦄,
    (∀ bound, c'.upcoming.length ≤ bound → Reads (manyWithin more item bound) c' t' rest c₂ t₂) →
    ∀ bound, c.upcoming.length ≤ bound → Reads (manyWithin more item bound) c t (body ++ rest) c₂ t₂

theorem Advances.refl (more : TokenKind → Bool) (item : Reader Stmt) (c : Cursor) (t : SymbolTable) :
    Advances more item c t [] c t := fun _ _ _ run => run

theorem Advances.trans {more : TokenKind → Bool} {item : Reader Stmt} {c c₁ c₂ : Cursor}
    {t t₁ t₂ : SymbolTable} {body rest : List Stmt} (h : Advances more item c t body c₁ t₁)
    (h' : Advances more item c₁ t₁ rest c₂ t₂) : Advances more item c t (body ++ rest) c₂ t₂ := by
  intro last c₃ t₃ run
  rw [List.append_assoc]
  exact h (h' run)

/-- A loop reads one statement, and has fewer tokens before it. -/
theorem advances_of_reads {more : TokenKind → Bool} {item : Reader Stmt} {c c₁ : Cursor}
    {t t₁ : SymbolTable} {s : Stmt} (goesOn : more c.kind = true) (reads : Reads item c t s c₁ t₁)
    (shorter : c₁.upcoming.length < c.upcoming.length) : Advances more item c t [s] c₁ t₁ := by
  intro rest c₂ t₂ run bound enough
  obtain _ | bound := bound
  · omega
  refine reads_bind.mpr ⟨c.kind, c, t, reads_map.mpr ⟨c, reads_pure.mpr ⟨rfl, rfl, rfl⟩, rfl⟩, ?_⟩
  rw [if_pos goesOn]
  exact reads_bind.mpr ⟨s, c₁, t₁, reads, reads_bind.mpr ⟨rest, c₂, t₂, run bound (by omega),
    reads_pure.mpr ⟨rfl, rfl, rfl⟩⟩⟩

/-- What is read by itself up to the end of the input is read in the surroundings up to what comes behind,
and then the loop goes on from there. -/
theorem exists_reads_fragment {more : TokenKind → Bool} {item : Reader Stmt} {length : Nat}
    (loops : Loops more item length) :
    ∀ (bound : Nat) ⦃c t body c₁ t₁ c' t'⦄, GrownFrom S.base [] t t' → S.Ahead c c' →
      c.upcoming.length ≤ bound → c'.upcoming.length ≤ length →
      Reads (manyWithin (· ≠ .endOfInput) statement bound) c t body c₁ t₁ →
      ∃ body' c₁' t₁', GrownFrom S.base [] t₁ t₁' ∧ c₁'.upcoming = S.behind ∧ c₁'.stop = S.stop ∧
        t.extent ≤ t₁.extent ∧
        S.shift.Same t₁.extent (fun L => Stmt.allLabelled L body) (fun L => Stmt.allLabelled L body') ∧
        Advances more item c' t' body' c₁' t₁'
  | 0, c, t, body, c₁, t₁, c', t', grown, ahead, short, _, reads => by
    obtain ⟨rfl, rfl, rfl⟩ := reads_pure.mp reads
    have ended := List.length_eq_zero_iff.mp (Nat.le_zero.mp short)
    rcases ahead.cases_cons with ⟨-, behind⟩ | ⟨_, _, _, _, front, -⟩
    · exact ⟨[], c', t', grown, behind, ahead.stop, le_refl _, Shift.same_const [], .refl ..⟩
    · rw [ended] at front
      cases front
  | bound + 1, c, t, body, c₁, t₁, c', t', grown, ahead, short, within, reads => by
    have seen := peel_seen reads
    rcases ahead.cases_cons with ⟨ended, behind⟩ | ⟨token, more₁, _, _, front, -⟩
    · rw [kind_of_ended ahead.scanned ended, if_neg (by decide)] at seen
      obtain ⟨rfl, rfl, rfl⟩ := reads_pure.mp seen
      exact ⟨[], c', t', grown, behind, ahead.stop, le_refl _, Shift.same_const [], .refl ..⟩
    have kind : c.kind = token.kind := by rw [Cursor.kind, Cursor.current, front]; rfl
    have inside : c.kind ≠ .endOfInput :=
      kind ▸ ahead.scanned.before token (front ▸ List.mem_cons_self ..)
    rw [if_pos (by simpa using inside)] at seen
    obtain ⟨s, c₂, t₂, first, others⟩ := reads_bind.mp seen
    obtain ⟨body, c₃, t₃, second, last⟩ := reads_bind.mp others
    obtain ⟨rfl, rfl, rfl⟩ := reads_pure.mp last
    have copied := copying_statement ahead.scanned first
    have shorter := copied.grammar.length_lt
    have open' : c.kind ≠ closeCurly := by
      rw [ahead.scanned.kind_eq]
      exact nextKind_of_statement copied.grammar
    obtain ⟨s', c₂', t₂', first', grown₂, ahead₂, le₂, same⟩ :=
      loops.item within (le_refl _) grown ahead first
    have longer := ahead.length_le
    have longer₂ := ahead₂.length_le
    obtain ⟨body', c₁', t₁', grown₁, behind, stop, le₁, all, goOn⟩ :=
      exists_reads_fragment loops bound grown₂ ahead₂ (by omega) (by omega) second
    refine ⟨s' :: body', c₁', t₁', grown₁, behind, stop, le_trans le₂ le₁,
      (same.mono le₁).map₂ all List.cons, Advances.trans (advances_of_reads ?_ first' (by omega)) goOn⟩
    rw [ahead.kind_eq (by simp [front])]
    exact loops.goesOn _ inside open'

/-- The statements between braces. -/
theorem loops_statementWithin (depth : Nat) :
    Loops (fun kind => kind ≠ .endOfInput ∧ kind ≠ closeCurly) (statementWithin depth) depth where
  goesOn k inside open' := by simp [inside, open']
  item _ _ _ _ short := fun _ _ _ _ _ _ within grown ahead reads =>
    shiftsAt_statement (Nat.le_trans (Nat.le_of_add_right_le (Nat.le_of_eq ahead.length_le)) short) within
      grown ahead reads

/-- The statements of a unit. -/
theorem loops_statement (length : Nat) : Loops (· ≠ .endOfInput) statement length where
  goesOn k inside _ := by simpa using inside
  item _ _ _ c' _ := fun _ _ _ _ _ t' within grown ahead reads => by
    obtain ⟨s', c₁', t₁', run, after⟩ :=
      shiftsAt_statement (Nat.le_of_add_right_le (Nat.le_of_eq ahead.length_le)) within grown ahead reads
    exact ⟨s', c₁', t₁', reads_bind.mpr ⟨c', c', t', reads_pure.mpr ⟨rfl, rfl, rfl⟩, run⟩, after⟩

end Grammar

end Deferral
