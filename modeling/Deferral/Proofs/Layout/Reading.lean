import Deferral.Proofs.Layout.Table
import Deferral.Proofs.Reading.Roundtrip

/-!
# Reading lays a source out

What is read lies where the cursor has passed: the excerpts of a statement behind the last token in front
of it, the statements of a sequence one behind the other, and what a declaration declares inside its span.
-/

namespace Deferral

open SymbolTable Layout

/-- The tokens to come lie behind the last one that has been passed, none of them empty and each behind
those in front of it. -/
structure Cursor.InOrder (A : Position → Prop) (c : Cursor) : Prop where
  starts : ∀ t ∈ c.upcoming, A t.span.start
  sized : ∀ t ∈ c.upcoming, t.span.start.offset < t.span.stop.offset
  behind : ∀ t ∈ c.upcoming, c.endOfLast.offset ≤ t.span.start.offset
  order : c.upcoming.Pairwise fun t later => t.span.stop.offset ≤ later.span.start.offset

/-- The offset up to which tokens have been passed. -/
def Cursor.mark (c : Cursor) : Nat := c.endOfLast.offset

/-- An excerpt is placed at its first token. -/
def Excerpt.Heads (f : Excerpt) : Prop := ∃ t rest, f.tokens = t :: rest ∧ f.position = t.span.start

/-- A layout in which the declarations of a table lie where their spans say. -/
structure Layout.Maps (L : Layout) (F : SymbolTable) : Prop where
  known : ∀ n id, L.known n id
  captured : ∀ f : Excerpt, f.Heads → L.captured f
  low : ∀ id, L.low id = (F.decl id).span.start.offset
  high : ∀ id, (F.decl id).span.start.offset ≤ (F.decl id).span.stop.offset →
    L.high id = (F.decl id).span.stop.offset
  apart : ∀ id, (F.decl id).subject = .constDecl ∨ (F.decl id).subject = .extension →
    L.Apart (L.low id) (L.high id)

/-- What is read from one cursor and table to another is so of every stretch around what is passed, and
the declarations made lie in their spans. -/
structure Situates (L : Layout) (F : SymbolTable) (P : Nat → Nat → Prop) (c : Cursor)
    (t : SymbolTable) (c' : Cursor) (t' : SymbolTable) : Prop where
  grows : t.decls.size ≤ t'.decls.size
  keeps : ∀ id : DeclId, id.index < t.decls.size → t'.decl id = t.decl id
  scanned : c'.IsScanned
  ordered : c.InOrder L.token → c'.InOrder L.token
  onward : c.InOrder L.token → c.mark ≤ c'.mark
  holds : c.InOrder L.token → Shares F t t' → ∀ {lo hi : Nat}, lo ≤ c.mark → c'.mark ≤ hi → P lo hi
  decls : c.InOrder L.token → Shares F t t' → ∀ id : DeclId, t.decls.size ≤ id.index →
    id.index < t'.decls.size → (F.decl id).LiesIn L F.decls.size id

variable {L : Layout} {F : SymbolTable} {P Q R : Nat → Nat → Prop} {c c' c'' : Cursor}
  {t t' t'' : SymbolTable}

/-! ## Passing tokens -/

namespace Reader

namespace Passed

variable {k : TokenKind} {token : Token} {A : Position → Prop}

theorem inOrder (h : Passed c k token c') (ordered : c.InOrder A) : c'.InOrder A := by
  obtain ⟨starts, sized, -, order⟩ := ordered
  rw [h.upcoming] at starts sized order
  obtain ⟨first, order⟩ := List.pairwise_cons.mp order
  exact ⟨fun t member => starts t (List.mem_cons_of_mem _ member),
    fun t member => sized t (List.mem_cons_of_mem _ member),
    fun t member => h.last ▸ first t member, order⟩

/-- A token that has been passed starts behind those in front of it, and ends where the cursor stands. -/
theorem place (h : Passed c k token c') (ordered : c.InOrder A) :
    A token.span.start ∧ c.mark ≤ token.span.start.offset ∧ token.span.start.offset < c'.mark := by
  have member : token ∈ c.upcoming := h.upcoming ▸ List.mem_cons_self ..
  unfold Cursor.mark
  rw [h.last]
  exact ⟨ordered.starts token member, ordered.behind token member, ordered.sized token member⟩

theorem situates (h : Passed c k token c') (t : SymbolTable) :
    Situates L F (fun _ _ => True) c t c' t where
  grows := Nat.le_refl _
  keeps _ _ := rfl
  scanned := h.behind
  ordered := h.inOrder
  onward ordered := by
    have place := h.place ordered
    omega
  holds _ _ _ _ _ _ := trivial
  decls _ _ id le lt := absurd lt (Nat.not_lt.mpr le)

end Passed

namespace SetAside

variable {ends : List TokenKind} {f : Excerpt} {A : Position → Prop}

theorem inOrder (h : SetAside ends c f c') (ordered : c.InOrder A) : c'.InOrder A := by
  obtain ⟨starts, sized, -, order⟩ := ordered
  rw [h.upcoming] at starts sized order
  obtain ⟨t, isLast, last⟩ := h.last
  obtain ⟨-, order, across⟩ := List.pairwise_append.mp order
  exact ⟨fun s member => starts s (List.mem_append_right _ member),
    fun s member => sized s (List.mem_append_right _ member),
    fun s member => last ▸ across t (List.mem_of_getLast? isLast) s member, order⟩

/-- The tokens of an excerpt start one behind the other up to where the cursor stands. -/
theorem place (h : SetAside ends c f c') (ordered : c.InOrder A) :
    ∀ t ∈ f.tokens, A t.span.start ∧ c.mark ≤ t.span.start.offset ∧ t.span.start.offset < c'.mark := by
  obtain ⟨starts, sized, behind, order⟩ := ordered
  rw [h.upcoming] at starts sized behind order
  obtain ⟨s, isLast, last⟩ := h.last
  obtain ⟨front, same⟩ := List.getLast?_eq_some_iff.mp isLast
  intro t member
  have all := List.mem_append_left c'.upcoming member
  refine ⟨starts t all, behind t all, ?_⟩
  have size := sized t all
  unfold Cursor.mark
  rw [last]
  -- The last token ends there, and every other one ends in front of it.
  rw [same] at member
  rcases List.mem_append.mp member with before | isLast
  · obtain ⟨inside, -, -⟩ := List.pairwise_append.mp order
    rw [same] at inside
    have next := (List.pairwise_append.mp inside).2.2 t before s (List.mem_singleton_self s)
    have lastSize := sized s (List.mem_append_left _ (same ▸ List.mem_concat_self))
    omega
  · rwa [← List.mem_singleton.mp isLast]

theorem heads (h : SetAside ends c f c') : f.Heads := by
  obtain ⟨t, rest, same⟩ := List.exists_cons_of_ne_nil h.run.nonempty
  refine ⟨t, rest, same, ?_⟩
  rw [h.start, Cursor.position, Cursor.current, h.upcoming, same]
  rfl

theorem situates (maps : L.Maps F) (h : SetAside ends c f c') (t : SymbolTable) :
    Situates L F (fun lo hi => f.LiesIn L lo hi) c t c' t where
  grows := Nat.le_refl _
  keeps _ _ := rfl
  scanned := h.behind
  ordered := h.inOrder
  onward ordered := by
    obtain ⟨t, isLast, -⟩ := h.last
    have place := h.place ordered t (List.mem_of_getLast? isLast)
    omega
  holds ordered _ lo hi low high := by
    have within : ∀ t ∈ f.tokens, L.Within lo hi t.span.start := fun t member =>
      have ⟨token, first, last⟩ := h.place ordered t member
      ⟨token, .inr ⟨by omega, by omega⟩⟩
    obtain ⟨t, rest, same, start⟩ := h.heads
    exact ⟨maps.captured f h.heads, start ▸ within t (same ▸ List.mem_cons_self ..), within⟩
  decls _ _ id le lt := absurd lt (Nat.not_lt.mpr le)

end SetAside

end Reader

open Reader

/-! ## What has been read -/

namespace Situates

/-- What is read first shares its declarations with the last table. -/
theorem shares_left (h' : Situates L F Q c' t' c'' t'') (shares : Shares F t t'') : Shares F t t' :=
  fun id le lt => (shares id le (Nat.lt_of_lt_of_le lt h'.grows)).trans (h'.keeps id lt)

theorem shares_right (h : Situates L F P c t c' t') (shares : Shares F t t'') : Shares F t' t'' :=
  fun id le lt => shares id (Nat.le_trans h.grows le) lt

/-- What is read first lies in front of what is read next. -/
theorem trans (h : Situates L F P c t c' t') (h' : Situates L F Q c' t' c'' t'')
    (both : ∀ {lo mid hi : Nat}, lo ≤ mid → mid ≤ hi → P lo mid → Q mid hi → R lo hi) :
    Situates L F R c t c'' t'' where
  grows := Nat.le_trans h.grows h'.grows
  keeps id lt := (h'.keeps id (Nat.lt_of_lt_of_le lt h.grows)).trans (h.keeps id lt)
  scanned := h'.scanned
  ordered ordered := h'.ordered (h.ordered ordered)
  onward ordered := Nat.le_trans (h.onward ordered) (h'.onward (h.ordered ordered))
  holds ordered shares lo hi low high :=
    have le := h.onward ordered
    have le' := h'.onward (h.ordered ordered)
    both (Nat.le_trans low le) (Nat.le_trans le' high)
      (h.holds ordered (h'.shares_left shares) low (Nat.le_refl _))
      (h'.holds (h.ordered ordered) (h.shares_right shares) (Nat.le_refl _) high)
  decls ordered shares id le lt := by
    by_cases first : id.index < t'.decls.size
    · exact h.decls ordered (h'.shares_left shares) id le first
    · exact h'.decls (h.ordered ordered) (h.shares_right shares) id (Nat.not_lt.mp first) lt

/-- Both parts lie in the whole. -/
theorem both (h : Situates L F P c t c' t') (h' : Situates L F Q c' t' c'' t'') :
    Situates L F (fun lo hi => P lo hi ∧ Q lo hi) c t c'' t'' where
  __ := h.trans h' (R := fun _ _ => True) fun _ _ _ _ => trivial
  holds ordered shares _ _ low high :=
    ⟨h.holds ordered (h'.shares_left shares) low
      (Nat.le_trans (h'.onward (h.ordered ordered)) high),
      h'.holds (h.ordered ordered) (h.shares_right shares) (Nat.le_trans low (h.onward ordered)) high⟩

theorem imp (h : Situates L F P c t c' t') (implies : ∀ {lo hi : Nat}, P lo hi → Q lo hi) :
    Situates L F Q c t c' t' :=
  { h with holds := fun ordered shares _ _ low high => implies (h.holds ordered shares low high) }

/-- Where the first token starts. -/
theorem startingAt {k : TokenKind} {first : Token} (h : Situates L F P c' t c'' t'')
    (passed : Passed c k first c') :
    Situates L F (fun lo hi => L.Within lo hi first.span.start ∧ P lo hi) c t c'' t'' where
  __ := (passed.situates t).both h
  holds ordered shares lo hi low high := by
    have ⟨token, behind, size⟩ := passed.place ordered
    have ordered' := passed.inOrder ordered
    have onward := h.onward ordered'
    exact ⟨⟨token, .inr ⟨by omega, by omega⟩⟩, h.holds ordered' shares (by omega) high⟩

/-- A token is passed in front. -/
theorem behind {k : TokenKind} {token : Token} (h : Situates L F P c' t c'' t'')
    (passed : Passed c k token c') : Situates L F P c t c'' t'' :=
  ((passed.situates t).both h).imp And.right

/-- A token is passed behind. -/
theorem before {k : TokenKind} {token : Token} (h : Situates L F P c t c' t')
    (passed : Passed c' k token c'') : Situates L F P c t c'' t' :=
  (h.both (passed.situates t')).imp And.left

theorem refl (scanned : c.IsScanned) (all : ∀ {lo hi : Nat}, P lo hi) (t : SymbolTable) :
    Situates L F P c t c t where
  grows := Nat.le_refl _
  keeps _ _ := rfl
  scanned := scanned
  ordered ordered := ordered
  onward _ := Nat.le_refl _
  holds _ _ _ _ _ _ := all
  decls _ _ _ le lt := absurd lt (Nat.not_lt.mpr le)

/-- What declares nothing may be read with any table. -/
theorem still {s : SymbolTable} (h : Situates L F P c s c' s) (t : SymbolTable) :
    Situates L F P c t c' t where
  grows := Nat.le_refl _
  keeps _ _ := rfl
  scanned := h.scanned
  ordered := h.ordered
  onward := h.onward
  holds ordered _ := h.holds ordered fun _ le lt => absurd lt (Nat.not_lt.mpr le)
  decls _ _ _ le lt := absurd lt (Nat.not_lt.mpr le)

/-- Scopes make no difference. -/
theorem of_decls (h : Situates L F P c t c' t') {s s' : SymbolTable} (first : s.decls = t.decls)
    (last : s'.decls = t'.decls) : Situates L F P c s c' s' := by
  have decl₁ (id : DeclId) : s.decl id = t.decl id := by simp [decl, first]
  have decl₂ (id : DeclId) : s'.decl id = t'.decl id := by simp [decl, last]
  have shared (shares : Shares F s s') : Shares F t t' := fun id le lt => by
    rw [← decl₂]
    exact shares id (by rwa [first]) (by rwa [last])
  refine ⟨by rw [first, last]; exact h.grows, fun id lt => ?_, h.scanned, h.ordered, h.onward,
    fun ordered shares => h.holds ordered (shared shares), fun ordered shares id le lt => ?_⟩
  · rw [decl₁, decl₂]
    exact h.keeps id (by rwa [first] at lt)
  · exact h.decls ordered (shared shares) id (by rwa [first] at le) (by rwa [last] at lt)

/-- Where a declaration lies that has been read. -/
theorem inside_declared (maps : L.Maps F) {id : DeclId} {lo hi : Nat} {span : Span}
    (declared : (F.decl id).span = span) (low : lo ≤ span.start.offset)
    (le : span.start.offset ≤ span.stop.offset) (high : span.stop.offset ≤ hi) :
    L.Inside (L.low id) (L.high id) lo hi := by
  subst declared
  refine inside_of_le ?_ ?_
  · rwa [maps.low]
  · rwa [maps.high id le]

/-- A declaration from its first token on: what is declared between is inside it. -/
theorem fill (maps : L.Maps F) {k : TokenKind} {first : Token} {s s' : SymbolTable} {d : Decl}
    (passed : Passed c k first c') (h : Situates L F P c' s c'' s')
    (begun : s.decls.size = t.decls.size + 1)
    (earlier : ∀ id : DeclId, id.index < t.decls.size → s.decl id = t.decl id)
    (size : t'.decls.size = s'.decls.size) (self : t'.decl t.nextDecl = d)
    (others : ∀ id, id ≠ t.nextDecl → t'.decl id = s'.decl id)
    (span : d.span = ⟨first.span.start, c''.endOfLast⟩)
    (kind : ∀ {lo hi : Nat}, P lo hi → d.kind.LiesIn L F.decls.size lo hi) :
    Situates L F (fun lo hi => L.Inside (L.low t.nextDecl) (L.high t.nextDecl) lo hi) c t c'' t' := by
  have grows := h.grows
  have other : ∀ {id : DeclId}, id.index ≠ t.decls.size → id ≠ t.nextDecl := fun ne same =>
    ne (congrArg DeclId.index same)
  have declared (shares : Shares F t t') : F.decl t.nextDecl = d :=
    (shares t.nextDecl (Nat.le_refl _) (show t.decls.size < _ by omega)).trans self
  have inside (shares : Shares F t t') : Shares F s s' := fun id le lt =>
    (shares id (by omega) (by omega)).trans (others id (other (by omega)))
  have start : d.span.start = first.span.start := by rw [span]
  have stop : d.span.stop.offset = c''.mark := by rw [span, Cursor.mark]
  refine ⟨by omega, fun id lt => ?_, h.scanned, fun ordered => h.ordered (passed.inOrder ordered),
    fun ordered => ?_, fun ordered shares lo hi low high => ?_, fun ordered shares id le lt => ?_⟩
  · rw [others id (other (Nat.ne_of_lt lt)), h.keeps id (by omega), earlier id lt]
  · have place := passed.place ordered
    have onward := h.onward (passed.inOrder ordered)
    omega
  · have place := passed.place ordered
    have onward := h.onward (passed.inOrder ordered)
    exact inside_declared maps (congrArg _ (declared shares)) (by rw [start]; omega)
      (by rw [start, stop]; omega) (by rw [stop]; exact high)
  · have ⟨token, _, size⟩ := passed.place ordered
    have ordered' := passed.inOrder ordered
    have onward := h.onward ordered'
    by_cases same : id = t.nextDecl
    · subst same
      have self := declared shares
      have low : L.low t.nextDecl = first.span.start.offset := by rw [maps.low, self, start]
      have high : L.high t.nextDecl = c''.mark := by
        rw [maps.high _ (by rw [self, start, stop]; omega), self, stop]
      have apart := maps.apart t.nextDecl
      have lies : d.kind.LiesIn L F.decls.size first.span.start.offset c''.mark :=
        kind (h.holds ordered' (inside shares) (Nat.le_of_lt size) (Nat.le_refl _))
      rw [self] at apart ⊢
      refine ⟨by rw [low, high]; exact lies, fun constant => ⟨apart (.inl constant), ?_⟩,
        fun extension => apart (.inr extension)⟩
      rw [start]
      exact ⟨token, .inr ⟨by omega, by omega⟩⟩
    · have ne : id.index ≠ t.decls.size := fun same' => same (by cases id; exact congrArg _ same')
      exact h.decls ordered' (inside shares) id (by omega) (by omega)

/-- A declaration is made when all of it has been passed. -/
theorem declare (maps : L.Maps F) {k : TokenKind} {first : Token} {d : Decl}
    (h : Situates L F P c' t c'' t) (passed : Passed c k first c')
    (span : d.span = ⟨first.span.start, c''.endOfLast⟩)
    (kind : ∀ {lo hi : Nat}, P lo hi → d.kind.LiesIn L F.decls.size lo hi) :
    Situates L F (fun lo hi => L.Inside (L.low t.nextDecl) (L.high t.nextDecl) lo hi) c t c''
      (t.declare d) :=
  fill maps passed (h.still _) (size_declare t d) (fun _ lt => decl_declare_of_lt lt d) rfl
    (decl_declare_nextDecl t d) (fun _ _ => rfl) span kind

/-- A declaration is given its parts once they have been read. -/
theorem define (maps : L.Maps F) {k : TokenKind} {first : Token} {s s' : SymbolTable} {d : Decl}
    {f : Decl → Decl} (h : Situates L F P c' s c'' s') (passed : Passed c k first c')
    (begun : s.decls = (t.declare d).decls)
    (span : (f d).span = ⟨first.span.start, c''.endOfLast⟩)
    (kind : ∀ {lo hi : Nat}, P lo hi → (f d).kind.LiesIn L F.decls.size lo hi) :
    Situates L F (fun lo hi => L.Inside (L.low t.nextDecl) (L.high t.nextDecl) lo hi) c t c''
      (s'.leave.modifyDecl t.nextDecl f) := by
  have decl (id : DeclId) : s.decl id = (t.declare d).decl id := by simp [decl, begun]
  have size : s.decls.size = t.decls.size + 1 := by rw [begun, size_declare]
  have present : t.nextDecl.index < s.decls.size := by
    rw [size]
    exact Nat.lt_succ_self _
  refine fill maps passed h size (fun id lt => ?_) (size_modifyDecl ..) ?_ (fun id ne => ?_) span kind
  · rw [decl, decl_declare_of_lt lt]
  · rw [decl_modifyDecl_self (t := s'.leave) (Nat.lt_of_lt_of_le present h.grows)]
    refine congrArg f ?_
    exact (h.keeps _ present).trans ((decl _).trans (decl_declare_nextDecl t d))
  · exact decl_modifyDecl_of_ne ne _ f

end Situates

/-! ## Statements -/

namespace Grammar

/-- A reader of statements that lays them out. -/
def Situating (L : Layout) (F : SymbolTable) (statement : Reader Stmt) : Prop :=
  ∀ ⦃c t s c' t'⦄, c.IsScanned → Reads statement c t s c' t' →
    Situates L F (fun lo hi => s.LiesIn L F.decls.size lo hi) c t c' t'

/-- An expression that has been set aside. -/
theorem situates_expression (maps : L.Maps F) {ends : List TokenKind} {f : Excerpt}
    (h : SetAside ends c f c') (t : SymbolTable) :
    Situates L F (fun lo hi => (Expr.deferred f).LiesIn L F.decls.size lo hi) c t c' t :=
  (h.situates maps t).imp fun lies => ⟨lies, rfl⟩

theorem situates_type (maps : L.Maps F) {ends : List TokenKind} {f : Excerpt}
    (h : SetAside ends c f c') (t : SymbolTable) :
    Situates L F (fun lo hi => (Ty.deferred f).LiesIn L F.decls.size lo hi) c t c' t :=
  (h.situates maps t).imp fun lies => lies

/-- The statement that states a declaration. -/
theorem situates_declaration (maps : L.Maps F) {id : DeclId} {span : Span}
    (h : Situates L F (fun lo hi => L.Inside (L.low id) (L.high id) lo hi) c t c' t') :
    Situates L F (fun lo hi => (Stmt.declaration id span).LiesIn L F.decls.size lo hi) c t c' t' :=
  h.imp fun inside => ⟨maps.known _ id, inside⟩

theorem situates_variableStatement (maps : L.Maps F) {s : Stmt} (scanned : c.IsScanned)
    (kind : c.kind = .keyword .varKw) (h : Reads variableStatement c t s c' t') :
    Situates L F (fun lo hi => s.LiesIn L F.decls.size lo hi) c t c' t' := by
  obtain ⟨word, c₁, isVar, h⟩ := peel_advance scanned kind (by decide) h
  obtain ⟨name, c₂, named, h⟩ := peel_identifierFor isVar.behind h
  obtain ⟨colon, c₃, typed, h⟩ := peel_expect named.behind (by decide) h
  obtain ⟨f, c₄, type, h⟩ := peel_typeUpTo typed.behind h
  rcases peel_accept type.behind (by decide) h with ⟨equals, c₅, assigned, h⟩ | ⟨-, h⟩
  · simp only [if_true, map_eq_pure_bind, bind_assoc, pure_bind] at h
    obtain ⟨e, c₆, init, h⟩ := peel_expressionUpTo assigned.behind h
    obtain ⟨mark, c₇, ended, h⟩ := peel_endStatement init.behind h
    have last := peel_declare h
    obtain ⟨rfl, rfl, rfl⟩ := reads_pure.mp last
    have initialized := ((situates_expression maps init t).before ended).behind assigned
    have parts := (((situates_type maps type t).both initialized).behind typed).behind named
    exact situates_declaration maps (parts.declare maps isVar (by rw [ended.last])
      fun lies => ⟨lies.1, fun _ same => Option.some.inj same ▸ lies.2⟩)
  · simp only [Bool.false_eq_true, if_false, pure_bind] at h
    obtain ⟨mark, c₅, ended, h⟩ := peel_endStatement type.behind h
    have last := peel_declare h
    obtain ⟨rfl, rfl, rfl⟩ := reads_pure.mp last
    have parts := (((situates_type maps type t).before ended).behind typed).behind named
    exact situates_declaration maps (parts.declare maps isVar (by rw [ended.last])
      fun lies => ⟨lies, nofun⟩)

theorem situates_superStatement (maps : L.Maps F) {s : Stmt} (scanned : c.IsScanned)
    (kind : c.kind = .keyword .superKw) (h : Reads superStatement c t s c' t') :
    Situates L F (fun lo hi => s.LiesIn L F.decls.size lo hi) c t c' t' := by
  obtain ⟨word, c₁, isSuper, h⟩ := peel_advance scanned kind (by decide) h
  obtain ⟨name, c₂, named, h⟩ := peel_identifierFor isSuper.behind h
  obtain ⟨colon, c₃, typed, h⟩ := peel_expect named.behind (by decide) h
  obtain ⟨f, c₄, type, h⟩ := peel_typeUpTo typed.behind h
  obtain ⟨mark, c₅, ended, h⟩ := peel_endStatement type.behind h
  have last := peel_declare h
  obtain ⟨rfl, rfl, rfl⟩ := reads_pure.mp last
  have parts := (((situates_type maps type t).before ended).behind typed).behind named
  exact situates_declaration maps (parts.declare maps isSuper (by rw [ended.last]) fun lies => lies)

/-- A constant, behind the keyword and the name that have been passed. -/
theorem situates_constantStatement (maps : L.Maps F) {s : Stmt} {c₁ c₂ : Cursor} {word name : Token}
    (isDef : Passed c (.keyword .defKw) word c₁) (named : Passed c₁ .identifier name c₂)
    (h : Reads (constantStatement word.span.start name.text) c₂ t s c' t') :
    Situates L F (fun lo hi => s.LiesIn L F.decls.size lo hi) c t c' t' := by
  obtain ⟨colon, c₃, typed, h⟩ := peel_expect named.behind (by decide) h
  obtain ⟨f, c₄, type, h⟩ := peel_typeUpTo typed.behind h
  obtain ⟨equals, c₅, assigned, h⟩ := peel_expect type.behind (by decide) h
  obtain ⟨e, c₆, init, h⟩ := peel_expressionUpTo assigned.behind h
  obtain ⟨mark, c₇, ended, h⟩ := peel_endStatement init.behind h
  have last := peel_declare h
  obtain ⟨rfl, rfl, rfl⟩ := reads_pure.mp last
  have initialized := ((situates_expression maps init t).before ended).behind assigned
  have parts := (((situates_type maps type t).both initialized).behind typed).behind named
  exact situates_declaration maps (parts.declare maps isDef (by rw [ended.last])
    fun lies => ⟨lies.1, fun _ same => Option.some.inj same ▸ lies.2⟩)

/-! ### Statements without declarations -/

theorem situates_returnStatement (maps : L.Maps F) {s : Stmt} (scanned : c.IsScanned)
    (kind : c.kind = .keyword .returnKw) (h : Reads returnStatement c t s c' t') :
    Situates L F (fun lo hi => s.LiesIn L F.decls.size lo hi) c t c' t' := by
  obtain ⟨word, c₁, isReturn, h⟩ := peel_advance scanned kind (by decide) h
  have h := peel_seen h
  split at h
  · simp only [pure_bind] at h
    obtain ⟨mark, c₃, ended, last⟩ := peel_endStatement isReturn.behind h
    obtain ⟨rfl, rfl, rfl⟩ := reads_pure.mp last
    exact ((ended.situates t').startingAt isReturn).imp fun lies => ⟨lies.1, nofun⟩
  · simp only [map_eq_pure_bind, bind_assoc, pure_bind] at h
    obtain ⟨e, c₃, value, h⟩ := peel_expressionUpTo isReturn.behind h
    obtain ⟨mark, c₄, ended, last⟩ := peel_endStatement value.behind h
    obtain ⟨rfl, rfl, rfl⟩ := reads_pure.mp last
    have parts := ((situates_expression maps value t').before ended).startingAt isReturn
    exact parts.imp fun lies => ⟨lies.1, fun _ same => Option.some.inj same ▸ lies.2⟩

theorem situates_yieldStatement (maps : L.Maps F) {s : Stmt} (scanned : c.IsScanned)
    (kind : c.kind = .keyword .yieldKw) (h : Reads yieldStatement c t s c' t') :
    Situates L F (fun lo hi => s.LiesIn L F.decls.size lo hi) c t c' t' := by
  obtain ⟨word, c₁, isYield, h⟩ := peel_advance scanned kind (by decide) h
  obtain ⟨e, c₂, value, h⟩ := peel_expressionUpTo isYield.behind h
  obtain ⟨mark, c₃, ended, last⟩ := peel_endStatement value.behind h
  obtain ⟨rfl, rfl, rfl⟩ := reads_pure.mp last
  exact ((situates_expression maps value t').before ended).behind isYield

theorem situates_expressionStatement (maps : L.Maps F) {s : Stmt} (scanned : c.IsScanned)
    (h : Reads expressionStatement c t s c' t') :
    Situates L F (fun lo hi => s.LiesIn L F.decls.size lo hi) c t c' t' := by
  obtain ⟨e, c₁, value, h⟩ := peel_expressionUpTo scanned h
  obtain ⟨mark, c₂, ended, last⟩ := peel_expect value.behind (by decide) h
  obtain ⟨rfl, rfl, rfl⟩ := reads_pure.mp last
  exact (situates_expression maps value t').before ended

/-- A keyword and a semicolon. -/
theorem situates_jumpStatement {s : Stmt} {form : Span → Stmt} {word : Keyword} (scanned : c.IsScanned)
    (kind : c.kind = .keyword word) (h : Reads (jumpStatement form) c t s c' t')
    (lies : ∀ span lo hi, (form span).LiesIn L F.decls.size lo hi) :
    Situates L F (fun lo hi => s.LiesIn L F.decls.size lo hi) c t c' t' := by
  obtain ⟨first, c₁, introduced, h⟩ := peel_advance scanned kind TokenKind.noConfusion h
  obtain ⟨mark, c₂, ended, last⟩ := peel_endStatement introduced.behind h
  obtain ⟨rfl, rfl, rfl⟩ := reads_pure.mp last
  exact ((ended.situates t').behind introduced).imp fun _ => lies ..

/-! ### Sequences and blocks -/

theorem situates_manyWithin {statement : Reader Stmt} (situating : Situating L F statement)
    (more : TokenKind → Bool) : ∀ (bound : Nat) {c c' : Cursor} {t t' : SymbolTable}
    {body : List Stmt}, c.IsScanned → Reads (manyWithin more statement bound) c t body c' t' →
    Situates L F (fun lo hi => Stmt.AllLieIn L F.decls.size lo hi body) c t c' t'
  | 0, _, _, _, _, _, scanned, h => by
    obtain ⟨rfl, rfl, rfl⟩ := reads_pure.mp h
    exact .refl scanned trivial _
  | bound + 1, _, _, _, _, _, scanned, h => by
    have h := peel_seen h
    split at h
    · obtain ⟨s, c₁, t₁, first, rest⟩ := reads_bind.mp h
      have lies := situating scanned first
      obtain ⟨others, c₂, t₂, second, last⟩ := reads_bind.mp rest
      have follow := situates_manyWithin situating more bound lies.scanned second
      obtain ⟨rfl, rfl, rfl⟩ := reads_pure.mp last
      exact lies.trans follow fun low high lies follow => ⟨_, low, high, lies, follow⟩
    · obtain ⟨rfl, rfl, rfl⟩ := reads_pure.mp h
      exact .refl scanned trivial _

theorem situates_blockBody {statement : Reader Stmt} (situating : Situating L F statement)
    {body : List Stmt} (scanned : c.IsScanned) (h : Reads (blockBody statement) c t body c' t') :
    Situates L F (fun lo hi => Stmt.AllLieIn L F.decls.size lo hi body) c t c' t' := by
  obtain ⟨left, c₁, opened, h⟩ := peel_expect scanned (by decide) h
  obtain ⟨body', c₂, t₂, read, h⟩ := reads_bind.mp h
  have inner := situates_manyWithin situating _ _ opened.behind (peel_get read)
  obtain ⟨right, c₃, closed, last⟩ := peel_expect inner.scanned (by decide) h
  obtain ⟨rfl, rfl, rfl⟩ := reads_pure.mp last
  exact (inner.before closed).behind opened

theorem situates_blockStatement {statement : Reader Stmt} (situating : Situating L F statement)
    {s : Stmt} (scanned : c.IsScanned) (h : Reads (blockStatement statement) c t s c' t') :
    Situates L F (fun lo hi => s.LiesIn L F.decls.size lo hi) c t c' t' := by
  have h := peel_seen h
  obtain ⟨b, t₁, same₁, h⟩ := peel_takeBlock h
  obtain ⟨scope, t₂, same₂, h⟩ := peel_newScope h
  obtain ⟨body, c₁, t₃, read, h⟩ := reads_bind.mp h
  obtain ⟨t₄, inside, rfl⟩ := reads_under.mp read
  have inner := situates_blockBody situating scanned inside
  have last := peel_seen h
  obtain ⟨rfl, rfl, rfl⟩ := reads_pure.mp last
  exact inner.of_decls (same₂.trans same₁).symm rfl

/-! ### Functions -/

theorem situates_parameter (maps : L.Maps F) {id : DeclId} (scanned : c.IsScanned)
    (h : Reads parameter c t id c' t') :
    Situates L F (fun lo hi => L.Inside (L.low id) (L.high id) lo hi) c t c' t' := by
  obtain ⟨name, c₁, named, h⟩ := peel_identifierFor scanned h
  obtain ⟨colon, c₂, typed, h⟩ := peel_expect named.behind (by decide) h
  obtain ⟨f, c₃, type, h⟩ := peel_typeUpTo typed.behind h
  have h := peel_seen h
  rw [← bind_pure (declare _ _ _)] at h
  have last := peel_declare h
  obtain ⟨rfl, rfl, rfl⟩ := reads_pure.mp last
  exact ((situates_type maps type t).behind typed).declare maps named rfl fun lies => lies

/-- Further parameters with a comma in front of each. -/
theorem situates_furtherParameters (maps : L.Maps F) (more : TokenKind → Bool) :
    ∀ (bound : Nat) {c c' : Cursor} {t t' : SymbolTable} {ids : List DeclId}, c.IsScanned →
    Reads (manyWithin more (do
      let _ ← expect comma
      parameter) bound) c t ids c' t' →
    Situates L F (fun lo hi => ∀ p ∈ ids, L.Inside (L.low p) (L.high p) lo hi) c t c' t'
  | 0, _, _, _, _, _, scanned, h => by
    obtain ⟨rfl, rfl, rfl⟩ := reads_pure.mp h
    exact .refl scanned (List.forall_mem_nil _) _
  | bound + 1, _, _, _, _, _, scanned, h => by
    have h := peel_seen h
    split at h
    · obtain ⟨id, c₁, t₁, first, rest⟩ := reads_bind.mp h
      obtain ⟨mark, c₂, separated, first⟩ := peel_expect scanned (by decide) first
      have lies := situates_parameter maps separated.behind first
      obtain ⟨others, c₃, t₃, second, last⟩ := reads_bind.mp rest
      have further := situates_furtherParameters maps more bound lies.scanned second
      obtain ⟨rfl, rfl, rfl⟩ := reads_pure.mp last
      exact ((lies.behind separated).both further).imp fun lies => List.forall_mem_cons.mpr lies
    · obtain ⟨rfl, rfl, rfl⟩ := reads_pure.mp h
      exact .refl scanned (List.forall_mem_nil _) _

theorem situates_parameters (maps : L.Maps F) {ids : List DeclId} (scanned : c.IsScanned)
    (h : Reads parameters c t ids c' t') :
    Situates L F (fun lo hi => ∀ p ∈ ids, L.Inside (L.low p) (L.high p) lo hi) c t c' t' := by
  obtain ⟨left, c₁, opened, h⟩ := peel_expect scanned (by decide) h
  have h := peel_seen h
  split at h
  · rw [pure_bind] at h
    obtain ⟨right, c₂, closed, last⟩ := peel_expect opened.behind (by decide) h
    obtain ⟨rfl, rfl, rfl⟩ := reads_pure.mp last
    exact ((closed.situates t').behind opened).imp fun _ => List.forall_mem_nil _
  · obtain ⟨all, c₂, t₂, read, h⟩ := reads_bind.mp h
    obtain ⟨first, c₃, t₃, read₁, rest⟩ := reads_bind.mp read
    have lies := situates_parameter maps opened.behind read₁
    obtain ⟨others, c₄, t₄, read₂, last⟩ := reads_bind.mp rest
    have further := situates_furtherParameters maps _ _ lies.scanned (peel_get read₂)
    obtain ⟨rfl, rfl, rfl⟩ := reads_pure.mp last
    obtain ⟨right, c₅, closed, last⟩ := peel_expect further.scanned (by decide) h
    obtain ⟨rfl, rfl, rfl⟩ := reads_pure.mp last
    exact (((lies.both further).before closed).behind opened).imp fun lies => List.forall_mem_cons.mpr lies

theorem situates_resultType (maps : L.Maps F) {result : Option Ty} (scanned : c.IsScanned)
    (h : Reads resultType c t result c' t') :
    Situates L F (fun lo hi => ∀ type, result = some type → type.LiesIn L F.decls.size lo hi) c t c' t' := by
  rcases peel_accept scanned (by decide) h with ⟨arrow, c₁, named, h⟩ | ⟨-, h⟩
  · simp only [if_true, map_eq_pure_bind] at h
    obtain ⟨f, c₂, type, last⟩ := peel_typeUpTo named.behind h
    obtain ⟨rfl, rfl, rfl⟩ := reads_pure.mp last
    exact ((situates_type maps type t').behind named).imp fun lies _ same => Option.some.inj same ▸ lies
  · obtain ⟨rfl, rfl, rfl⟩ := reads_pure.mp h
    exact .refl scanned nofun _

theorem situates_functionBody (maps : L.Maps F) {statement : Reader Stmt}
    (situating : Situating L F statement) {id : DeclId} {body : Body} (scanned : c.IsScanned)
    (h : Reads (functionBody statement id) c t body c' t') :
    Situates L F (fun lo hi => body.LiesIn L F.decls.size lo hi) c t c' t' := by
  have h := peel_get h
  split at h
  · obtain ⟨s, read, rfl⟩ := reads_map.mp h
    exact situates_blockStatement situating scanned read
  split at h
  · rename_i kind
    obtain ⟨equals, c₁, assigned, h⟩ := peel_advance scanned kind (by decide) h
    obtain ⟨scope, t₁, same, h⟩ := peel_newScope h
    obtain ⟨e, c₂, value, h⟩ := peel_expressionUpTo assigned.behind h
    obtain ⟨mark, c₃, ended, last⟩ := peel_expect value.behind (by decide) h
    obtain ⟨rfl, rfl, rfl⟩ := reads_pure.mp last
    have parts := ((situates_expression maps value t').before ended).behind assigned
    exact parts.of_decls same.symm rfl
  split at h
  · rename_i kind
    obtain ⟨mark, c₁, ended, last⟩ := peel_advance scanned kind (by decide) h
    obtain ⟨rfl, rfl, rfl⟩ := reads_pure.mp last
    exact (ended.situates t').imp fun _ => trivial
  · exact absurd h reads_throw

theorem liesIn_impliedResult (body : Body) (n lo hi : Nat) : (impliedResult body).LiesIn L n lo hi := by
  cases body <;> trivial

theorem situates_functionParts (maps : L.Maps F) {statement : Reader Stmt}
    (situating : Situating L F statement) {id : DeclId} {callable : Callable} (scanned : c.IsScanned)
    (h : Reads (functionParts statement id) c t callable c' t') :
    Situates L F (fun lo hi => callable.LiesIn L F.decls.size lo hi) c t c' t' := by
  obtain ⟨ids, c₁, t₁, read₁, h⟩ := reads_bind.mp h
  have parameters := situates_parameters maps scanned read₁
  obtain ⟨result, c₂, t₂, read₂, h⟩ := reads_bind.mp h
  have type := situates_resultType maps parameters.scanned read₂
  obtain ⟨body, c₃, t₃, read₃, last⟩ := reads_bind.mp h
  have form := situates_functionBody maps situating type.scanned read₃
  obtain ⟨rfl, rfl, rfl⟩ := reads_pure.mp last
  refine (parameters.both (type.both form)).imp fun {lo hi} ⟨parameters, type, form⟩ =>
    ⟨fun p member => ⟨maps.known _ p, parameters p member⟩, List.forall_mem_nil _, ?_, trivial, form⟩
  cases result with
  | none => exact liesIn_impliedResult body ..
  | some result => exact type result rfl

/-- A function, behind the keyword and the name that have been passed. -/
theorem situates_functionStatement (maps : L.Maps F) {statement : Reader Stmt}
    (situating : Situating L F statement) {sort : CallableSort} {s : Stmt} {c₁ c₂ : Cursor}
    {k : TokenKind} {word name : Token} (introduced : Passed c k word c₁)
    (named : Passed c₁ .identifier name c₂)
    (h : Reads (functionStatement statement sort word.span.start name.text) c₂ t s c' t') :
    Situates L F (fun lo hi => s.LiesIn L F.decls.size lo hi) c t c' t' := by
  have h := peel_declare h
  obtain ⟨scope, t₁, same, h⟩ := peel_newScope h
  obtain ⟨callable, c₃, t₂, read, h⟩ := reads_bind.mp h
  obtain ⟨t₃, inside, rfl⟩ := reads_under.mp read
  have parts := situates_functionParts maps situating named.behind inside
  have h := peel_seen h
  have last := peel_change h
  obtain ⟨rfl, rfl, rfl⟩ := reads_pure.mp last
  exact situates_declaration maps ((parts.behind named).define maps introduced same rfl fun lies => lies)

theorem situates_definitionStatement (maps : L.Maps F) {statement : Reader Stmt}
    (situating : Situating L F statement) {s : Stmt} (scanned : c.IsScanned)
    (kind : c.kind = .keyword .defKw) (h : Reads (definitionStatement statement) c t s c' t') :
    Situates L F (fun lo hi => s.LiesIn L F.decls.size lo hi) c t c' t' := by
  obtain ⟨word, c₁, isDef, h⟩ := peel_advance scanned kind (by decide) h
  obtain ⟨name, c₂, named, h⟩ := peel_identifierFor isDef.behind h
  have h := peel_get h
  split at h
  · exact situates_constantStatement maps isDef named h
  split at h
  · exact situates_functionStatement maps situating isDef named h
  · exact absurd h reads_throw

theorem situates_coroutineStatement (maps : L.Maps F) {statement : Reader Stmt}
    (situating : Situating L F statement) {s : Stmt} (scanned : c.IsScanned)
    (kind : c.kind = .keyword .coroutineKw) (h : Reads (coroutineStatement statement) c t s c' t') :
    Situates L F (fun lo hi => s.LiesIn L F.decls.size lo hi) c t c' t' := by
  obtain ⟨word, c₁, introduced, h⟩ := peel_advance scanned kind (by decide) h
  obtain ⟨name, c₂, named, h⟩ := peel_identifierFor introduced.behind h
  exact situates_functionStatement maps situating introduced named h

/-! ### Classes -/

theorem situates_classKind (maps : L.Maps F) {sort : ClassSort} {type : Ty} (scanned : c.IsScanned)
    (h : Reads (classKind sort) c t type c' t') :
    Situates L F (fun lo hi => type.LiesIn L F.decls.size lo hi) c t c' t ∧ t' = t := by
  unfold classKind at h
  split at h
  · rcases peel_accept scanned (by decide) h with ⟨colon, c₁, typed, h⟩ | ⟨-, h⟩
    · rw [if_pos rfl, ← bind_pure (typeUpTo _)] at h
      obtain ⟨f, c₂, type, last⟩ := peel_typeUpTo typed.behind h
      obtain ⟨rfl, rfl, rfl⟩ := reads_pure.mp last
      exact ⟨(situates_type maps type t').behind typed, rfl⟩
    · obtain ⟨rfl, rfl, rfl⟩ := reads_pure.mp h
      exact ⟨.refl scanned trivial _, rfl⟩
  · obtain ⟨rfl, rfl, rfl⟩ := reads_pure.mp h
    exact ⟨.refl scanned trivial _, rfl⟩

theorem situates_classStatement (maps : L.Maps F) {statement : Reader Stmt}
    (situating : Situating L F statement) {s : Stmt} {sort : ClassSort} {word : Keyword}
    (scanned : c.IsScanned) (kind : c.kind = .keyword word)
    (h : Reads (classStatement statement sort) c t s c' t') :
    Situates L F (fun lo hi => s.LiesIn L F.decls.size lo hi) c t c' t' := by
  obtain ⟨first, c₁, introduced, h⟩ := peel_advance scanned kind TokenKind.noConfusion h
  obtain ⟨name, c₂, named, h⟩ := peel_identifierFor introduced.behind h
  obtain ⟨type, c₃, t₁, read, h₁⟩ := reads_bind.mp h
  obtain ⟨lies, rfl⟩ := situates_classKind maps named.behind read
  have h := peel_declare h₁
  obtain ⟨scope, t₂, same, h⟩ := peel_newScope h
  obtain ⟨body, c₄, t₃, read₁, h⟩ := reads_bind.mp h
  obtain ⟨t₄, inside, rfl⟩ := reads_under.mp read₁
  have members := situates_blockBody situating lies.scanned inside
  have h := peel_seen h
  have last := peel_change h
  obtain ⟨rfl, rfl, rfl⟩ := reads_pure.mp last
  have parts := ((lies.still _).both members).behind named
  exact situates_declaration maps (parts.define maps introduced same rfl fun lies => lies)

/-! ### Conditions -/

theorem situates_condition (maps : L.Maps F) {e : Expr} (scanned : c.IsScanned)
    (h : Reads condition c t e c' t') :
    Situates L F (fun lo hi => e.LiesIn L F.decls.size lo hi) c t c' t' := by
  obtain ⟨left, c₁, opened, h⟩ := peel_expect scanned (by decide) h
  obtain ⟨f, c₂, value, h⟩ := peel_expressionUpTo opened.behind h
  obtain ⟨right, c₃, closed, last⟩ := peel_expect value.behind (by decide) h
  obtain ⟨rfl, rfl, rfl⟩ := reads_pure.mp last
  exact ((situates_expression maps value t').before closed).behind opened

theorem situates_ifStatement (maps : L.Maps F) {statement : Reader Stmt}
    (situating : Situating L F statement) {s : Stmt} (scanned : c.IsScanned)
    (kind : c.kind = .keyword .ifKw) (h : Reads (ifStatement statement) c t s c' t') :
    Situates L F (fun lo hi => s.LiesIn L F.decls.size lo hi) c t c' t' := by
  obtain ⟨word, c₁, isIf, h⟩ := peel_advance scanned kind (by decide) h
  obtain ⟨e, c₂, t₂, read, h⟩ := reads_bind.mp h
  have condition := situates_condition maps isIf.behind read
  obtain ⟨onTrue, c₃, t₃, read₁, h⟩ := reads_bind.mp h
  have first := situating condition.scanned read₁
  have behindElse {onFalse : Option Stmt} {c' : Cursor} {t' : SymbolTable} {span : Span}
      (other : Situates L F (fun lo hi => Stmt.LiesBehindElse L F.decls.size lo hi onFalse) c₃ t₃ c' t') :
      Situates L F (fun lo hi => (Stmt.conditional e onTrue onFalse span).LiesIn L F.decls.size lo hi)
        c t c' t' := by
    have branches := first.trans (R := fun lo hi => ∃ mid, lo ≤ mid ∧ mid ≤ hi ∧
      onTrue.LiesIn L F.decls.size lo mid ∧ Stmt.LiesBehindElse L F.decls.size mid hi onFalse) other
      fun low high lies behind => ⟨_, low, high, lies, behind⟩
    exact (condition.trans branches fun low _ lies ⟨_, le₁, le₂, onTrue, onFalse⟩ =>
      ⟨_, _, low, le₁, le₂, lies, onTrue, onFalse⟩).behind isIf
  rcases peel_accept first.scanned (by decide) h with ⟨other, c₄, isElse, h⟩ | ⟨-, h⟩
  · simp only [if_true, map_eq_pure_bind, bind_assoc, pure_bind] at h
    obtain ⟨onFalse, c₅, t₅, read₂, h⟩ := reads_bind.mp h
    have second := situating isElse.behind read₂
    have last := peel_seen h
    obtain ⟨rfl, rfl, rfl⟩ := reads_pure.mp last
    exact behindElse ((second.behind isElse).imp fun lies => lies)
  · simp only [Bool.false_eq_true, if_false, pure_bind] at h
    have last := peel_seen h
    obtain ⟨rfl, rfl, rfl⟩ := reads_pure.mp last
    exact behindElse (.refl first.scanned trivial _)

theorem situates_whileStatement (maps : L.Maps F) {statement : Reader Stmt}
    (situating : Situating L F statement) {s : Stmt} (scanned : c.IsScanned)
    (kind : c.kind = .keyword .whileKw) (h : Reads (whileStatement statement) c t s c' t') :
    Situates L F (fun lo hi => s.LiesIn L F.decls.size lo hi) c t c' t' := by
  obtain ⟨word, c₁, isWhile, h⟩ := peel_advance scanned kind (by decide) h
  obtain ⟨e, c₂, t₂, read, h⟩ := reads_bind.mp h
  have condition := situates_condition maps isWhile.behind read
  obtain ⟨body, c₃, t₃, read₁, h⟩ := reads_bind.mp h
  have inner := situating condition.scanned read₁
  have last := peel_seen h
  obtain ⟨rfl, rfl, rfl⟩ := reads_pure.mp last
  exact (condition.trans inner fun low high lies inner => ⟨_, low, high, lies, inner⟩).behind isWhile

/-! ### All statements -/

theorem situates_statementOf (maps : L.Maps F) {statement : Reader Stmt}
    (situating : Situating L F statement) {s : Stmt} (scanned : c.IsScanned)
    (h : Reads (statementOf statement c.kind) c t s c' t') :
    Situates L F (fun lo hi => s.LiesIn L F.decls.size lo hi) c t c' t' := by
  generalize kind : c.kind = k at h
  unfold statementOf at h
  split at h
  · exact situates_variableStatement maps scanned kind h
  · exact situates_definitionStatement maps situating scanned kind h
  · exact situates_coroutineStatement maps situating scanned kind h
  · exact situates_classStatement maps situating scanned kind h
  · exact situates_classStatement maps situating scanned kind h
  · exact situates_superStatement maps scanned kind h
  · exact situates_blockStatement situating scanned h
  · exact situates_returnStatement maps scanned kind h
  · exact situates_yieldStatement maps scanned kind h
  · exact situates_ifStatement maps situating scanned kind h
  · exact situates_whileStatement maps situating scanned kind h
  · exact situates_jumpStatement scanned kind h fun _ _ _ => trivial
  · exact situates_jumpStatement scanned kind h fun _ _ _ => trivial
  · exact situates_expressionStatement maps scanned h

theorem situating_statementWithin (maps : L.Maps F) (depth : Nat) :
    Situating L F (statementWithin depth) := by
  induction depth with
  | zero =>
    intro c t s c' t' _ h
    exact absurd (peel_get h) reads_throw
  | succ depth ih =>
    intro c t s c' t' scanned h
    exact situates_statementOf maps ih scanned (peel_seen h)

theorem situating_statement (maps : L.Maps F) : Situating L F statement := fun _ _ _ _ _ scanned h =>
  situating_statementWithin maps _ scanned (peel_get h)

end Grammar

end Deferral
