import Deferral.Phrase.Expression
import Deferral.Proofs.Execution.Outcome

/-!
# Expressions in layers

The grammar of expressions has one layer for each family of operators, and a phrase of one layer is
made of phrases of the next. Reading by powers finds exactly the phrases of this grammar: what may
come behind an operand is taken as long as it belongs to the layers that the power lets in.
-/

namespace Deferral

/-! ## The grammar -/

/-- The layers of the grammar, the outermost first. -/
inductive Layer where
  | expression | logical | relational | additive | multiplicative | unary | call | primary
deriving DecidableEq, Repr

namespace Layer

/-- How deep a layer lies. -/
def rank : Layer → Nat
  | .expression => 0
  | .logical => 1
  | .relational => 2
  | .additive => 3
  | .multiplicative => 4
  | .unary => 5
  | .call => 6
  | .primary => 7

/-- The layer that the phrases of a layer are made of. -/
def next : Layer → Layer
  | .expression => .logical
  | .logical => .relational
  | .relational => .additive
  | .additive => .multiplicative
  | .multiplicative => .unary
  | .unary => .call
  | .call | .primary => .primary

/-- The layer that a binary operator belongs to. -/
def ofBinary : BinaryOp → Layer
  | .connective _ => .logical
  | .comparison _ => .relational
  | .arithmetic .add | .arithmetic .sub => .additive
  | .arithmetic .mul | .arithmetic .div | .arithmetic .rem => .multiplicative

end Layer

/-- The mark that a unary operator is written with. -/
def UnaryOp.mark : UnaryOp → Mark
  | .negate => .dash
  | .not => .notMark

mutual

/-- Some tokens form a phrase of a layer. The operators of one layer group to the left: the left
operand is of their own layer and the right one of the next. Assignments group to the right. -/
inductive Derives : Layer → List Token → Phrase → Prop
  | next {layer : Layer} {ts : List Token} {p : Phrase} :
      Derives layer.next ts p → Derives layer ts p
  | assign {ts us : List Token} {t : Token} {target value : Phrase} :
      Derives .logical ts target → t.kind = .mark .assignment → Derives .expression us value →
      Derives .expression (ts ++ t :: us) (.assign target value)
  | binary {op : BinaryOp} {mark : Mark} {ts us : List Token} {t : Token} {left right : Phrase} :
      Derives (.ofBinary op) ts left → t.kind = .mark mark → BinaryOp.ofMark? mark = some op →
      Derives (Layer.ofBinary op).next us right →
      Derives (.ofBinary op) (ts ++ t :: us) (.binary op left right)
  | unary {op : UnaryOp} {us : List Token} {t : Token} {operand : Phrase} :
      t.kind = .mark op.mark → Derives .unary us operand →
      Derives .unary (t :: us) (.unary op t.span.start operand)
  | call {ts us : List Token} {opening closing : Token} {callee : Phrase} {es : List Phrase} :
      Derives .call ts callee → opening.kind = .mark .openParen → DerivesAll us es →
      closing.kind = .mark .closeParen →
      Derives .call (ts ++ opening :: (us ++ [closing])) (.call callee es closing.span.stop)
  | number {t : Token} : t.kind = .number → Derives .primary [t] (.number t)
  | name {t : Token} : t.kind = .identifier → Derives .primary [t] (.name t)
  | true {t : Token} : t.kind = .keyword .trueKw → Derives .primary [t] (.truth true t)
  | false {t : Token} : t.kind = .keyword .falseKw → Derives .primary [t] (.truth false t)
  | group {ts : List Token} {opening closing : Token} {p : Phrase} :
      opening.kind = .mark .openParen → Derives .expression ts p →
      closing.kind = .mark .closeParen → Derives .primary (opening :: (ts ++ [closing])) p

/-- Some tokens form the arguments of a call. -/
inductive DerivesAll : List Token → List Phrase → Prop
  | none : DerivesAll [] []
  | some {ts : List Token} {es : List Phrase} : DerivesSome ts es → DerivesAll ts es

/-- Some tokens form expressions, one at least, with a comma between each two. -/
inductive DerivesSome : List Token → List Phrase → Prop
  | one {ts : List Token} {e : Phrase} : Derives .expression ts e → DerivesSome ts [e]
  | more {ts us : List Token} {comma : Token} {e : Phrase} {es : List Phrase} :
      Derives .expression ts e → comma.kind = .mark .comma → DerivesSome us es →
      DerivesSome (ts ++ comma :: us) (e :: es)

end

/-! ## Layers and powers -/

/-- The layer that is read where operators have to bind tighter than a power. -/
def Power.layer : Power → Layer
  | .lowest | .comma => .expression
  | .assignment => .logical
  | .logical => .relational
  | .relational => .additive
  | .additive => .multiplicative
  | .multiplicative | .unary => .unary
  | .call => .primary

/-- The layer that a continuation makes a phrase of. -/
def Continuation.layer : Continuation → Layer
  | .binary op => .ofBinary op
  | .assign => .expression
  | .call => .call

/-- A continuation binds too weakly for a power if it belongs to a layer outside of that which is
read there. -/
theorem Continuation.rank_power_le_iff (form : Continuation) (power : Power) :
    form.power.rank ≤ power.rank ↔ form.layer.rank < power.layer.rank := by
  obtain (op | op | op) | _ | _ := form <;> try cases op
  all_goals cases power <;> decide

theorem Power.layer_ofBinary (op : BinaryOp) :
    (Power.ofBinary op).layer = (Layer.ofBinary op).next := by
  obtain op | op | op := op <;> try cases op
  all_goals rfl

theorem Power.ofBinary_ne_call (op : BinaryOp) : ofBinary op ≠ .call := by
  obtain op | op | op := op <;> try cases op
  all_goals decide

theorem Continuation.rank_layer_ne_unary (form : Continuation) :
    form.layer.rank ≠ Layer.unary.rank := by
  obtain (op | op | op) | _ | _ := form <;> try cases op
  all_goals decide

/-- The operators are told by the marks that announce them. -/
theorem Continuation.ofKind?_mark {mark : Mark} {op : BinaryOp}
    (operator : BinaryOp.ofMark? mark = some op) :
    ofKind? (.mark mark) = some (.binary op) := by
  cases mark <;> first | cases operator; rfl | cases operator

namespace Layer

theorem rank_le_rank_next (layer : Layer) : layer.rank ≤ layer.next.rank := by
  cases layer <;> decide

theorem rank_next_of_lt (layer : Layer) (inner : layer.rank < Layer.primary.rank) :
    layer.next.rank = layer.rank + 1 := by
  cases layer <;> first | rfl | exact absurd inner (by decide)

theorem eq_of_rank_eq {layer layer' : Layer} (h : layer.rank = layer'.rank) : layer = layer' := by
  cases layer <;> cases layer' <;> first | rfl | exact absurd h (by decide)

theorem ofBinary_ne_expression (op : BinaryOp) : ofBinary op ≠ .expression := by
  obtain op | op | op := op <;> try cases op
  all_goals decide

theorem rank_ofBinary_lt (op : BinaryOp) : (ofBinary op).rank < (ofBinary op).next.rank := by
  obtain op | op | op := op <;> try cases op
  all_goals decide

/-- A token of a kind does not continue any part of a phrase of a layer, but at most the whole of it or
what that is part of. -/
def EndsBefore (layer : Layer) (kind : TokenKind) : Prop :=
  ∀ form, Continuation.ofKind? kind = some form →
    form.layer.rank ≤ layer.rank ∧ layer ≠ .expression

theorem EndsBefore.next {layer : Layer} {kind : TokenKind} (h : layer.EndsBefore kind) :
    layer.next.EndsBefore kind := fun form announced => by
  obtain ⟨le, ne⟩ := h form announced
  refine ⟨Nat.le_trans le layer.rank_le_rank_next, ?_⟩
  cases layer <;> decide

theorem endsBefore_of_none (layer : Layer) {kind : TokenKind}
    (none : Continuation.ofKind? kind = none) : layer.EndsBefore kind := fun form announced => by
  rw [none] at announced
  cases announced

/-- Calls are the innermost continuations. -/
theorem endsBefore_of_call_le {layer : Layer} (inner : Layer.call.rank ≤ layer.rank)
    (kind : TokenKind) : layer.EndsBefore kind := by
  refine fun form _ => ⟨Nat.le_trans ?_ inner, fun same => absurd (same ▸ inner) (by decide)⟩
  obtain (op | op | op) | _ | _ := form <;> try cases op
  all_goals decide

end Layer

/-- Reading with a power stops in front of a token of a kind. -/
def Power.StopsAt (power : Power) (kind : TokenKind) : Prop :=
  ∀ form, Continuation.ofKind? kind = some form → form.layer.rank < power.layer.rank

/-- Reading stops where a phrase of a layer further out ends. -/
theorem Layer.EndsBefore.stopsAt {power : Power} {layer : Layer} {kind : TokenKind}
    (h : layer.EndsBefore kind) (inner : layer.rank < power.layer.rank) : power.StopsAt kind :=
  fun form announced => Nat.lt_of_le_of_lt (h form announced).1 inner

/-- What reading stops at may come behind any phrase of the layers around. -/
theorem Power.StopsAt.endsBefore {power : Power} {layer : Layer} {kind : TokenKind}
    (h : power.StopsAt kind) (le : power.layer.rank ≤ layer.rank + 1) (ne : layer ≠ .expression) :
    layer.EndsBefore kind := fun form announced => by
  have := h form announced
  exact ⟨by omega, ne⟩

/-- A phrase is one of every layer around its own. -/
theorem Derives.widen {layer outer : Layer} {ts : List Token} {p : Phrase} (h : Derives layer ts p)
    (le : outer.rank ≤ layer.rank) : Derives outer ts p := by
  by_cases same : outer.rank = layer.rank
  · rw [Layer.eq_of_rank_eq same]
    exact h
  · have bound : layer.rank ≤ Layer.primary.rank := by cases layer <;> decide
    have rank := outer.rank_next_of_lt (by omega)
    exact .next (h.widen (by omega))
termination_by layer.rank - outer.rank

namespace Phrase

variable {c c' : Cursor} {t : Token} {p left : Phrase} {es : List Phrase} {power : Power}
  {read : Power → Cursor → Reading (Phrase × Cursor)}

/-! ## Passing tokens -/

theorem kind_of_upcoming_eq_nil (last : c.stop.kind = .endOfInput) (h : c.upcoming = []) :
    c.kind = .endOfInput := by
  obtain ⟨upcoming, stop, endOfLast⟩ := c
  obtain rfl : upcoming = [] := h
  exact last

/-- A token that is not the end of the input is the first of those to come. -/
theorem exists_upcoming_eq_cons (last : c.stop.kind = .endOfInput) (h : c.kind ≠ .endOfInput) :
    ∃ t, t.kind = c.kind ∧ c.current = t ∧ c.upcoming = t :: c.next.upcoming := by
  obtain ⟨_ | ⟨t, rest⟩, stop, endOfLast⟩ := c
  · exact absurd last h
  · exact ⟨t, rfl, rfl, rfl⟩

theorem expectBehind_eq_ok {parts : List Phrase} {kind : TokenKind}
    (last : c.stop.kind = .endOfInput) (h : expectBehind parts c kind = .ok (t, c'))
    (ne : kind ≠ .endOfInput) :
    t.kind = kind ∧ c.upcoming = t :: c'.upcoming ∧ c'.stop = c.stop := by
  have passed := mapError_eq_ok_iff.mp h
  unfold Cursor.expect at passed
  split at passed
  · rename_i same
    obtain ⟨rfl, rfl⟩ := Prod.mk.inj (Except.ok.inj passed)
    obtain ⟨t, kind, current, upcoming⟩ := exists_upcoming_eq_cons last (same ▸ ne)
    exact ⟨same, current ▸ upcoming, c.stop_next⟩
  · cases passed

theorem expectBehind_of_kind (parts : List Phrase) {kind : TokenKind} (is : c.kind = kind) :
    expectBehind parts c kind = .ok (c.current, c.next) := by
  rw [expectBehind, Cursor.expect, if_pos is]
  rfl

@[simp] theorem expectBehind_cons (parts : List Phrase) (rest : List Token) (stop : Token)
    (endOfLast : Position) :
    expectBehind parts ⟨t :: rest, stop, endOfLast⟩ t.kind = .ok (t, ⟨rest, stop, t.span.stop⟩) :=
  expectBehind_of_kind parts rfl

/-! ## What is read is a phrase of the grammar -/

/-- Behind a cursor some tokens have been read as a phrase of a layer, and nothing comes next that
would continue a part of it. -/
structure Grown (layer : Layer) (c : Cursor) (p : Phrase) (c' : Cursor) (ts : List Token) : Prop where
  upcoming : c.upcoming = ts ++ c'.upcoming
  stop : c'.stop = c.stop
  derives : Derives layer ts p
  ends : layer.EndsBefore c'.kind

/-- What reading with a power comes to: a phrase of the layer of that power, in front of something
that cannot continue it there. -/
structure Takes (power : Power) (c : Cursor) (p : Phrase) (c' : Cursor) (ts : List Token) : Prop where
  upcoming : c.upcoming = ts ++ c'.upcoming
  stop : c'.stop = c.stop
  derives : Derives power.layer ts p
  stops : power.StopsAt c'.kind

/-- A reader of phrases that takes what the grammar says. No operand is read with the power of
calls. -/
def Sound (read : Power → Cursor → Reading (Phrase × Cursor)) : Prop :=
  ∀ ⦃power c p c'⦄, power ≠ .call → c.stop.kind = .endOfInput → read power c = .ok (p, c') →
    ∃ ts, Takes power c p c' ts

/-- An operand of one token. -/
theorem grown_of_token (last : c.stop.kind = .endOfInput) (ne : c.kind ≠ .endOfInput)
    (derives : Derives .primary [c.current] p) : Grown .primary c p c.next [c.current] := by
  obtain ⟨t, -, current, upcoming⟩ := exists_upcoming_eq_cons last ne
  exact ⟨current ▸ upcoming, c.stop_next, derives, Layer.endsBefore_of_call_le (by decide) _⟩

/-- An operand with a unary operator in front. -/
theorem grown_of_unary (sound : Sound read) (last : c.stop.kind = .endOfInput) (op : UnaryOp)
    (kind : c.kind = .mark op.mark)
    (h : (do
      let (e, after) ← read .unary c.next
      return (Phrase.unary op c.position e, after) : Reading (Phrase × Cursor)) = .ok (p, c')) :
    ∃ ts, Grown .unary c p c' ts := by
  obtain ⟨⟨e, after⟩, inner, done⟩ := bind_eq_ok_iff.mp h
  obtain ⟨rfl, rfl⟩ := Prod.mk.inj (Except.ok.inj done)
  obtain ⟨t, sameKind, current, upcoming⟩ :=
    exists_upcoming_eq_cons last (by rw [kind]; exact TokenKind.noConfusion)
  obtain ⟨ts, takes⟩ := sound (by decide) (by rw [c.stop_next]; exact last) inner
  refine ⟨t :: ts, by rw [upcoming, takes.upcoming, List.cons_append], takes.stop.trans c.stop_next,
    ?_, takes.stops.endsBefore (by decide) (by decide)⟩
  rw [show c.position = t.span.start from congrArg (·.span.start) current]
  exact .unary (sameKind.trans kind) takes.derives

/-- An expression in brackets. -/
theorem grown_of_group (sound : Sound read) (last : c.stop.kind = .endOfInput)
    (kind : c.kind = .mark .openParen)
    (h : (do
      let (e, c) ← read .lowest c.next
      let (_, c) ← expectBehind [e] c (.mark .closeParen)
      return (e, c) : Reading (Phrase × Cursor)) = .ok (p, c')) :
    ∃ ts, Grown .primary c p c' ts := by
  obtain ⟨⟨e, c₁⟩, inner, rest⟩ := bind_eq_ok_iff.mp h
  obtain ⟨⟨closing, c₂⟩, closed, done⟩ := bind_eq_ok_iff.mp rest
  obtain ⟨rfl, rfl⟩ := Prod.mk.inj (Except.ok.inj done)
  obtain ⟨opening, sameKind, -, upcoming⟩ :=
    exists_upcoming_eq_cons last (by rw [kind]; exact TokenKind.noConfusion)
  obtain ⟨ts, takes⟩ := sound (by decide) (by rw [c.stop_next]; exact last) inner
  have stop := takes.stop.trans c.stop_next
  obtain ⟨closes, behind, stop'⟩ :=
    expectBehind_eq_ok (by rw [stop]; exact last) closed TokenKind.noConfusion
  refine ⟨opening :: (ts ++ [closing]), ?_, stop'.trans stop,
    .group (sameKind.trans kind) takes.derives closes, Layer.endsBefore_of_call_le (by decide) _⟩
  rw [upcoming, takes.upcoming, behind]
  simp

/-- An operand is a phrase with a unary operator in front, or a primary one. -/
theorem grown_of_operand (sound : Sound read) (last : c.stop.kind = .endOfInput)
    (h : operand read c = .ok (p, c')) :
    ∃ layer ts, Grown layer c p c' ts ∧ Layer.unary.rank ≤ layer.rank := by
  have token {q : Phrase} {kind : TokenKind} (is : c.kind = kind) (ne : kind ≠ .endOfInput)
      (same : (Except.ok (q, c.next) : Reading (Phrase × Cursor)) = .ok (p, c'))
      (derives : Derives .primary [c.current] q) :
      ∃ layer ts, Grown layer c p c' ts ∧ Layer.unary.rank ≤ layer.rank := by
    obtain ⟨rfl, rfl⟩ := Prod.mk.inj (Except.ok.inj same)
    exact ⟨.primary, _, grown_of_token last (is ▸ ne) derives, by decide⟩
  unfold operand at h
  split at h
  · rename_i kind
    exact token kind TokenKind.noConfusion h (.number kind)
  · rename_i kind
    exact token kind TokenKind.noConfusion h (.true kind)
  · rename_i kind
    exact token kind TokenKind.noConfusion h (.false kind)
  · rename_i kind
    exact token kind TokenKind.noConfusion h (.name kind)
  · rename_i kind
    obtain ⟨ts, grown⟩ := grown_of_unary sound last .negate kind h
    exact ⟨.unary, ts, grown, Nat.le_refl _⟩
  · rename_i kind
    obtain ⟨ts, grown⟩ := grown_of_unary sound last .not kind h
    exact ⟨.unary, ts, grown, Nat.le_refl _⟩
  · rename_i kind
    obtain ⟨ts, grown⟩ := grown_of_group sound last kind h
    exact ⟨.primary, ts, grown, by decide⟩
  · cases h

/-- Arguments are read up to the bracket that closes them. -/
theorem arguments_sound (sound : Sound read) : ∀ {bound : Nat} {isFirst : Bool} {c c' : Cursor}
    {es : List Phrase}, c.stop.kind = .endOfInput → arguments read bound isFirst c = .ok (es, c') →
    ∃ ts, c.upcoming = ts ++ c'.upcoming ∧ c'.stop = c.stop ∧
      (ts = [] ∧ es = [] ∨ (if isFirst then DerivesSome ts es
        else ∃ comma us, ts = comma :: us ∧ comma.kind = .mark .comma ∧ DerivesSome us es))
  | 0, _, _, _, _, _, h => by cases h
  | bound + 1, isFirst, c, c', es, last, h => by
    unfold arguments at h
    split at h
    · obtain ⟨rfl, rfl⟩ := Prod.mk.inj (Except.ok.inj h)
      exact ⟨[], rfl, rfl, .inl ⟨rfl, rfl⟩⟩
    -- A comma stands in front of all arguments but the first.
    obtain ⟨commas, c₁, ⟨e, c₂⟩, upcoming₁, stop₁, front, first, rest⟩ : ∃ commas c₁ out,
        c.upcoming = commas ++ c₁.upcoming ∧ c₁.stop = c.stop ∧
        (if isFirst then commas = [] else ∃ comma, commas = [comma] ∧ comma.kind = .mark .comma) ∧
        read .lowest c₁ = .ok out ∧
        ((arguments read bound false out.2).mapError (·.behind [out.1]) >>= fun others =>
          .ok (out.1 :: others.1, others.2)) = .ok (es, c') := by
      cases isFirst with
      | true =>
        obtain ⟨_, same, rest⟩ := bind_eq_ok_iff.mp h
        obtain rfl := Except.ok.inj same
        obtain ⟨out, first, rest⟩ := bind_eq_ok_iff.mp rest
        exact ⟨[], c, out, rfl, rfl, rfl, first, rest⟩
      | false =>
        obtain ⟨_, passed, rest⟩ := bind_eq_ok_iff.mp h
        obtain ⟨⟨comma, _⟩, expected, rfl⟩ := map_eq_ok_iff.mp passed
        obtain ⟨kind, upcoming, stop⟩ := expectBehind_eq_ok last expected TokenKind.noConfusion
        obtain ⟨out, first, rest⟩ := bind_eq_ok_iff.mp rest
        exact ⟨[comma], _, out, upcoming, stop, ⟨comma, rfl, kind⟩, first, rest⟩
    obtain ⟨⟨others, c₃⟩, more, done⟩ := bind_eq_ok_iff.mp rest
    obtain ⟨rfl, rfl⟩ := Prod.mk.inj (Except.ok.inj done)
    obtain ⟨ts, takes⟩ := sound (by decide) (stop₁ ▸ last) first
    obtain ⟨us, upcoming₃, stop₃, behind⟩ :=
      arguments_sound sound (by rw [takes.stop, stop₁]; exact last) (mapError_eq_ok_iff.mp more)
    have some : DerivesSome (ts ++ us) (e :: others) := by
      rcases behind with ⟨rfl, rfl⟩ | ⟨comma, us, rfl, kind, derives⟩
      · simpa using DerivesSome.one takes.derives
      · exact .more takes.derives kind derives
    refine ⟨commas ++ (ts ++ us), ?_, stop₃.trans (takes.stop.trans stop₁), .inr ?_⟩
    · rw [upcoming₁, takes.upcoming, upcoming₃]
      simp
    · cases isFirst with
      | true =>
        obtain rfl : commas = [] := front
        exact some
      | false =>
        obtain ⟨comma, rfl, kind⟩ := front
        exact ⟨comma, ts ++ us, rfl, kind, some⟩

theorem exists_upcoming_of_announced (last : c.stop.kind = .endOfInput) {form : Continuation}
    (announced : Continuation.ofKind? c.kind = some form) :
    ∃ t, t.kind = c.kind ∧ c.upcoming = t :: c.next.upcoming := by
  obtain ⟨t, kind, -, upcoming⟩ := exists_upcoming_eq_cons last fun ended => by
    rw [ended] at announced
    cases announced
  exact ⟨t, kind, upcoming⟩

/-- A continuation makes a greater phrase of the layer that it belongs to. -/
theorem grown_of_continueWith (sound : Sound read) {layer : Layer} {c₀ : Cursor} {ts : List Token}
    {form : Continuation} (last : c₀.stop.kind = .endOfInput) (grown : Grown layer c₀ left c ts)
    (announced : Continuation.ofKind? c.kind = some form)
    (h : continueWith read form left c = .ok (p, c')) :
    ∃ us, us ≠ [] ∧ c.upcoming = us ++ c'.upcoming ∧ Grown form.layer c₀ p c' (ts ++ us) := by
  have last : c.stop.kind = .endOfInput := grown.stop ▸ last
  obtain ⟨t, kind, upcoming⟩ := exists_upcoming_of_announced last announced
  obtain ⟨le, ne⟩ := grown.ends form announced
  cases form with
  | binary op =>
    obtain ⟨⟨right, after⟩, inner, done⟩ := bind_eq_ok_iff.mp h
    obtain ⟨rfl, rfl⟩ := Prod.mk.inj (Except.ok.inj done)
    obtain ⟨us, takes⟩ := sound (Power.ofBinary_ne_call op) (by rw [c.stop_next]; exact last)
      (mapError_eq_ok_iff.mp inner)
    obtain ⟨mark, isMark, operator⟩ : ∃ mark, c.kind = .mark mark ∧ BinaryOp.ofMark? mark = some op := by
      unfold Continuation.ofKind? at announced
      split at announced
      · cases announced
      · cases announced
      · rename_i mark _ _ is
        obtain ⟨_, operator, same⟩ := Option.map_eq_some_iff.mp announced
        exact ⟨mark, is, Continuation.binary.inj same ▸ operator⟩
      · cases announced
    have layers := Power.layer_ofBinary op
    refine ⟨t :: us, by simp, by rw [upcoming, takes.upcoming, List.cons_append], ?_,
      (takes.stop.trans c.stop_next).trans grown.stop, ?_, takes.stops.endsBefore ?_
        (Layer.ofBinary_ne_expression op)⟩
    · rw [grown.upcoming, upcoming, takes.upcoming]
      simp
    · exact .binary (grown.derives.widen le) (kind.trans isMark) operator (layers ▸ takes.derives)
    · rw [layers, (Layer.ofBinary op).rank_next_of_lt]
      · rfl
      · obtain op | op | op := op <;> try cases op
        all_goals decide
  | assign =>
    obtain ⟨⟨value, after⟩, inner, done⟩ := bind_eq_ok_iff.mp h
    obtain ⟨rfl, rfl⟩ := Prod.mk.inj (Except.ok.inj done)
    obtain ⟨us, takes⟩ := sound (by decide) (by rw [c.stop_next]; exact last)
      (mapError_eq_ok_iff.mp inner)
    have assigns : c.kind = .mark .assignment := by
      unfold Continuation.ofKind? at announced
      split at announced
      · assumption
      · cases announced
      · obtain ⟨_, -, wrong⟩ := Option.map_eq_some_iff.mp announced
        cases wrong
      · cases announced
    refine ⟨t :: us, by simp, by rw [upcoming, takes.upcoming, List.cons_append], ?_,
      (takes.stop.trans c.stop_next).trans grown.stop, ?_, fun form announced => ?_⟩
    · rw [grown.upcoming, upcoming, takes.upcoming]
      simp
    · refine .assign (grown.derives.widen ?_) (kind.trans assigns) takes.derives
      exact Nat.one_le_iff_ne_zero.mpr fun zero =>
        ne (Layer.eq_of_rank_eq zero)
    · exact absurd (takes.stops form announced) (Nat.not_lt_zero _)
  | call =>
    obtain ⟨⟨es, c₁⟩, inner, rest⟩ := bind_eq_ok_iff.mp h
    obtain ⟨⟨closing, c₂⟩, closed, done⟩ := bind_eq_ok_iff.mp rest
    obtain ⟨rfl, rfl⟩ := Prod.mk.inj (Except.ok.inj done)
    obtain ⟨us, upcoming₁, stop₁, all⟩ :=
      arguments_sound sound (by rw [c.stop_next]; exact last) (mapError_eq_ok_iff.mp inner)
    have stop₁ := stop₁.trans c.stop_next
    obtain ⟨closes, behind, stop₂⟩ :=
      expectBehind_eq_ok (stop₁ ▸ last) closed TokenKind.noConfusion
    have opens : c.kind = .mark .openParen := by
      unfold Continuation.ofKind? at announced
      split at announced
      · cases announced
      · assumption
      · obtain ⟨_, -, wrong⟩ := Option.map_eq_some_iff.mp announced
        cases wrong
      · cases announced
    have derives : DerivesAll us es := by
      rcases all with ⟨rfl, rfl⟩ | some
      · exact .none
      · exact .some some
    refine ⟨t :: (us ++ [closing]), by simp, ?_, ?_, (stop₂.trans stop₁).trans grown.stop,
      .call (grown.derives.widen le) (kind.trans opens) derives closes,
      Layer.endsBefore_of_call_le (Nat.le_refl _) _⟩
    · rw [upcoming, upcoming₁, behind]
      simp
    · rw [grown.upcoming, upcoming, upcoming₁, behind]
      simp

/-- The continuations that a power lets in are taken one after the other. -/
theorem takes_of_extend (sound : Sound read) {c₀ : Cursor} (last : c₀.stop.kind = .endOfInput)
    (ne : power ≠ .call) : ∀ {bound : Nat} {layer : Layer} {left : Phrase} {c : Cursor}
    {ts : List Token}, c.upcoming.length ≤ bound → Grown layer c₀ left c ts →
    power.layer.rank ≤ layer.rank → extend read power bound left c = .ok (p, c') →
    ∃ us, Takes power c₀ p c' us
  | 0, layer, left, c, ts, enough, grown, le, h => by
    obtain ⟨rfl, rfl⟩ := Prod.mk.inj (Except.ok.inj h)
    have ended := kind_of_upcoming_eq_nil (grown.stop ▸ last) (List.length_eq_zero_iff.mp (by omega))
    refine ⟨ts, grown.upcoming, grown.stop, grown.derives.widen le, fun form announced => ?_⟩
    rw [ended] at announced
    cases announced
  | bound + 1, layer, left, c, ts, enough, grown, le, h => by
    unfold extend at h
    split at h
    · rename_i none
      obtain ⟨rfl, rfl⟩ := Prod.mk.inj (Except.ok.inj h)
      refine ⟨ts, grown.upcoming, grown.stop, grown.derives.widen le, fun form announced => ?_⟩
      rw [none] at announced
      cases announced
    rename_i form announced
    split at h
    · rename_i weak
      obtain ⟨rfl, rfl⟩ := Prod.mk.inj (Except.ok.inj h)
      refine ⟨ts, grown.upcoming, grown.stop, grown.derives.widen le, fun form' announced' => ?_⟩
      obtain rfl := Option.some.inj (announced.symm.trans announced')
      exact (form.rank_power_le_iff power).mp weak
    · rename_i strong
      obtain ⟨⟨left', c₁⟩, continued, rest⟩ := bind_eq_ok_iff.mp h
      obtain ⟨us, nonempty, upcoming, grown'⟩ :=
        grown_of_continueWith sound last grown announced continued
      refine takes_of_extend sound last ne ?_ grown' ?_ rest
      · have := congrArg List.length upcoming
        have := List.length_pos_iff.mpr nonempty
        simp at *
        omega
      · exact Nat.not_lt.mp fun less => strong ((form.rank_power_le_iff power).mpr less)

/-- Reading takes phrases of the grammar, however deep they may nest. -/
theorem sound_expression (depth : Nat) : Sound (expression depth) := by
  induction depth with
  | zero => exact fun _ _ _ _ _ _ h => by cases h
  | succ depth ih =>
    intro power c p c' ne last h
    obtain ⟨⟨left, c₁⟩, first, rest⟩ := bind_eq_ok_iff.mp h
    obtain ⟨layer, ts, grown, inner⟩ := grown_of_operand ih last first
    refine takes_of_extend ih last ne (Nat.le_refl _) grown (Nat.le_trans ?_ inner) rest
    cases power <;> first | decide | exact absurd rfl ne

/-! ## Every phrase of the grammar is read -/

/-- Each continuation takes a token at least. -/
theorem length_of_continueWith (sound : Sound read) {form : Continuation}
    (last : c.stop.kind = .endOfInput) (announced : Continuation.ofKind? c.kind = some form)
    (h : continueWith read form left c = .ok (p, c')) :
    c'.upcoming.length < c.upcoming.length ∧ c'.stop = c.stop := by
  obtain ⟨t, -, upcoming⟩ := exists_upcoming_of_announced last announced
  have longer : c.upcoming.length = c.next.upcoming.length + 1 := by
    rw [upcoming]
    rfl
  have last' : c.next.stop.kind = .endOfInput := by rw [c.stop_next]; exact last
  have part {power : Power} {q : Phrase} {after : Cursor} (ne : power ≠ .call)
      (inner : read power c.next = .ok (q, after)) :
      after.upcoming.length < c.upcoming.length ∧ after.stop = c.stop := by
    obtain ⟨us, takes⟩ := sound ne last' inner
    have := congrArg List.length takes.upcoming
    rw [List.length_append] at this
    exact ⟨by omega, takes.stop.trans c.stop_next⟩
  cases form with
  | binary op =>
    obtain ⟨⟨right, after⟩, inner, done⟩ := bind_eq_ok_iff.mp h
    obtain ⟨rfl, rfl⟩ := Prod.mk.inj (Except.ok.inj done)
    exact part (Power.ofBinary_ne_call op) (mapError_eq_ok_iff.mp inner)
  | assign =>
    obtain ⟨⟨value, after⟩, inner, done⟩ := bind_eq_ok_iff.mp h
    obtain ⟨rfl, rfl⟩ := Prod.mk.inj (Except.ok.inj done)
    exact part (by decide) (mapError_eq_ok_iff.mp inner)
  | call =>
    obtain ⟨⟨es, c₁⟩, inner, rest⟩ := bind_eq_ok_iff.mp h
    obtain ⟨⟨closing, c₂⟩, closed, done⟩ := bind_eq_ok_iff.mp rest
    obtain ⟨rfl, rfl⟩ := Prod.mk.inj (Except.ok.inj done)
    obtain ⟨us, upcoming₁, stop₁, -⟩ := arguments_sound sound last' (mapError_eq_ok_iff.mp inner)
    obtain ⟨-, behind, stop₂⟩ := expectBehind_eq_ok (by rw [stop₁]; exact last') closed
      TokenKind.noConfusion
    have fewer := congrArg List.length upcoming₁
    have fewer' := congrArg List.length behind
    rw [List.length_append] at fewer
    rw [List.length_cons] at fewer'
    exact ⟨by omega, (stop₂.trans stop₁).trans c.stop_next⟩

/-- A bound on how many continuations are taken does not matter once there is one for every token to
come. -/
theorem extend_eq_extend (sound : Sound read) : ∀ {bound bound' : Nat} {left : Phrase} {c : Cursor},
    c.stop.kind = .endOfInput → c.upcoming.length ≤ bound → c.upcoming.length ≤ bound' →
    extend read power bound left c = extend read power bound' left c
  | 0, 0, _, _, _, _, _ => rfl
  | 0, bound' + 1, left, c, last, enough, _ => by
    have ended := kind_of_upcoming_eq_nil last (List.length_eq_zero_iff.mp (by omega))
    rw [extend, extend, ended]
    rfl
  | bound + 1, 0, left, c, last, _, enough => by
    have ended := kind_of_upcoming_eq_nil last (List.length_eq_zero_iff.mp (by omega))
    rw [extend, extend, ended]
    rfl
  | bound + 1, bound' + 1, left, c, last, enough, enough' => by
    rw [extend, extend]
    split
    · rfl
    rename_i form announced
    split
    · rfl
    cases continued : continueWith read form left c with
    | error broken => rfl
    | ok result =>
      obtain ⟨left', c₁⟩ := result
      obtain ⟨fewer, stop⟩ := length_of_continueWith sound last announced continued
      exact extend_eq_extend sound (stop ▸ last) (by omega) (by omega)

/-- Nothing is added in front of a token that the power does not let in. -/
theorem extend_of_stopsAt (stops : power.StopsAt c.kind) (bound : Nat) :
    extend read power bound left c = .ok (left, c) := by
  cases bound with
  | zero => rfl
  | succ bound =>
    rw [extend]
    split
    · rfl
    rename_i form announced
    rw [if_pos ((form.rank_power_le_iff power).mpr (stops form announced))]

/-- A continuation that the power lets in is taken. -/
theorem extend_of_continueWith (sound : Sound read) {form : Continuation} {bound : Nat}
    (last : c.stop.kind = .endOfInput) (enough : c.upcoming.length ≤ bound)
    (announced : Continuation.ofKind? c.kind = some form)
    (lets : power.layer.rank ≤ form.layer.rank)
    (h : continueWith read form left c = .ok (p, c')) :
    extend read power bound left c = extend read power c'.upcoming.length p c' := by
  obtain ⟨fewer, stop⟩ := length_of_continueWith sound last announced h
  obtain ⟨bound, rfl⟩ : ∃ n, bound = n + 1 := ⟨bound - 1, by omega⟩
  rw [extend, announced]
  have strong : ¬form.power.rank ≤ power.rank := fun weak =>
    absurd ((form.rank_power_le_iff power).mp weak) (by omega)
  simp only [if_neg strong, h]
  change extend read power bound p c' = _
  exact extend_eq_extend sound (stop ▸ last) (by omega) (Nat.le_refl _)

/-- Some tokens are found as a phrase of a layer wherever they stand in front of something that ends
phrases of it: what comes behind is left to the continuations. -/
structure Found (layer : Layer) (ts : List Token) (p : Phrase) : Prop where
  first : ∃ t us, ts = t :: us ∧ t.kind ≠ .mark .closeParen
  reads : ∀ (depth : Nat) (power : Power) (rest : List Token) (stop : Token) (endOfLast : Position),
    power ≠ .call →
    power.layer.rank ≤ layer.rank → stop.kind = .endOfInput → (ts ++ rest).length ≤ depth + 1 →
    layer.EndsBefore (rest.head?.getD stop).kind →
    ∃ endOfLast', expression (depth + 1) power ⟨ts ++ rest, stop, endOfLast⟩ =
      extend (expression depth) power rest.length p ⟨rest, stop, endOfLast'⟩

namespace Found

variable {layer : Layer} {ts us rest : List Token} {stop opening closing : Token} {depth : Nat}

/-- A phrase is read in front of what the power does not let in. -/
theorem reads_to (h : Found layer ts p) (power : Power) (rest : List Token) (endOfLast : Position) (ne : power ≠ .call)
    (le : power.layer.rank ≤ layer.rank) (last : stop.kind = .endOfInput)
    (deep : (ts ++ rest).length ≤ depth) (ends : layer.EndsBefore (rest.head?.getD stop).kind)
    (stops : power.StopsAt (rest.head?.getD stop).kind) :
    ∃ endOfLast', expression depth power ⟨ts ++ rest, stop, endOfLast⟩ =
      .ok (p, ⟨rest, stop, endOfLast'⟩) := by
  obtain ⟨t, us, rfl, -⟩ := h.first
  obtain ⟨depth, rfl⟩ : ∃ n, depth = n + 1 := ⟨depth - 1, by simp at deep; omega⟩
  obtain ⟨endOfLast', same⟩ := h.reads depth power rest stop endOfLast ne le last deep ends
  exact ⟨endOfLast', same.trans (extend_of_stopsAt stops _)⟩

/-- An expression is read in front of a token that continues nothing. -/
theorem reads_to_none (h : Found .expression ts p) (power : Power) (rest : List Token)
    (endOfLast : Position)
    (outermost : power.layer = .expression) (last : stop.kind = .endOfInput)
    (deep : (ts ++ rest).length ≤ depth)
    (none : Continuation.ofKind? (rest.head?.getD stop).kind = none) :
    ∃ endOfLast', expression depth power ⟨ts ++ rest, stop, endOfLast⟩ =
      .ok (p, ⟨rest, stop, endOfLast'⟩) := by
  refine h.reads_to power rest endOfLast (fun same => ?_) (outermost ▸ Nat.le_refl _) last deep
    (Layer.endsBefore_of_none _ none) (fun form announced => ?_)
  · rw [same] at outermost
    cases outermost
  · rw [none] at announced
    cases announced

theorem next (h : Found layer.next ts p) : Found layer ts p where
  first := h.first
  reads depth power rest stop endOfLast ne le last deep ends :=
    h.reads depth power rest stop endOfLast ne (Nat.le_trans le layer.rank_le_rank_next) last deep
      ends.next

/-- A phrase grows by what continues it. -/
theorem continued {inner : Layer} (form : Continuation) (h : Found inner ts left)
    (ends : inner.EndsBefore t.kind) (le : form.layer.rank ≤ inner.rank)
    (announced : Continuation.ofKind? t.kind = some form)
    (takes : ∀ (depth : Nat) (rest : List Token) (stop : Token) (endOfLast : Position),
      stop.kind = .endOfInput → (us ++ rest).length ≤ depth →
      form.layer.EndsBefore (rest.head?.getD stop).kind →
      ∃ endOfLast', continueWith (expression depth) form left ⟨t :: (us ++ rest), stop, endOfLast⟩ =
        .ok (p, ⟨rest, stop, endOfLast'⟩)) :
    Found form.layer (ts ++ t :: us) p where
  first := by
    obtain ⟨t, us, rfl, opens⟩ := h.first
    exact ⟨t, _, rfl, opens⟩
  reads depth power rest stop endOfLast ne lets last deep behind := by
    have length : (ts ++ t :: (us ++ rest)).length ≤ depth + 1 := by simpa using deep
    obtain ⟨endOfLast₁, same⟩ := h.reads depth power (t :: (us ++ rest)) stop endOfLast ne
      (Nat.le_trans lets le) last length ends
    obtain ⟨t', us', rfl, -⟩ := h.first
    obtain ⟨endOfLast₂, taken⟩ :=
      takes depth rest stop endOfLast₁ last (by simp at length ⊢; omega) behind
    refine ⟨endOfLast₂, ?_⟩
    rw [show t' :: us' ++ t :: us ++ rest = t' :: us' ++ t :: (us ++ rest) by simp, same]
    exact extend_of_continueWith (sound_expression depth)
      (c := ⟨t :: (us ++ rest), stop, endOfLast₁⟩) last (Nat.le_refl _) announced lets taken

theorem binary {op : BinaryOp} {mark : Mark} {right : Phrase} (h : Found (.ofBinary op) ts left)
    (kind : t.kind = .mark mark) (operator : BinaryOp.ofMark? mark = some op)
    (h' : Found (Layer.ofBinary op).next us right) :
    Found (.ofBinary op) (ts ++ t :: us) (.binary op left right) := by
  have announced : Continuation.ofKind? t.kind = some (.binary op) :=
    kind ▸ Continuation.ofKind?_mark operator
  refine h.continued (.binary op) (fun form announced' => ?_) (Nat.le_refl _) announced
    fun depth rest stop endOfLast last deep ends => ?_
  · obtain rfl := Option.some.inj (announced.symm.trans announced')
    exact ⟨Nat.le_refl _, Layer.ofBinary_ne_expression op⟩
  · have layers := Power.layer_ofBinary op
    obtain ⟨endOfLast', same⟩ := h'.reads_to (.ofBinary op) rest t.span.stop (Power.ofBinary_ne_call op)
      (layers ▸ Nat.le_refl _) last deep ends.next
      (ends.stopsAt (layers ▸ Layer.rank_ofBinary_lt op))
    exact ⟨endOfLast', by simp [continueWith, same, Except.mapError, bind, Except.bind, pure, Except.pure]⟩

theorem assign {value : Phrase} (h : Found .logical ts left) (kind : t.kind = .mark .assignment)
    (h' : Found .expression us value) :
    Found .expression (ts ++ t :: us) (.assign left value) := by
  have announced : Continuation.ofKind? t.kind = some .assign := kind ▸ rfl
  refine h.continued .assign (fun form announced' => ?_) (by decide) announced
    fun depth rest stop endOfLast last deep ends => ?_
  · obtain rfl := Option.some.inj (announced.symm.trans announced')
    decide
  · obtain ⟨endOfLast', same⟩ := h'.reads_to_none .comma rest t.span.stop rfl last deep
      (Option.eq_none_iff_forall_ne_some.mpr fun form announced => (ends form announced).2 rfl)
    exact ⟨endOfLast', by simp [continueWith, same, Except.mapError, bind, Except.bind, pure, Except.pure]⟩

/-- A phrase that its first token begins. -/
theorem ofOperand {op : TokenKind} (is : op ≠ .mark .closeParen) (kind : t.kind = op)
    (takes : ∀ (depth : Nat) (rest : List Token) (stop : Token) (endOfLast : Position),
      stop.kind = .endOfInput → (us ++ rest).length ≤ depth →
      layer.EndsBefore (rest.head?.getD stop).kind →
      ∃ endOfLast', operand (expression depth) ⟨t :: (us ++ rest), stop, endOfLast⟩ =
        .ok (p, ⟨rest, stop, endOfLast'⟩)) :
    Found layer (t :: us) p where
  first := ⟨t, us, rfl, kind ▸ is⟩
  reads depth power rest stop endOfLast _ _ last deep ends := by
    obtain ⟨endOfLast', taken⟩ :=
      takes depth rest stop endOfLast last (by simp at deep ⊢; omega) ends
    refine ⟨endOfLast', ?_⟩
    rw [expression, List.cons_append, taken]
    rfl

theorem unary {op : UnaryOp} (kind : t.kind = .mark op.mark) (h : Found .unary us p) :
    Found .unary (t :: us) (.unary op t.span.start p) := by
  refine ofOperand (by cases op <;> decide) kind fun depth rest stop endOfLast last deep ends => ?_
  obtain ⟨endOfLast', same⟩ := h.reads_to .unary rest t.span.stop (by decide) (Nat.le_refl _)
    last deep ends fun form announced =>
      Nat.lt_of_le_of_ne (ends form announced).1 form.rank_layer_ne_unary
  refine ⟨endOfLast', ?_⟩
  cases op <;>
    simp [operand, Cursor.kind, kind, UnaryOp.mark, same, bind, Except.bind, pure, Except.pure,
      Cursor.position]

theorem group (opens : opening.kind = .mark .openParen) (h : Found .expression ts p)
    (closes : closing.kind = .mark .closeParen) :
    Found .primary (opening :: (ts ++ [closing])) p := by
  refine ofOperand (by decide) opens fun depth rest stop endOfLast last deep ends => ?_
  obtain ⟨endOfLast', same⟩ := h.reads_to_none .lowest (closing :: rest) opening.span.stop rfl last
    (by simpa using deep) (congrArg _ closes)
  refine ⟨closing.span.stop, ?_⟩
  simp [operand, Cursor.kind, opens, same, bind, Except.bind, pure, Except.pure, ← closes]

theorem token (ne : t.kind ≠ .mark .closeParen)
    (reads : ∀ (read : Power → Cursor → Reading (Phrase × Cursor)) (c : Cursor), c.current = t →
      operand read c = .ok (p, c.next)) : Found .primary [t] p :=
  ofOperand ne rfl fun _ _ _ _ _ _ _ => ⟨t.span.stop, reads _ _ rfl⟩

end Found

/-- No argument is read in front of the bracket that closes a call. -/
theorem arguments_of_closed (closes : c.kind = .mark .closeParen) (bound : Nat) (isFirst : Bool) :
    arguments read (bound + 1) isFirst c = .ok ([], c) := by
  rw [arguments, if_pos closes]

/-- Some tokens are found as the arguments of a call in front of the bracket that closes it. In front
of them stand the commas that have to come first. -/
def AllFound (ts : List Token) (es : List Phrase) : Prop :=
  ∀ (depth bound : Nat) (isFirst : Bool) (commas rest : List Token) (closing stop : Token)
    (endOfLast : Position),
    (if isFirst then commas = [] else ∃ comma, commas = [comma] ∧ comma.kind = .mark .comma) →
    closing.kind = .mark .closeParen → stop.kind = .endOfInput →
    (ts ++ closing :: rest).length ≤ depth → (ts ++ closing :: rest).length ≤ bound →
    ∃ endOfLast', arguments (expression depth) bound isFirst
      ⟨commas ++ (ts ++ closing :: rest), stop, endOfLast⟩ =
        .ok (es, ⟨closing :: rest, stop, endOfLast'⟩)

/-- An argument is read, and then those behind it. -/
theorem Found.allFound {ts us : List Token} {e : Phrase} (h : Found .expression ts e)
    (more : ∀ (depth bound : Nat) (rest : List Token) (closing stop : Token) (endOfLast : Position),
      closing.kind = .mark .closeParen → stop.kind = .endOfInput →
      (us ++ closing :: rest).length ≤ depth → (us ++ closing :: rest).length ≤ bound →
      Continuation.ofKind? ((us ++ closing :: rest).head?.getD stop).kind = none ∧
      ∃ endOfLast', arguments (expression depth) bound false
        ⟨us ++ closing :: rest, stop, endOfLast⟩ =
          .ok (es, ⟨closing :: rest, stop, endOfLast'⟩)) :
    AllFound (ts ++ us) (e :: es) := by
  intro depth bound isFirst commas rest closing stop endOfLast front closes last deep enough
  obtain ⟨first, ts', same, opens⟩ := h.first
  have nonempty : 0 < ts.length := by simp [same]
  obtain ⟨bound, rfl⟩ : ∃ n, bound = n + 1 := ⟨bound - 1, by simp at enough; omega⟩
  have shorter : (us ++ closing :: rest).length ≤ bound := by simp at enough ⊢; omega
  have shallow : (us ++ closing :: rest).length ≤ depth := by simp at deep ⊢; omega
  have reads (endOfLast : Position) := h.reads_to_none .lowest (us ++ closing :: rest) endOfLast rfl
    last (by simpa using deep) (more depth bound rest closing stop endOfLast closes last shallow
      shorter).1
  have tail : ts ++ us ++ closing :: rest = ts ++ (us ++ closing :: rest) := by simp
  rw [arguments, tail]
  cases isFirst with
  | true =>
    obtain rfl : commas = [] := front
    obtain ⟨endOfLast₁, taken⟩ := reads endOfLast
    obtain ⟨-, endOfLast', others⟩ :=
      more depth bound rest closing stop endOfLast₁ closes last shallow shorter
    refine ⟨endOfLast', ?_⟩
    rw [if_neg (by rw [same]; exact opens)]
    simp [taken, others, Except.mapError, bind, Except.bind, pure, Except.pure]
  | false =>
    obtain ⟨comma, rfl, kind⟩ := front
    obtain ⟨endOfLast₁, taken⟩ := reads comma.span.stop
    obtain ⟨-, endOfLast', others⟩ :=
      more depth bound rest closing stop endOfLast₁ closes last shallow shorter
    refine ⟨endOfLast', ?_⟩
    rw [if_neg (by rw [List.singleton_append, Cursor.kind, Cursor.current_cons, kind]; decide)]
    simp [← kind, taken, others, Except.mapError, bind, Except.bind, pure, Except.pure, Functor.map,
      Except.map]

theorem Found.one {ts : List Token} {e : Phrase} (h : Found .expression ts e) : AllFound ts [e] := by
  rw [← List.append_nil ts]
  refine h.allFound fun _ bound rest closing stop endOfLast closes _ _ enough =>
    ⟨congrArg _ closes, endOfLast, ?_⟩
  obtain ⟨bound, rfl⟩ : ∃ n, bound = n + 1 := ⟨bound - 1, by simp at enough; omega⟩
  exact arguments_of_closed (c := ⟨closing :: rest, stop, endOfLast⟩) closes bound false

theorem Found.more {ts us : List Token} {comma : Token} {e : Phrase} (h : Found .expression ts e)
    (kind : comma.kind = .mark .comma) (h' : AllFound us es) :
    AllFound (ts ++ comma :: us) (e :: es) :=
  h.allFound fun depth bound rest closing stop endOfLast closes last deep enough =>
    ⟨congrArg _ kind, h' depth bound false [comma] rest closing stop endOfLast ⟨comma, rfl, kind⟩
      closes last (by simp at deep ⊢; omega) (by simp at enough ⊢; omega)⟩

theorem Found.call {ts us : List Token} {opening closing : Token} {callee : Phrase}
    (h : Found .call ts callee) (opens : opening.kind = .mark .openParen)
    (all : us = [] ∧ es = [] ∨ AllFound us es) (closes : closing.kind = .mark .closeParen) :
    Found .call (ts ++ opening :: (us ++ [closing])) (.call callee es closing.span.stop) := by
  have announced : Continuation.ofKind? opening.kind = some .call := opens ▸ rfl
  refine h.continued .call (Layer.endsBefore_of_call_le (Nat.le_refl _) _) (Nat.le_refl _) announced
    fun depth rest stop endOfLast last deep _ => ⟨closing.span.stop, ?_⟩
  have within : us ++ [closing] ++ rest = us ++ closing :: rest := by simp
  obtain ⟨endOfLast', taken⟩ : ∃ endOfLast', arguments (expression depth)
      (us ++ closing :: rest).length true ⟨us ++ closing :: rest, stop, opening.span.stop⟩ =
        .ok (es, ⟨closing :: rest, stop, endOfLast'⟩) := by
    rcases all with ⟨rfl, rfl⟩ | all
    · exact ⟨_, arguments_of_closed (c := ⟨closing :: rest, stop, opening.span.stop⟩) closes
        rest.length true⟩
    · exact all depth _ true [] rest closing stop _ rfl closes last (within ▸ deep) (Nat.le_refl _)
  simp only [continueWith, Cursor.next_cons, within, taken]
  simp [Except.mapError, bind, Except.bind, pure, Except.pure, ← closes]

mutual

/-- Whatever the grammar derives is found. -/
theorem found_of_derives {layer : Layer} {ts : List Token} {p : Phrase} :
    Derives layer ts p → Found layer ts p
  | .next h => (found_of_derives h).next
  | .assign h kind h' => (found_of_derives h).assign kind (found_of_derives h')
  | .binary h kind operator h' => (found_of_derives h).binary kind operator (found_of_derives h')
  | .unary kind h => .unary kind (found_of_derives h)
  | .call h opens hs closes => (found_of_derives h).call opens (allFound_of_derivesAll hs) closes
  | .number kind => .token (by simp [kind]) fun _ c same => by simp [operand, Cursor.kind, same, kind]
  | .name kind => .token (by simp [kind]) fun _ c same => by simp [operand, Cursor.kind, same, kind]
  | .true kind => .token (by simp [kind]) fun _ c same => by simp [operand, Cursor.kind, same, kind]
  | .false kind => .token (by simp [kind]) fun _ c same => by simp [operand, Cursor.kind, same, kind]
  | .group opens h closes => .group opens (found_of_derives h) closes

theorem allFound_of_derivesAll {ts : List Token} {es : List Phrase} :
    DerivesAll ts es → ts = [] ∧ es = [] ∨ AllFound ts es
  | .none => .inl ⟨rfl, rfl⟩
  | .some hs => .inr (allFound_of_derivesSome hs)

theorem allFound_of_derivesSome {ts : List Token} {es : List Phrase} :
    DerivesSome ts es → AllFound ts es
  | .one h => (found_of_derives h).one
  | .more h kind hs => (found_of_derives h).more kind (allFound_of_derivesSome hs)

end

mutual

/-- The end of the input belongs to no phrase. -/
theorem kind_ne_endOfInput_of_derives {layer : Layer} {ts : List Token} {p : Phrase} :
    Derives layer ts p → ∀ t ∈ ts, t.kind ≠ .endOfInput
  | .next h => kind_ne_endOfInput_of_derives h
  | .assign h kind h' => by
    simpa [or_imp, forall_and, kind] using
      ⟨kind_ne_endOfInput_of_derives h, kind_ne_endOfInput_of_derives h'⟩
  | .binary h kind _ h' => by
    simpa [or_imp, forall_and, kind] using
      ⟨kind_ne_endOfInput_of_derives h, kind_ne_endOfInput_of_derives h'⟩
  | .unary kind h => by simpa [kind] using kind_ne_endOfInput_of_derives h
  | .call h opens hs closes => by
    simpa [or_imp, forall_and, opens, closes] using
      ⟨kind_ne_endOfInput_of_derives h, kind_ne_endOfInput_of_derivesAll hs⟩
  | .number kind | .name kind | .true kind | .false kind => by simp [kind]
  | .group opens h closes => by
    simpa [or_imp, forall_and, opens, closes] using kind_ne_endOfInput_of_derives h

theorem kind_ne_endOfInput_of_derivesAll {ts : List Token} {es : List Phrase} :
    DerivesAll ts es → ∀ t ∈ ts, t.kind ≠ .endOfInput
  | .none => by simp
  | .some hs => kind_ne_endOfInput_of_derivesSome hs

theorem kind_ne_endOfInput_of_derivesSome {ts : List Token} {es : List Phrase} :
    DerivesSome ts es → ∀ t ∈ ts, t.kind ≠ .endOfInput
  | .one h => kind_ne_endOfInput_of_derives h
  | .more h kind hs => by
    simpa [or_imp, forall_and, kind] using
      ⟨kind_ne_endOfInput_of_derives h, kind_ne_endOfInput_of_derivesSome hs⟩

end

end Phrase

/-! ## Whole token lists -/

/-- The tokens in front of the end of the input. -/
def Token.beforeEnd (tokens : List Token) : List Token :=
  tokens.takeWhile fun t => t.kind ≠ .endOfInput

namespace Token

theorem beforeEnd_eq_self {tokens : List Token} (before : ∀ t ∈ tokens, t.kind ≠ .endOfInput) :
    beforeEnd tokens = tokens := by
  simpa [beforeEnd] using before

theorem beforeEnd_append {ts : List Token} (rest : List Token)
    (before : ∀ t ∈ ts, t.kind ≠ .endOfInput) : beforeEnd (ts ++ rest) = ts ++ beforeEnd rest :=
  List.takeWhile_append_of_pos (by simpa using before)

theorem beforeEnd_concat {last : Token} (ts : List Token) (ended : last.kind = .endOfInput) :
    beforeEnd (ts ++ [last]) = beforeEnd ts := by
  induction ts with
  | nil => simp [beforeEnd, ended]
  | cons t ts ih =>
    rw [beforeEnd] at ih
    rw [beforeEnd, List.cons_append, List.takeWhile_cons, ih, beforeEnd, beforeEnd,
      List.takeWhile_cons]

end Token

namespace Cursor

theorem beforeEnd_upcoming {c : Cursor} (ended : c.kind = .endOfInput) :
    Token.beforeEnd c.upcoming = [] := by
  obtain ⟨_ | ⟨t, rest⟩, stop, endOfLast⟩ := c
  · rfl
  · have ended : t.kind = .endOfInput := ended
    simp [Token.beforeEnd, ended]

/-- What does not come in front of the end of the input starts with it. -/
theorem exists_upcoming_eq_beforeEnd_append (c : Cursor) (last : c.stop.kind = .endOfInput) :
    ∃ rest, c.upcoming = Token.beforeEnd c.upcoming ++ rest ∧
      (rest.head?.getD c.stop).kind = .endOfInput := by
  refine ⟨_, List.takeWhile_append_dropWhile.symm, ?_⟩
  have first := List.head?_dropWhile_not (fun t : Token => decide (t.kind ≠ .endOfInput)) c.upcoming
  cases behind : c.upcoming.dropWhile fun t => t.kind ≠ .endOfInput with
  | nil => exact last
  | cons t rest =>
    rw [behind] at first
    simpa using first

theorem kind_stop_ofTokens (tokens : List Token) : (ofTokens tokens).stop.kind = .endOfInput := by
  unfold ofTokens
  split
  · rfl
  · split
    · assumption
    · rfl

theorem beforeEnd_upcoming_ofTokens (tokens : List Token) :
    Token.beforeEnd (ofTokens tokens).upcoming = Token.beforeEnd tokens := by
  unfold ofTokens
  split
  · rename_i none
    rw [List.getLast?_eq_none_iff.mp none]
  · rename_i last isLast
    split
    · rename_i ended
      obtain ⟨front, rfl⟩ := List.getLast?_eq_some_iff.mp isLast
      rw [List.dropLast_concat, Token.beforeEnd_concat front ended]
    · rfl

end Cursor

/-- The tokens in front of the end of the input form a phrase exactly when the grammar says so, and
it is the one that the grammar derives. -/
theorem Phrase.ofTokens_eq_ok_iff {tokens : List Token} {p : Phrase} :
    Phrase.ofTokens tokens = .ok p ↔ Derives .expression (Token.beforeEnd tokens) p := by
  have last := Cursor.kind_stop_ofTokens tokens
  rw [← Cursor.beforeEnd_upcoming_ofTokens]
  constructor
  · intro h
    obtain ⟨⟨e, c⟩, taken, rest⟩ := bind_eq_ok_iff.mp h
    obtain ⟨_, passed, done⟩ := bind_eq_ok_iff.mp rest
    obtain rfl := Except.ok.inj done
    obtain ⟨ts, takes⟩ := sound_expression _ (by decide) last taken
    have ended : c.kind = .endOfInput := by
      by_contra ne
      simp [expectBehind, Cursor.expect, ne, Except.mapError] at passed
    rw [takes.upcoming, Token.beforeEnd_append _ (kind_ne_endOfInput_of_derives takes.derives),
      Cursor.beforeEnd_upcoming ended, List.append_nil]
    exact takes.derives
  · intro h
    obtain ⟨rest, upcoming, ended⟩ := Cursor.exists_upcoming_eq_beforeEnd_append _ last
    obtain ⟨endOfLast, taken⟩ := (found_of_derives h).reads_to_none .lowest rest
      (Cursor.ofTokens tokens).endOfLast rfl last (Nat.le_refl _)
      (congrArg Continuation.ofKind? ended)
    rw [← upcoming] at taken
    have passed := expectBehind_of_kind [p]
      (c := ⟨rest, (Cursor.ofTokens tokens).stop, endOfLast⟩) ended
    simp [ofTokens, read, taken, passed, bind, Except.bind, pure, Except.pure]

/-- No two phrases are derived from the same tokens. -/
theorem Derives.unique {ts : List Token} {p q : Phrase} (h : Derives .expression ts p)
    (h' : Derives .expression ts q) : p = q := by
  have same := Token.beforeEnd_eq_self (Phrase.kind_ne_endOfInput_of_derives h)
  rw [← same] at h h'
  exact Except.ok.inj ((Phrase.ofTokens_eq_ok_iff.mpr h).symm.trans (Phrase.ofTokens_eq_ok_iff.mpr h'))

end Deferral
