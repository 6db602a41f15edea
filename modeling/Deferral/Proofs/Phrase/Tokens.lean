import Deferral.Proofs.Phrase.Failing
import Deferral.Proofs.Phrase.Parts
import Deferral.Resolution.Expression

/-!
# Phrases are made of their tokens

Every word and every operator of a phrase starts where one of the tokens starts that were read, and so
do the parts that had been read where the grammar fails. What is made of a phrase therefore starts where
its tokens do, and a fault of names or types in it is reported there.
-/

namespace Deferral

/-! ## Phrases -/

namespace Phrase

mutual

/-- The words of a phrase start in `A`. -/
def StartsIn (A : Position → Prop) : Phrase → Prop
  | .number t | .truth _ t | .name t => A t.span.start
  | .unary _ start operand => A start ∧ operand.StartsIn A
  | .binary _ l r | .assign l r => l.StartsIn A ∧ r.StartsIn A
  | .call callee arguments _ => callee.StartsIn A ∧ AllStartIn A arguments

def AllStartIn (A : Position → Prop) : List Phrase → Prop
  | [] => True
  | p :: rest => p.StartsIn A ∧ AllStartIn A rest

end

theorem allStartIn_iff {A : Position → Prop} {ps : List Phrase} :
    AllStartIn A ps ↔ ∀ p ∈ ps, p.StartsIn A := by
  induction ps with
  | nil => simp [AllStartIn]
  | cons p rest ih => simp [AllStartIn, ih]

end Phrase

/-- The words of a type start in `A`. -/
def TypePhrase.StartsIn (A : Position → Prop) : TypePhrase → Prop
  | .name t => A t.span.start
  | .auto | .decltypeAuto => True
  | .decltype e => e.StartsIn A
  | .qualified t _ | .pointer t | .reference t | .sequence t => t.StartsIn A
  | .array element extent => element.StartsIn A ∧ extent.StartsIn A

def TypePart.StartsIn (A : Position → Prop) : TypePart → Prop
  | .type t => t.StartsIn A
  | .expression e => e.StartsIn A

/-! ## Reading -/

variable {A : Position → Prop}

namespace Cursor

/-- The tokens to come start in `A`, and behind them is the end of the input. -/
structure ReadsIn (A : Position → Prop) (c : Cursor) : Prop where
  upcoming : ∀ t ∈ c.upcoming, A t.span.start
  stop : c.stop.kind = .endOfInput

variable {c : Cursor}

theorem ReadsIn.next (h : c.ReadsIn A) : c.next.ReadsIn A where
  upcoming t member := h.upcoming t (by
    rw [upcoming_next] at member
    exact List.mem_of_mem_tail member)
  stop := by rw [stop_next]; exact h.stop

/-- The next token starts in `A` unless the input ends. -/
theorem ReadsIn.current (h : c.ReadsIn A) (more : c.kind ≠ .endOfInput) : A c.position := by
  obtain ⟨_ | ⟨t, rest⟩, stop, endOfLast⟩ := c
  · exact absurd h.stop more
  · exact h.upcoming t (List.mem_cons_self ..)

theorem readsIn_ofTokens {tokens : List Token} (all : ∀ t ∈ tokens, A t.span.start) :
    (ofTokens tokens).ReadsIn A := by
  unfold ofTokens
  dsimp only
  split
  · exact ⟨List.forall_mem_nil _, rfl⟩
  · split
    · rename_i last _ ended
      exact ⟨fun t member => all t (List.mem_of_mem_dropLast member), ended⟩
    · exact ⟨all, rfl⟩

end Cursor

/-- What has been read is of a kind, and so are the parts that had been read where reading breaks off. -/
def Parses {α π : Type} (P : α → Prop) (part : π → Prop) : Except (Broken π) α → Prop
  | .ok a => P a
  | .error b => ∀ p ∈ b.parts, part p

namespace Parses

variable {α β π : Type} {P : α → Prop} {Q : β → Prop} {part : π → Prop}

theorem ok {a : α} (h : P a) : Parses P part (.ok a) := h

theorem bind {x : Except (Broken π) α} {f : α → Except (Broken π) β} (h : Parses P part x)
    (h' : ∀ a, P a → Parses Q part (f a)) : Parses Q part (x >>= f) := by
  cases x with
  | error b => exact h
  | ok a => exact h' a h

theorem map {x : Except (Broken π) α} (h : Parses P part x) {f : α → β} (h' : ∀ a, P a → Q (f a)) :
    Parses Q part (f <$> x) := by
  cases x with
  | error b => exact h
  | ok a => exact h' a h

/-- More had been read in front. -/
theorem behind {x : Except (Broken π) α} (h : Parses P part x) {parts : List π}
    (front : ∀ p ∈ parts, part p) : Parses P part (x.mapError (·.behind parts)) := by
  cases x with
  | error b => exact List.forall_mem_append.mpr ⟨front, h⟩
  | ok a => exact h

end Parses

/-- A token is passed behind parts. -/
theorem parses_expect {π : Type} {part : π → Prop} {c : Cursor} (reads : c.ReadsIn A)
    (kind : TokenKind) {parts : List π} (front : ∀ p ∈ parts, part p) :
    Parses (fun out => out.2.ReadsIn A) part
      ((c.expect kind).mapError fun fault => (⟨parts, fault⟩ : Broken π)) := by
  unfold Cursor.expect
  split
  · exact reads.next
  · exact front

namespace Phrase

/-- What has been read starts in `A`, and so does what is to come. -/
abbrev ParsesIn (A : Position → Prop) : Reading (Phrase × Cursor) → Prop :=
  Parses (fun out => out.1.StartsIn A ∧ out.2.ReadsIn A) (StartsIn A)

variable {read : Power → Cursor → Reading (Phrase × Cursor)} {c : Cursor} {left : Phrase}

section

variable (reads : ∀ power {c}, c.ReadsIn A → ParsesIn A (read power c))

include reads

theorem parses_operand (good : c.ReadsIn A) : ParsesIn A (operand read c) := by
  have here {kind : TokenKind} (same : c.kind = kind) (more : kind ≠ .endOfInput) : A c.position :=
    good.current (same ▸ more)
  unfold operand
  split
  · rename_i kind
    exact ⟨here kind (by decide), good.next⟩
  · rename_i kind
    exact ⟨here kind (by decide), good.next⟩
  · rename_i kind
    exact ⟨here kind (by decide), good.next⟩
  · rename_i kind
    exact ⟨here kind (by decide), good.next⟩
  · rename_i kind
    exact (reads _ good.next).bind fun _ made => .ok ⟨⟨here kind (by decide), made.1⟩, made.2⟩
  · rename_i kind
    exact (reads _ good.next).bind fun _ made => .ok ⟨⟨here kind (by decide), made.1⟩, made.2⟩
  · exact (reads _ good.next).bind fun _ made =>
      (parses_expect made.2 _ (List.forall_mem_singleton.mpr made.1)).bind fun _ passed =>
        .ok ⟨made.1, passed⟩
  · exact List.forall_mem_nil _

theorem parses_arguments (bound : Nat) : ∀ isFirst {c : Cursor}, c.ReadsIn A →
    Parses (fun out => (∀ p ∈ out.1, p.StartsIn A) ∧ out.2.ReadsIn A) (StartsIn A)
      (arguments read bound isFirst c) := by
  induction bound with
  | zero => exact fun _ _ _ => List.forall_mem_nil _
  | succ bound ih =>
    intro isFirst c good
    have rest {c : Cursor} (good : c.ReadsIn A) := (reads .lowest good).bind fun first made =>
      ((ih false made.2).behind (List.forall_mem_singleton.mpr made.1)).bind fun others madeRest =>
        .ok (P := fun out => (∀ p ∈ out.1, p.StartsIn A) ∧ out.2.ReadsIn A)
          (a := (first.1 :: others.1, others.2))
          ⟨List.forall_mem_cons.mpr ⟨made.1, madeRest.1⟩, madeRest.2⟩
    unfold arguments
    split
    · exact ⟨List.forall_mem_nil _, good⟩
    · cases isFirst with
      | true => exact rest good
      | false =>
        exact ((parses_expect good _ (List.forall_mem_nil _)).map fun _ passed => passed).bind
          fun c passed => rest passed

theorem parses_continueWith (form : Continuation) (made : left.StartsIn A) (good : c.ReadsIn A) :
    ParsesIn A (continueWith read form left c) := by
  have front : ∀ p ∈ [left], p.StartsIn A := List.forall_mem_singleton.mpr made
  cases form with
  | binary op =>
    exact ((reads _ good.next).behind front).bind fun _ right => .ok ⟨⟨made, right.1⟩, right.2⟩
  | assign =>
    exact ((reads _ good.next).behind front).bind fun _ value => .ok ⟨⟨made, value.1⟩, value.2⟩
  | call =>
    exact ((parses_arguments reads _ _ good.next).behind front).bind fun _ all =>
      (parses_expect all.2 _ (List.forall_mem_cons.mpr ⟨made, all.1⟩)).bind fun _ passed =>
        .ok ⟨⟨made, allStartIn_iff.mpr all.1⟩, passed⟩

theorem parses_extend (power : Power) (bound : Nat) : ∀ {left : Phrase} {c : Cursor},
    left.StartsIn A → c.ReadsIn A → ParsesIn A (extend read power bound left c) := by
  induction bound with
  | zero => exact fun made good => ⟨made, good⟩
  | succ bound ih =>
    intro left c made good
    unfold extend
    split
    · exact ⟨made, good⟩
    split
    · exact ⟨made, good⟩
    · exact (parses_continueWith reads _ made good).bind fun _ more => ih more.1 more.2

end

theorem parses_expression (depth : Nat) : ∀ power {c : Cursor}, c.ReadsIn A →
    ParsesIn A (expression depth power c) := by
  induction depth with
  | zero => exact fun _ _ _ => List.forall_mem_nil _
  | succ depth ih =>
    exact fun power c good => (parses_operand ih good).bind fun _ made =>
      parses_extend ih power _ made.1 made.2

theorem parses_read (good : c.ReadsIn A) : ParsesIn A (Phrase.read c) := parses_expression _ _ good

theorem parses_ofTokens {tokens : List Token} (all : ∀ t ∈ tokens, A t.span.start) :
    Parses (StartsIn A) (StartsIn A) (ofTokens tokens) :=
  (parses_read (Cursor.readsIn_ofTokens all)).bind fun _ made =>
    (parses_expect made.2 _ (List.forall_mem_singleton.mpr made.1)).bind fun _ _ => .ok made.1

end Phrase

namespace TypePhrase

/-- What has been read starts in `A`, and so does what is to come. -/
abbrev ParsesIn (A : Position → Prop) : Reading (TypePhrase × Cursor) → Prop :=
  Parses (fun out => out.1.StartsIn A ∧ out.2.ReadsIn A) (TypePart.StartsIn A)

variable {c : Cursor} {left : TypePhrase}

theorem starts_type {t : TypePhrase} (h : t.StartsIn A) : ∀ part ∈ [TypePart.type t], part.StartsIn A :=
  List.forall_mem_singleton.mpr h

theorem starts_expression {e : Phrase} (h : e.StartsIn A) :
    ∀ part ∈ [TypePart.expression e], part.StartsIn A := List.forall_mem_singleton.mpr h

theorem parses_expressionBehind {parts : List TypePart} (front : ∀ p ∈ parts, p.StartsIn A)
    (good : c.ReadsIn A) :
    Parses (fun out => out.1.StartsIn A ∧ out.2.ReadsIn A) (TypePart.StartsIn A)
      (expressionBehind parts c) := by
  have reads := Phrase.parses_read good
  unfold expressionBehind
  generalize Phrase.read c = outcome at reads
  cases outcome with
  | ok out => exact reads
  | error b =>
    refine List.forall_mem_append.mpr ⟨front, fun part member => ?_⟩
    obtain ⟨p, inside, rfl⟩ := List.mem_map.mp member
    exact reads p inside

theorem parses_bracketed {element : TypePhrase} (made : element.StartsIn A) (good : c.ReadsIn A) :
    ParsesIn A (bracketed element c) := by
  unfold bracketed
  split
  · exact ⟨made, good.next⟩
  · refine (parses_expressionBehind (starts_type made) good).bind fun out extent => ?_
    have both : ∀ p ∈ [TypePart.type element, TypePart.expression out.1], p.StartsIn A :=
      List.forall_mem_cons.mpr ⟨made, starts_expression extent.1⟩
    exact (parses_expect extent.2 _ both).bind fun _ passed => .ok ⟨⟨made, extent.1⟩, passed⟩

theorem parses_suffixes (bound : Nat) : ∀ {left : TypePhrase} {c : Cursor},
    left.StartsIn A → c.ReadsIn A → ParsesIn A (suffixes bound left c) := by
  induction bound with
  | zero => exact fun made good => ⟨made, good⟩
  | succ bound ih =>
    intro left c made good
    unfold suffixes
    split
    · exact ih made good.next
    · exact ih made good.next
    · exact (parses_bracketed made good.next).bind fun _ more => ih more.1 more.2
    · split
      · exact ih made good.next
      · exact ⟨made, good⟩

theorem parses_decltypeOperand (good : c.ReadsIn A) : ParsesIn A (decltypeOperand c) := by
  refine (parses_expect good _ (List.forall_mem_nil _)).bind fun ⟨_, c⟩ passed => ?_
  dsimp only
  split
  · exact ⟨trivial, passed.next.next⟩
  · exact (parses_expressionBehind (List.forall_mem_nil _) passed).bind fun _ made =>
      (parses_expect made.2 _ (starts_expression made.1)).bind fun _ closed =>
        .ok ⟨made.1, closed⟩

theorem parses_operand (depth : Nat) : ∀ {c : Cursor}, c.ReadsIn A → ParsesIn A (operand depth c) := by
  induction depth with
  | zero => exact fun _ => List.forall_mem_nil _
  | succ depth ih =>
    intro c good
    unfold operand
    split
    · rename_i kind
      exact ⟨good.current (by rw [kind]; decide), good.next⟩
    · exact ⟨trivial, good.next⟩
    · exact parses_decltypeOperand good.next
    · exact (ih good.next).bind fun inner made =>
        (parses_suffixes _ made.1 made.2).bind fun _ whole =>
          (parses_expect whole.2 _ (starts_type whole.1)).bind fun _ passed =>
            .ok ⟨whole.1, passed⟩
    · split
      · exact (ih good.next).bind fun _ made => .ok made
      · exact List.forall_mem_nil _

theorem parses_ofTokens {tokens : List Token} (all : ∀ t ∈ tokens, A t.span.start) :
    Parses (StartsIn A) (TypePart.StartsIn A) (ofTokens tokens) := by
  have reads : ParsesIn A (TypePhrase.read (Cursor.ofTokens tokens)) :=
    (parses_operand _ (Cursor.readsIn_ofTokens all)).bind fun _ made =>
      parses_suffixes _ made.1 made.2
  exact reads.bind fun _ made =>
    (parses_expect made.2 _ (starts_type made.1)).bind fun _ _ => .ok made.1

end TypePhrase

/-! ## Meanings of phrases -/

/-- What names stand for, and the types of what they stand for, is made of declarations of `S`. -/
structure SymbolTable.Offers (table : SymbolTable) (S : DeclId → Prop) : Prop where
  found : ∀ name set, table.find name = some set → ∀ id ∈ set, S id
  types : ∀ id type, SymbolTable.typeOfUse? (table.decl id) = some type → type.IsMade S

/-- A fault of the grammar, or else one of names, types or values in `A`. -/
def Diagnostic.IsReadIn (A : Position → Prop) (d : Diagnostic) : Prop :=
  d.cause.isGrammatical = true ∨ d.IsPlainAt A

namespace Expr

variable {S : DeclId → Prop}

theorem comes_ofNumber {t : Token} (start : A t.span.start) :
    Comes (Diagnostic.IsReadIn A) (IsMade S A) (ofNumber t) := by
  have fault : Diagnostic.IsReadIn A { cause := .badNumber t.text, position := t.span.start } := .inl rfl
  unfold ofNumber
  dsimp only
  split
  · split
    · exact ⟨trivial, trivial, start⟩
    · exact fault
  · split
    · split
      · refine ⟨trivial, ?_, start⟩
        split <;> trivial
      · exact fault
    · exact fault

end Expr

namespace SymbolTable

variable {table : SymbolTable} {S : DeclId → Prop} {t : Token}

theorem comes_overloads (offers : table.Offers S) (start : A t.span.start) :
    ComesFrom A (fun set => ∀ id ∈ set, S id) (table.overloads t) := by
  unfold overloads
  split
  · rename_i set found
    exact offers.found _ set found
  · exact ⟨rfl, start⟩

theorem comes_reference (offers : table.Offers S) (start : A t.span.start) :
    ComesFrom A (Expr.IsMade S A) (table.reference t) := by
  refine (comes_overloads offers start).bind fun set known => ?_
  split
  · exact ⟨rfl, start⟩
  · rename_i id preferred
    have chosen : id ∈ set := by
      rcases Option.or_eq_some_iff.mp preferred with found | ⟨-, first⟩
      · exact List.mem_of_find?_eq_some found
      · exact List.mem_of_mem_head? first
    dsimp only
    split
    · rename_i type used
      exact ⟨known id chosen, offers.types id type used, start⟩
    · exact ⟨rfl, start⟩

theorem isMade_typeOf? {name : String} {set : Overloads} {type : Ty} (known : ∀ id ∈ set, S id)
    (named : table.typeOf? name set = some type) : type.IsMade S := by
  have chosen {p : DeclId → Bool} {id : DeclId} (found : set.find? p = some id) : S id :=
    known id (List.mem_of_find?_eq_some found)
  unfold typeOf? at named
  split at named
  · rename_i id found
    exact Option.some.inj named ▸ chosen found
  · split at named
    · rename_i id found
      exact Option.some.inj named ▸ chosen found
    · obtain ⟨id, found, rfl⟩ := Option.map_eq_some_iff.mp named
      exact chosen found

theorem comes_namedType (offers : table.Offers S) (start : A t.span.start) :
    ComesFrom A (Ty.IsMade S) (table.namedType t) := by
  unfold namedType
  split
  · rename_i type builtin
    exact Ty.isMade_builtin? builtin
  · refine (comes_overloads offers start).bind fun set known => ?_
    split
    · rename_i type named
      exact isMade_typeOf? known named
    · exact ⟨rfl, start⟩

end SymbolTable

namespace Phrase

variable {table : SymbolTable} {S : DeclId → Prop}

/-- A fault of types is one of the two kinds that come of phrases. -/
theorem reads_of_plain {α : Type} {P : α → Prop} {x : Except Diagnostic α} (h : ComesFrom A P x) :
    Comes (Diagnostic.IsReadIn A) P x :=
  h.mono (fun _ => .inr) fun _ => id

mutual

theorem comes_typed (offers : table.Offers S) : ∀ {p : Phrase}, p.StartsIn A →
    Comes (Diagnostic.IsReadIn A) (Expr.IsMade S A) (p.typed table)
  | .number _, start => Expr.comes_ofNumber start
  | .truth _ _, start => ⟨trivial, trivial, start⟩
  | .name _, start => reads_of_plain (SymbolTable.comes_reference offers start)
  | .unary _ _ _, ⟨start, inside⟩ => (comes_typed offers inside).bind fun _ made =>
      reads_of_plain (Expr.comes_ofUnary made start)
  | .binary _ _ _, ⟨left, right⟩ => (comes_typed offers left).bind fun _ madeLeft =>
      (comes_typed offers right).bind fun _ madeRight =>
        reads_of_plain (Expr.comes_ofBinary madeLeft madeRight)
  | .assign _ _, ⟨target, value⟩ => (comes_typed offers target).bind fun _ madeTarget =>
      (comes_typed offers value).bind fun _ madeValue =>
        reads_of_plain (Expr.comes_ofAssign madeTarget madeValue)
  | .call _ _ _, ⟨callee, arguments⟩ => (comes_typed offers callee).bind fun _ made =>
      (comes_typedAll offers arguments).bind fun _ all =>
        reads_of_plain (Expr.comes_ofCall made all made.start)

theorem comes_typedAll (offers : table.Offers S) : ∀ {ps : List Phrase}, AllStartIn A ps →
    Comes (Diagnostic.IsReadIn A) (Expr.AllMade S A) (typedAll table ps)
  | [], _ => trivial
  | _ :: _, ⟨first, rest⟩ => (comes_typed offers first).bind fun _ made =>
      (comes_typedAll offers rest).bind fun _ all => ⟨made, all⟩

end

end Phrase

/-- What is made of tokens starts where they do. -/
theorem SymbolTable.comes_expressionOf {table : SymbolTable} {S : DeclId → Prop}
    (offers : table.Offers S) {tokens : List Token} (all : ∀ t ∈ tokens, A t.span.start) :
    Comes (Diagnostic.IsReadIn A) (Expr.IsMade S A) (table.expressionOf tokens) := by
  have parses := Phrase.parses_ofTokens all
  unfold expressionOf
  split
  · rename_i phrase read
    rw [read] at parses
    exact Phrase.comes_typed offers parses
  · rename_i broken breaks
    rw [breaks] at parses
    refine (Phrase.comes_typedAll offers (Phrase.allStartIn_iff.mpr parses)).bind fun _ _ => ?_
    exact .inl (Phrase.grammatical_ofTokens tokens _ breaks)

end Deferral
