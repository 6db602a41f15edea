import Deferral.Proofs.Layout.Fault
import Deferral.Proofs.Safety.FirstPass

/-!
# The order of the first pass

What a pass reports of a stretch of the source it reports in the order of its places, and what fails in
it comes last. Here this is shown of the first pass, which keeps a table laid out.
-/

namespace Deferral

open SymbolTable

variable {α β : Type} {t t' : SymbolTable} {Q : α → SymbolTable → Prop} {Q' : β → SymbolTable → Prop}
  {L : Layout} {lo hi lo' hi' mid : Nat} {pending : α → List Diagnostic} {pending' : β → List Diagnostic}

namespace Reporting

/-- A computation keeps a table laid out, and what it reports is listed with what it leaves to be
reported. -/
def Tells (L : Layout) (lo hi : Nat) (pending : α → List Diagnostic) (x : Reporting α) (t : SymbolTable)
    (Q : α → SymbolTable → Prop) : Prop :=
  t.LaidOut L → ∀ ⦃ρ a ρ' t'⦄, Ends x ρ t a ρ' t' →
    t.StaysLaid L t' ∧ Q a t' ∧ ∃ δ, ρ' = ρ ++ δ ∧ L.Lists lo hi (δ ++ pending a)

/-- A computation leaves nothing to be reported. -/
abbrev TellsAll (L : Layout) (lo hi : Nat) (x : Reporting α) (t : SymbolTable)
    (Q : α → SymbolTable → Prop) : Prop := Tells L lo hi (fun _ => []) x t Q

theorem tells_pure {a : α} (h : Q a t) (lists : L.Lists lo hi (pending a)) :
    Tells L lo hi pending (pure a) t Q := by
  intro laid ρ b ρ' t' run
  obtain ⟨rfl, rfl, rfl⟩ := ends_pure.mp run
  exact ⟨.refl laid, h, [], by simp, lists⟩

theorem tellsAll_pure {a : α} (h : Q a t) : TellsAll L lo hi (pure a) t Q := tells_pure h (.nil ..)

theorem Tells.mono {Q₁ : α → SymbolTable → Prop} {x : Reporting α} (h : Tells L lo hi pending x t Q)
    (inside : L.Inside lo hi lo' hi') (wider : ∀ a t', t.StaysLaid L t' → Q a t' → Q₁ a t') :
    Tells L lo' hi' pending x t Q₁ := by
  intro laid ρ a ρ' t' run
  obtain ⟨stays, holds, δ, told, lists⟩ := h laid run
  exact ⟨stays, wider a t' stays holds, δ, told, lists.mono inside⟩

/-- What is known of a table that is laid out may be used. -/
theorem Tells.of_laid {x : Reporting α} (h : t.LaidOut L → Tells L lo hi pending x t Q) :
    Tells L lo hi pending x t Q := fun laid => h laid laid

/-- One computation follows another one, in a stretch behind that of the first, unless the first leaves
something to be reported, which is then left as it is. -/
theorem Tells.bind {x : Reporting α} {f : α → Reporting β} (h : Tells L lo mid pending x t Q)
    (low : lo ≤ mid) (high : mid ≤ hi)
    (next : ∀ a t', t.StaysLaid L t' → Q a t' →
      pending a = [] ∧ Tells L mid hi pending' (f a) t' Q' ∨
        ∃ b, f a = pure b ∧ pending' b = pending a ∧ Q' b t') :
    Tells L lo hi pending' (x >>= f) t Q' := by
  intro laid ρ b ρ' t' run
  obtain ⟨a, ρ₁, t₁, first, rest⟩ := ends_bind.mp run
  obtain ⟨stays, holds, δ, rfl, lists⟩ := h laid first
  rcases next a t₁ stays holds with ⟨done, next⟩ | ⟨b', same, left, holds'⟩
  · obtain ⟨stays', holds', δ', rfl, lists'⟩ := next stays.laid rest
    refine ⟨stays.trans stays', holds', δ ++ δ', List.append_assoc .., ?_⟩
    rw [done, List.append_nil] at lists
    rw [List.append_assoc]
    exact lists.append lists' low high
  · rw [same] at rest
    obtain ⟨rfl, rfl, rfl⟩ := ends_pure.mp rest
    refine ⟨stays, holds', δ, rfl, ?_⟩
    rw [left]
    exact lists.mono (Layout.inside_of_le (Nat.le_refl lo) high)

/-- One computation that reports all there is follows another one. -/
theorem TellsAll.bind {x : Reporting α} {f : α → Reporting β} (h : TellsAll L lo mid x t Q)
    (low : lo ≤ mid) (high : mid ≤ hi)
    (next : ∀ a t', t.StaysLaid L t' → Q a t' → Tells L mid hi pending' (f a) t' Q') :
    Tells L lo hi pending' (x >>= f) t Q' :=
  Tells.bind h low high fun a t' stays holds => .inl ⟨rfl, next a t' stays holds⟩

theorem tells_bind_look {pick : SymbolTable → α} {f : α → Reporting β}
    (h : Tells L lo hi pending' (f (pick t)) t Q') : Tells L lo hi pending' (look pick >>= f) t Q' :=
  fun laid _ _ _ _ run => h laid (ends_bind_look.mp run)

theorem tells_bind_change {g : SymbolTable → SymbolTable} {f : Unit → Reporting β}
    (stays : t.LaidOut L → t.StaysLaid L (g t))
    (h : t.StaysLaid L (g t) → Tells L lo hi pending' (f ()) (g t) Q') :
    Tells L lo hi pending' (change g >>= f) t Q' := by
  intro laid ρ b ρ' t' run
  have changed := stays laid
  obtain ⟨stays', rest⟩ := h changed changed.laid (ends_bind_change.mp run)
  exact ⟨changed.trans stays', rest⟩

theorem tellsAll_change {g : SymbolTable → SymbolTable} (stays : t.LaidOut L → t.StaysLaid L (g t)) :
    TellsAll L lo hi (change g) t fun _ _ => True := by
  intro laid ρ u ρ' t' run
  obtain ⟨rfl, rfl⟩ := ends_change.mp run
  exact ⟨stays laid, trivial, [], by simp, .nil ..⟩

/-- Resolving reports nothing, and how the computation goes on hangs on its outcome. -/
theorem tells_bind_attempt {x : Resolution α} {f : Except Diagnostic α → Reporting β}
    (h : Resolution.Lays L (L.Admits lo hi) x t Q)
    (ok : ∀ a t', t.StaysLaid L t' → Q a t' → Tells L lo hi pending' (f (.ok a)) t' Q')
    (error : ∀ d t', t.StaysLaid L t' → L.Admits lo hi d → Tells L lo hi pending' (f (.error d)) t' Q') :
    Tells L lo hi pending' (attempt x >>= f) t Q' := by
  intro laid ρ b ρ' t' run
  obtain ⟨r, ρ₁, t₁, first, rest⟩ := ends_bind.mp run
  obtain ⟨inner, rfl⟩ := ends_attempt.mp first
  obtain ⟨stays, comes⟩ := h laid inner
  have next : Tells L lo hi pending' (f r) t₁ Q' := by
    cases r with
    | ok a => exact ok a t₁ stays comes
    | error d => exact error d t₁ stays comes
  obtain ⟨stays', told⟩ := next stays.laid rest
  exact ⟨stays.trans stays', told⟩

theorem tellsAll_report {d : Diagnostic} (admits : L.Admits lo hi d) :
    TellsAll L lo hi (report d) t fun _ _ => True := by
  intro laid ρ u ρ' t' run
  obtain ⟨rfl, rfl⟩ := ends_report.mp run
  exact ⟨.refl laid, trivial, [d], rfl, .single admits⟩

/-- What is left to be reported is reported, against some subject. -/
theorem Tells.reported {x : Reporting α} {f : α → Reporting β} (fault? : α → Option Diagnostic)
    (h : Tells L lo hi (fun a => (fault? a).toList) x t Q)
    (reports : ∀ a t', Q a t' → ∀ ⦃ρ b ρ' t''⦄, Ends (f a) ρ t' b ρ' t'' → t'' = t' ∧ Q' b t' ∧
      ∃ subject, ρ' = ρ ++ ((fault? a).map (·.within subject)).toList) :
    TellsAll L lo hi (x >>= f) t Q' := by
  intro laid ρ b ρ' t' run
  obtain ⟨a, ρ₁, t₁, first, rest⟩ := ends_bind.mp run
  obtain ⟨stays, holds, δ, rfl, lists⟩ := h laid first
  obtain ⟨rfl, holds', subject, rfl⟩ := reports a t₁ holds rest
  refine ⟨stays, holds', _, List.append_assoc .., ?_⟩
  rw [List.append_nil]
  exact lists.against_last subject

/-- A scope is entered and left again. -/
theorem tells_under {scope : ScopeId} {x : Reporting α} (h : Tells L lo hi pending x (t.enter scope) Q)
    (leaves : ∀ a t', Q a t' → Q a t'.leave) : Tells L lo hi pending (under scope x) t Q := by
  intro laid ρ a ρ' t' run
  obtain ⟨t₁, first, rfl⟩ := ends_under.mp run
  have entered := StaysLaid.enter laid scope
  obtain ⟨stays, holds, told⟩ := h entered.laid first
  exact ⟨(entered.trans stays).trans (.leave stays.laid), leaves a t₁ holds, told⟩

theorem tells_underFresh {x : Reporting α}
    (h : ∀ scope t', t.StaysLaid L t' → Tells L lo hi pending x (t'.enter scope) Q)
    (leaves : ∀ a t', Q a t' → Q a t'.leave) : Tells L lo hi pending (underFresh x) t Q := by
  intro laid ρ a ρ' t' run
  obtain ⟨t₁, first, rfl⟩ := ends_underFresh.mp run
  have opened := StaysLaid.addScope laid t.innermost
  obtain ⟨stays, told⟩ := tells_under (h t.nextScope _ opened) leaves opened.laid
    (ends_under.mpr ⟨t₁, first, rfl⟩)
  exact ⟨opened.trans stays, told⟩

end Reporting

namespace Faulting

/-- The fault that an outcome is. -/
def fault (r : Except Diagnostic α) : List Diagnostic :=
  match r with
  | .ok _ => []
  | .error d => [d]

/-- A computation keeps a table laid out, and what it reports is listed with the fault it ends in. -/
def Tells (L : Layout) (lo hi : Nat) (x : Faulting α) (t : SymbolTable)
    (Q : α → SymbolTable → Prop) : Prop :=
  Reporting.Tells L lo hi fault x.run t fun r t' => ∀ a, r = .ok a → Q a t'

theorem tells_pure {a : α} (h : Q a t) : Tells L lo hi (pure a) t Q :=
  Reporting.tells_pure (fun _ same => Except.ok.inj same ▸ h) (.nil ..)

theorem Tells.of_laid {x : Faulting α} (h : t.LaidOut L → Tells L lo hi x t Q) : Tells L lo hi x t Q :=
  fun laid => h laid laid

theorem tells_bind_look {pick : SymbolTable → α} {f : α → Faulting β}
    (h : Tells L lo hi (f (pick t)) t Q') : Tells L lo hi (look pick >>= f) t Q' :=
  fun laid _ _ _ _ run => h laid (ends_bind_look.mp run)

theorem tells_bind_change {g : SymbolTable → SymbolTable} {f : Unit → Faulting β}
    (stays : t.LaidOut L → t.StaysLaid L (g t))
    (h : t.StaysLaid L (g t) → Tells L lo hi (f ()) (g t) Q') :
    Tells L lo hi (change g >>= f) t Q' := by
  intro laid ρ r ρ' t' run
  have changed := stays laid
  obtain ⟨stays', rest⟩ := h changed changed.laid (ends_bind_change.mp run)
  exact ⟨changed.trans stays', rest⟩

theorem tells_change {g : SymbolTable → SymbolTable} {Q : Unit → SymbolTable → Prop}
    (stays : t.LaidOut L → t.StaysLaid L (g t)) (h : t.StaysLaid L (g t) → Q () (g t)) :
    Tells L lo hi (change g) t Q := by
  intro laid ρ r ρ' t' run
  obtain ⟨rfl, rfl, rfl⟩ := ends_change.mp run
  exact ⟨stays laid, fun _ _ => h (stays laid), [], by simp, .nil ..⟩

theorem tells_resolve {x : Resolution α} (h : Resolution.Lays L (L.Admits lo hi) x t Q) :
    Tells L lo hi (resolve x) t Q := by
  intro laid ρ r ρ' t' run
  obtain ⟨inner, rfl⟩ := ends_resolve.mp run
  obtain ⟨stays, comes⟩ := h laid inner
  cases r with
  | ok a => exact ⟨stays, fun _ same => Except.ok.inj same ▸ comes, [], by simp, .nil ..⟩
  | error d => exact ⟨stays, nofun, [], by simp, .single comes⟩

/-- Resolving reports nothing: what follows may lie in the same stretch. -/
theorem tells_bind_resolve {x : Resolution α} {f : α → Faulting β}
    (h : Resolution.Lays L (L.Admits lo hi) x t Q)
    (next : ∀ a t', t.StaysLaid L t' → Q a t' → Tells L lo hi (f a) t' Q') :
    Tells L lo hi (resolve x >>= f) t Q' := by
  intro laid ρ r ρ' t' run
  rcases ends_bind.mp run with ⟨d, first, rfl⟩ | ⟨a, ρ₁, t₁, first, rest⟩
  · obtain ⟨inner, rfl⟩ := ends_resolve.mp first
    obtain ⟨stays, comes⟩ := h laid inner
    exact ⟨stays, nofun, [], by simp, .single comes⟩
  · obtain ⟨inner, rfl⟩ := ends_resolve.mp first
    obtain ⟨stays, holds⟩ := h laid inner
    obtain ⟨stays', told⟩ := next a t₁ stays holds stays.laid rest
    exact ⟨stays.trans stays', told⟩

theorem tells_lift {x : Reporting α} (h : Reporting.TellsAll L lo hi x t Q) :
    Tells L lo hi (monadLift x) t Q := by
  intro laid ρ r ρ' t' run
  obtain ⟨a, first, rfl⟩ := ends_lift.mp run
  obtain ⟨stays, holds, told⟩ := h laid first
  exact ⟨stays, fun _ same => Except.ok.inj same ▸ holds, told⟩

/-- What follows the last part of a stretch reports nothing but the fault it ends in. -/
theorem Tells.bind {x : Faulting α} {f : α → Faulting β} (h : Tells L lo hi x t Q) (ordered : lo ≤ hi)
    (next : ∀ a t', t.StaysLaid L t' → Q a t' → Tells L hi hi (f a) t' Q') :
    Tells L lo hi (x >>= f) t Q' := by
  change Reporting.Tells L lo hi fault (x.run >>= ExceptT.bindCont f) t _
  refine Reporting.Tells.bind h ordered (Nat.le_refl hi) fun r t' stays holds => ?_
  cases r with
  | ok a => exact .inl ⟨rfl, next a t' stays (holds a rfl)⟩
  | error d => exact .inr ⟨.error d, rfl, rfl, nofun⟩

theorem Tells.map {x : Faulting α} (h : Tells L lo hi x t Q) {f : α → β}
    (h' : ∀ a t', t.StaysLaid L t' → Q a t' → Q' (f a) t') : Tells L lo hi (f <$> x) t Q' := by
  intro laid ρ r ρ' t' run
  obtain ⟨r₁, first, rfl⟩ := ends_map.mp run
  obtain ⟨stays, holds, told⟩ := h laid first
  cases r₁ with
  | error d => exact ⟨stays, nofun, told⟩
  | ok a => exact ⟨stays, fun _ same => Except.ok.inj same ▸ h' a t' stays (holds a rfl), told⟩

theorem tells_ending {x : Faulting α} {after : SymbolTable → SymbolTable} (h : Tells L lo hi x t Q)
    (stays : ∀ t' : SymbolTable, t'.LaidOut L → t'.StaysLaid L (after t')) :
    Tells L lo hi (ending x after) t fun _ _ => True := by
  intro laid ρ r ρ' t' run
  obtain ⟨t₁, first, rfl⟩ := ends_ending.mp run
  obtain ⟨stays', -, told⟩ := h laid first
  exact ⟨stays'.trans (stays t₁ stays'.laid), fun _ _ => trivial, told⟩

theorem tells_fault? {x : Faulting Unit} {Q : Unit → SymbolTable → Prop} (h : Tells L lo hi x t Q) :
    Reporting.Tells L lo hi Option.toList x.fault? t fun _ _ => True := by
  intro laid ρ fault? ρ' t' run
  rcases ends_fault?.mp run with ⟨rfl, inner⟩ | ⟨d, rfl, inner⟩ <;>
    · obtain ⟨stays, -, told⟩ := h laid inner
      exact ⟨stays, trivial, told⟩

end Faulting

/-- A pass over declarations, each of which is told of in any stretch that it lies in. -/
def Reporting.TellsEach (L : Layout) (pass : DeclId → Reporting Unit) : Prop :=
  ∀ id (t : SymbolTable) {lo hi : Nat}, L.Inside (L.low id) (L.high id) lo hi →
    TellsAll L lo hi (pass id) t fun _ _ => True

/-- The fault of a declaration is reported against it. -/
theorem Reporting.tells_reportDeclaration {x : Faulting Unit} {id : DeclId} {Q : Unit → SymbolTable → Prop}
    (h : Faulting.Tells L lo hi x t Q) : TellsAll L lo hi (do
      let fault? ← x.fault?
      reportWithin (← look fun t => (t.decl id).subject) fault?) t fun _ _ => True := by
  refine (Faulting.tells_fault? h).reported (fun fault? => fault?) ?_
  intro fault? t' _ ρ u ρ' t'' run
  obtain ⟨rfl, rfl⟩ := ends_reportWithin.mp (ends_bind_look (f := (reportWithin · fault?)) |>.mp run)
  exact ⟨rfl, trivial, _, rfl⟩

namespace Signature

open Reporting Resolution

/-! ## Functions -/

theorem isMade_replaceAuto {S : DeclId → Prop} {replacement : Ty} : ∀ (type : Ty), type.IsMade S →
    (isUntyped type = true → replacement.IsMade S) → (replaceAuto replacement type).IsMade S
  | .auto, _, new => new rfl
  | .reference t, made, new => (isMade_replaceAuto t made new).toReference
  | .qualified t q, made, new => (isMade_replaceAuto t made new).addQualifiers q
  | .void, made, _ | .bool, made, _ | .integer _ _, made, _ | .float _, made, _ | .decltypeAuto, made, _
  | .metatype, made, _ | .named _ _ _, made, _ | .decltype _, made, _ | .function _ _, made, _
  | .pointer _, made, _ | .array _ _, made, _ | .sequence _, made, _ => made
  | .deferred _, made, _ => made.elim

/-- The type of a parameter has been read once it is resolved, and the type parameters are known. -/
theorem lays_parameter {scope : ScopeId} {made : List DeclId} {id : DeclId}
    (known : ∀ p ∈ made, L.known t.decls.size p) :
    Lays L (L.Admits (L.low id) (L.high id)) (parameter scope made id) t fun made' t' =>
      (t'.decl id).HasRead .declared ∧ ∀ p ∈ made', L.known t'.decls.size p := by
  refine lays_bind_look ?_
  refine ((lays_forceSlotWith bindsApart_ensureConstant id .declared t).rethrow
    fun d admits => admits.against _).bind fun _ t₁ stays read => .of_laid fun laid => lays_bind_look ?_
  split
  · exact lays_unexpectedDecl _
  rename_i type held
  have madeOf := laid.isMade_of_hasRead read held
  refine lays_bind_look ?_
  have last {t₂ : SymbolTable} (stays₂ : t₁.StaysLaid L t₂) {all : List DeclId} {replacement : Ty}
      (fresh : isUntyped type = true → replacement.IsMade (L.known t₂.decls.size))
      (all_known : ∀ p ∈ all, L.known t₂.decls.size p) :
      Lays L (L.Admits (L.low id) (L.high id)) (do
        modify (·.modifyDecl id (·.withTypeIn .declared (replaceAuto replacement type)))
        return all) t₂ fun made' t' =>
          (t'.decl id).HasRead .declared ∧ ∀ p ∈ made', L.known t'.decls.size p := by
    have replaced := isMade_replaceAuto type (madeOf.mono fun _ => L.known_mono stays₂.size) fresh
    refine lays_bind_modify (fun laid => .withTypeIn laid id .declared replaced) fun stays₃ =>
      lays_pure ⟨stays₃.reads _ _ (stays₂.reads _ _ read), fun p member => ?_⟩
    exact L.known_mono stays₃.size (all_known p member)
  dsimp only
  split
  · rename_i untyped
    refine lays_bind_modify (fun laid => .addTypeParameter laid rfl) fun stays₂ => ?_
    have size : (addTypeParameter scope (t₁.decl id).span.start made.length t₁).decls.size =
        t₁.decls.size + 1 := by simp [addTypeParameter, addUnnamed]
    have fresh : L.known (addTypeParameter scope (t₁.decl id).span.start made.length t₁).decls.size
        t₁.nextDecl := by
      rw [size]
      exact L.known_next t₁.decls.size
    refine last stays₂ (fun _ => fresh) fun p member => ?_
    rcases List.mem_append.mp member with old | new
    · exact L.known_mono (Nat.le_trans stays.size stays₂.size) (known p old)
    · exact List.mem_singleton.mp new ▸ fresh
  · rename_i typed
    exact last (.refl laid) (fun untyped => absurd untyped typed) fun p member =>
      L.known_mono stays.size (known p member)

/-- The first parameter that fails ends it: what is reported lies in one of them. -/
theorem lays_parametersFrom {scope : ScopeId} : ∀ {ids : List DeclId} {made : List DeclId} {t : SymbolTable},
    (∀ p ∈ ids, L.Inside (L.low p) (L.high p) lo hi) → (∀ p ∈ made, L.known t.decls.size p) →
    Lays L (L.Admits lo hi) (parametersFrom scope made ids) t fun made' t' =>
      (∀ p ∈ ids, (t'.decl p).HasRead .declared) ∧ ∀ p ∈ made', L.known t'.decls.size p
  | [], _, _, _, known => lays_pure ⟨List.forall_mem_nil _, known⟩
  | _ :: _, _, _, inside, known => by
    obtain ⟨first, others⟩ := List.forall_mem_cons.mp inside
    refine ((lays_parameter known).mono (fun _ admits => admits.mono first) fun _ _ _ h => h).bind
      fun made t₁ _ ⟨read, known⟩ => (lays_parametersFrom others known).mono (fun _ h => h)
        fun _ t₂ stays ⟨rest, known⟩ => ⟨List.forall_mem_cons.mpr ⟨stays.reads _ _ read, rest⟩, known⟩

theorem lays_bindAll (scope : ScopeId) : ∀ {made : List DeclId} {t : SymbolTable},
    (∀ p ∈ made, L.known t.decls.size p) →
    Lays L (L.Admits lo hi) (made.forM fun p => modify fun t => t.bindName scope (t.decl p).name p) t
      fun _ _ => True
  | [], _, _ => lays_pure trivial
  | _ :: _, _, known => by
    obtain ⟨first, others⟩ := List.forall_mem_cons.mp known
    exact lays_bind_modify (fun laid => .bindName laid scope _ first) fun stays =>
      lays_bindAll scope fun p member => L.known_mono stays.size (others p member)

/-- A function gets its type where it lies. -/
theorem lays_functionSignature {id : DeclId} {scope : ScopeId} {c : Callable}
    (held : (t.decl id).callable? = some c) :
    Lays L (L.Admits (L.low id) (L.high id)) (functionSignature id scope c) t fun _ _ => True := by
  refine .of_laid fun laid => ?_
  have signs : Lays L (L.Admits (L.low id) (L.high id)) (do
      let made ← parametersFrom scope [] c.parameters
      forceSlot id .result
      return made) (t.enter scope) fun made t' => (t'.decl id).HasRead .result ∧
        (∀ p ∈ c.parameters, (t'.decl p).HasRead .declared) ∧ ∀ p ∈ made, L.known t'.decls.size p :=
    (lays_parametersFrom (fun p member => ((laid.callable held).parameters p member).2)
      (List.forall_mem_nil _)).bind fun made t₁ _ ⟨read, known⟩ =>
        (lays_forceSlotWith bindsApart_ensureConstant id .result t₁).bind fun _ t₂ stays result =>
          lays_pure ⟨result, fun p member => stays.reads _ _ (read p member),
            fun p member => L.known_mono stays.size (known p member)⟩
  refine (lays_under signs fun _ _ h => h).bind fun made t₁ stays₁ ⟨result, parameters, known⟩ =>
    (lays_bindAll scope known).bind fun _ t₂ stays₂ _ => ?_
  have same := (stays₁.trans stays₂).parameters id
  rw [held, Option.map_some] at same
  have result := stays₂.reads _ _ result
  refine lays_bind_modify (fun laid => .rebuildType laid fun c' held' => ?_) fun stays₃ => ?_
  · rw [held', Option.map_some, Option.some.injEq] at same
    rw [same]
    obtain ⟨type, inside, plain⟩ := result
    obtain ⟨sort, kind⟩ := Decl.kind_of_callable? held'
    simp only [Decl.typeIn?, kind, Option.some.injEq] at inside
    exact ⟨inside ▸ plain, fun p member => stays₂.reads _ _ (parameters p member)⟩
  · refine lays_modify (fun laid => .mapCallable_of_same laid (fun c' held' => ?_) (fun _ => rfl)
      (fun _ => rfl) fun _ => rfl) fun _ _ => trivial
    have lies := laid.callable held'
    refine { lies with typeParameters := List.forall_mem_append.mpr ⟨lies.typeParameters, fun p member => ?_⟩ }
    exact L.known_mono (Nat.le_trans stays₂.size stays₃.size) (known p member)

/-! ## Statements -/

variable {declare : DeclId → Reporting Unit}

theorem allLieIn_withoutExtensions {n : Nat} {body : List Stmt} (ordered : lo ≤ hi)
    (lies : Stmt.AllLieIn L n lo hi body) (t : SymbolTable) :
    Stmt.AllLieIn L n lo hi (withoutExtensions t body) := lies.filter ordered _

mutual

/-- What a statement becomes lies where it does. -/
theorem tells_statement (declares : TellsEach L declare) : ∀ {s : Stmt} {t : SymbolTable} {lo hi : Nat},
    lo ≤ hi → s.LiesIn L t.decls.size lo hi →
    TellsAll L lo hi (statement declare s) t fun s' t' => s'.LiesIn L t'.decls.size lo hi
  | .block id body span, t, lo, hi, ordered, lies => by
    refine tells_bind_attempt (lays_scopeOf (.block id)) (fun scope t₁ _ same => ?_)
      fun d t₁ stays admits => ?_
    · subst same
      have walk : TellsAll L lo hi (do
          let walked ← statements declare body
          look (withoutExtensions · walked)) (t₁.enter scope)
          fun body' t' => Stmt.AllLieIn L t'.decls.size lo hi body' :=
        (tells_statements declares (t := t₁.enter scope) ordered lies).bind ordered (Nat.le_refl hi)
          fun walked t₂ _ lies => tellsAll_pure (allLieIn_withoutExtensions ordered lies t₂)
      exact TellsAll.bind (tells_under walk fun _ _ h => h) ordered (Nat.le_refl hi)
        fun body' t₂ _ lies => tellsAll_pure lies
    · exact (tellsAll_report admits).bind ordered (Nat.le_refl hi) fun _ t₂ stays' _ =>
        tellsAll_pure (Stmt.LiesIn.mono (stays.trans stays').size (fun _ h => h) ordered lies)
  | .declaration id span, t, lo, hi, ordered, lies =>
    (declares id t lies.2).bind ordered (Nat.le_refl hi) fun _ t₁ stays _ =>
      tellsAll_pure ⟨L.known_mono stays.size lies.1, lies.2⟩
  | .conditional condition onTrue onFalse span, t, lo, hi, ordered,
      ⟨mid, mid', le₁, le₂, le₃, inFront, liesTrue, liesFalse⟩ => by
    refine Tells.mono ((tells_statement declares le₂ liesTrue).bind le₂ le₃ fun onTrue' t₁ stays liesTrue =>
      (tells_alternative declares le₃ (Stmt.LiesBehindElse.mono stays.size (fun _ h => h) le₃ liesFalse)).bind
        le₃ (Nat.le_refl hi) fun onFalse' t₂ stays' liesFalse => tellsAll_pure ?_)
      (Layout.inside_of_le le₁ (Nat.le_refl hi)) fun _ _ _ h => h
    exact ⟨mid, mid', le₁, le₂, le₃, inFront.mono (stays.trans stays').size fun _ h => h,
      Stmt.LiesIn.mono stays'.size (fun _ h => h) le₂ liesTrue, liesFalse⟩
  | .whileLoop condition body span, t, lo, hi, ordered, ⟨mid, le₁, le₂, inFront, lies⟩ => by
    refine Tells.mono ((tells_statement declares le₂ lies).bind le₂ (Nat.le_refl hi)
      fun body' t₁ stays lies => tellsAll_pure ?_) (Layout.inside_of_le le₁ (Nat.le_refl hi))
      fun _ _ _ h => h
    exact ⟨mid, le₁, le₂, inFront.mono stays.size fun _ h => h, lies⟩
  | .returning _ _, _, _, _, _, lies | .yielding _ _, _, _, _, _, lies | .breaking _, _, _, _, _, lies
  | .continuing _, _, _, _, _, lies | .expression _, _, _, _, _, lies => tellsAll_pure lies

theorem tells_statements (declares : TellsEach L declare) :
    ∀ {body : List Stmt} {t : SymbolTable} {lo hi : Nat}, lo ≤ hi →
    Stmt.AllLieIn L t.decls.size lo hi body →
    TellsAll L lo hi (statements declare body) t fun body' t' => Stmt.AllLieIn L t'.decls.size lo hi body'
  | [], _, _, _, _, _ => tellsAll_pure trivial
  | _ :: _, _, _, hi, _, ⟨mid, le₁, le₂, first, others⟩ =>
    (tells_statement declares le₁ first).bind le₁ le₂ fun _ _ stays first =>
      (tells_statements declares le₂ (Stmt.AllLieIn.mono stays.size (fun _ h => h) le₂ others)).bind
        le₂ (Nat.le_refl hi) fun _ _ stays' others =>
          tellsAll_pure ⟨mid, le₁, le₂, Stmt.LiesIn.mono stays'.size (fun _ h => h) le₁ first, others⟩

theorem tells_alternative (declares : TellsEach L declare) :
    ∀ {onFalse : Option Stmt} {t : SymbolTable} {lo hi : Nat}, lo ≤ hi →
    Stmt.LiesBehindElse L t.decls.size lo hi onFalse →
    TellsAll L lo hi (alternative declare onFalse) t fun onFalse' t' =>
      Stmt.LiesBehindElse L t'.decls.size lo hi onFalse'
  | none, _, _, _, _, _ => tellsAll_pure trivial
  | some s, t, lo, hi, ordered, lies => by
    intro laid ρ onFalse' ρ' t' run
    obtain ⟨s', inner, rfl⟩ := ends_map.mp run
    exact tells_statement declares ordered (s := s) lies laid inner

end

theorem tells_sequence (declares : TellsEach L declare) {body : List Stmt} (ordered : lo ≤ hi)
    (lies : Stmt.AllLieIn L t.decls.size lo hi body) :
    TellsAll L lo hi (sequence declare body) t fun body' t' => Stmt.AllLieIn L t'.decls.size lo hi body' :=
  (tells_statements declares ordered lies).bind ordered (Nat.le_refl hi) fun _ t' _ lies =>
    tellsAll_pure (allLieIn_withoutExtensions ordered lies t')

/-! ## Declarations -/

theorem tells_function (declares : TellsEach L declare) (id : DeclId) (t : SymbolTable) :
    Faulting.Tells L (L.low id) (L.high id) (function (statement declare) id) t fun _ _ => True := by
  have ordered := L.ordered id
  refine Faulting.tells_bind_resolve (lays_scopeOf _) fun scope t₁ _ _ =>
    .of_laid fun laid => Faulting.tells_bind_look ?_
  split
  · exact Faulting.tells_resolve (lays_unexpectedDecl _)
  rename_i c held
  have body := (laid.callable held).body
  refine Faulting.tells_bind_resolve (lays_functionSignature held) fun _ t₂ stays₂ _ =>
    Faulting.tells_bind_change (fun laid => .withoutBody laid id) fun stays₃ => ?_
  have body := body.mono (stays₂.trans stays₃).size (.refl L _ _) ordered
  split
  · rename_i s same
    rw [same] at body
    have walk : TellsAll L (L.low id) (L.high id) (under scope (underFresh (statement declare s)))
        (withoutBody t₂ id) fun s' t' => s'.LiesIn L t'.decls.size (L.low id) (L.high id) := by
      refine tells_under (tells_underFresh (fun inner t₃ stays => ?_) fun _ _ h => h) fun _ _ h => h
      exact tells_statement declares (t := t₃.enter inner) ordered
        (Stmt.LiesIn.mono (s := s) stays.size (fun _ h => h) ordered body)
    have put : Faulting.Tells L (L.low id) (L.high id)
        (Body.statement <$> (under scope (underFresh (statement declare s)) :))
        (withoutBody t₂ id) fun body t' => body.LiesIn L t'.decls.size (L.low id) (L.high id) :=
      (Faulting.tells_lift walk).map fun _ _ _ lies => lies
    refine put.bind ordered fun body t₃ _ lies => ?_
    exact Faulting.tells_change (fun laid => .withBody laid lies) fun _ => trivial
  · exact Faulting.tells_change (fun laid => .withBody laid body) fun _ => trivial

theorem tells_members (declares : TellsEach L declare) (id : DeclId) (scope : ScopeId) (t : SymbolTable) :
    TellsAll L (L.low id) (L.high id) (members (sequence declare) id scope) t fun _ _ => True := by
  have ordered := L.ordered id
  refine .of_laid fun laid => tells_bind_look (tells_bind_change (fun laid => .mapMembers laid trivial)
    fun stays => ?_)
  have lies := Stmt.AllLieIn.mono stays.size (fun _ h => h) ordered (laid.members id)
  have walk := tells_sequence declares (t := (t.modifyDecl id (·.mapMembers fun _ => [])).enter scope)
    ordered lies
  exact TellsAll.bind (tells_under walk fun _ _ h => h) ordered (Nat.le_refl _) fun body t₁ _ lies =>
    tellsAll_change fun laid => .mapMembers (f := fun _ => body) laid lies

end Signature

/-! ## Classes -/

namespace Resolution

theorem lays_absorbAll (cls : DeclId) (outer : ScopeId) : ∀ (ids : List DeclId) (t : SymbolTable),
    Lays L (L.Admits lo hi) (absorbAll cls outer ids) t fun _ _ => True
  | [], _ => lays_pure trivial
  | id :: rest, t => by
    refine lays_bind_look ?_
    split
    · rename_i extension
      refine (lays_scopeOf _).bind fun inner t₁ _ same => ?_
      subst same
      exact lays_bind_modify (fun laid => .absorb laid cls extension inner outer) fun _ =>
        lays_absorbAll cls outer rest _
    · exact lays_absorbAll cls outer rest t

theorem lays_absorbExtensions (enclosing : ScopeId) (cls : DeclId) (t : SymbolTable) :
    Lays L (L.Admits lo hi) (absorbExtensions enclosing cls) t fun _ _ => True :=
  lays_bind_look ((lays_scopeOf _).bind fun outer t₁ _ _ => lays_absorbAll cls outer _ t₁)

end Resolution

/-- What is reported while a class has the members of its extensions is reported in order. -/
theorem Faulting.tells_withExtensions {action : Reporting Unit} (enclosing : ScopeId) (cls : DeclId)
    (t : SymbolTable) (h : ∀ t', Reporting.TellsAll L lo hi action t' fun _ _ => True) :
    Faulting.Tells L lo hi (withExtensions enclosing cls action) t fun _ _ => True := by
  refine tells_bind_look (tells_bind_look ?_)
  split
  · exact tells_ending (tells_bind_resolve (Resolution.lays_absorbExtensions enclosing cls t)
      fun _ t₁ _ _ => tells_lift (h t₁)) fun t' laid => .keepOnly laid _ _ _
  · exact tells_lift (h t)

namespace Signature

open Reporting Resolution

variable {declare : DeclId → Reporting Unit}

theorem tells_classMembers (declares : TellsEach L declare) (id : DeclId) (t : SymbolTable) :
    Faulting.Tells L (L.low id) (L.high id) (classMembers (sequence declare) id) t fun _ _ => True :=
  Faulting.tells_bind_look (Faulting.tells_bind_resolve
    (lays_under (lays_forceSlotWith bindsApart_ensureConstant id .kind _) fun _ _ h => h)
    fun _ _ _ _ => Faulting.tells_bind_resolve (lays_scopeOf _) fun scope t₂ _ _ =>
      Faulting.tells_withExtensions _ id t₂ fun t' => tells_members declares id scope t')

theorem lays_object (id : DeclId) (t : SymbolTable) :
    Lays L (L.Admits (L.low id) (L.high id)) (object id) t fun _ _ => True :=
  lays_bind_look (lays_under ((lays_forceSlotWith bindsApart_ensureConstant id .declared _).mono
    (fun _ h => h) fun _ _ _ _ => trivial) fun _ _ h => h)

/-- Whatever a declaration is, its faults lie in it. -/
theorem tells_declaration (declares : TellsEach L declare) (id : DeclId) (t : SymbolTable) :
    Faulting.Tells L (L.low id) (L.high id) (declaration declare id) t fun _ _ => True := by
  refine Faulting.tells_bind_look ?_
  split
  · exact Faulting.tells_resolve (lays_object id t)
  · exact Faulting.tells_resolve (lays_object id t)
  · exact tells_function declares id t
  · exact tells_classMembers declares id t
  · exact Faulting.tells_pure trivial
  · exact Faulting.tells_resolve (lays_unexpectedDecl _)
  · exact Faulting.tells_resolve (lays_unexpectedDecl _)

theorem tells_declareWithin (level : Nat) : TellsEach L (declareWithin level) := by
  induction level with
  | zero => exact fun _ _ _ _ _ => tellsAll_pure trivial
  | succ level ih =>
    exact fun id t _ _ inside => (tells_reportDeclaration (tells_declaration ih id t)).mono inside
      fun _ _ _ h => h

theorem tells_declare : TellsEach L Signature.declare :=
  fun id t _ _ inside => tells_bind_look (tells_declareWithin _ id t inside)

end Signature

/-- The first pass over a unit lists what it reports. -/
theorem SourceUnit.lists_resolveSignatures {u u' : SourceUnit} {reported : List Diagnostic}
    (laid : t.LaidOut L) (ordered : lo ≤ hi) (lies : Stmt.AllLieIn L t.decls.size lo hi u.body)
    (run : u.resolveSignatures.run t = ((u', reported), t')) :
    t.StaysLaid L t' ∧ Stmt.AllLieIn L t'.decls.size lo hi u'.body ∧ L.Lists lo hi reported := by
  have walk := Reporting.tells_under (Signature.tells_sequence Signature.tells_declare
    (t := t.enter u.scope) ordered lies) fun _ _ h => h
  obtain ⟨body, _, _, walked, rest⟩ := Reporting.ends_bind.mp (Reporting.run_collect.mp run)
  obtain ⟨rfl, rfl, rfl⟩ := Reporting.ends_pure.mp rest
  obtain ⟨stays, lies, δ, rfl, lists⟩ := walk laid walked
  rw [List.append_nil] at lists
  exact ⟨stays, lies, lists⟩

end Deferral
