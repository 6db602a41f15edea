import Deferral.Proofs.Generic.NotVisited

/-!
# The first pass comes to a function once

A function is passed over when its declaration is, and lies in a shut set afterwards, together with what it
lies in. So the pass over other declarations does not come to it again: the signature that it has in the end
comes of resolving parameters that had not been resolved before.
-/

namespace Deferral

open Reporting SymbolTable

variable {t t' t'' : SymbolTable} {ρ ρ' : List Diagnostic} {ids hand : List DeclId} {f id : DeclId}

/-! ## Functions that have and have not been visited -/

/-- A function that has not been passed over: its parameters have not been resolved. -/
structure SymbolTable.Unvisited (t : SymbolTable) (f : DeclId) : Prop where
  signature : (t.decl f).signature? = some ((t.decl f).parameters, .auto, [])
  unread : ∀ p ∈ (t.decl f).parameters, (t.decl p).IsUnreadParameter

/-- What a function is called with stays as it is, and so do its parameters. -/
structure SymbolTable.Spares (f : DeclId) (t t' : SymbolTable) : Prop where
  signature : (t'.decl f).signature? = (t.decl f).signature?
  parameters : ∀ p ∈ (t.decl f).parameters, (t'.decl p).kind = (t.decl p).kind

/-- A function has been passed over since `t`, when it had not been before: without success, or it has been
given its signature. -/
def SymbolTable.Handled (f : DeclId) (t t' : SymbolTable) : Prop :=
  (∃ ps made, (t'.decl f).signature? = some (ps, .auto, made)) ∨
    ∃ scope sort c types, t'.scopeOf? (.decl f) = some scope ∧ (t'.decl f).kind = .callable sort c ∧
      c.parameters = (t.decl f).parameters ∧ Signature.Generalized t t' scope types c

/-- A function that has been passed over lies in a shut set, which has nothing of what is in hand. -/
def SymbolTable.CameTo (hand : List DeclId) (f : DeclId) (t t' : SymbolTable) : Prop :=
  Handled f t t' ∧ ∃ V, f ∈ V ∧ t'.Shut V ∧ ∀ v ∈ hand, v ∉ V

namespace SymbolTable

theorem Spares.trans (h : Spares f t t') (h' : Spares f t' t'') : Spares f t t'' where
  signature := h'.signature.trans h.signature
  parameters p member :=
    (h'.parameters p (Decl.parameters_congr h.signature ▸ member)).trans (h.parameters p member)

theorem Unvisited.of_spares (h : t.Unvisited f) (spares : Spares f t t') : t'.Unvisited f := by
  have same := Decl.parameters_congr spares.signature
  refine ⟨by rw [spares.signature, same, h.signature], fun p member => ?_⟩
  rw [same] at member
  exact (h.unread p member).imp fun excerpt kind => (spares.parameters p member).trans kind

theorem Unvisited.spares (h : t.Unvisited f) (signature : (t'.decl f).signature? = (t.decl f).signature?)
    (parameters : ∀ p ∈ (t.decl f).parameters, ∀ type, (t.decl p).kind = .parameter type →
      (t'.decl p).kind = .parameter type) : Spares f t t' :=
  ⟨signature, fun p member => (h.unread p member).elim fun _ kind => by rw [parameters p member _ kind, kind]⟩

/-- What has been made of a function stays so while what it is called with does. -/
theorem Handled.later (h : Handled f t t') (sound : t'.Sound) (reaches : t'.Reaches t'')
    (saved : t''.saved = t'.saved) (signature : (t''.decl f).signature? = (t'.decl f).signature?) :
    Handled f t t'' := by
  rcases h with ⟨ps, made, auto⟩ | ⟨scope, sort, c, types, owns, kind, parameters, done⟩
  · exact .inl ⟨ps, made, signature.trans auto⟩
  have evolves := reaches.evolves sound
  obtain ⟨c', kind', -⟩ := Signature.callable_of_evolves evolves kind
  rw [Decl.signature?_of_kind kind, Decl.signature?_of_kind kind'] at signature
  obtain ⟨sameParameters, rest⟩ := Prod.mk.inj (Option.some.inj signature)
  obtain ⟨sameType, sameMade⟩ := Prod.mk.inj rest
  have sound' := (reaches.sound sound).decls f
  rw [kind'] at sound'
  have typed : c'.type ≠ .auto := by
    rw [sameType, done.signed.type]
    nofun
  refine .inr ⟨scope, sort, c', types, (congrArg (List.lookup _) saved).trans owns, kind',
    sameParameters.trans parameters, sound'.type.resolve_left typed, ?_, ?_, ?_, ?_, ?_⟩ <;> simp only [sameParameters, sameMade]
  · exact done.promoted.of_evolves evolves
  · exact done.reads.imp fun p type reads => reads.behind reaches
  · exact done.fresh
  · exact done.nodup
  · exact done.separate

/-- A function that has been spared has not been passed over before. -/
theorem Handled.before (h : Handled f t' t'') (spares : Spares f t t') (reaches : t.Reaches t')
    (size : t.decls.size ≤ t'.decls.size) : Handled f t t'' := by
  refine h.imp_right fun ⟨scope, sort, c, types, owns, kind, parameters, done⟩ => ?_
  rw [Decl.parameters_congr spares.signature] at parameters
  refine ⟨scope, sort, c, types, owns, kind, parameters, done.signed, done.promoted, ?_,
    fun x member => size.trans (done.fresh x member), done.nodup, done.separate⟩
  exact ((List.forall₂_and_left c.parameters types).mpr ⟨fun _ => id, done.reads⟩).imp fun p type reads =>
    reads.2.before reaches (spares.parameters p (parameters ▸ reads.1)).symm

end SymbolTable

/-! ## The relation -/

/-- What a pass over the declarations `ids` does: it stays out of shut sets that have none of them, and spares
the functions to which it does not come. -/
structure SymbolTable.PassesOver (ids : List DeclId) (t t' : SymbolTable) : Prop where
  known : t.NamesKnown → t'.NamesKnown
  held : ∀ w, t'.held w ≤ t.held w
  apart : ∀ V, t.Shut V → (∀ id ∈ ids, id ∉ V) →
    t'.Shut V ∧ ∀ v ∈ V, (t'.decl v).signature? = (t.decl v).signature?
  once : ∀ hand f, t.Sound → t.NamesKnown → t.Single (ids ++ hand) → t.Unvisited f →
    Spares f t t' ∨ CameTo hand f t t'

/-- Passes over declarations pass over these. -/
def Visiting : PassRelation := fun ids ρ t ρ' t' => Passes ρ t ρ' t' ∧ PassesOver ids t t'

namespace SymbolTable

theorem known_mono (size : t.decls.size ≤ t'.decls.size) (w : DeclId) : t.known w ≤ t'.known w := by
  unfold known
  split <;> split <;> omega

/-- What is in hand and what is held stays single when nothing is held more often. -/
theorem Single.of_held (h : t.Single hand) (held : ∀ w, t'.held w ≤ t.held w)
    (size : t.decls.size ≤ t'.decls.size) : t'.Single hand := fun w =>
  ((Nat.add_le_add_left (held w) _).trans (h w)).trans (known_mono size w)

theorem Single.of_fewer (h : t.Single hand) {fewer : List DeclId} (le : ∀ w, fewer.count w ≤ hand.count w) :
    t.Single fewer := fun w => (Nat.add_le_add_right (le w) _).trans (h w)

theorem Single.right (h : t.Single (ids ++ hand)) : t.Single hand :=
  h.of_fewer fun w => by rw [List.count_append]; exact Nat.le_add_left ..

/-- What is in hand is not held as well. -/
theorem Single.held_eq_zero (h : t.Single hand) {w : DeclId} (member : w ∈ hand) : t.held w = 0 := by
  have once := (h w).trans (t.known_le_one w)
  have positive := List.count_pos_iff.mpr member
  omega

theorem Single.not_mem (h : t.Single (id :: hand)) : id ∉ hand := fun member => by
  have once := (h id).trans (t.known_le_one id)
  have positive := List.count_pos_iff.mpr member
  rw [List.count_cons_self] at once
  omega

/-- What is not held has no holder. -/
theorem not_mem_declares_of_held {w : DeclId} (none : t.held w = 0) (holder : DeclId) :
    w ∉ (t.decl holder).declares := fun member => by
  have le := t.count_holds_le_held holder w
  have positive := List.count_pos_iff.mpr member
  rw [Decl.holds, List.count_append] at le
  omega

theorem Passive.spares (h : t.Passive t') (unvisited : t.Unvisited f) : Spares f t t' :=
  unvisited.spares (h.signature f) fun p _ => h.parameters p

theorem Passive.passesOver (h : t.Passive t') (ids : List DeclId) : PassesOver ids t t' where
  known := h.known
  held := h.held
  apart V shut _ := ⟨h.shut V shut, fun v _ => h.signature v⟩
  once _ _ _ _ _ unvisited := .inl (h.spares unvisited)

theorem CameTo.before (h : CameTo hand f t' t'') (spares : Spares f t t') (reaches : t.Reaches t')
    (size : t.decls.size ≤ t'.decls.size) : CameTo hand f t t'' :=
  ⟨h.1.before spares reaches size, h.2⟩

end SymbolTable

theorem visiting_walks : Visiting.Walks where
  passes h := h.1
  refl _ := ⟨.refl _ _, (Passive.refl _).passesOver []⟩
  openScope sound _ := by
    refine ⟨.of_advances (Idles.advances (.openScope (sound.enter _))) _, Passive.passesOver ?_ []⟩
    exact .of_decls rfl isNamed_of_addScope
  trans {ids ids' ρ ρ' ρ'' t t' t''} h h' := by
    obtain ⟨passes, visits⟩ := h
    obtain ⟨passes', visits'⟩ := h'
    have size := passes.advances.evolves.size
    refine ⟨passes.trans passes', fun known => visits'.known (visits.known known),
      fun w => (visits'.held w).trans (visits.held w), fun V shut apart => ?_,
      fun hand f sound known single unvisited => ?_⟩
    · obtain ⟨apart, apart'⟩ := List.forall_mem_append.mp apart
      obtain ⟨shut', same⟩ := visits.apart V shut apart
      obtain ⟨shut'', same'⟩ := visits'.apart V shut' apart'
      exact ⟨shut'', fun v inside => (same' v inside).trans (same v inside)⟩
    rw [List.append_assoc] at single
    have sound' := passes.sound sound
    rcases visits.once (ids' ++ hand) f sound known single unvisited with
      spares | ⟨handled, V, inside, shut, apart⟩
    · have single' := single.right.of_held visits.held size
      rcases visits'.once hand f sound' (visits.known known) single' (unvisited.of_spares spares) with
        spares' | came
      · exact .inl (spares.trans spares')
      · exact .inr (came.before spares passes.advances.edits size)
    · obtain ⟨apart', apart⟩ := List.forall_mem_append.mp apart
      obtain ⟨shut', same⟩ := visits'.apart V shut apart'
      exact .inr ⟨handled.later sound' passes'.advances.edits passes'.advances.saved
        (same f inside), V, inside, shut', apart⟩
  report d within h := ⟨h.1.report d, h.2.known, h.2.held,
    fun V shut apart => h.2.apart V shut fun id member => apart id (within.subset member),
    fun hand f sound known single => h.2.once hand f sound known
      (single.of_fewer fun w => by simpa using within.count_le w)⟩
  leave {ids ρ ρ' t t' scope} h := by
    have entered : t.Reaches (t.enter scope) := Edit.reaches (.enter scope)
    refine ⟨h.1.leave, h.2.known, h.2.held, h.2.apart, fun hand f sound known single unvisited => ?_⟩
    have same : Spares f t (t.enter scope) := ⟨rfl, fun _ _ => rfl⟩
    rcases h.2.once hand f (sound.enter scope) known single (unvisited.of_spares same) with
      spares | ⟨handled, shut⟩
    · exact .inl ⟨spares.signature, spares.parameters⟩
    · have sound' := h.1.sound (sound.enter scope)
      have inside := handled.before same entered (Nat.le_refl _)
      exact .inr ⟨inside.later sound' (Edit.reaches .leave) rfl rfl, shut⟩

/-! ## What is inside functions and classes -/

namespace SymbolTable

variable {inside : List DeclId} {t₁ t₂ : SymbolTable}

theorem shut_singleton (none : t.held id = 0) : t.Shut {id} := fun holder v member same => by
  rw [Set.mem_singleton_iff.mp same] at member
  exact absurd member (not_mem_declares_of_held none holder)

/-- What is inside a declaration has been taken out of it. -/
structure TakenOut (id : DeclId) (inside : List DeclId) (t t' : SymbolTable) : Prop where
  passive : t.Passive t'
  advances : t.Advances t'
  held : ∀ w, t.held w = t'.held w + inside.count w
  within : inside ⊆ (t.decl id).declares

/-- Something of what was inside a declaration has been put back. -/
structure PutBack (id : DeclId) (inside : List DeclId) (t t' : SymbolTable) : Prop where
  advances : t.Advances t'
  known : t.NamesKnown → t'.NamesKnown
  held : ∀ w, t'.held w ≤ t.held w + inside.count w
  declares : ∀ holder, (t'.decl holder).declares = (t.decl holder).declares ∨
    holder = id ∧ (t'.decl holder).declares ⊆ inside
  signature : ∀ f, (t'.decl f).signature? = (t.decl f).signature?
  parameters : ∀ p type, (t.decl p).kind = .parameter type → (t'.decl p).kind = .parameter type

/-- A pass over what is inside a declaration is one over the declaration. -/
theorem passesOver_inside (out : TakenOut id inside t t₁) (passed : PassesOver inside t₁ t₂)
    (advances : t₁.Advances t₂) (back : PutBack id inside t₂ t') (proper : (t.decl id).isExtension = false) :
    PassesOver [id] t t' := by
  have held (w : DeclId) : t'.held w ≤ t.held w :=
    (back.held w).trans (out.held w ▸ Nat.add_le_add_right (passed.held w) _)
  have all := (out.advances.trans advances).trans back.advances
  have extension (holder : DeclId) : (t'.decl holder).isExtension = (t₂.decl holder).isExtension :=
    back.advances.isExtension holder
  refine ⟨fun known => back.known (passed.known (out.passive.known known)), held, fun V shut apart => ?_,
    fun hand f sound known single unvisited => ?_⟩
  · have apart : ∀ w ∈ inside, w ∉ V := fun w member inside =>
      List.forall_mem_singleton.mp apart (shut id w (out.within member) inside).1
    obtain ⟨shut₂, same⟩ := passed.apart V (out.passive.shut V shut) apart
    refine ⟨fun holder v member inside => ?_, fun v inside =>
      (back.signature v).trans ((same v inside).trans (out.passive.signature v))⟩
    rw [extension]
    rcases back.declares holder with same | ⟨-, within⟩
    · exact shut₂ holder v (same ▸ member) inside
    · exact absurd inside (apart v (within member))
  have single₁ : t₁.Single (inside ++ (id :: hand)) := fun w => by
    have once := (single w).trans (known_mono out.advances.evolves.size w)
    rw [out.held, List.singleton_append] at once
    rw [List.count_append]
    omega
  have spares₁ := out.passive.spares unvisited
  have sound₁ := out.advances.sound sound
  rcases passed.once (id :: hand) f sound₁ (out.passive.known known) single₁ (unvisited.of_spares spares₁) with
    spares₂ | ⟨handled, V, isIn, shut, apart⟩
  · have spares := spares₁.trans spares₂
    exact .inl (spares.trans
      ((unvisited.of_spares spares).spares (back.signature f) fun p _ => back.parameters p))
  -- What has come to be passed over lies inside the declaration, which nothing has inside it.
  obtain ⟨outside, apart⟩ := List.forall_mem_cons.mp apart
  have handled' := (handled.later (advances.sound sound₁) back.advances.edits back.advances.saved
    (back.signature f)).before spares₁ out.advances.edits out.advances.evolves.size
  have none : t'.held id = 0 :=
    Nat.le_zero.mp ((held id).trans (single.held_eq_zero (List.mem_cons_self ..)).le)
  refine .inr ⟨handled', insert id V, .inr isIn, fun holder v member isIn => ?_, fun v member => ?_⟩
  · rcases isIn with rfl | isIn
    · exact absurd member (not_mem_declares_of_held none holder)
    rcases back.declares holder with same | ⟨rfl, -⟩
    · rw [extension]
      exact (shut holder v (same ▸ member) isIn).imp_left .inr
    · exact ⟨.inl rfl, (all.isExtension holder).trans proper⟩
  · rintro (rfl | isIn)
    · exact single.not_mem member
    · exact apart v member isIn

/-- A pass over what is inside a declaration that is not held does not come to the declaration. -/
theorem signature_inside (out : TakenOut id inside t t₁) (passed : PassesOver inside t₁ t₂)
    (back : PutBack id inside t₂ t') (none : t.held id = 0) :
    (t'.decl id).signature? = (t.decl id).signature? := by
  have taken := out.held id
  have apart : ∀ w ∈ inside, w ∉ ({id} : Set DeclId) := fun w member same => by
    have positive := List.count_pos_iff.mpr (Set.mem_singleton_iff.mp same ▸ member)
    omega
  obtain ⟨-, same⟩ := passed.apart {id} (shut_singleton (by omega)) apart
  exact (back.signature id).trans ((same id rfl).trans (out.passive.signature id))

end SymbolTable

end Deferral
