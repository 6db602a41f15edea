import Mathlib.Data.List.Basic
import Deferral.Source.Line

/-!
# The line of a byte

A source falls into lines in one way only. The line of a byte offset is found exactly if the offset lies in
the source or at its end: it is the piece that holds the byte, and the end belongs to the last piece.
-/

namespace Deferral

/-! ## Lines -/

/-- The pieces into which a source falls behind each of its newlines. -/
structure IsSplit (source : List Char) (pieces : List (List Char)) : Prop where
  whole : pieces.flatten = source
  inhabited : [] ∉ pieces
  unbroken : ∀ piece ∈ pieces, '\n' ∉ piece.dropLast
  ended : ∀ piece ∈ pieces.dropLast, piece.getLast? = some '\n'

/-- A line in front of which another one ends. -/
theorem IsSplit.newline {rest : List Char} {lines : List (List Char)} (h : IsSplit rest lines) :
    IsSplit ('\n' :: rest) (['\n'] :: lines) where
  whole := by simp [h.whole]
  inhabited := by simpa using h.inhabited
  unbroken := List.forall_mem_cons.mpr ⟨by simp, h.unbroken⟩
  ended := by
    cases lines with
    | nil => simp
    | cons line lines => exact List.forall_mem_cons.mpr ⟨rfl, h.ended⟩

/-- A line that begins with one more character. -/
theorem IsSplit.lengthen {rest line : List Char} {lines : List (List Char)} {c : Char}
    (h : IsSplit rest (line :: lines)) (other : c ≠ '\n') :
    IsSplit (c :: rest) ((c :: line) :: lines) := by
  obtain ⟨d, line, rfl⟩ := List.exists_cons_of_ne_nil fun none : line = [] =>
    h.inhabited (none ▸ List.mem_cons_self ..)
  obtain ⟨first, unbroken⟩ := List.forall_mem_cons.mp h.unbroken
  refine ⟨by simp [← h.whole], by simpa using h.inhabited,
    List.forall_mem_cons.mpr ⟨by simpa [other.symm] using first, unbroken⟩, ?_⟩
  cases lines with
  | nil => simp
  | cons next lines =>
    obtain ⟨first, ended⟩ := List.forall_mem_cons.mp h.ended
    exact List.forall_mem_cons.mpr ⟨by simpa using first, ended⟩

theorem isSplit_linesOf (source : List Char) : IsSplit source (linesOf source) := by
  induction source with
  | nil => exact ⟨rfl, List.not_mem_nil, List.forall_mem_nil _, List.forall_mem_nil _⟩
  | cons c rest ih =>
    unfold linesOf
    split
    · rename_i newline
      exact newline ▸ ih.newline
    · rename_i other
      split
      · rename_i none
        obtain rfl : rest = [] := by simpa [none] using ih.whole.symm
        exact ⟨rfl, by simp, by simp, by simp⟩
      · rename_i line lines found
        exact (found ▸ ih).lengthen other

/-- A source falls into its lines in no other way. -/
theorem IsSplit.eq_linesOf {source : List Char} {pieces : List (List Char)}
    (h : IsSplit source pieces) : pieces = linesOf source := by
  induction source generalizing pieces with
  | nil =>
    cases pieces with
    | nil => rfl
    | cons piece pieces =>
      have empty : piece = [] := (List.append_eq_nil_iff.mp h.whole).1
      exact absurd (empty ▸ List.mem_cons_self ..) h.inhabited
  | cons c rest ih =>
    obtain ⟨piece, pieces, rfl⟩ := List.exists_cons_of_ne_nil fun none : pieces = [] => by
      simpa [none] using h.whole
    obtain ⟨d, piece, rfl⟩ := List.exists_cons_of_ne_nil fun none : piece = [] =>
      h.inhabited (none ▸ List.mem_cons_self ..)
    obtain ⟨rfl, whole⟩ := List.cons.inj h.whole
    have inhabited : [] ∉ pieces := fun none => h.inhabited (List.mem_cons_of_mem _ none)
    obtain ⟨first, unbroken⟩ := List.forall_mem_cons.mp h.unbroken
    have later : ∀ piece ∈ pieces.dropLast, piece.getLast? = some '\n' := by
      cases pieces with
      | nil => simp
      | cons next pieces => exact (List.forall_mem_cons.mp h.ended).2
    cases piece with
    | nil =>
      have split := ih ⟨whole, inhabited, unbroken, later⟩
      cases pieces with
      | nil =>
        obtain rfl : rest = [] := whole.symm
        unfold linesOf
        split <;> rename_i newline
        · rw [newline]; rfl
        · rfl
      | cons next pieces =>
        obtain rfl : d = '\n' := by simpa using (List.forall_mem_cons.mp h.ended).1
        rw [linesOf, if_pos rfl, split]
    | cons e piece =>
      have other : d ≠ '\n' := by
        rintro rfl
        exact first (by simp)
      have rest' : IsSplit rest ((e :: piece) :: pieces) :=
        ⟨whole, by simpa using inhabited,
          List.forall_mem_cons.mpr ⟨fun member => first (by simp [member]), unbroken⟩, by
            cases pieces with
            | nil => simp
            | cons next pieces =>
              obtain ⟨ended, later⟩ := List.forall_mem_cons.mp h.ended
              exact List.forall_mem_cons.mpr ⟨by simpa using ended, later⟩⟩
      rw [linesOf, if_neg other, ← ih rest']

theorem isSplit_iff (source : List Char) (pieces : List (List Char)) :
    IsSplit source pieces ↔ pieces = linesOf source :=
  ⟨IsSplit.eq_linesOf, fun same => same ▸ isSplit_linesOf source⟩

/-! ## Places -/

namespace LinePlace

/-- The place of the byte `offset` among the lines of a source. The end of the source is behind the last
byte of the last line. -/
structure IsAt (lines : List (List Char)) (offset : Nat) (p : LinePlace) : Prop where
  counted : 0 < p.number
  line : lines[p.number - 1]? = some p.text
  before : byteLength (lines.take (p.number - 1)).flatten + p.offset = offset
  within : offset ≠ byteLength lines.flatten → p.offset < byteLength p.text
  last : offset = byteLength lines.flatten → p.number = lines.length ∧ p.offset = byteLength p.text

/-- The line that is found holds the byte, and the end of the source if no line follows it. -/
theorem among?_eq_some_iff {number offset : Nat} {lines : List (List Char)} {p : LinePlace} :
    among? number lines offset = some p ↔ ∃ front back, lines = front ++ p.text :: back ∧
      p.number = number + front.length ∧ byteLength front.flatten + p.offset = offset ∧
      (p.offset < byteLength p.text ∨ back = [] ∧ p.offset = byteLength p.text) := by
  induction lines generalizing number offset with
  | nil => simp [among?]
  | cons line lines ih =>
    -- The first line has the place, or one of those behind it.
    have split : (∃ front back, line :: lines = front ++ p.text :: back ∧
        p.number = number + front.length ∧ byteLength front.flatten + p.offset = offset ∧
        (p.offset < byteLength p.text ∨ back = [] ∧ p.offset = byteLength p.text)) ↔
      (p = ⟨number, line, offset⟩ ∧
        (offset < byteLength line ∨ lines = [] ∧ offset = byteLength line)) ∨
      byteLength line ≤ offset ∧ among? (number + 1) lines (offset - byteLength line) = some p := by
      rw [ih]
      constructor
      · rintro ⟨front, back, cut, count, before, holds⟩
        cases front with
        | nil =>
          obtain ⟨rfl, rfl⟩ := List.cons.inj cut
          obtain rfl : p.offset = offset := by simpa using before
          exact .inl ⟨by rw [← show p.number = number by simpa using count], holds⟩
        | cons first front =>
          obtain ⟨rfl, rfl⟩ := List.cons.inj cut
          simp only [List.length_cons, List.flatten_cons, byteLength_append] at count before
          exact .inr ⟨by omega, front, back, rfl, by omega, by omega, holds⟩
      · rintro (⟨rfl, holds⟩ | ⟨le, front, back, rfl, count, before, holds⟩)
        · exact ⟨[], lines, rfl, rfl, by simp, holds⟩
        · refine ⟨line :: front, back, rfl, ?_, ?_, holds⟩
          · simp only [List.length_cons]
            omega
          · simp only [List.flatten_cons, byteLength_append]
            omega
    rw [split, among?]
    split
    · rename_i less
      simp [less, Nat.not_le.mpr less, eq_comm]
    · rename_i le
      split
      · rename_i empty
        obtain rfl := List.isEmpty_iff.mp empty
        split <;> simp_all [among?, eq_comm]
      · rename_i more
        have some : lines ≠ [] := fun none => more (List.isEmpty_iff.mpr none)
        simp [le, some, Nat.not_lt.mp le]

/-- A place is found unless the offset lies behind the last line, or there is none. -/
theorem among?_eq_none_iff {number offset : Nat} {lines : List (List Char)} :
    among? number lines offset = none ↔ byteLength lines.flatten < offset ∨ lines = [] := by
  induction lines generalizing number offset with
  | nil => simp [among?]
  | cons line lines ih =>
    simp only [among?, List.flatten_cons, byteLength_append, List.cons_ne_nil, or_false]
    split
    · rename_i less
      simp only [reduceCtorEq, false_iff]
      omega
    · rename_i le
      split
      · rename_i empty
        obtain rfl := List.isEmpty_iff.mp empty
        split
        · simp_all
        · simp only [List.flatten_nil, byteLength_nil, true_iff]
          omega
      · rename_i more
        have some : lines ≠ [] := fun none => more (List.isEmpty_iff.mpr none)
        rw [ih]
        simp only [some, or_false]
        omega

theorem isAt_iff {lines : List (List Char)} {offset : Nat} {p : LinePlace} :
    p.IsAt lines offset ↔ ∃ front back, lines = front ++ p.text :: back ∧
      p.number = 1 + front.length ∧ byteLength front.flatten + p.offset = offset ∧
      (p.offset < byteLength p.text ∨ back = [] ∧ p.offset = byteLength p.text) := by
  constructor
  · rintro ⟨counted, line, before, within, last⟩
    obtain ⟨lt, same⟩ := List.getElem?_eq_some_iff.mp line
    have cut : lines = lines.take (p.number - 1) ++ p.text :: lines.drop p.number := by
      have behind : lines.drop (p.number - 1) = p.text :: lines.drop p.number := by
        rw [List.drop_eq_getElem_cons lt, same, Nat.sub_add_cancel counted]
      rw [← behind, List.take_append_drop]
    refine ⟨_, _, cut, ?_, before, ?_⟩
    · rw [List.length_take]
      omega
    · by_cases atEnd : offset = byteLength lines.flatten
      · obtain ⟨count, inside⟩ := last atEnd
        exact .inr ⟨List.drop_eq_nil_iff.mpr (Nat.le_of_eq count.symm), inside⟩
      · exact .inl (within atEnd)
  · rintro ⟨front, back, rfl, count, before, holds⟩
    have index : p.number - 1 = front.length := by omega
    have total : byteLength (front ++ p.text :: back).flatten =
        byteLength front.flatten + byteLength p.text + byteLength back.flatten := by
      simp [Nat.add_assoc]
    refine ⟨by omega, by simp [index], by simp [index, before], fun inside => ?_, fun atEnd => ?_⟩
    · rcases holds with less | ⟨rfl, same⟩
      · exact less
      · rw [total, List.flatten_nil, byteLength_nil] at inside
        omega
    · rcases holds with less | ⟨rfl, same⟩
      · rw [total] at atEnd
        omega
      · exact ⟨by simp [count, Nat.add_comm], same⟩

end LinePlace

/-- The line of an offset is found unless the offset lies behind the end or the source is empty. It is the
piece of the source, split behind each newline, that holds the byte, and at the end the last piece. -/
theorem lineAt_is_exact (source : List Char) (offset : Nat) :
    (∀ pieces, IsSplit source pieces ↔ pieces = linesOf source) ∧
    (lineAt? source offset = none ↔ byteLength source < offset ∨ source = []) ∧
    ∀ p, lineAt? source offset = some p ↔ p.IsAt (linesOf source) offset := by
  refine ⟨isSplit_iff source, ?_, fun p => LinePlace.among?_eq_some_iff.trans LinePlace.isAt_iff.symm⟩
  have empty : linesOf source = [] ↔ source = [] :=
    ⟨fun none => by simpa [none] using (flatten_linesOf source).symm, fun none => by rw [none]; rfl⟩
  rw [lineAt?, LinePlace.among?_eq_none_iff, flatten_linesOf, empty]

/-- An empty line, a missing newline at the end, and the position behind the last byte. -/
example : lineAt? "ab\n\ncd".toList 3 = some ⟨2, "\n".toList, 0⟩ ∧
    lineAt? "ab\n\ncd".toList 6 = some ⟨3, "cd".toList, 2⟩ ∧
      lineAt? "ab\n".toList 3 = some ⟨1, "ab\n".toList, 3⟩ := by
  decide

end Deferral
