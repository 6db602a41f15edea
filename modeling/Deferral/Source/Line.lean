/-!
# Lines of a source

A source is the concatenation of its lines, each with the newline that ends it. `lineAt?` finds the
line on which a byte offset falls; the offset just past the last byte belongs to the last line.
-/

namespace Deferral

/-- The number of bytes that characters take in UTF-8. -/
def byteLength : List Char → Nat
  | [] => 0
  | c :: rest => c.utf8Size + byteLength rest

@[simp] theorem byteLength_nil : byteLength [] = 0 := rfl

@[simp] theorem byteLength_cons (c : Char) (rest : List Char) :
    byteLength (c :: rest) = c.utf8Size + byteLength rest := rfl

@[simp] theorem byteLength_append (front back : List Char) :
    byteLength (front ++ back) = byteLength front + byteLength back := by
  induction front with
  | nil => simp
  | cons c front ih => simp [ih, Nat.add_assoc]

/-- Every character takes a byte at least. -/
theorem length_le_byteLength (text : List Char) : text.length ≤ byteLength text := by
  induction text with
  | nil => exact Nat.le_refl 0
  | cons c rest ih =>
    rw [List.length_cons, byteLength_cons, Nat.add_comm]
    exact Nat.add_le_add c.utf8Size_pos ih

/-- The lines of a source, each up to and including its newline; only the last may lack one. -/
def linesOf : List Char → List (List Char)
  | [] => []
  | c :: rest =>
    if c = '\n' then [c] :: linesOf rest
    else match linesOf rest with
      | [] => [[c]]
      | line :: lines => (c :: line) :: lines

/-- The lines make up the source. -/
theorem flatten_linesOf (source : List Char) : (linesOf source).flatten = source := by
  induction source with
  | nil => rfl
  | cons c rest ih =>
    unfold linesOf
    split
    · simp [ih]
    · split
      · rename_i h
        rw [h] at ih
        simp [← ih]
      · rename_i h
        rw [h] at ih
        simp [← ih]

/-- No line is empty. -/
theorem nil_notMem_linesOf (source : List Char) : [] ∉ linesOf source := by
  induction source with
  | nil => exact List.not_mem_nil
  | cons c rest ih =>
    unfold linesOf
    split
    · simpa using ih
    · split
      · simp
      · rename_i h
        rw [h] at ih
        exact fun member => ih (List.mem_cons_of_mem _ (by simpa using member))

/-- A line, its number counted from one, and a byte offset within it. -/
structure LinePlace where
  number : Nat
  text : List Char
  offset : Nat
deriving DecidableEq, Repr

/-- The line among `lines`, the first of which has `number`, that holds the byte `offset` counted
from the first line's start. Past the last line there is the end of the source, which belongs to
the last line. -/
def LinePlace.among? (number : Nat) : (lines : List (List Char)) → (offset : Nat) → Option LinePlace
  | [], _ => none
  | line :: lines, offset =>
    if offset < byteLength line then some ⟨number, line, offset⟩
    else if lines.isEmpty then
      if offset = byteLength line then some ⟨number, line, offset⟩ else none
    else among? (number + 1) lines (offset - byteLength line)

/-- The line that holds the byte `offset` of `source`, if it lies within the source or at its end
and the source has lines at all. -/
def lineAt? (source : List Char) (offset : Nat) : Option LinePlace :=
  LinePlace.among? 1 (linesOf source) offset

end Deferral
