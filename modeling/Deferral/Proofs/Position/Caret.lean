import Deferral.CommandLine.Basic
import Deferral.Proofs.Position.Line

/-!
# The column of the caret

The report on a character shows the line that holds it, and a caret below. The caret goes as far right as the
character has bytes in front of it, less the blanks and tabs of the indentation. This is the column of the
character if each of the characters in front of it takes one byte and the line is indented by blanks and tabs.
-/

namespace Deferral

/-! ## The line of a character -/

/-- What stands in front of a character on its line, if `before` stands in front of it in the source. -/
def lastLine (before : List Char) : List Char := (before.reverse.takeWhile (· ≠ '\n')).reverse

theorem newline_notMem_lastLine (before : List Char) : '\n' ∉ lastLine before := by
  intro member
  have other := List.all_takeWhile (p := (· ≠ '\n')) (l := before.reverse)
  exact absurd (List.all_eq_true.mp other '\n' (List.mem_reverse.mp member)) (by decide)

/-- The lines in front of the last one end in a newline. -/
theorem exists_eq_append_lastLine (before : List Char) :
    ∃ front, before = front ++ lastLine before ∧ (front = [] ∨ ∃ rest, front = rest ++ ['\n']) := by
  refine ⟨(before.reverse.dropWhile (· ≠ '\n')).reverse, ?_, ?_⟩
  · rw [lastLine, ← List.reverse_append, List.takeWhile_append_dropWhile, List.reverse_reverse]
  · cases stop : before.reverse.dropWhile (· ≠ '\n') with
    | nil => exact .inl rfl
    | cons c rest =>
      have newline := List.head?_dropWhile_not (· ≠ '\n') before.reverse
      rw [stop] at newline
      obtain rfl : c = '\n' := by simpa using newline
      exact .inr ⟨rest.reverse, List.reverse_cons⟩

/-- The lines up to a newline are those of the source that ends with it. -/
theorem linesOf_append_newline (front rest : List Char) :
    linesOf (front ++ '\n' :: rest) = linesOf (front ++ ['\n']) ++ linesOf rest := by
  induction front with
  | nil => simp [linesOf]
  | cons c front ih =>
    rw [List.cons_append, List.cons_append, linesOf, linesOf, ih]
    split
    · rfl
    · cases lines : linesOf (front ++ ['\n']) with
      | nil => simpa [lines] using flatten_linesOf (front ++ ['\n'])
      | cons line lines => rfl

/-- The first line goes as far as there is no newline. -/
theorem exists_linesOf_append {lead : List Char} (unbroken : '\n' ∉ lead) (c : Char)
    (after : List Char) :
    ∃ behind lines, linesOf (lead ++ c :: after) = (lead ++ c :: behind) :: lines := by
  induction lead with
  | nil =>
    rw [List.nil_append, linesOf]
    split
    · exact ⟨[], _, rfl⟩
    · split
      · exact ⟨[], [], rfl⟩
      · exact ⟨_, _, rfl⟩
  | cons d lead ih =>
    obtain ⟨first, unbroken⟩ := List.ne_and_not_mem_of_not_mem_cons unbroken
    obtain ⟨behind, lines, found⟩ := ih unbroken
    exact ⟨behind, lines, by rw [List.cons_append, linesOf, if_neg (Ne.symm first), found]; rfl⟩

/-- A character is found on its line, as many bytes behind the start as stand in front of it there. -/
theorem exists_isAt_of_character (before : List Char) (c : Char) (after : List Char) :
    ∃ (place : LinePlace) (behind : List Char),
      place.IsAt (linesOf (before ++ c :: after)) (byteLength before) ∧
      place.text = lastLine before ++ c :: behind ∧ place.offset = byteLength (lastLine before) := by
  obtain ⟨front, cut, ends⟩ := exists_eq_append_lastLine before
  obtain ⟨behind, back, line⟩ := exists_linesOf_append (newline_notMem_lastLine before) c after
  have lines : linesOf (before ++ c :: after) =
      linesOf front ++ (lastLine before ++ c :: behind) :: back := by
    rw [cut, List.append_assoc, ← cut, ← line]
    rcases ends with rfl | ⟨rest, rfl⟩
    · rfl
    · rw [List.append_assoc, List.singleton_append, linesOf_append_newline]
  refine ⟨⟨1 + (linesOf front).length, _, _⟩, behind,
    LinePlace.isAt_iff.mpr ⟨_, back, lines, rfl, ?_, .inl ?_⟩, rfl, rfl⟩
  · rw [flatten_linesOf, ← byteLength_append, ← cut]
  · have := c.utf8Size_pos
    simp only [byteLength_append, byteLength_cons]
    omega

/-- A line is cut at one place only behind so many bytes. -/
theorem eq_of_byteLength_eq {lead lead' : List Char} {c : Char} {behind behind' : List Char}
    (same : lead ++ c :: behind = lead' ++ c :: behind')
    (length : byteLength lead = byteLength lead') : lead = lead' := by
  induction lead generalizing lead' with
  | nil =>
    cases lead' with
    | nil => rfl
    | cons d lead' =>
      have := d.utf8Size_pos
      simp only [byteLength_nil, byteLength_cons] at length
      omega
  | cons d lead ih =>
    cases lead' with
    | nil =>
      have := d.utf8Size_pos
      simp only [byteLength_nil, byteLength_cons] at length
      omega
    | cons d' lead' =>
      obtain ⟨rfl, rest⟩ := List.cons.inj same
      rw [ih rest (Nat.add_left_cancel length)]

/-! ## Trimming -/

section Stopping

variable {p : Char → Bool} {c : Char} (stops : p c = false) (lead behind : List Char)

include stops

theorem takeWhile_append_stop : (lead ++ c :: behind).takeWhile p = lead.takeWhile p := by
  induction lead with
  | nil => simp [stops]
  | cons d lead ih => simp only [List.cons_append, List.takeWhile_cons, ih]

theorem dropWhile_append_stop :
    (lead ++ c :: behind).dropWhile p = lead.dropWhile p ++ c :: behind := by
  induction lead with
  | nil => simp [stops]
  | cons d lead ih =>
    simp only [List.cons_append, List.dropWhile_cons, ih]
    split <;> rfl

end Stopping

/-- Trimming leaves a character that is not white space, and takes from what stands around it. -/
theorem Text.trimBlanks_append {c : Char} (solid : isBlank c = false) (lead behind : List Char) :
    trimBlanks (lead ++ c :: behind) =
      lead.dropWhile isBlank ++ c :: (behind.reverse.dropWhile isBlank).reverse := by
  rw [trimBlanks, dropWhile_append_stop solid, List.reverse_append, List.reverse_cons,
    List.append_assoc, List.singleton_append, dropWhile_append_stop solid]
  simp

/-- Blanks and tabs are white space. -/
theorem LinePlace.isBlank_of_isIndent {c : Char} (indents : isIndent c) : Text.isBlank c := by
  simp only [isIndent, Bool.or_eq_true, decide_eq_true_eq] at indents
  obtain rfl | rfl := indents <;> decide

/-! ## The caret -/

/-- The column of the caret, counted from the start of its line. -/
theorem LinePlace.idxOf_caretLine (p : LinePlace) :
    p.caretLine.idxOf '^' = p.number.repr.length + 3 + (p.offset - p.indent) := by
  have margin : '^' ∉ padLeft ' ' p.margin ['|'] ++ [' '] := by simp [padLeft]
  have dashes : '^' ∉ List.replicate (p.offset - p.indent) '-' := by simp
  have line : p.caretLine = (padLeft ' ' p.margin ['|'] ++ [' ']) ++
      (List.replicate (p.offset - p.indent) '-' ++ ['^']) := by
    simp [caretLine, padLeft]
  rw [line, List.idxOf_append_of_notMem margin, List.idxOf_append_of_notMem dashes]
  simp [padLeft, LinePlace.margin]

/-- How far right of its character the caret stands, for what the line has in front of the character: by
the further bytes of its characters, and by the white space that is trimmed but is no indentation. -/
def caretExcess (lead : List Char) : Nat :=
  (byteLength lead - lead.length) +
    ((lead.takeWhile Text.isBlank).length - (lead.takeWhile LinePlace.isIndent).length)

theorem byteLength_eq_length_iff (text : List Char) :
    byteLength text = text.length ↔ ∀ c ∈ text, c.utf8Size = 1 := by
  induction text with
  | nil => simp
  | cons c text ih =>
    have := c.utf8Size_pos
    have := length_le_byteLength text
    rw [List.forall_mem_cons, ← ih, byteLength_cons, List.length_cons]
    omega

/-- A predicate that implies another one holds for a shorter while. -/
theorem takeWhile_isIndent_length (lead : List Char) :
    (lead.takeWhile LinePlace.isIndent).length ≤ (lead.takeWhile Text.isBlank).length ∧
    ((lead.takeWhile LinePlace.isIndent).length = (lead.takeWhile Text.isBlank).length ↔
      ∀ c ∈ lead.takeWhile Text.isBlank, LinePlace.isIndent c) := by
  induction lead with
  | nil => simp
  | cons c lead ih =>
    by_cases indents : LinePlace.isIndent c
    · simpa [LinePlace.isBlank_of_isIndent indents, indents] using ih
    · by_cases blank : Text.isBlank c <;> simp [indents, blank]

theorem caretExcess_eq_zero_iff (lead : List Char) :
    caretExcess lead = 0 ↔ (∀ c ∈ lead, c.utf8Size = 1) ∧
      ∀ c ∈ lead.takeWhile Text.isBlank, LinePlace.isIndent c := by
  have bytes := length_le_byteLength lead
  obtain ⟨indented, same⟩ := takeWhile_isIndent_length lead
  rw [← byteLength_eq_length_iff, ← same, caretExcess]
  omega

namespace Diagnostic

/-- What is reported about the character `c` of a source, which `before` stands in front of: the place of
its byte, the trimmed line with the character behind `front`, and the line of the caret. -/
structure Shows (d : Diagnostic) (file : String) (before : List Char) (c : Char)
    (after : List Char) (place : LinePlace) (front back caret : List Char) : Prop where
  located : place.IsAt (linesOf (before ++ c :: after)) d.position.offset
  line : ∃ lead behind, place.text = lead ++ c :: behind ∧ byteLength lead = place.offset ∧
    front = lead.dropWhile Text.isBlank
  trimmed : Text.trimBlanks place.text = front ++ c :: back
  report : d.report file (before ++ c :: after) = [d.headline, "-> " ++ file,
    String.ofList (padLeft ' ' (place.number.repr.length + 2) ['|']),
    place.number.repr ++ " | " ++ String.ofList (front ++ c :: back), String.ofList caret]

/-- The column of a character that is shown behind `front` on the line of a number. -/
def shownColumn (number : Nat) (front : List Char) : Nat := number.repr.length + 3 + front.length

/-- The caret stands under the character. -/
def CaretUnder (d : Diagnostic) (file : String) (before : List Char) (c : Char)
    (after : List Char) : Prop :=
  ∃ place front back caret, d.Shows file before c after place front back caret ∧
    caret.idxOf '^' = shownColumn place.number front

variable {d : Diagnostic} {file : String} {before : List Char} {c : Char} {after : List Char}

/-- The place of a report is that of the character, and the caret's line is the picture's. -/
theorem Shows.caret_eq {place : LinePlace} {front back caret : List Char}
    (h : d.Shows file before c after place front back caret) : caret = place.caretLine := by
  have found : lineAt? (before ++ c :: after) d.position.offset = some place :=
    LinePlace.among?_eq_some_iff.mpr (LinePlace.isAt_iff.mp h.located)
  have last := congrArg List.getLast? h.report
  rw [Diagnostic.report, found] at last
  simpa [LinePlace.picture, String.ofList_inj, eq_comm] using last

/-- A character that is not white space is shown. -/
theorem exists_shows (start : d.position.offset = byteLength before)
    (solid : Text.isBlank c = false) (file : String) (after : List Char) :
    ∃ place front back caret, d.Shows file before c after place front back caret := by
  obtain ⟨place, behind, located, text, offset⟩ := exists_isAt_of_character before c after
  have found := LinePlace.among?_eq_some_iff.mpr (LinePlace.isAt_iff.mp located)
  refine ⟨place, _, _, place.caretLine, start ▸ located, ⟨_, behind, text, offset.symm, rfl⟩,
    text ▸ Text.trimBlanks_append solid _ _, ?_⟩
  rw [Diagnostic.report, lineAt?, start, found]
  simp [LinePlace.picture, LinePlace.margin, LinePlace.textLine, text,
    Text.trimBlanks_append solid, ← String.toList_inj]

/-- The caret of a report stands right of its character, as far as the excess says. -/
theorem Shows.column (start : d.position.offset = byteLength before)
    (solid : Text.isBlank c = false) {place : LinePlace} {front back caret : List Char}
    (h : d.Shows file before c after place front back caret) :
    caret.idxOf '^' = shownColumn place.number front + caretExcess (lastLine before) := by
  obtain ⟨place', behind, isAt, text, offset⟩ := exists_isAt_of_character before c after
  obtain rfl : place' = place := by
    have found := LinePlace.among?_eq_some_iff.mpr (LinePlace.isAt_iff.mp isAt)
    have shown := LinePlace.among?_eq_some_iff.mpr (LinePlace.isAt_iff.mp h.located)
    rw [start, found] at shown
    exact Option.some.inj shown
  obtain ⟨lead, rest, cut, bytes, rfl⟩ := h.line
  obtain rfl : lastLine before = lead :=
    eq_of_byteLength_eq (text.symm.trans cut) (offset.symm.trans bytes.symm)
  have stops : LinePlace.isIndent c = false := by
    by_contra indents
    rw [LinePlace.isBlank_of_isIndent (Bool.not_eq_false _ ▸ indents)] at solid
    cases solid
  have whole := congrArg List.length
    (List.takeWhile_append_dropWhile (p := Text.isBlank) (l := lastLine before))
  have indented := (takeWhile_isIndent_length (lastLine before)).1
  have bytes := length_le_byteLength (lastLine before)
  rw [h.caret_eq, LinePlace.idxOf_caretLine, shownColumn, caretExcess, LinePlace.indent, text,
    takeWhile_append_stop stops, offset]
  rw [List.length_append] at whole
  omega

theorem caretUnder_iff (start : d.position.offset = byteLength before)
    (solid : Text.isBlank c = false) (file : String) (after : List Char) :
    d.CaretUnder file before c after ↔ (∀ x ∈ lastLine before, x.utf8Size = 1) ∧
      ∀ x ∈ (lastLine before).takeWhile Text.isBlank, LinePlace.isIndent x := by
  rw [← caretExcess_eq_zero_iff]
  constructor
  · rintro ⟨place, front, back, caret, shows, under⟩
    have column := shows.column start solid
    omega
  · intro none
    obtain ⟨place, front, back, caret, shows⟩ := exists_shows start solid file after
    exact ⟨place, front, back, caret, shows, by rw [shows.column start solid, none, Nat.add_zero]⟩

/-- A report on a character that is not white space shows the number and the trimmed text of its line, and a
caret at or right of its column. It stands under the character if and only if each of the characters in
front of it on the line takes one byte and the white space at the line's start is blanks and tabs. -/
theorem caret_stands_under_iff (start : d.position.offset = byteLength before)
    (solid : Text.isBlank c = false) (file : String) (after : List Char) :
    (∃ place front back caret, d.Shows file before c after place front back caret ∧
      caret.idxOf '^' = shownColumn place.number front + caretExcess (lastLine before)) ∧
    (d.CaretUnder file before c after ↔ (∀ x ∈ lastLine before, x.utf8Size = 1) ∧
      ∀ x ∈ (lastLine before).takeWhile Text.isBlank, LinePlace.isIndent x) := by
  obtain ⟨place, front, back, caret, shows⟩ := exists_shows start solid file after
  exact ⟨⟨place, front, back, caret, shows, shows.column start solid⟩,
    caretUnder_iff start solid file after⟩

/-- A type that nothing is called, in a source of one line. -/
def unknownName (offset : Nat) : Diagnostic := ⟨.undeclared "y", ⟨offset, "t.lang"⟩, .varDecl⟩

/-- Behind blanks and tabs and characters of one byte the caret is under the name. -/
theorem caretUnder_unknownName : (unknownName 9).position.offset = byteLength "\t var x: ".toList ∧
    Text.isBlank 'y' = false ∧ (unknownName 9).CaretUnder "t.lang" "\t var x: ".toList 'y' [';'] := by
  have narrow : (lastLine "\t var x: ".toList).all (·.utf8Size == 1) := by decide
  have indented : ((lastLine "\t var x: ".toList).takeWhile Text.isBlank).all LinePlace.isIndent := by
    decide
  refine ⟨by decide, by decide, ?_⟩
  exact (caret_stands_under_iff (by decide) (by decide) "t.lang" [';']).2.mpr
    ⟨fun x member => eq_of_beq (List.all_eq_true.mp narrow x member), List.all_eq_true.mp indented⟩

/-- Behind a no-break space, which takes two bytes, the caret is not under the name that is reported. -/
theorem not_caretUnder_unknownName :
    (match resolveSource "var x:\u00a0y;".toList "t.lang" with
      | .ok _ => []
      | .error reported => reported) = [unknownName 8] ∧
    (unknownName 8).position.offset = byteLength "var x:\u00a0".toList ∧ Text.isBlank 'y' = false ∧
    ¬(unknownName 8).CaretUnder "t.lang" "var x:\u00a0".toList 'y' [';'] := by
  refine ⟨by decide +kernel, by decide, by decide, fun under => ?_⟩
  have narrow := ((caretUnder_iff (by decide) (by decide) _ _).mp under).1
  exact absurd (narrow '\u00a0' (by decide)) (by decide)

end Diagnostic

end Deferral
