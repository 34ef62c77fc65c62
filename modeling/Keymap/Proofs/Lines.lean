import Keymap.Location
import Mathlib.Data.Prod.Lex

/-!
# Lines of a text

A line feed ends a line, and every text has a last line behind its last line feed, which may be
empty. A location is found by counting line feeds and by searching the nearest ones on either side
of an offset. Here locations are tied to the list of all lines: the line number is an index into
the list, and the offset is what the lines before it take up together with the column.

## Key results

- `Text.exists_lines` — the line at a place, with all lines before and behind it
- `Location.located` — a location says where its offset is among the lines
- `Location.position_lt_position` — a later offset has a later line, or a later column
-/

namespace Keymap

namespace Text

/-! ## Splitting a text at its line feeds -/

/-- The lines of a text, without their line feeds. -/
def lines (text : Text) : List Text :=
  text.splitOn '\n'

/-- The text of lines that each end with a line feed. -/
def terminated (lines : List Text) : Text :=
  lines.flatMap (· ++ ['\n'])

@[simp] theorem terminated_nil : terminated [] = [] :=
  rfl

@[simp] theorem terminated_cons (line : Text) (rest : List Text) :
    terminated (line :: rest) = line ++ '\n' :: terminated rest := by
  simp [terminated]

/-- Lines hold as many line feeds as end them. -/
theorem count_terminated {lines : List Text} (h : ∀ line ∈ lines, '\n' ∉ line) :
    (terminated lines).count '\n' = lines.length := by
  induction lines with
  | nil => rfl
  | cons line rest ih =>
    obtain ⟨hline, hrest⟩ := List.forall_mem_cons.mp h
    rw [terminated_cons, List.count_append, List.count_eq_zero.mpr hline, List.count_cons_self,
      ih hrest, List.length_cons, Nat.zero_add]

/-- Lines that end, read backwards, begin with the last line feed. -/
theorem head?_reverse_terminated (lines : List Text) :
    ∀ c ∈ (terminated lines).reverse.head?, c = '\n' := by
  rcases List.eq_nil_or_concat lines with rfl | ⟨front, last, rfl⟩
  · exact fun c hc => nomatch hc
  · intro c hc
    simpa [terminated, eq_comm] using hc

/-- A text consists of lines that end and of one that does not. -/
theorem exists_terminated (text : Text) :
    ∃ earlier last, text = terminated earlier ++ last ∧ (∀ line ∈ earlier, '\n' ∉ line) ∧
      '\n' ∉ last := by
  induction text with
  | nil => exact ⟨[], [], rfl, by simp, by simp⟩
  | cons c rest ih =>
    obtain ⟨earlier, last, rfl, hearlier, hlast⟩ := ih
    by_cases hc : c = '\n'
    · -- An empty line comes first.
      subst hc
      exact ⟨[] :: earlier, last, by simp, by simpa using hearlier, hlast⟩
    · -- The character belongs to the first line, which may be the last one as well.
      have hne : '\n' ≠ c := Ne.symm hc
      cases earlier with
      | nil => exact ⟨[], c :: last, rfl, by simp, by simp [hne, hlast]⟩
      | cons line later =>
        obtain ⟨hline, hlater⟩ := List.forall_mem_cons.mp hearlier
        exact ⟨(c :: line) :: later, last, by simp,
          List.forall_mem_cons.mpr ⟨by simp [hne, hline], hlater⟩, hlast⟩

/-- Lines that end are lines of a text that begins with them. -/
theorem lines_terminated_append {earlier : List Text} (h : ∀ line ∈ earlier, '\n' ∉ line)
    (rest : Text) : lines (terminated earlier ++ rest) = earlier ++ lines rest := by
  induction earlier with
  | nil => rfl
  | cons line later ih =>
    obtain ⟨hline, hlater⟩ := List.forall_mem_cons.mp h
    have hfirst := List.splitOn_append_cons_self_of_not_mem hline (terminated later ++ rest)
    rw [terminated_cons, List.append_assoc, List.cons_append, lines, hfirst, List.cons_append,
      ← ih hlater, lines]

/-- What has no line feed up to the next one, or up to the end, is the first line. -/
theorem exists_lines_line_append {line rest : Text} (hline : '\n' ∉ line)
    (hrest : ∀ c ∈ rest.head?, c = '\n') : ∃ later, lines (line ++ rest) = line :: later := by
  cases rest with
  | nil => exact ⟨[], by rw [List.append_nil, lines, List.splitOn_eq_singleton hline]⟩
  | cons c more =>
    obtain rfl := hrest c rfl
    exact ⟨lines more, List.splitOn_append_cons_self_of_not_mem hline more⟩

/-! ## The line at a place -/

/-- Behind lines that end, what stands before a place on its line is all the rest. -/
theorem lineBefore_eq {text : Text} {place : Nat} {earlier : List Text} {last : Text}
    (h : text.take place = terminated earlier ++ last) (hlast : '\n' ∉ last) :
    text.lineBefore place = last := by
  -- The search backwards passes over the rest, and stops at the line feed before it.
  have hpass : ∀ c ∈ last.reverse, decide (c ≠ '\n') = true := by
    intro c hc
    have hmem : c ∈ last := List.mem_reverse.mp hc
    exact decide_eq_true (ne_of_mem_of_not_mem hmem hlast)
  have hstop : (terminated earlier).reverse.takeWhile (· ≠ '\n') = [] := by
    have hhead := head?_reverse_terminated earlier
    cases hreverse : (terminated earlier).reverse with
    | nil => rfl
    | cons c rest =>
      rw [hreverse] at hhead
      obtain rfl := hhead c rfl
      rfl
  rw [lineBefore, h, List.reverse_append, List.takeWhile_append_of_pos hpass, hstop,
    List.append_nil, List.reverse_reverse]

/-- What stands on a line from a place on ends at a line feed or with the text. -/
theorem drop_eq_lineAfter_append (text : Text) (place : Nat) :
    ∃ rest, text.drop place = text.lineAfter place ++ rest ∧ ∀ c ∈ rest.head?, c = '\n' := by
  refine ⟨(text.drop place).dropWhile (· ≠ '\n'), List.takeWhile_append_dropWhile.symm, ?_⟩
  intro c hc
  have hnot := List.head?_dropWhile_not (fun c => decide (c ≠ '\n')) (text.drop place)
  rw [Option.mem_def.mp hc] at hnot
  simpa using hnot

/-- The line at a place stands among the lines of the text, behind those that end before the
place. -/
theorem exists_lines (text : Text) (place : Nat) :
    ∃ earlier later, text.lines =
        earlier ++ (text.lineBefore place ++ text.lineAfter place) :: later ∧
      text.take place = terminated earlier ++ text.lineBefore place ∧
      ∀ line ∈ earlier, '\n' ∉ line := by
  obtain ⟨earlier, last, htake, hearlier, hlast⟩ := exists_terminated (text.take place)
  obtain ⟨rest, hdrop, hrest⟩ := text.drop_eq_lineAfter_append place
  have hline : '\n' ∉ last ++ text.lineAfter place := by
    rw [List.mem_append, not_or]
    exact ⟨hlast, text.newline_not_mem_lineAfter place⟩
  obtain ⟨later, hlater⟩ := exists_lines_line_append hline hrest
  -- The line is put together from what is found on both sides of the place.
  rw [lineBefore_eq htake hlast]
  refine ⟨earlier, later, ?_, htake, hearlier⟩
  calc text.lines
      = lines (terminated earlier ++ (last ++ text.lineAfter place ++ rest)) := by
        rw [List.append_assoc last, ← hdrop, ← List.append_assoc, ← htake, List.take_append_drop]
    _ = earlier ++ (last ++ text.lineAfter place) :: later := by
        rw [lines_terminated_append hearlier, hlater]

end Text

/-! ## Locations -/

/-- The place where a location says an offset is, among the lines of the text. -/
structure Located (text : Text) (offset : Int) (location : Location) : Prop where
  /-- An offset outside the text stands for the nearest end of it. -/
  offset_eq : location.offset = max 0 (min offset text.length)
  one_le_line : 1 ≤ location.line
  line_le : location.line ≤ text.lines.length
  /-- The line that is shown for the offset is the one with the number. -/
  line_eq : text.lines[(location.line - 1).toNat]? = some (text.lineAt offset)
  one_le_column : 1 ≤ location.column
  column_le : location.column ≤ (text.lineAt offset).length + 1
  /-- The offset counts the lines before, with their line feeds, and the characters before the
  column. -/
  offset_sum : location.offset =
    (Text.terminated (text.lines.take (location.line - 1).toNat)).length + (location.column - 1)

namespace Location

/-- Every offset, also one outside the text, is where its location says. -/
theorem located (text : Text) (offset : Int) : Located text offset (ofOffset text offset) := by
  have hplace := text.nearest_le offset
  have hnearest : (text.nearest offset : Int) = max 0 (min offset text.length) := by
    rw [Text.nearest]
    omega
  obtain ⟨earlier, later, hlines, htake, hearlier⟩ := text.exists_lines (text.nearest offset)
  -- The line number counts the lines that end before the place.
  have hcount : (text.take (text.nearest offset)).count '\n' = earlier.length := by
    have hbefore := List.count_eq_zero.mpr (text.newline_not_mem_lineBefore (text.nearest offset))
    rw [htake, List.count_append, Text.count_terminated hearlier, hbefore, Nat.add_zero]
  have hline : ((ofOffset text offset).line - 1).toNat = earlier.length := by
    simp only [ofOffset, hcount]
    omega
  -- The place is as far from the beginning as all that stands before it.
  have hlength := congrArg List.length htake
  rw [List.length_append, List.length_take_of_le hplace] at hlength
  refine { offset_eq := hnearest, one_le_line := ?one_le_line, line_le := ?line_le,
           line_eq := ?line_eq, one_le_column := ?one_le_column, column_le := ?column_le,
           offset_sum := ?offset_sum }
  case one_le_line => simp only [ofOffset]; omega
  case line_le =>
    simp only [ofOffset, hcount, hlines, List.length_append, List.length_cons]
    omega
  case line_eq =>
    rw [hline, hlines, List.getElem?_append_right (Nat.le_refl _), Nat.sub_self]
    rfl
  case one_le_column => simp only [ofOffset]; omega
  case column_le =>
    simp only [ofOffset, Text.lineAt, List.length_append]
    omega
  case offset_sum =>
    rw [hline, hlines, List.take_left]
    simp only [ofOffset]
    omega

/-- Line and column of an offset, to be compared in this order. -/
def position (text : Text) (offset : Int) : Int ×ₗ Int :=
  toLex ((ofOffset text offset).line, (ofOffset text offset).column)

/-- The line of a later offset is not an earlier one. -/
theorem line_le_line (text : Text) {offset later : Int} (h : offset ≤ later) :
    (ofOffset text offset).line ≤ (ofOffset text later).line := by
  have hplace : text.nearest offset ≤ text.nearest later := by
    simp only [Text.nearest]
    omega
  have hcount := (List.take_prefix_take_left (l := text) hplace).sublist.count_le '\n'
  simp only [ofOffset]
  omega

/-- Within a text, a later offset has a later line, or a later column on the same line. -/
theorem position_lt_position {text : Text} {offset later : Int} (hlow : 0 ≤ offset)
    (hlt : offset < later) (hhigh : later ≤ text.length) :
    position text offset < position text later := by
  have hline := line_le_line text (Int.le_of_lt hlt)
  rw [position, position, Prod.Lex.toLex_lt_toLex]
  by_cases hsame : (ofOffset text offset).line = (ofOffset text later).line
  · -- The lines before are the same, so the columns tell the offsets apart.
    refine .inr ⟨hsame, ?_⟩
    have hfirst := located text offset
    have hsecond := located text later
    have hsum := hfirst.offset_sum
    have hsum' := hsecond.offset_sum
    rw [hfirst.offset_eq, hsame] at hsum
    rw [hsecond.offset_eq] at hsum'
    show (ofOffset text offset).column < (ofOffset text later).column
    omega
  · exact .inl (Int.lt_iff_le_and_ne.mpr ⟨hline, hsame⟩)

/-- Within a text, no two offsets have the same line and column. -/
theorem eq_of_position_eq {text : Text} {offset other : Int} (hoffset : 0 ≤ offset)
    (hoffset' : offset ≤ text.length) (hother : 0 ≤ other) (hother' : other ≤ text.length)
    (h : position text offset = position text other) : offset = other := by
  -- The earlier one of two offsets would have an earlier position.
  rcases Int.lt_trichotomy offset other with hlt | heq | hgt
  · have hposition := position_lt_position hoffset hlt hother'
    rw [h] at hposition
    exact absurd hposition (lt_irrefl _)
  · exact heq
  · have hposition := position_lt_position hother hgt hoffset'
    rw [h] at hposition
    exact absurd hposition (lt_irrefl _)

end Location

end Keymap
