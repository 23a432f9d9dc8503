/-
What dedenting leaves of a body.

Three things are taken off the lines below a marker: the width they share in
front, everything in blank lines, and empty lines at the two ends. None of it
is anything but white space, so a line with a character that is not blank keeps
that character. From this the **ends of a body** follow: where there is
something to say below the marker, the first and the last line of the body are
not blank.

The width is in bytes and is never more than the white space a line starts
with. A line in which it would end inside a character stays as it is.
-/
import Marginalia.Proofs.Note.Prose
import Marginalia.Proofs.Text.Blank

set_option autoImplicit false

namespace Marginalia.Prose

/-! ## One line -/

/-- What is left after some bytes is an end of the text. -/
theorem suffix_of_dropBytes {count : Nat} {text rest : List Char}
    (h : dropBytes count text = some rest) : rest <:+ text := by
  fun_induction dropBytes count text with
  | case1 text =>
    obtain rfl := Option.some.inj h
    exact List.suffix_refl text
  | case2 => exact absurd h (by simp)
  | case3 count c text _ ih => exact (ih h).trans (List.suffix_cons c text)
  | case4 => exact absurd h (by simp)

/-- Dropping no more bytes than a front has leaves all that comes behind the front. -/
theorem suffix_dropBytes_of_le {count : Nat} {front back rest : List Char}
    (h : dropBytes count (front ++ back) = some rest) (hcount : count ≤ bytes front) :
    back <:+ rest := by
  induction front generalizing count with
  | nil =>
    obtain rfl : count = 0 := Nat.le_zero.1 hcount
    obtain rfl : back = rest := by simpa [dropBytes] using h
    exact List.suffix_refl back
  | cons c front ih =>
    cases count with
    | zero =>
      obtain rfl : c :: front ++ back = rest := by simpa [dropBytes] using h
      exact List.suffix_append (c :: front) back
    | succ count =>
      rw [List.cons_append, dropBytes] at h
      rw [bytes] at hcount
      split at h
      · exact ih h (by omega)
      · exact absurd h (by simp)

theorem suffix_dedentLine (indent : Nat) (line : List Char) : dedentLine indent line <:+ line := by
  unfold dedentLine
  split
  · exact List.nil_suffix
  · cases h : dropBytes indent line with
    | none => exact List.suffix_refl line
    | some rest => exact suffix_of_dropBytes h

theorem dedentLine_of_allBlank (indent : Nat) {line : List Char} (h : Text.allBlank line) :
    dedentLine indent line = [] := by
  rw [dedentLine, if_pos h]

/-- A line that is not blank stays so, if no more is taken off than white space. -/
theorem not_allBlank_dedentLine {indent : Nat} {line : List Char} (h : ¬ Text.allBlank line)
    (hindent : indent ≤ indentation line) : ¬ Text.allBlank (dedentLine indent line) := by
  rw [dedentLine, if_neg h]
  cases hdrop : dropBytes indent line with
  | none => exact h
  | some rest =>
    rw [Option.getD_some]
    rw [← List.takeWhile_append_dropWhile (p := Text.isBlank) (l := line)] at hdrop
    have hkept : Text.trimStart line <:+ rest := suffix_dropBytes_of_le hdrop hindent
    intro hrest
    apply h
    rw [← Text.allBlank_trimStart_iff]
    rw [Text.allBlank, List.all_eq_true] at hrest ⊢
    intro c hc
    exact hrest c (hkept.subset hc)

/-! ## The width the lines share -/

/-- The widths of the lines that are not blank. -/
def widths (lines : List (List Char)) : List Nat :=
  (lines.filter fun line => !Text.allBlank line).map indentation

theorem mem_widths {lines : List (List Char)} {width : Nat} :
    width ∈ widths lines ↔ ∃ line ∈ lines, ¬ Text.allBlank line ∧ indentation line = width := by
  simp only [widths, List.mem_map, List.mem_filter, Bool.not_eq_true', Bool.not_eq_true, and_assoc]

theorem min?_widths {lines : List (List Char)} (h : ∃ line ∈ lines, ¬ Text.allBlank line) :
    (widths lines).min? = some (commonIndentation lines) := by
  have heq : commonIndentation lines = (widths lines).min?.getD 0 := rfl
  cases hmin : (widths lines).min? with
  | none =>
    obtain ⟨line, hline, hblank⟩ := h
    have hmem := mem_widths.2 ⟨line, hline, hblank, rfl⟩
    rw [List.min?_eq_none_iff.1 hmin] at hmem
    exact absurd hmem List.not_mem_nil
  | some least => rw [heq, hmin, Option.getD_some]

/-- **The shared width** is that of some line that is not blank, and no such line has less. -/
theorem commonIndentation_least {lines : List (List Char)}
    (h : ∃ line ∈ lines, ¬ Text.allBlank line) :
    (∃ line ∈ lines, ¬ Text.allBlank line ∧ indentation line = commonIndentation lines) ∧
    ∀ line ∈ lines, ¬ Text.allBlank line → commonIndentation lines ≤ indentation line := by
  obtain ⟨hmem, hle⟩ := List.min?_eq_some_iff.1 (min?_widths h)
  refine ⟨mem_widths.1 hmem, ?_⟩
  intro line hline hblank
  exact hle _ (mem_widths.2 ⟨line, hline, hblank, rfl⟩)

theorem commonIndentation_le {lines : List (List Char)} {line : List Char} (hline : line ∈ lines)
    (h : ¬ Text.allBlank line) : commonIndentation lines ≤ indentation line :=
  (commonIndentation_least ⟨line, hline, h⟩).2 line hline h

/-- The lines of a body without the width they share. -/
def dedented (lines : List (List Char)) : List (List Char) :=
  lines.map (dedentLine (commonIndentation lines))

/-- A dedented line is empty or has something in it. -/
theorem eq_nil_of_allBlank_of_mem_dedented {lines : List (List Char)} {line : List Char}
    (hline : line ∈ dedented lines) (h : Text.allBlank line) : line = [] := by
  obtain ⟨original, horiginal, rfl⟩ := List.mem_map.1 hline
  by_cases hblank : Text.allBlank original
  · exact dedentLine_of_allBlank _ hblank
  · exact absurd h (not_allBlank_dedentLine hblank (commonIndentation_le horiginal hblank))

/-! ## The two ends -/

/-- **Empty lines dropped at both ends.** What is kept starts and ends with a line that is not
empty, or is nothing at all. -/
structure EndsDropped (lines kept : List (List Char)) : Prop where
  around : ∃ front back, lines = front ++ kept ++ back ∧ ∀ line ∈ front ++ back, line = []
  first : kept.head? ≠ some []
  last : kept.getLast? ≠ some []

theorem endsDropped_dropEmptyEnds (lines : List (List Char)) :
    EndsDropped lines (dropEmptyEnds lines) := by
  have hkept : dropEmptyEnds lines = (lines.dropWhile List.isEmpty).rdropWhile List.isEmpty := rfl
  have hfront := List.takeWhile_append_dropWhile (p := List.isEmpty) (l := lines)
  have hback := List.rdropWhile_append_rtakeWhile (p := List.isEmpty)
    (l := lines.dropWhile List.isEmpty)
  rw [hkept]
  refine { around := ⟨lines.takeWhile List.isEmpty,
            (lines.dropWhile List.isEmpty).rtakeWhile List.isEmpty, ?_, ?_⟩,
           first := ?_, last := ?_ }
  · rw [List.append_assoc, hback, hfront]
  · intro line hline
    rw [List.mem_append] at hline
    rcases hline with hline | hline
    · exact List.isEmpty_iff.1 (List.mem_takeWhile_imp hline)
    · exact List.isEmpty_iff.1 (List.mem_rtakeWhile_imp hline)
  · -- the first line kept is the one `dropWhile` stopped at
    intro hfirst
    obtain ⟨rest, hrest⟩ := List.head?_eq_some_iff.1 hfirst
    obtain ⟨later, hlater⟩ := List.rdropWhile_prefix List.isEmpty (lines.dropWhile List.isEmpty)
    have hstop := List.head?_dropWhile_not List.isEmpty lines
    rw [← hlater, hrest] at hstop
    simp at hstop
  · intro hlast
    have hne : (lines.dropWhile List.isEmpty).rdropWhile List.isEmpty ≠ [] := by
      intro hnil
      rw [hnil] at hlast
      simp at hlast
    have hstop := List.rdropWhile_last_not List.isEmpty _ hne
    rw [List.getLast?_eq_some_getLast hne, Option.some.injEq] at hlast
    rw [hlast] at hstop
    exact hstop rfl

namespace EndsDropped

variable {lines kept : List (List Char)}

theorem subset (h : EndsDropped lines kept) : kept ⊆ lines := by
  obtain ⟨front, back, rfl, -⟩ := h.around
  intro line hline
  exact List.mem_append_left back (List.mem_append_right front hline)

/-- Only empty lines go. -/
theorem mem_of_ne_nil (h : EndsDropped lines kept) {line : List Char} (hline : line ∈ lines)
    (hne : line ≠ []) : line ∈ kept := by
  obtain ⟨front, back, rfl, hempty⟩ := h.around
  simp only [List.mem_append] at hline hempty
  rcases hline with (hline | hline) | hline
  · exact absurd (hempty line (.inl hline)) hne
  · exact hline
  · exact absurd (hempty line (.inr hline)) hne

end EndsDropped

/-! ## The body -/

/-- A body whose first and last lines are not blank. -/
structure Framed (body : List Char) : Prop where
  first : ∀ line ∈ (Text.pieces '\n' body).head?, ¬ Text.allBlank line
  last : ∀ line ∈ (Text.pieces '\n' body).getLast?, ¬ Text.allBlank line

/-- A line that is not blank is framed by itself. -/
theorem framed_of_oneLine {line : List Char} (hfeed : '\n' ∉ line) (h : ¬ Text.allBlank line) :
    Framed line := by
  have hone := Text.pieces_of_notMem hfeed
  constructor
  · intro first hfirst
    rw [hone] at hfirst
    obtain rfl : line = first := by simpa using hfirst
    exact h
  · intro last hlast
    rw [hone] at hlast
    obtain rfl : line = last := by simpa using hlast
    exact h

theorem Framed.ne_nil {body : List Char} (h : Framed body) : body ≠ [] := by
  rintro rfl
  exact h.first [] rfl rfl

/-- Lines that are empty or not blank are framed once the empty ones at the ends are gone. -/
theorem framed_joined {lines kept : List (List Char)} (h : EndsDropped lines kept)
    (hfeed : ∀ line ∈ lines, '\n' ∉ line) (hblank : ∀ line ∈ lines, Text.allBlank line → line = [])
    (hsome : ∃ line ∈ lines, line ≠ []) : Framed (Text.joined '\n' kept) := by
  obtain ⟨line, hline, hne⟩ := hsome
  have hpieces : Text.pieces '\n' (Text.joined '\n' kept) = kept :=
    Text.pieces_joined (List.ne_nil_of_mem (h.mem_of_ne_nil hline hne))
      fun piece hpiece => hfeed piece (h.subset hpiece)
  constructor
  · intro first hfirst hall
    rw [hpieces] at hfirst
    have hmem : first ∈ kept := List.mem_of_head? hfirst
    rw [hblank first (h.subset hmem) hall] at hfirst
    exact h.first hfirst
  · intro last hlast hall
    rw [hpieces] at hlast
    have hmem : last ∈ kept := List.mem_of_getLast? hlast
    rw [hblank last (h.subset hmem) hall] at hlast
    exact h.last hlast

/-- The text on the marker's line, as the first line of a body. -/
def opening (first : List Char) : List (List Char) :=
  if first.isEmpty then [] else [first]

theorem dedent_eq (first rest : List Char) :
    dedent first rest
      = Text.joined '\n' (dropEmptyEnds (opening first ++ dedented (Text.lines rest))) :=
  rfl

theorem mem_opening {first line : List Char} (h : line ∈ opening first) :
    line = first ∧ line ≠ [] := by
  unfold opening at h
  split at h
  · exact absurd h List.not_mem_nil
  · rename_i hne
    obtain rfl := List.mem_singleton.1 h
    exact ⟨rfl, by simpa using hne⟩

/-- **The ends of a body.** With something below the marker, the body starts and ends with a line
that is not blank. -/
theorem framed_dedent {first rest : List Char} (hfeed : '\n' ∉ first)
    (hfirst : Text.allBlank first → first = []) (hrest : ¬ Text.allBlank rest) :
    Framed (dedent first rest) := by
  rw [dedent_eq]
  refine framed_joined (endsDropped_dropEmptyEnds _) ?_ ?_ ?_
  · intro line hline
    rcases List.mem_append.1 hline with hline | hline
    · rwa [(mem_opening hline).1]
    · obtain ⟨original, horiginal, rfl⟩ := List.mem_map.1 hline
      intro hmem
      exact Text.feed_notMem_lines horiginal ((suffix_dedentLine _ original).subset hmem)
  · intro line hline hblank
    rcases List.mem_append.1 hline with hline | hline
    · rw [(mem_opening hline).1] at hblank ⊢
      exact hfirst hblank
    · exact eq_nil_of_allBlank_of_mem_dedented hline hblank
  · -- a line below the marker that is not blank is left with something in it
    obtain ⟨line, hline, hblank⟩ := Text.exists_line_of_not_allBlank hrest
    refine ⟨dedentLine (commonIndentation (Text.lines rest)) line,
      List.mem_append_right _ (List.mem_map_of_mem hline), ?_⟩
    intro hnil
    have hkept := not_allBlank_dedentLine hblank (commonIndentation_le hline hblank)
    rw [hnil] at hkept
    exact hkept rfl

end Marginalia.Prose
