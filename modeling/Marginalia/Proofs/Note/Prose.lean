/-
Bodies that stand flush.

Dedenting a body takes off the indentation its lines share, empties its blank
lines and drops those at its ends. `Flush` says of a body that there is
nothing of all this to do, and then dedenting gives the body back character
by character.
-/
import Marginalia.Note.Prose
import Marginalia.Proofs.Text.Cut

set_option autoImplicit false

namespace Marginalia.Prose

/-- A body that is already in the form in which it is kept. Its lines are the parts between its
line feeds. -/
structure Flush (body : String) : Prop where
  noReturn : '\r' ∉ body.toList
  first : ∀ line ∈ (Text.pieces '\n' body.toList).head?, ¬ Text.allBlank line
  last : ∀ line ∈ (Text.pieces '\n' body.toList).getLast?, ¬ Text.allBlank line
  blank : ∀ line ∈ Text.pieces '\n' body.toList, Text.allBlank line → line = []
  margin : ∃ line ∈ Text.pieces '\n' body.toList, ∃ c ∈ line.head?, ¬ Text.isBlank c

private theorem any_head?_iff {line : List Char} :
    (line.head?.any fun c => !Text.isBlank c) ↔ ∃ c ∈ line.head?, ¬ Text.isBlank c := by
  simp [Option.any_eq_true]

instance (body : String) : Decidable (Flush body) :=
  decidable_of_iff
    ('\r' ∉ body.toList
      ∧ (∀ line ∈ (Text.pieces '\n' body.toList).head?, ¬ Text.allBlank line)
      ∧ (∀ line ∈ (Text.pieces '\n' body.toList).getLast?, ¬ Text.allBlank line)
      ∧ (∀ line ∈ Text.pieces '\n' body.toList, Text.allBlank line → line = [])
      ∧ ∃ line ∈ Text.pieces '\n' body.toList, line.head?.any fun c => !Text.isBlank c)
    (by
      simp only [any_head?_iff]
      exact ⟨fun ⟨h₁, h₂, h₃, h₄, h₅⟩ => ⟨h₁, h₂, h₃, h₄, h₅⟩,
        fun h => ⟨h.noReturn, h.first, h.last, h.blank, h.margin⟩⟩)

theorem indentation_cons {c : Char} (h : ¬ Text.isBlank c) (line : List Char) :
    indentation (c :: line) = 0 := by
  rw [indentation, List.takeWhile_cons_of_neg h]
  rfl

/-- Lines share no indentation if one of them starts with a character. -/
theorem commonIndentation_eq_zero {lines : List (List Char)}
    (h : ∃ line ∈ lines, ∃ c ∈ line.head?, ¬ Text.isBlank c) : commonIndentation lines = 0 := by
  obtain ⟨line, hline, c, hc, hblank⟩ := h
  obtain ⟨rest, rfl⟩ := List.head?_eq_some_iff.1 hc
  have hkept : c :: rest ∈ lines.filter fun line => !Text.allBlank line :=
    List.mem_filter.2 ⟨hline, by simp [Text.allBlank, hblank]⟩
  have hzero : 0 ∈ (lines.filter fun line => !Text.allBlank line).map indentation :=
    List.mem_map.2 ⟨_, hkept, indentation_cons hblank rest⟩
  rw [commonIndentation, List.min?_eq_some_iff.2 ⟨hzero, fun _ _ => Nat.zero_le _⟩]
  rfl

theorem dedentLine_zero {line : List Char} (h : Text.allBlank line → line = []) :
    dedentLine 0 line = line := by
  by_cases hline : Text.allBlank line
  · rw [dedentLine, if_pos hline, h hline]
  · rw [dedentLine, if_neg hline, dropBytes, Option.getD_some]

theorem dropWhile_isEmpty {lines : List (List Char)} (h : lines.head? ≠ some []) :
    lines.dropWhile List.isEmpty = lines := by
  cases lines with
  | nil => rfl
  | cons line lines =>
    refine List.dropWhile_cons_of_neg fun hline => h ?_
    rw [List.head?_cons, List.isEmpty_iff.1 hline]

theorem dropEmptyEnds_eq_self {lines : List (List Char)} (hfirst : lines.head? ≠ some [])
    (hlast : lines.getLast? ≠ some []) : dropEmptyEnds lines = lines := by
  rw [dropEmptyEnds, dropWhile_isEmpty hfirst,
    dropWhile_isEmpty (by rwa [List.head?_reverse]), List.reverse_reverse]

namespace Flush

variable {body : String}

theorem not_allBlank (h : Flush body) : ¬ Text.allBlank body.toList := by
  obtain ⟨line, hline, c, hc, hblank⟩ := h.margin
  have hmem : c ∈ body.toList := by
    rw [← Text.joined_pieces '\n' body.toList]
    exact Text.mem_joined_of_mem hline (List.mem_of_head? hc)
  rw [Text.allBlank, List.all_eq_true]
  exact fun hall => hblank (hall c hmem)

/-- **A flush body is kept as it is.** -/
theorem dedent_eq_self (h : Flush body) : dedent [] body.toList = body.toList := by
  have hempty : Text.allBlank ([] : List Char) := rfl
  have hfirst : (Text.pieces '\n' body.toList).head? ≠ some [] :=
    fun hnil => h.first [] hnil hempty
  have hlast : (Text.pieces '\n' body.toList).getLast? ≠ some [] :=
    fun hnil => h.last [] hnil hempty
  have hlines := Text.lines_eq_pieces h.noReturn hlast
  have hsame : ∀ line ∈ Text.pieces '\n' body.toList, dedentLine 0 line = id line :=
    fun line hline => dedentLine_zero (h.blank line hline)
  rw [dedent, hlines, commonIndentation_eq_zero h.margin, List.map_congr_left hsame, List.map_id]
  simp only [List.isEmpty_nil, if_true, List.nil_append]
  rw [dropEmptyEnds_eq_self hfirst hlast, Text.joined_pieces]

end Flush

end Marginalia.Prose
