/-
What is left of a text without its blank ends.

A text is trimmed away completely exactly if it holds nothing but white space,
and that is when its normal form is absent. The reason is the same from both
ends: what `trimStart` leaves is either nothing or starts with a character
that stays.
-/
import Marginalia.Note
import Marginalia.Proofs.Text.Cut
import Mathlib.Data.List.DropRight
import Mathlib.Data.List.TakeWhile

set_option autoImplicit false

namespace Marginalia

namespace Text

theorem trimStart_eq_nil_iff {text : List Char} : trimStart text = [] ↔ allBlank text := by
  rw [trimStart, List.dropWhile_eq_nil_iff, allBlank, List.all_eq_true]

/-- White space in front of a text is trimmed with the text's own. -/
theorem trimStart_append {blank : List Char} (h : allBlank blank) (text : List Char) :
    trimStart (blank ++ text) = trimStart text := by
  rw [allBlank, List.all_eq_true] at h
  rw [trimStart, List.dropWhile_append_of_pos h, trimStart]

theorem trimEnd_eq_nil_iff {text : List Char} : trimEnd text = [] ↔ allBlank text := by
  rw [trimEnd, List.reverse_eq_nil_iff, List.dropWhile_eq_nil_iff, allBlank, List.all_eq_true]
  simp only [List.mem_reverse]

/-- The text from its first character that is not blank is blank only if it is empty. -/
theorem allBlank_trimStart_iff {text : List Char} : allBlank (trimStart text) ↔ allBlank text := by
  constructor
  · intro h
    rw [← trimStart_eq_nil_iff]
    by_contra hne
    -- the first character left is one that `dropWhile` stopped at
    obtain ⟨c, rest, hc⟩ := List.exists_cons_of_ne_nil hne
    have hstop : isBlank c = false := by
      have := List.head?_dropWhile_not isBlank text
      rw [← trimStart, hc] at this
      simpa using this
    rw [hc, allBlank, List.all_cons, hstop] at h
    simp at h
  · intro h
    rw [trimStart_eq_nil_iff.2 h]
    rfl

/-- **Nothing is left of a text exactly if it is blank.** -/
theorem trim_eq_nil_iff {text : List Char} : trim text = [] ↔ allBlank text := by
  rw [trim, trimEnd_eq_nil_iff, allBlank_trimStart_iff]

/-- Trimming the end leaves the start alone. -/
theorem trimStart_trimEnd {text : List Char} (h : trimStart text = text) :
    trimStart (trimEnd text) = trimEnd text := by
  have hpart : trimEnd text <+: text := List.rdropWhile_prefix isBlank text
  cases htrim : trimEnd text with
  | nil => rfl
  | cons c rest =>
    rw [htrim] at hpart
    obtain ⟨later, rfl⟩ := hpart
    -- the text starts with `c`, which would have gone if it were blank
    have hstop : isBlank c = false := by
      have hfirst := List.dropWhile_eq_self_iff.1 h (Nat.succ_pos _)
      simpa using hfirst
    rw [trimStart, List.dropWhile_cons_of_neg (by simp [hstop])]

theorem trim_trim (text : List Char) : trim (trim text) = trim text := by
  have hstart : trimStart (trimStart text) = trimStart text := List.dropWhile_idempotent isBlank _
  have hend : trimEnd (trimEnd (trimStart text)) = trimEnd (trimStart text) :=
    List.rdropWhile_idempotent isBlank _
  rw [trim, trim, trimStart_trimEnd hstart, hend]

/-- Trimming takes a part out of a text. -/
theorem trim_infix (text : List Char) : trim text <:+: text := by
  have hend : trimEnd (trimStart text) <+: trimStart text := List.rdropWhile_prefix isBlank _
  have hstart : trimStart text <:+ text := List.dropWhile_suffix isBlank
  exact hend.isInfix.trans hstart.isInfix

/-- What is trimmed and blank is nothing. -/
theorem trim_eq_nil_of_allBlank {text : List Char} (h : allBlank (trim text)) : trim text = [] := by
  rw [← trim_trim]
  exact trim_eq_nil_iff.2 h

/-- A text with something in it has a line with something in it. -/
theorem exists_line_of_not_allBlank {text : List Char} (h : ¬ allBlank text) :
    ∃ line ∈ lines text, ¬ allBlank line := by
  obtain ⟨c, hc, hblank⟩ : ∃ c ∈ text, ¬ isBlank c := by
    simpa [allBlank] using h
  have hall : ∀ {line : List Char}, c ∈ line → ¬ allBlank line := by
    intro line hline hline'
    rw [allBlank, List.all_eq_true] at hline'
    exact hblank (hline' c hline)
  rw [← joined_pieces '\n' text] at hc
  obtain rfl | ⟨piece, hpiece, hc⟩ := mem_of_mem_joined hc
  · exact absurd (by decide) hblank
  have hne := pieces_ne_nil '\n' text
  rw [← List.dropLast_append_getLast hne, List.mem_append, List.mem_singleton] at hpiece
  simp only [lines, List.mem_append]
  rcases hpiece with hpiece | rfl
  · -- a carriage return at the end goes, but `c` is no carriage return
    refine ⟨dropReturn piece, .inl (List.mem_map_of_mem hpiece), hall ?_⟩
    unfold dropReturn
    split
    · rename_i hreturn
      obtain ⟨front, rfl⟩ := List.getLast?_eq_some_iff.1 hreturn
      rw [List.mem_append, List.mem_singleton] at hc
      rw [List.dropLast_concat]
      rcases hc with hc | rfl
      · exact hc
      · exact absurd (by decide) hblank
    · exact hc
  · refine ⟨_, .inr ?_, hall hc⟩
    rw [List.getLast?_eq_some_getLast hne, Option.getD_some, if_neg]
    · exact List.mem_singleton_self _
    · rw [List.isEmpty_iff]
      exact List.ne_nil_of_mem hc

end Text

namespace Content

/-- The normal form of a text is absent exactly if the text is blank. -/
theorem normal_some_eq_none_iff {text : String} :
    normal (some text) = none ↔ Text.allBlank text.toList := by
  rw [← Text.trim_eq_nil_iff, normal, Option.map_some, Option.filter_eq_none_iff]
  simp [Text.trimmed]

/-- A text in its normal form stays as it is. -/
@[simp]
theorem normal_normal (text : Option String) : normal (normal text) = normal text := by
  cases text with
  | none => rfl
  | some t =>
    have htwice : Text.trimmed (Text.trimmed t) = Text.trimmed t := by
      rw [Text.trimmed, Text.trimmed, String.toList_ofList, Text.trim_trim]
    by_cases hempty : (Text.trimmed t).isEmpty
    · simp [normal, Option.filter_some, hempty]
    · simp [normal, Option.filter_some, hempty, htwice]

end Content

end Marginalia
