/-
What it means that a text starts with a literal, and where a text is cut.

`after?` is the one test for the first, and it returns what follows the
literal. It is the same as being an initial segment, in both the forms that
lists have for it.

A text written as its parts is cut into these parts again, as long as the
character it is cut at is not in the first of them. The other way round, no
part that a cut returns has in it what the text was cut at: no piece holds a
separator, and the literal does not stand in front of its first place. A word
without separators can then be found in joined pieces only where it stands in
one of them.

No way of cutting, joining or replacing brings in a character of its own: each
one in the result was in the text, or in what was put there.
-/
import Marginalia.Text.Cut
import Mathlib.Data.List.Basic

set_option autoImplicit false

namespace Marginalia.Text

theorem after?_append (literal rest : List Char) : after? literal (literal ++ rest) = some rest := by
  induction literal with
  | nil => rfl
  | cons l literal ih => rw [List.cons_append, after?, if_pos rfl, ih]

/-- A text starts with a literal exactly if something follows it. -/
theorem isPrefixOf_eq (literal text : List Char) :
    literal.isPrefixOf text = (after? literal text).isSome := by
  rw [Bool.eq_iff_iff, List.isPrefixOf_iff_prefix, Option.isSome_iff_exists]
  constructor
  · rintro ⟨rest, rfl⟩
    exact ⟨rest, after?_append literal rest⟩
  · rintro ⟨rest, h⟩
    exact ⟨rest, (eq_append_of_after? h).symm⟩

/-- `after?` in terms of initial segments. -/
theorem after?_eq (literal text : List Char) :
    after? literal text
      = if literal.isPrefixOf text then some (text.drop literal.length) else none := by
  rw [isPrefixOf_eq]
  cases h : after? literal text with
  | none => rfl
  | some rest => simp [eq_append_of_after? h]

/-! ## Cuts at a character -/

/-- A text is cut at the first place of a character. -/
theorem cutAt_append {c : Char} {before : List Char} (h : c ∉ before) (rest : List Char) :
    cutAt [c] (before ++ c :: rest) = some (before, rest) := by
  induction before with
  | nil => rw [List.nil_append, cutAt, after?, if_pos rfl, after?]
  | cons d before ih =>
    rw [List.mem_cons, not_or] at h
    rw [List.cons_append, cutAt, after?, if_neg h.1, ih h.2]
    rfl

theorem cutAt_of_notMem {c : Char} {text : List Char} (h : c ∉ text) : cutAt [c] text = none := by
  induction text with
  | nil => rfl
  | cons d text ih =>
    rw [List.mem_cons, not_or] at h
    rw [cutAt, after?, if_neg h.1, ih h.2]
    rfl

/-- **Induction along the places of a character.** What holds of texts without the character, and
goes over from a text to one with a stretch and the character in front of it, holds of all. -/
theorem induction_cut {c : Char} {motive : List Char → Prop}
    (whole : ∀ text, c ∉ text → motive text)
    (cut : ∀ stretch rest, c ∉ stretch → motive rest → motive (stretch ++ c :: rest))
    (text : List Char) : motive text := by
  induction hn : text.length using Nat.strongRecOn generalizing text with
  | _ n ih =>
    by_cases hc : c ∈ text
    · obtain ⟨stretch, rest, rfl, hstretch⟩ := List.eq_append_cons_of_mem hc
      apply cut stretch rest hstretch
      apply ih rest.length _ rest rfl
      rw [← hn, List.length_append, List.length_cons]
      omega
    · exact whole text hc

/-! ## Literals and a character that is not in them -/

/-- A literal is found in front of a character that it does not hold, or not at all. -/
theorem after?_append_cons {c : Char} {literal : List Char} (h : c ∉ literal)
    (front back : List Char) :
    after? literal (front ++ c :: back) = (after? literal front).map (· ++ c :: back) := by
  fun_induction after? literal front with
  | case1 front => rw [after?, Option.map_some]
  | case2 l literal =>
    rw [List.mem_cons, not_or] at h
    rw [List.nil_append, after?, if_neg (Ne.symm h.1), Option.map_none]
  | case3 literal l front ih =>
    rw [List.mem_cons, not_or] at h
    rw [List.cons_append, after?, if_pos rfl, ih h.2]
  | case4 l literal d front hne => rw [List.cons_append, after?, if_neg hne, Option.map_none]

/-- **A text is cut on one side of such a character**: in front of it, or else behind it. -/
theorem cutAt_append_cons {c : Char} {literal : List Char} (hne : literal ≠ []) (h : c ∉ literal)
    (front back : List Char) :
    cutAt literal (front ++ c :: back) = match cutAt literal front with
      | some (before, rest) => some (before, rest ++ c :: back)
      | none => (cutAt literal back).map fun (before, rest) => (front ++ c :: before, rest) := by
  induction front with
  | nil =>
    have hnot : after? literal (c :: back) = none := by
      have hnil : after? literal [] = none := by
        cases literal with
        | nil => exact absurd rfl hne
        | cons l literal => rfl
      have hafter := after?_append_cons h [] back
      rwa [hnil] at hafter
    simp [cutAt, hnot, hne]
  | cons d front ih =>
    have hafter := after?_append_cons h (d :: front) back
    rw [List.cons_append, cutAt, cutAt, ← List.cons_append, hafter]
    cases after? literal (d :: front) with
    | some rest => rfl
    | none =>
      rw [Option.map_none, ih]
      cases cutAt literal front with
      | some cut => rfl
      | none => simp [Function.comp_def]

/-! ## Separators -/

theorem pieces_of_notMem {separator : Char} {text : List Char} (h : separator ∉ text) :
    pieces separator text = [text] := by
  induction text with
  | nil => rfl
  | cons c text ih =>
    rw [List.mem_cons, not_or] at h
    rw [pieces, if_neg (Ne.symm h.1), ih h.2]

theorem pieces_append_cons {separator : Char} {front : List Char} (h : separator ∉ front)
    (back : List Char) :
    pieces separator (front ++ separator :: back) = front :: pieces separator back := by
  induction front with
  | nil => rw [List.nil_append, pieces, if_pos rfl]
  | cons c front ih =>
    rw [List.mem_cons, not_or] at h
    rw [List.cons_append, pieces, if_neg (Ne.symm h.1), ih h.2]

/-- Joined pieces without separators are cut into these pieces again. -/
theorem pieces_joined {separator : Char} {parts : List (List Char)} (hne : parts ≠ [])
    (h : ∀ piece ∈ parts, separator ∉ piece) :
    pieces separator (joined separator parts) = parts := by
  fun_induction joined separator parts with
  | case1 => exact absurd rfl hne
  | case2 piece => exact pieces_of_notMem (h piece List.mem_cons_self)
  | case3 piece others hothers ih =>
    have hnext : others ≠ [] := by
      rintro rfl
      exact hothers rfl
    rw [pieces_append_cons (h piece List.mem_cons_self),
      ih hnext fun other hother => h other (List.mem_cons_of_mem _ hother)]

/-- Pieces are what the library's own split returns. -/
theorem pieces_eq_splitOn (separator : Char) (text : List Char) :
    pieces separator text = text.splitOn separator := by
  induction text with
  | nil => rfl
  | cons c text ih =>
    rw [List.splitOn, List.splitOnP_cons_eq_if_modifyHead, ← List.splitOn, ← ih, pieces]
    by_cases hc : c = separator
    · rw [if_pos hc, if_pos (by simpa using hc)]
    · rw [if_neg hc, if_neg (by simpa using hc)]
      cases hpieces : pieces separator text with
      | nil => exact absurd hpieces (pieces_ne_nil separator text)
      | cons piece others => rfl

theorem mem_joined_of_mem {separator c : Char} {parts : List (List Char)} {piece : List Char}
    (hpiece : piece ∈ parts) (hc : c ∈ piece) : c ∈ joined separator parts := by
  fun_induction joined separator parts with
  | case1 => exact absurd hpiece List.not_mem_nil
  | case2 first =>
    rw [List.mem_singleton] at hpiece
    exact hpiece ▸ hc
  | case3 first others _ ih =>
    rcases List.mem_cons.1 hpiece with rfl | hpiece
    · exact List.mem_append_left _ hc
    · exact List.mem_append_right _ (List.mem_cons_of_mem _ (ih hpiece))

/-- What is in the joined text is the separator or in one of the pieces. -/
theorem mem_of_mem_joined {separator c : Char} {parts : List (List Char)}
    (hc : c ∈ joined separator parts) : c = separator ∨ ∃ piece ∈ parts, c ∈ piece := by
  fun_induction joined separator parts with
  | case1 => exact absurd hc List.not_mem_nil
  | case2 first => exact .inr ⟨first, List.mem_cons_self, hc⟩
  | case3 first others _ ih =>
    rcases List.mem_append.1 hc with hc | hc
    · exact .inr ⟨first, List.mem_cons_self, hc⟩
    rcases List.mem_cons.1 hc with rfl | hc
    · exact .inl rfl
    obtain h | ⟨piece, hpiece, h⟩ := ih hc
    · exact .inl h
    · exact .inr ⟨piece, List.mem_cons_of_mem _ hpiece, h⟩

/-- The same of parts with a text between every two. -/
theorem mem_of_mem_intercalate {between : List Char} {parts : List (List Char)} {c : Char}
    (hc : c ∈ between.intercalate parts) : c ∈ between ∨ ∃ part ∈ parts, c ∈ part := by
  induction parts with
  | nil => exact absurd hc (by simp)
  | cons part parts ih =>
    cases parts with
    | nil => exact .inr ⟨part, List.mem_cons_self, by simpa using hc⟩
    | cons next parts =>
      rw [List.intercalate_cons_cons, List.mem_append, List.mem_append] at hc
      rcases hc with (hc | hc) | hc
      · exact .inr ⟨part, List.mem_cons_self, hc⟩
      · exact .inl hc
      · obtain h | ⟨other, hother, h⟩ := ih hc
        · exact .inl h
        · exact .inr ⟨other, List.mem_cons_of_mem _ hother, h⟩

/-- Without carriage returns, and with something behind the last line feed, the lines of a text
are the pieces between its line feeds. -/
theorem lines_eq_pieces {text : List Char} (hreturn : '\r' ∉ text)
    (hlast : (pieces '\n' text).getLast? ≠ some []) : lines text = pieces '\n' text := by
  have hne := pieces_ne_nil '\n' text
  rw [List.getLast?_eq_some_getLast hne, ne_eq, Option.some.injEq] at hlast
  have hkept : ∀ line ∈ (pieces '\n' text).dropLast, dropReturn line = id line := by
    intro line hline
    have hmem : '\r' ∉ line := fun hr => hreturn <| by
      rw [← joined_pieces '\n' text]
      exact mem_joined_of_mem (List.dropLast_subset _ hline) hr
    rw [dropReturn, if_neg fun h => hmem (List.mem_of_getLast? h)]
    rfl
  simp only [lines]
  rw [List.map_congr_left hkept, List.map_id, List.getLast?_eq_some_getLast hne, Option.getD_some,
    if_neg (by simpa using hlast), List.dropLast_append_getLast]

/-! ## Pieces and lines without their separators -/

theorem notMem_of_mem_pieces {separator : Char} {text piece : List Char}
    (h : piece ∈ pieces separator text) : separator ∉ piece := by
  induction text generalizing piece with
  | nil =>
    rw [pieces, List.mem_singleton] at h
    simp [h]
  | cons c text ih =>
    rw [pieces] at h
    split at h
    · rcases List.mem_cons.1 h with rfl | h
      · simp
      · exact ih h
    · rename_i hc
      split at h
      · rw [List.mem_singleton] at h
        simp [h, Ne.symm hc]
      · rename_i first others hpieces
        rw [hpieces] at ih
        rcases List.mem_cons.1 h with rfl | h
        · rw [List.mem_cons, not_or]
          exact ⟨Ne.symm hc, ih List.mem_cons_self⟩
        · exact ih (List.mem_cons_of_mem _ h)

/-- No line holds a line feed. -/
theorem feed_notMem_lines {text line : List Char} (h : line ∈ lines text) : '\n' ∉ line := by
  rw [lines, List.mem_append] at h
  rcases h with h | h
  · obtain ⟨piece, hpiece, rfl⟩ := List.mem_map.1 h
    have hfeed := notMem_of_mem_pieces (List.dropLast_subset _ hpiece)
    intro hmem
    unfold dropReturn at hmem
    split at hmem
    · exact hfeed (List.dropLast_subset _ hmem)
    · exact hfeed hmem
  · split at h
    · exact absurd h (by simp)
    · rw [List.mem_singleton] at h
      rw [h, List.getLast?_eq_some_getLast (pieces_ne_nil '\n' text), Option.getD_some]
      exact notMem_of_mem_pieces (List.getLast_mem _)

/-- A line is made of characters of the text. -/
theorem mem_of_mem_lines {text line : List Char} (h : line ∈ lines text) {c : Char}
    (hc : c ∈ line) : c ∈ text := by
  have hpiece : ∀ piece ∈ pieces '\n' text, c ∈ piece → c ∈ text := by
    intro piece hpiece hmem
    rw [← joined_pieces '\n' text]
    exact mem_joined_of_mem hpiece hmem
  rw [lines, List.mem_append] at h
  rcases h with h | h
  · obtain ⟨piece, hmem, rfl⟩ := List.mem_map.1 h
    refine hpiece piece (List.dropLast_subset _ hmem) ?_
    unfold dropReturn at hc
    split at hc
    · exact List.dropLast_subset _ hc
    · exact hc
  · split at h
    · exact absurd h (by simp)
    · rw [List.mem_singleton, List.getLast?_eq_some_getLast (pieces_ne_nil '\n' text),
        Option.getD_some] at h
      exact hpiece line (h ▸ List.getLast_mem _) hc

theorem joined_cons_append (separator : Char) (passed rest : List Char)
    (later : List (List Char)) :
    joined separator ((passed ++ rest) :: later) = passed ++ joined separator (rest :: later) := by
  cases later with
  | nil => rfl
  | cons l later => simp only [joined, List.append_assoc]

theorem joined_cons_of_ne_nil (separator : Char) (piece : List Char) {others : List (List Char)}
    (h : others ≠ []) :
    joined separator (piece :: others) = piece ++ separator :: joined separator others := by
  cases others with
  | nil => exact absurd rfl h
  | cons other others => rfl

/-- What does not hold the separator stands on one side of it. -/
private theorem infix_append_cons {c : Char} {word front back : List Char} (hc : c ∉ word)
    (h : word <:+: front ++ c :: back) : word <:+: front ∨ word <:+: back := by
  have hempty : ∀ {w : List Char}, c ∉ w → w <+: c :: back → w = [] := by
    intro w hw hprefix
    rcases List.prefix_cons_iff.1 hprefix with hnil | ⟨tail, rfl, -⟩
    · exact hnil
    · exact absurd List.mem_cons_self hw
  rcases List.infix_append_iff.1 h with h | h | ⟨left, right, rfl, hleft, hright⟩
  · exact .inl h
  · rcases List.infix_cons_iff.1 h with h | h
    · rw [hempty hc h]
      exact .inl List.nil_infix
    · exact .inr h
  · rw [List.mem_append, not_or] at hc
    rw [hempty hc.2 hright, List.append_nil]
    exact .inl hleft.isInfix

/-- What holds no separator and stands in joined pieces stands in one of them. -/
theorem exists_infix_of_infix_joined {separator : Char} {word : List Char} (hword : word ≠ [])
    (hfree : separator ∉ word) {parts : List (List Char)} (h : word <:+: joined separator parts) :
    ∃ piece ∈ parts, word <:+: piece := by
  induction parts with
  | nil => exact absurd (List.infix_nil.1 h) hword
  | cons piece parts ih =>
    by_cases hparts : parts = []
    · rw [hparts] at h ⊢
      exact ⟨piece, List.mem_singleton_self piece, h⟩
    · rw [joined_cons_of_ne_nil separator piece hparts] at h
      rcases infix_append_cons hfree h with h | h
      · exact ⟨piece, List.mem_cons_self, h⟩
      · obtain ⟨other, hother, h⟩ := ih h
        exact ⟨other, List.mem_cons_of_mem _ hother, h⟩

/-! ## In front of the first literal -/

theorem not_infix_of_cutAt {literal text before rest : List Char} (hliteral : literal ≠ [])
    (h : cutAt literal text = some (before, rest)) : ¬ literal <:+: before := by
  induction text generalizing before with
  | nil => simp [cutAt, hliteral] at h
  | cons c text ih =>
    rw [cutAt] at h
    cases hafter : after? literal (c :: text) with
    | some rest' =>
      rw [hafter] at h
      obtain ⟨rfl, -⟩ := Prod.mk.inj (Option.some.inj h)
      intro hinfix
      exact hliteral (List.infix_nil.1 hinfix)
    | none =>
      rw [hafter] at h
      obtain ⟨⟨before', rest'⟩, hcut, heq⟩ := Option.map_eq_some_iff.1 h
      obtain ⟨rfl, rfl⟩ := Prod.mk.inj heq
      rw [List.infix_cons_iff, not_or]
      refine ⟨?_, ih hcut⟩
      -- a literal at the very front would have been found there
      intro hfront
      have htext : c :: before' <+: c :: text := by
        rw [eq_append_of_cutAt hcut, List.append_assoc, ← List.cons_append]
        exact List.prefix_append _ _
      have hstarts : literal.isPrefixOf (c :: text) :=
        List.isPrefixOf_iff_prefix.2 (hfront.trans htext)
      rw [isPrefixOf_eq, hafter] at hstarts
      exact absurd hstarts (by simp)

/-- A text is cut at a character no later than at its first place. -/
theorem notMem_of_cutAt {c : Char} {text before rest : List Char}
    (h : cutAt [c] text = some (before, rest)) : c ∉ before := by
  intro hc
  obtain ⟨front, back, rfl⟩ := List.append_of_mem hc
  exact not_infix_of_cutAt (List.cons_ne_nil c []) h ⟨front, back, by simp⟩

theorem not_infix_of_cutAt_eq_none {literal text : List Char} (h : cutAt literal text = none) :
    ¬ literal <:+: text := by
  induction text with
  | nil =>
    intro hinfix
    simp [cutAt, List.infix_nil.1 hinfix] at h
  | cons c text ih =>
    rw [cutAt] at h
    cases hafter : after? literal (c :: text) with
    | some rest => simp [hafter] at h
    | none =>
      rw [hafter, Option.map_eq_none_iff] at h
      rw [List.infix_cons_iff, not_or]
      refine ⟨fun hfront => ?_, ih h⟩
      have hstarts := List.isPrefixOf_iff_prefix.2 hfront
      rw [isPrefixOf_eq, hafter] at hstarts
      exact absurd hstarts (by simp)

/-! ## Replacing -/

/-- What stands in the text after a replacement stood in it before, or was put there. -/
theorem mem_of_mem_replaceAll {literal replacement text : List Char} {c : Char}
    (hc : c ∈ replaceAll literal replacement text) : c ∈ replacement ∨ c ∈ text := by
  unfold replaceAll at hc
  generalize 0 = passed at hc
  fun_induction replaceFrom literal replacement passed text with
  | case1 => exact absurd hc List.not_mem_nil
  | case2 passed d text ih => exact (ih hc).imp_right (List.mem_cons_of_mem d)
  | case3 d text _ ih =>
    rcases List.mem_append.1 hc with hc | hc
    · exact .inl hc
    · exact (ih hc).imp_right (List.mem_cons_of_mem d)
  | case4 d text _ ih =>
    rcases List.mem_cons.1 hc with rfl | hc
    · exact .inr List.mem_cons_self
    · exact (ih hc).imp_right (List.mem_cons_of_mem d)

/-- Nothing is replaced in a text that does not hold the first character of the literal. -/
theorem replaceAll_of_notMem {l : Char} {literal text : List Char} (h : l ∉ text)
    (replacement : List Char) : replaceAll (l :: literal) replacement text = text := by
  induction text with
  | nil => rfl
  | cons c text ih =>
    rw [List.mem_cons, not_or] at h
    have hstarts : ¬ startsWith (l :: literal) (c :: text) := by
      simp [startsWith, after?, h.1]
    rw [replaceAll, replaceFrom, if_neg hstarts]
    exact congrArg (c :: ·) (ih h.2)

end Marginalia.Text
