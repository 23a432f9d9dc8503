/-
A note does not depend on how far its prose is indented.

The same prose may stand in a comment at the margin and in one that is three
levels deep, and the two must be read as one note, or they would be reported as
contradicting each other. So shifting all lines below the marker by the same
white space changes nothing, and neither does what a blank line consists of.

The reason is that both the shared width and what is dropped of each line move
along with the shift. Widths are in bytes, and a line in which the shared width
ends inside a character is not dedented at all. Lines indented by characters of
a single byte are never cut that way. For these, dedenting can be said in
characters: **every line loses the same number of them**, all of them white
space, and so many that one of the lines is left with none in front.
-/
import Marginalia.Proofs.Note.Links
import Marginalia.Proofs.Note.WellFormed

set_option autoImplicit false

namespace Marginalia

namespace Prose

/-! ## Bytes of single-byte characters -/

theorem dropBytes_cons {count : Nat} (h : 0 < count) (c : Char) (text : List Char) :
    dropBytes count (c :: text)
      = if c.utf8Size ≤ count then dropBytes (count - c.utf8Size) text else none := by
  obtain ⟨count, rfl⟩ := Nat.exists_eq_succ_of_ne_zero (Nat.pos_iff_ne_zero.1 h)
  rfl

/-- The bytes of a front are dropped with the front. -/
theorem dropBytes_append (front back : List Char) (count : Nat) :
    dropBytes (bytes front + count) (front ++ back) = dropBytes count back := by
  induction front with
  | nil => rw [bytes, Nat.zero_add, List.nil_append]
  | cons c front ih =>
    have hpos := c.utf8Size_pos
    rw [List.cons_append, dropBytes_cons (by rw [bytes]; omega), bytes, if_pos (by omega), ← ih]
    congr 1
    omega

/-- A text of which every character is a single byte. -/
def Narrow (text : List Char) : Prop :=
  ∀ c ∈ text, c.utf8Size = 1

-- decided over the characters of the text, not over all characters there are
instance (text : List Char) : Decidable (Narrow text) :=
  decidable_of_iff (text.all fun c => c.utf8Size = 1) (by simp [Narrow])

theorem Narrow.bytes_eq {text : List Char} (h : Narrow text) : bytes text = text.length := by
  induction text with
  | nil => rfl
  | cons c text ih =>
    rw [Narrow, List.forall_mem_cons] at h
    rw [bytes, ih h.2, h.1, List.length_cons]
    omega

/-- In a front of single bytes, dropping bytes is dropping characters. -/
theorem Narrow.dropBytes_eq {front : List Char} (h : Narrow front) {count : Nat}
    (hcount : count ≤ front.length) (back : List Char) :
    dropBytes count (front ++ back) = some ((front ++ back).drop count) := by
  induction front generalizing count with
  | nil =>
    obtain rfl : count = 0 := Nat.le_zero.1 hcount
    rw [dropBytes, List.drop_zero]
  | cons c front ih =>
    rw [Narrow, List.forall_mem_cons] at h
    cases count with
    | zero => rw [dropBytes, List.drop_zero]
    | succ count =>
      rw [List.length_cons] at hcount
      rw [List.cons_append, dropBytes, h.1, if_pos (by omega), List.drop_succ_cons]
      exact ih h.2 (by omega)

/-! ## One line -/

section Line

variable {line : List Char} (hline : ¬ Text.allBlank line)
  (hnarrow : Narrow (line.takeWhile Text.isBlank))

include hnarrow

theorem indentation_narrow : indentation line = (line.takeWhile Text.isBlank).length := by
  rw [indentation, hnarrow.bytes_eq]

theorem dropBytes_narrow {width : Nat} (hwidth : width ≤ indentation line) :
    dropBytes width line = some (line.drop width) := by
  rw [indentation_narrow hnarrow] at hwidth
  have hdrop := hnarrow.dropBytes_eq hwidth (line.dropWhile Text.isBlank)
  rwa [List.takeWhile_append_dropWhile] at hdrop

include hline in
theorem dedentLine_narrow {width : Nat} (hwidth : width ≤ indentation line) :
    dedentLine width line = line.drop width := by
  rw [dedentLine, if_neg hline, dropBytes_narrow hnarrow hwidth, Option.getD_some]

/-- Only white space is dropped. -/
theorem allBlank_take_narrow {width : Nat} (hwidth : width ≤ indentation line) :
    Text.allBlank (line.take width) := by
  rw [indentation_narrow hnarrow] at hwidth
  rw [Text.allBlank, List.all_eq_true]
  intro c hc
  rw [← List.takeWhile_append_dropWhile (p := Text.isBlank) (l := line),
    List.take_append_of_le_length hwidth] at hc
  exact List.mem_takeWhile_imp (List.mem_of_mem_take hc)

include hline in
/-- A line that loses all of its own indentation starts with a character that is not blank. -/
theorem head?_drop_indentation :
    ∃ c ∈ (line.drop (indentation line)).head?, ¬ Text.isBlank c := by
  have hdrop : line.drop (indentation line) = Text.trimStart line := by
    have hleft : (line.takeWhile Text.isBlank ++ line.dropWhile Text.isBlank).drop
        (line.takeWhile Text.isBlank).length = line.dropWhile Text.isBlank := List.drop_left
    rw [List.takeWhile_append_dropWhile] at hleft
    rw [indentation_narrow hnarrow, hleft, Text.trimStart]
  rw [hdrop]
  cases htrim : Text.trimStart line with
  | nil => exact absurd (Text.trimStart_eq_nil_iff.1 htrim) hline
  | cons c rest =>
    refine ⟨c, rfl, ?_⟩
    have hstop := List.head?_dropWhile_not Text.isBlank line
    rw [← Text.trimStart, htrim] at hstop
    simpa using hstop

end Line

/-! ## Lines below a marker -/

/-- Lines as they stand below a marker, at least one of them with something in it. Carriage returns
belong to line ends and are in no line that is not blank, and what a line is indented by is made of
single bytes. -/
structure Indented (below : List (List Char)) : Prop where
  oneLine : ∀ line ∈ below, '\n' ∉ line
  noReturn : ∀ line ∈ below, ¬ Text.allBlank line → '\r' ∉ line
  narrow : ∀ line ∈ below, ¬ Text.allBlank line → Narrow (line.takeWhile Text.isBlank)
  notBlank : ∃ line ∈ below, ¬ Text.allBlank line

theorem dropEmptyEnds_concat_nil (lines : List (List Char)) :
    dropEmptyEnds (lines ++ [[]]) = dropEmptyEnds lines := by
  have hends : ∀ l : List (List Char),
      dropEmptyEnds l = (l.dropWhile List.isEmpty).rdropWhile List.isEmpty := fun _ => rfl
  rw [hends, hends, List.dropWhile_append]
  split
  · rename_i hempty
    rw [List.isEmpty_iff.1 hempty]
    rfl
  · exact List.rdropWhile_concat_pos _ _ _ rfl

/-- A carriage return at the end of a line is taken off only where the line is blank. -/
theorem allBlank_dropReturn {line : List Char} (h : ¬ Text.allBlank line → '\r' ∉ line) :
    Text.dropReturn line = line ∨ Text.allBlank line ∧ Text.allBlank (Text.dropReturn line) := by
  unfold Text.dropReturn
  split
  · rename_i hreturn
    right
    have hblank : Text.allBlank line := by
      by_contra hnot
      exact h hnot (List.mem_of_getLast? hreturn)
    refine ⟨hblank, ?_⟩
    rw [Text.allBlank, List.all_eq_true] at hblank ⊢
    intro c hc
    exact hblank c (List.dropLast_subset line hc)
  · exact .inl rfl

section Returns

variable {lines : List (List Char)}
  (h : ∀ line ∈ lines, ¬ Text.allBlank line → '\r' ∉ line)

include h

/-- Line ends play no part in which lines are not blank. -/
theorem filter_map_dropReturn :
    (lines.map Text.dropReturn).filter (fun line => !Text.allBlank line)
      = lines.filter fun line => !Text.allBlank line := by
  induction lines with
  | nil => rfl
  | cons line lines ih =>
    rw [List.forall_mem_cons] at h
    rw [List.map_cons, List.filter_cons, List.filter_cons, ih h.2]
    rcases allBlank_dropReturn h.1 with hsame | ⟨hblank, hblank'⟩
    · rw [hsame]
    · simp [hblank, hblank']

theorem map_dedentLine_dropReturn (width : Nat) :
    (lines.map Text.dropReturn).map (dedentLine width) = lines.map (dedentLine width) := by
  rw [List.map_map]
  apply List.map_congr_left
  intro line hline
  rcases allBlank_dropReturn (h line hline) with hsame | ⟨hblank, hblank'⟩
  · rw [Function.comp_apply, hsame]
  · rw [Function.comp_apply, dedentLine_of_allBlank width hblank, dedentLine_of_allBlank width hblank']

end Returns

/-- **The body of joined lines** is made of these lines. The line feeds between them are cut at
again, and a last line that is empty is lost but would be dropped anyway. -/
theorem dedent_joined {below : List (List Char)} (hne : below ≠ [])
    (hfeed : ∀ line ∈ below, '\n' ∉ line)
    (hreturn : ∀ line ∈ below, ¬ Text.allBlank line → '\r' ∉ line) (first : List Char) :
    dedent first (Text.joined '\n' below)
      = Text.joined '\n' (dropEmptyEnds (opening first ++ dedented below)) := by
  obtain ⟨init, last, rfl⟩ := (List.eq_nil_or_concat' below).resolve_left hne
  have hlines : Text.lines (Text.joined '\n' (init ++ [last]))
      = init.map Text.dropReturn ++ if last.isEmpty then [] else [last] := by
    rw [Text.lines, Text.pieces_joined hne hfeed]
    simp
  have hinit : ∀ line ∈ init, ¬ Text.allBlank line → '\r' ∉ line :=
    fun line hline => hreturn line (List.mem_append_left _ hline)
  rw [dedent_eq, hlines]
  by_cases hlast : last = []
  · -- such a line counts neither for the width nor for what is kept
    subst hlast
    have hwidth : commonIndentation (init.map Text.dropReturn) = commonIndentation (init ++ [[]]) := by
      rw [commonIndentation, commonIndentation, filter_map_dropReturn hinit, List.filter_append]
      simp [Text.allBlank]
    have hdedented : dedented (init ++ [[]]) = dedented (init.map Text.dropReturn) ++ [[]] := by
      rw [dedented, dedented, hwidth, map_dedentLine_dropReturn hinit, List.map_append]
      rfl
    rw [hdedented, ← List.append_assoc, dropEmptyEnds_concat_nil, List.isEmpty_nil, if_pos rfl,
      List.append_nil]
  · have hempty : ¬ last.isEmpty := by simpa using hlast
    have hwidth : commonIndentation (init.map Text.dropReturn ++ [last])
        = commonIndentation (init ++ [last]) := by
      rw [commonIndentation, commonIndentation, List.filter_append, List.filter_append,
        filter_map_dropReturn hinit]
    rw [if_neg hempty, dedented, hwidth, List.map_append, map_dedentLine_dropReturn hinit, dedented,
      List.map_append]

/-! ## Shifted lines -/

/-- **The same line further in.** A line with something in it gets the margin in front, and a blank
line may become any other. -/
inductive Shifted (margin : List Char) : List Char → List Char → Prop where
  | blank {line line' : List Char} (h : Text.allBlank line) (h' : Text.allBlank line')
      (hfeed : '\n' ∉ line') : Shifted margin line line'
  | text {line : List Char} (h : ¬ Text.allBlank line) : Shifted margin line (margin ++ line)

theorem not_allBlank_append {margin line : List Char} (h : ¬ Text.allBlank line) :
    ¬ Text.allBlank (margin ++ line) := by
  rw [Text.allBlank, List.all_append, Bool.and_eq_true]
  exact fun hboth => h hboth.2

section Shift

variable {margin : List Char} (hmargin : Text.allBlank margin)

include hmargin

theorem indentation_margin_append (line : List Char) :
    indentation (margin ++ line) = bytes margin + indentation line := by
  rw [Text.allBlank, List.all_eq_true] at hmargin
  rw [indentation, List.takeWhile_append_of_pos hmargin, indentation]
  induction margin with
  | nil => simp [bytes]
  | cons c margin ih =>
    rw [List.forall_mem_cons] at hmargin
    rw [List.cons_append, bytes, bytes, ih hmargin.2]
    omega

variable {lines lines' : List (List Char)} (h : List.Forall₂ (Shifted margin) lines lines')

include h

/-- The widths of the lines move along with them. -/
theorem widths_shifted : widths lines' = (widths lines).map (bytes margin + ·) := by
  unfold widths
  induction h with
  | nil => rfl
  | cons hline _ ih =>
    cases hline with
    | blank hblank hblank' => simpa [hblank, hblank'] using ih
    | text htext =>
      have htext' : ¬ Text.allBlank (margin ++ _) := not_allBlank_append htext
      rw [List.filter_cons_of_pos (by simpa using htext'),
        List.filter_cons_of_pos (by simpa using htext), List.map_cons, List.map_cons, List.map_cons,
        ih, indentation_margin_append hmargin]

/-- So does the width they share. -/
theorem commonIndentation_shifted (hsome : ∃ line ∈ lines, ¬ Text.allBlank line) :
    commonIndentation lines' = bytes margin + commonIndentation lines := by
  obtain ⟨hmem, hle⟩ := List.min?_eq_some_iff.1 (min?_widths hsome)
  have hmin : (widths lines').min? = some (bytes margin + commonIndentation lines) := by
    rw [widths_shifted hmargin h, List.min?_eq_some_iff]
    refine ⟨List.mem_map_of_mem hmem, ?_⟩
    intro width hwidth
    obtain ⟨unshifted, hunshifted, rfl⟩ := List.mem_map.1 hwidth
    have := hle unshifted hunshifted
    omega
  have heq : commonIndentation lines' = (widths lines').min?.getD 0 := rfl
  rw [heq, hmin, Option.getD_some]

/-- **Shifted lines are dedented to the same lines.** -/
theorem dedented_shifted (hindented : Indented lines) : dedented lines' = dedented lines := by
  have hwidth := commonIndentation_shifted hmargin h hindented.notBlank
  have hle := (commonIndentation_least hindented.notBlank).2
  have hnarrow := hindented.narrow
  rw [dedented, hwidth, dedented]
  -- the width is that of all the lines, and stays the same while the induction takes lines off
  generalize commonIndentation lines = width at hle
  clear hindented hwidth
  induction h with
  | nil => rfl
  | @cons line line' lines lines' hline _ ih =>
    rw [List.forall_mem_cons] at hle hnarrow
    rw [List.map_cons, List.map_cons, ih hnarrow.2 hle.2]
    congr 1
    cases hline with
    | blank hblank hblank' =>
      rw [dedentLine_of_allBlank _ hblank, dedentLine_of_allBlank _ hblank']
    | text htext =>
      have hdrop := dropBytes_narrow (hnarrow.1 htext) (hle.1 htext)
      have htext' : ¬ Text.allBlank (margin ++ _) := not_allBlank_append htext
      rw [dedentLine, if_neg htext', dropBytes_append, hdrop, Option.getD_some,
        dedentLine_narrow htext (hnarrow.1 htext) (hle.1 htext)]

/-- Shifted lines are lines, with something in them. -/
theorem Indented.shifted (hindented : Indented lines) (hreturn : '\r' ∉ margin)
    (hfeed : '\n' ∉ margin) :
    (∀ line ∈ lines', '\n' ∉ line) ∧ (∀ line ∈ lines', ¬ Text.allBlank line → '\r' ∉ line) ∧
    ∃ line ∈ lines', ¬ Text.allBlank line := by
  have hlines : ∀ line' ∈ lines', ∃ line ∈ lines, Shifted margin line line' := by
    clear hindented
    induction h with
    | nil => simp
    | cons hline _ ih =>
      rw [List.forall_mem_cons]
      refine ⟨⟨_, List.mem_cons_self, hline⟩, ?_⟩
      intro line' hline'
      obtain ⟨line, hmem, hshifted⟩ := ih line' hline'
      exact ⟨line, List.mem_cons_of_mem _ hmem, hshifted⟩
  refine ⟨?_, ?_, ?_⟩
  · intro line' hline'
    obtain ⟨line, hline, hshifted⟩ := hlines line' hline'
    cases hshifted with
    | blank _ _ hblank => exact hblank
    | text _ => simpa [hfeed] using hindented.oneLine line hline
  · intro line' hline' hblank'
    obtain ⟨line, hline, hshifted⟩ := hlines line' hline'
    cases hshifted with
    | blank _ hblank _ => exact absurd hblank hblank'
    | text htext => simpa [hreturn] using hindented.noReturn line hline htext
  · -- the width of a line that is not blank is found again among the shifted ones
    obtain ⟨line, hline, hblank⟩ := hindented.notBlank
    have hwidth : bytes margin + indentation line ∈ widths lines' := by
      rw [widths_shifted hmargin h]
      exact List.mem_map_of_mem (mem_widths.2 ⟨line, hline, hblank, rfl⟩)
    obtain ⟨line', hline', hblank', -⟩ := mem_widths.1 hwidth
    exact ⟨line', hline', hblank'⟩

end Shift

/-! ## What becomes of the lines, in characters -/

/-- **The body of a text and the lines below it.** From every line that is not blank the same
number of characters is taken, all of them white space, and one of the lines is left with none in
front. Blank lines are emptied, and empty lines at both ends of it all are dropped. -/
def Flattened (first : List Char) (below : List (List Char)) (body : String) : Prop :=
  ∃ (width : Nat) (kept : List (List Char)),
    (∀ line ∈ below, ¬ Text.allBlank line → width ≤ line.length ∧ Text.allBlank (line.take width)) ∧
    (∃ line ∈ below, ∃ c ∈ (line.drop width).head?, ¬ Text.isBlank c) ∧
    EndsDropped
      (opening first ++ below.map fun line => if Text.allBlank line then [] else line.drop width)
      kept ∧
    body.toList = Text.joined '\n' kept

theorem dedented_narrow {below : List (List Char)} (h : Indented below) :
    dedented below
      = below.map fun line =>
          if Text.allBlank line then [] else line.drop (commonIndentation below) := by
  apply List.map_congr_left
  intro line hline
  by_cases hblank : Text.allBlank line
  · rw [dedentLine_of_allBlank _ hblank, if_pos hblank]
  · rw [if_neg hblank]
    exact dedentLine_narrow hblank (h.narrow line hline hblank) (commonIndentation_le hline hblank)

theorem Indented.ne_nil {below : List (List Char)} (h : Indented below) : below ≠ [] := by
  obtain ⟨line, hline, -⟩ := h.notBlank
  exact List.ne_nil_of_mem hline

theorem flattened_dedent {below : List (List Char)} (h : Indented below) (first : List Char) :
    Flattened first below (String.ofList (dedent first (Text.joined '\n' below))) := by
  obtain ⟨⟨narrowest, hnarrowest, hblank, hwidth⟩, hle⟩ := commonIndentation_least h.notBlank
  refine ⟨commonIndentation below, _, ?_, ⟨narrowest, hnarrowest, ?_⟩,
    endsDropped_dropEmptyEnds _, ?_⟩
  · intro line hline hline'
    have hnarrow := h.narrow line hline hline'
    refine ⟨?_, allBlank_take_narrow hnarrow (hle line hline hline')⟩
    have hindent := hle line hline hline'
    rw [indentation_narrow hnarrow] at hindent
    exact hindent.trans (List.takeWhile_sublist _).length_le
  · rw [← hwidth]
    exact head?_drop_indentation hblank (h.narrow narrowest hnarrowest hblank)
  · rw [String.toList_ofList, dedent_joined h.ne_nil h.oneLine h.noReturn, dedented_narrow h]

theorem not_allBlank_joined {below : List (List Char)} (h : ∃ line ∈ below, ¬ Text.allBlank line) :
    ¬ Text.allBlank (Text.joined '\n' below) := by
  obtain ⟨line, hline, hblank⟩ := h
  intro hall
  apply hblank
  rw [Text.allBlank, List.all_eq_true] at hall ⊢
  intro c hc
  exact hall c (Text.mem_joined_of_mem hline hc)

end Prose

namespace Note

open Prose (Indented Shifted Flattened opener)

/-! ## Comments made of lines -/

/-- The text of a comment with these lines. -/
def layout (first : List Char) (below : List (List Char)) : String :=
  String.ofList (Text.joined '\n' (first :: below))

/-- A line that starts, behind white space, with a marker. -/
structure IsMarkerLine (line : List Char) : Prop where
  oneLine : '\n' ∉ line
  starts : opener <+: Text.trimStart line

/-- The text on a marker's line, behind the path and the attributes. -/
def markerText? (line : List Char) : Option (List Char) := do
  let opened ← Text.after? opener (Text.trimStart line)
  let (_, behind) ← Text.cutAt [']'] opened
  let (_, remainder) ← (Attributes.read behind).toOption
  pure (Text.trim remainder)

section Reader

variable {heuristic : Heuristic} {comment : Comment}

/-- A comment of a marker's line and further lines is read as its parts. -/
theorem read_layout {opened first : List Char} {below : List (List Char)}
    (hfirst : Text.trimStart first = opener ++ opened) (hne : below ≠ []) :
    read heuristic { comment with text := layout first below }
      = match readMarker comment heuristic (above opened (some (Text.joined '\n' below))) with
        | .ok note => .note note
        | .error fault => .malformed fault := by
  have htext : (layout first below).toList = first ++ '\n' :: Text.joined '\n' below := by
    rw [layout, String.toList_ofList, Text.joined_cons_of_ne_nil _ _ hne]
  have htrim : Text.trimStart (layout first below).toList
      = opener ++ above opened (some (Text.joined '\n' below)) := by
    have hsplit : first = first.takeWhile Text.isBlank ++ (opener ++ opened) := by
      rw [← hfirst, Text.trimStart, List.takeWhile_append_dropWhile]
    rw [htext, hsplit, List.append_assoc, Text.trimStart_append List.all_takeWhile,
      List.append_assoc]
    exact List.dropWhile_cons_of_neg (by decide)
  unfold read
  simp only [htrim, Text.after?_append]
  rfl

theorem formOf_prose {rest : List Char} (h : ¬ Text.allBlank rest) (a : Attributes)
    (inline : List Char) :
    formOf comment heuristic a inline (some rest)
      = .ok (blockForm (some (String.ofList (Prose.dedent inline rest))) a) := by
  rw [formOf_eq, Option.filter_some_pos (by simpa using h)]

/-- Of the lines below the marker only the body counts. -/
theorem readMarker_congr {line rest rest' : List Char} (hfeed : '\n' ∉ line)
    (h : ¬ Text.allBlank rest) (h' : ¬ Text.allBlank rest')
    (hdedent : ∀ first, Prose.dedent first rest' = Prose.dedent first rest) :
    readMarker comment heuristic (above line (some rest'))
      = readMarker comment heuristic (above line (some rest)) := by
  rw [readMarker_line hfeed, readMarker_line hfeed]
  simp only [formOf_prose h, formOf_prose h', hdedent]

/-- A note with something below the marker is a block, and has that for its body if it is
collected. -/
theorem exists_block {line rest : List Char} {note : Note} (hfeed : '\n' ∉ line)
    (hrest : ¬ Text.allBlank rest)
    (h : readMarker comment heuristic (above line (some rest)) = .ok note) :
    ∃ (parts : Parts comment heuristic line (some rest) note) (prose : Block),
      note.form = .block prose ∧
      prose.body = if prose.collected then some (String.ofList (Prose.dedent parts.inline rest))
        else none := by
  obtain ⟨parts⟩ := nonempty_parts hfeed h
  have hformed := parts.formed
  generalize note.form = form at hformed
  cases hformed with
  | prose rest' hbelow =>
    obtain rfl := Option.some.inj hbelow
    refine ⟨parts, _, rfl, ?_⟩
    have hframed := Prose.framed_dedent (parts.feed_notMem_inline hfeed)
      Text.trim_eq_nil_of_allBlank hrest
    have hne : ∀ text ∈ some (String.ofList (Prose.dedent parts.inline rest)), text ≠ "" := by
      simpa using hframed.ne_nil
    refine (filter_body hne parts.attributes).trans ?_
    cases parts.attributes.doNotCollect <;> rfl
  | declaration _ hbelow => exact absurd (hbelow rest rfl) hrest
  | reference hbelow => exact absurd (hbelow rest rfl) hrest
  | remark hbelow => exact absurd (hbelow rest rfl) hrest

theorem Parts.markerText?_eq {opened first : List Char} {below : Option (List Char)} {note : Note}
    (parts : Parts comment heuristic opened below note)
    (hfirst : Text.trimStart first = opener ++ opened) : markerText? first = some parts.inline := by
  have hafter : Text.after? opener (Text.trimStart first) = some opened := by
    rw [hfirst, Text.after?_append]
  have hcut : Text.cutAt [']'] opened = some (parts.inside, parts.behind) := by
    conv_lhs => rw [parts.line_eq]
    exact Text.cutAt_append parts.bracket _
  simp [markerText?, hafter, hcut, parts.attributes_eq, Except.toOption, Parts.inline]

end Reader

/-- **The same prose at another indentation is the same note.** Shifting the lines below a marker
by spaces and tabs, and exchanging blank lines for others, leaves what is read as it is. If that is
a note, it is a block, with a body if it is collected, and the body has all the lines in it, with
the same number of characters taken off and nothing but empty lines dropped at its ends. -/
theorem read_reindented (heuristic : Heuristic) (comment : Comment) {first margin : List Char}
    {below below' : List (List Char)} (hfirst : IsMarkerLine first) (hbelow : Indented below)
    (hmargin : ∀ c ∈ margin, c = ' ' ∨ c = '\t')
    (hshift : List.Forall₂ (Shifted margin) below below') :
    read heuristic { comment with text := layout first below' }
      = read heuristic { comment with text := layout first below } ∧
    ∀ note, read heuristic { comment with text := layout first below } = .note note →
      ∃ prose inline, note.form = .block prose ∧ markerText? first = some inline ∧
        (prose.collected → prose.body.isSome) ∧
        ∀ body ∈ prose.body, Flattened inline below body := by
  obtain ⟨opened, hopened⟩ := hfirst.starts
  have hfeed : '\n' ∉ opened := by
    intro hmem
    apply hfirst.oneLine
    apply (List.dropWhile_suffix Text.isBlank).subset
    rw [← Text.trimStart, ← hopened]
    exact List.mem_append_right _ hmem
  have hblank : Text.allBlank margin := by
    rw [Text.allBlank, List.all_eq_true]
    intro c hc
    rcases hmargin c hc with rfl | rfl <;> decide
  obtain ⟨hfeed', hreturn', hsome'⟩ := hbelow.shifted hblank hshift
    (fun hc => absurd (hmargin _ hc) (by decide)) (fun hc => absurd (hmargin _ hc) (by decide))
  have hne' : below' ≠ [] := by
    obtain ⟨line, hline, -⟩ := hsome'
    exact List.ne_nil_of_mem hline
  have hrest := Prose.not_allBlank_joined hbelow.notBlank
  rw [read_layout hopened.symm hbelow.ne_nil, read_layout hopened.symm hne']
  refine ⟨?_, ?_⟩
  · rw [readMarker_congr hfeed hrest (Prose.not_allBlank_joined hsome')]
    intro inline
    rw [Prose.dedent_joined hne' hfeed' hreturn',
      Prose.dedent_joined hbelow.ne_nil hbelow.oneLine hbelow.noReturn,
      Prose.dedented_shifted hblank hshift hbelow]
  · intro note hnote
    split at hnote
    · rename_i read hread
      obtain rfl := Reading.note.inj hnote
      obtain ⟨parts, prose, hform, hkept⟩ := exists_block hfeed hrest hread
      refine ⟨prose, parts.inline, hform, parts.markerText?_eq hopened.symm, ?_, ?_⟩
      · intro hcollected
        rw [hkept, if_pos hcollected, Option.isSome_some]
      · intro body hbody
        rw [hkept] at hbody
        split at hbody
        · obtain rfl := Option.some.inj hbody
          exact Prose.flattened_dedent hbelow parts.inline
        · exact absurd hbody (by simp)
    · exact absurd hnote (by simp)

/-- A list under a marker, with an item further in and a blank line. -/
def listLines : List (List Char) :=
  ["  - one".toList, [], "    deeper".toList, "  see @[Money]".toList]

/-- The same list with a tab and a space in front, and a blank line that is not empty. -/
def shiftedLines : List (List Char) :=
  ["\t   - one".toList, [' '], "\t     deeper".toList, "\t   see @[Money]".toList]

def listNote : Note :=
  ⟨.single "Rules", ⟨"x.go", 3, 17⟩, .block
    { body := some "Items:\n- one\n\n  deeper\nsee @[Money]"
      nickname := none
      title := none
      mentions := [.single "Money"]
      collected := true }⟩

theorem read_reindented_list :
    List.Forall₂ (Shifted ['\t', ' ']) listLines shiftedLines ∧
    read settleHeuristic { settleComment with text := layout "@[Rules] Items:".toList listLines }
      = .note listNote ∧
    read settleHeuristic { settleComment with text := layout "@[Rules] Items:".toList shiftedLines }
      = .note listNote ∧
    ∃ prose inline, listNote.form = .block prose ∧
      markerText? "@[Rules] Items:".toList = some inline ∧
      (prose.collected → prose.body.isSome) ∧
      ∀ body ∈ prose.body, Flattened inline listLines body := by
  have hfirst : IsMarkerLine "@[Rules] Items:".toList :=
    ⟨by decide, "Rules] Items:".toList, by decide⟩
  have hindented : Indented listLines :=
    ⟨by decide, by decide, by decide, by decide⟩
  have hshift : List.Forall₂ (Shifted ['\t', ' ']) listLines shiftedLines :=
    .cons (.text (by decide)) (.cons (.blank rfl (by decide) (by decide))
      (.cons (.text (by decide)) (.cons (.text (by decide)) .nil)))
  obtain ⟨hsame, hbody⟩ := read_reindented settleHeuristic settleComment hfirst hindented
    (by simp) hshift
  have hread : read settleHeuristic
      { settleComment with text := layout "@[Rules] Items:".toList listLines } = .note listNote := by
    decide +kernel
  exact ⟨hshift, hread, hsame.trans hread, hbody listNote hread⟩

end Note

end Marginalia
