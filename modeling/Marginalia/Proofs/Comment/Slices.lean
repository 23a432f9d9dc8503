/-
Comments are slices of the source.

A comment that the scan returns names its place by a line and a column, and
carries a text. Here both are held against the lines of the source: what
stands at the named place is the delimiter followed by the text, character for
character. The scan itself never looks back at the source. It counts lines and
columns along the way and keeps only what is still unread, so the argument is
one invariant: **what is unread at a cursor is the source from its line and
column on** (`Cursor.StandsIn`). `advanced_advance` says what one advance does
to it, by what it finds, and `slices_lexemesFrom` carries it through the scan.

With the same invariant the places come out in order. An advance never goes
back, a comment starts behind the cursor it was found from and ends at the
cursor after it, and from there the next comment is looked for; so comments
come in the order of their places and never overlap.
-/
import Marginalia.Proofs.Comment.Refinement
import Mathlib.Data.Prod.Lex

set_option autoImplicit false

namespace Marginalia

/-! ## The source from a place on -/

namespace Text

/-- The lines of a source from a place on. The place is in the line of this number, counted from
one, and behind this many of its characters. -/
def ahead (source : List (List Char)) (line column : Nat) : List (List Char) :=
  match source.drop (line - 1) with
  | [] => []
  | first :: later => first.drop column :: later

variable {source : List (List Char)} {line column : Nat} {first : List Char}
  {later : List (List Char)}

theorem ahead_one_zero (source : List (List Char)) : ahead source 1 0 = source := by
  cases source <;> rfl

theorem ahead_eq_cons (h : ahead source line column = first :: later) :
    ∃ whole, source.drop (line - 1) = whole :: later ∧ whole.drop column = first := by
  unfold ahead at h
  split at h
  · exact absurd h (by simp)
  · rename_i whole later' hdrop
    obtain ⟨hfirst, rfl⟩ := List.cons.inj h
    exact ⟨whole, hdrop, hfirst⟩

/-- The line that a place is in, read from the place on. -/
theorem getElem?_of_ahead (h : ahead source line column = first :: later) :
    (source[line - 1]?).map (·.drop column) = some first := by
  obtain ⟨whole, hdrop, hfirst⟩ := ahead_eq_cons h
  have hwhole : source[line - 1]? = some whole := by
    rw [← List.head?_drop, hdrop, List.head?_cons]
  rw [hwhole, Option.map_some, hfirst]

theorem ahead_next (hline : 1 ≤ line) (h : ahead source line column = first :: later) :
    ahead source (line + 1) 0 = later := by
  obtain ⟨whole, hdrop, -⟩ := ahead_eq_cons h
  have hlater : source.drop (line + 1 - 1) = later := by
    have hsucc : line + 1 - 1 = line - 1 + 1 := by omega
    rw [hsucc, ← List.drop_drop, hdrop, List.drop_one, List.tail_cons]
  unfold ahead
  rw [hlater]
  cases later <;> rfl

theorem ahead_within {passed rest : List Char}
    (h : ahead source line column = (passed ++ rest) :: later) :
    ahead source line (column + passed.length) = rest :: later := by
  obtain ⟨whole, hdrop, hfirst⟩ := ahead_eq_cons h
  have hrest : whole.drop (column + passed.length) = rest := by
    rw [← List.drop_drop, hfirst, List.drop_left]
  unfold ahead
  rw [hdrop, ← hrest]

/-- What stands in no line of the source stands in none of its lines from a place on. -/
theorem notMem_of_mem_ahead {c : Char} (hsource : ∀ l ∈ source, c ∉ l) :
    ∀ l ∈ ahead source line column, c ∉ l := by
  intro l hl
  unfold ahead at hl
  split at hl
  · exact absurd hl (by simp)
  · rename_i whole later' hdrop
    have hmem : ∀ l ∈ whole :: later', l ∈ source := by
      intro l hl
      rw [← hdrop] at hl
      exact List.mem_of_mem_drop hl
    rcases List.mem_cons.1 hl with rfl | hl
    · intro hc
      exact hsource whole (hmem whole List.mem_cons_self) (List.mem_of_mem_drop hc)
    · exact hsource l (hmem l (List.mem_cons_of_mem _ hl))

end Text

/-! ## Through a block comment -/

namespace Scan

open Text

variable {closer : List Char} {unread lines after : List (List Char)}

/-- The lines of a block comment, its closer and what follows it put the unread text together. -/
theorem joined_of_closeBlock (h : closeBlock closer unread = some (lines, after)) :
    joined '\n' unread = joined '\n' lines ++ closer ++ joined '\n' after := by
  induction unread generalizing lines with
  | nil => simp [closeBlock] at h
  | cons line later ih =>
    rw [closeBlock] at h
    cases hcut : cutAt closer line with
    | some cut =>
      obtain ⟨before, rest⟩ := cut
      rw [hcut] at h
      obtain ⟨rfl, rfl⟩ := Prod.mk.inj (Option.some.inj h)
      rw [eq_append_of_cutAt hcut, joined_cons_append]
      rfl
    | none =>
      rw [hcut] at h
      obtain ⟨⟨lines', after'⟩, hlater, heq⟩ := Option.map_eq_some_iff.1 h
      obtain ⟨rfl, rfl⟩ := Prod.mk.inj heq
      have hne : later ≠ [] := by
        rintro rfl
        simp [closeBlock] at hlater
      rw [joined_cons_of_ne_nil _ _ hne, joined_cons_of_ne_nil _ _ (closeBlock_ne_nil hlater),
        ih hlater]
      simp

theorem not_infix_of_closeBlock (hcloser : closer ≠ [])
    (h : closeBlock closer unread = some (lines, after)) :
    ∀ line ∈ lines, ¬ closer <:+: line := by
  induction unread generalizing lines with
  | nil => simp [closeBlock] at h
  | cons line later ih =>
    rw [closeBlock] at h
    cases hcut : cutAt closer line with
    | some cut =>
      rw [hcut] at h
      obtain ⟨rfl, -⟩ := Prod.mk.inj (Option.some.inj h)
      intro l hl
      rw [List.mem_singleton.1 hl]
      exact not_infix_of_cutAt hcloser hcut
    | none =>
      rw [hcut] at h
      obtain ⟨⟨lines', after'⟩, hlater, heq⟩ := Option.map_eq_some_iff.1 h
      obtain ⟨rfl, rfl⟩ := Prod.mk.inj heq
      intro l hl
      rcases List.mem_cons.1 hl with rfl | hl
      · exact not_infix_of_cutAt_eq_none hcut
      · exact ih hlater l hl

/-- The closer stands in one of the unread lines. -/
theorem infix_of_closeBlock (h : closeBlock closer unread = some (lines, after)) :
    ∃ line ∈ unread, closer <:+: line := by
  induction unread generalizing lines with
  | nil => simp [closeBlock] at h
  | cons line later ih =>
    rw [closeBlock] at h
    cases hcut : cutAt closer line with
    | some cut => exact ⟨line, List.mem_cons_self, cut.1, cut.2, (eq_append_of_cutAt hcut).symm⟩
    | none =>
      rw [hcut] at h
      obtain ⟨⟨lines', after'⟩, hlater, heq⟩ := Option.map_eq_some_iff.1 h
      obtain ⟨rfl, rfl⟩ := Prod.mk.inj heq
      obtain ⟨l, hl, hinfix⟩ := ih hlater
      exact ⟨l, List.mem_cons_of_mem _ hl, hinfix⟩

/-- **No closer before the closer**: it stands in no line of the comment, and having no line feed
it cannot run from one line to the next. -/
theorem not_infix_joined_of_closeBlock (hcloser : closer ≠ [])
    (hfeed : ∀ line ∈ unread, '\n' ∉ line)
    (h : closeBlock closer unread = some (lines, after)) : ¬ closer <:+: joined '\n' lines := by
  intro hinfix
  have hfree : '\n' ∉ closer := by
    obtain ⟨line, hline, hcloser⟩ := infix_of_closeBlock h
    intro hmem
    exact hfeed line hline (hcloser.subset hmem)
  obtain ⟨line, hline, hinfix⟩ := exists_infix_of_infix_joined hcloser hfree hinfix
  exact not_infix_of_closeBlock hcloser h line hline hinfix

/-- Behind a block comment the source goes on with what is left unread. -/
theorem ahead_of_closeBlock {source : List (List Char)} {line column : Nat} (hline : 1 ≤ line)
    (hahead : ahead source line column = unread)
    (h : closeBlock closer unread = some (lines, after)) :
    ahead source (line + (lines.length - 1)) (columnBehind column closer lines) = after := by
  induction unread generalizing lines line column with
  | nil => simp [closeBlock] at h
  | cons first later ih =>
    rw [closeBlock] at h
    cases hcut : cutAt closer first with
    | some cut =>
      obtain ⟨before, rest⟩ := cut
      rw [hcut] at h
      obtain ⟨rfl, rfl⟩ := Prod.mk.inj (Option.some.inj h)
      rw [eq_append_of_cutAt hcut] at hahead
      have hcolumn : columnBehind column closer [before] = column + (before ++ closer).length := by
        simp [columnBehind, Nat.add_assoc]
      rw [hcolumn]
      exact ahead_within hahead
    | none =>
      rw [hcut] at h
      obtain ⟨⟨lines', after'⟩, hlater, heq⟩ := Option.map_eq_some_iff.1 h
      obtain ⟨rfl, rfl⟩ := Prod.mk.inj heq
      have hrest := ih (by omega) (ahead_next hline hahead) hlater
      obtain ⟨second, others, rfl⟩ := List.exists_cons_of_ne_nil (closeBlock_ne_nil hlater)
      have hline' : line + ((first :: second :: others).length - 1)
          = line + 1 + ((second :: others).length - 1) := by
        simp only [List.length_cons]
        omega
      have hcolumn : columnBehind column closer (first :: second :: others)
          = columnBehind 0 closer (second :: others) := by
        simp [columnBehind]
      rw [hline', hcolumn]
      exact hrest

end Scan

/-! ## Slices -/

namespace Lexeme

/-- The place of the opening delimiter, with its first character counted. -/
def start (x : Lexeme) : ℕ ×ₗ ℕ :=
  toLex (x.position.line, x.position.column)

/-- Whether a comment takes in the character with this number, counted from one, of this line. -/
def Covers (x : Lexeme) (line column : Nat) : Prop :=
  x.start ≤ toLex (line, column) ∧ toLex (line, column) ≤ toLex x.behind

/-- A comment is a slice of the source: what stands there from its first character on is its
delimiter, its text and, in a block comment, its closer, and then the source goes on behind it. A
block comment may be decorated, and then its text is what its lines say without the decoration. -/
structure IsSlice (d : Delimiters) (source : List (List Char)) (x : Lexeme) : Prop where
  line_pos : 1 ≤ x.position.line
  column_pos : 1 ≤ x.position.column
  nonempty : x.start ≤ toLex x.behind
  line : x.form = .line → ∃ marker ∈ d.lineMarkers,
    (source[x.position.line - 1]?).map (·.drop (x.position.column - 1))
      = some (marker.toList ++ x.text.toList) ∧ x.behind = (x.position.line + 1, 0)
  block : x.form = .block → ∃ opener closer lines, d.block? = some (opener, closer) ∧
    x.text.toList = Gutter.textOf (d.gutter.map String.toList) lines ∧
    Text.joined '\n' (Text.ahead source x.position.line (x.position.column - 1))
      = opener ++ Text.joined '\n' lines ++ closer
        ++ Text.joined '\n' (Text.ahead source x.behind.1 x.behind.2) ∧
    ¬ closer <:+: Text.joined '\n' lines

end Lexeme

namespace Delimiters

theorem exists_of_block? {d : Delimiters} {opener closer : List Char}
    (h : d.block? = some (opener, closer)) :
    ∃ o c : String, d.blockStart = some o ∧ d.blockEnd = some c ∧
      o.toList = opener ∧ c.toList = closer := by
  unfold block? at h
  split at h
  · rename_i o c ho hc
    split at h
    · exact absurd h (by simp)
    · obtain ⟨ho', hc'⟩ := Prod.mk.inj (Option.some.inj h)
      exact ⟨o, c, ho, hc, ho', hc'⟩
  · exact absurd h (by simp)

/-- A comment is opened by delimiters that are listed. -/
theorem listed_of_opening? {d : Delimiters} {text rest : List Char} {opening : Opening}
    (h : d.opening? text = some (opening, rest)) :
    (∀ marker, opening = .line marker → ∃ m ∈ d.lineMarkers, m.toList = marker) ∧
      ∀ opener closer, opening = .block opener closer → d.block? = some (opener, closer) := by
  rw [opening?_eq] at h
  cases hb : d.blockAt? text with
  | some b =>
    rw [hb] at h
    obtain ⟨rfl, -⟩ := Prod.mk.inj (Option.some.inj h)
    refine ⟨fun marker hmarker => by simp at hmarker, ?_⟩
    rintro opener closer ⟨⟩
    exact (Option.filter_eq_some_iff.1 hb).1
  | none =>
    rw [hb] at h
    obtain ⟨m, hm, heq⟩ := Option.map_eq_some_iff.1 h
    obtain ⟨rfl, -⟩ := Prod.mk.inj heq
    refine ⟨?_, fun opener closer hblock => by simp at hblock⟩
    rintro marker ⟨⟩
    exact ⟨m, List.mem_of_find?_eq_some hm, rfl⟩

/-- The stretch before a comment, the delimiter and what follows it put the stretch together. -/
theorem firstComment_eq_comment {d : Delimiters} {openRaw : Option Char}
    {text code rest : List Char} {opening : Opening}
    (h : d.firstComment openRaw text = .comment code opening rest) :
    text = code ++ (opening.mark ++ rest) ∧
      d.opening? (opening.mark ++ rest) = some (opening, rest) := by
  rw [firstComment_eq] at h
  obtain ⟨tail, rfl, hopening⟩ := search_eq_comment h
  have htail := (opening?_eq_some hopening).1
  rw [← htail]
  exact ⟨rfl, hopening⟩

end Delimiters

namespace Scan

open Text

/-- What is unread at a cursor is the source from its line and column on. -/
structure Cursor.StandsIn (source : List (List Char)) (cursor : Cursor) : Prop where
  line_pos : 1 ≤ cursor.line
  ahead_eq : ahead source cursor.line cursor.column = cursor.unread

/-- The place of a cursor. -/
def Cursor.place (cursor : Cursor) : ℕ ×ₗ ℕ :=
  toLex (cursor.line, cursor.column)

section Step

variable {d : Delimiters} {file : String} {source : List (List Char)} {cursor : Cursor}
  {line code rest : List Char} {later : List (List Char)}

theorem standsIn_start (text : List Char) : (Cursor.start text).StandsIn (Text.lines text) :=
  ⟨Nat.le_refl 1, ahead_one_zero _⟩

/-- At a comment, the source goes on with its delimiter. -/
theorem ahead_before {opening : Opening} (h : cursor.StandsIn source)
    (hunread : cursor.unread = line :: later)
    (hfirst : d.firstComment cursor.openRaw line = .comment code opening rest) :
    ahead source cursor.line (cursor.column + code.length)
      = (opening.mark ++ rest) :: later := by
  have hahead := h.ahead_eq
  rw [hunread, (Delimiters.firstComment_eq_comment hfirst).1] at hahead
  exact ahead_within hahead

/-- The comment found by an advance, as it lies in the source up to the cursor behind it. -/
def lexemeOf (c : Comment) (after : Cursor) : Lexeme :=
  ⟨c.form, c.position, c.text, (after.line, after.column)⟩

/-- What one advance from a cursor says about the source, by what it finds. -/
def Advanced (d : Delimiters) (source : List (List Char)) (cursor : Cursor) :
    Option (Except Unclosed Comment) × Cursor → Prop
  | (none, after) => after.StandsIn source ∧ cursor.place < after.place
  | (some (.ok c), after) =>
    after.StandsIn source ∧ cursor.place < (lexemeOf c after).start ∧
      (lexemeOf c after).IsSlice d source
  | (some (.error _), after) => after.unread = []

theorem advanced_plain {openRaw : Option Char} (h : cursor.StandsIn source)
    (hunread : cursor.unread = line :: later) :
    Advanced d source cursor
      (none, { cursor with lineCode := cursor.lineCode ++ line, openRaw }.endLine later) := by
  have hnext := h.ahead_eq
  rw [hunread] at hnext
  refine ⟨⟨by simp [Cursor.endLine], ?_⟩, ?_⟩
  · exact ahead_next h.line_pos hnext
  · rw [Cursor.place, Cursor.place, Prod.Lex.toLex_lt_toLex]
    exact .inl (Nat.lt_succ_self _)

/-- A line comment is the rest of its line. -/
theorem advanced_line {marker : List Char} {following : Option String}
    (h : cursor.StandsIn source) (hunread : cursor.unread = line :: later)
    (hfirst : d.firstComment cursor.openRaw line = .comment code (.line marker) rest) :
    Advanced d source cursor
      (some (.ok (commentAt file (cursor.before code) .line rest following)),
        (cursor.before code).endLine later) := by
  have hahead : ahead source cursor.line (cursor.column + code.length)
      = (marker ++ rest) :: later := ahead_before h hunread hfirst
  obtain ⟨-, hopening⟩ := Delimiters.firstComment_eq_comment hfirst
  obtain ⟨m, hm, rfl⟩ := (Delimiters.listed_of_opening? hopening).1 marker rfl
  refine ⟨⟨by simp [Cursor.endLine], ?_⟩, ?_, ?_⟩
  · exact ahead_next h.line_pos hahead
  · rw [Cursor.place, Lexeme.start, Prod.Lex.toLex_lt_toLex]
    exact .inr ⟨rfl, Nat.lt_succ_of_le (Nat.le_add_right _ _)⟩
  refine ⟨h.line_pos, Nat.succ_le_succ (Nat.zero_le _), ?_, fun _ => ?_, fun hform => ?_⟩
  · rw [Lexeme.start, Prod.Lex.toLex_le_toLex]
    exact .inl (Nat.lt_succ_self _)
  · refine ⟨m, hm, ?_, rfl⟩
    have hrest := getElem?_of_ahead hahead
    simpa [lexemeOf, commentAt, Cursor.before] using hrest
  · exact absurd hform (by simp [lexemeOf, commentAt])

/-- A block comment ends behind its opener, or in a line further down. -/
private theorem start_le_behind {opener closer : List Char} (hopener : opener ≠ [])
    (line column : Nat) (lines : List (List Char)) :
    toLex (line, column + 1)
      ≤ toLex (line + (lines.length - 1), columnBehind (column + opener.length) closer lines) := by
  have hpos := List.length_pos_iff.2 hopener
  rw [Prod.Lex.toLex_le_toLex]
  by_cases hone : lines.length ≤ 1
  · right
    simp only [columnBehind, if_pos hone]
    omega
  · left
    simp only
    omega

/-- A block comment runs from its opener to its first closer. -/
theorem isSlice_block {opener closer : List Char} {lines unread : List (List Char)}
    (hfeed : ∀ l ∈ source, '\n' ∉ l) (h : cursor.StandsIn source)
    (hunread : cursor.unread = line :: later)
    (hfirst : d.firstComment cursor.openRaw line = .comment code (.block opener closer) rest)
    (hclose : closeBlock closer (rest :: later) = some (lines, unread)) :
    Lexeme.IsSlice d source
      ⟨.block, ⟨file, cursor.line, cursor.column + code.length + 1⟩,
        String.ofList (Gutter.textOf (d.gutter.map String.toList) lines),
        (cursor.line + (lines.length - 1),
          columnBehind (cursor.column + code.length + opener.length) closer lines)⟩ := by
  have hahead : ahead source cursor.line (cursor.column + code.length)
      = (opener ++ rest) :: later := ahead_before h hunread hfirst
  have htext : ahead source cursor.line (cursor.column + code.length + opener.length)
      = rest :: later := ahead_within hahead
  have hbehind := ahead_of_closeBlock h.line_pos htext hclose
  obtain ⟨-, hopening⟩ := Delimiters.firstComment_eq_comment hfirst
  have hblock := (Delimiters.listed_of_opening? hopening).2 opener closer rfl
  obtain ⟨hopener, hcloser⟩ := Delimiters.block?_ne_nil hblock
  refine ⟨h.line_pos, Nat.succ_le_succ (Nat.zero_le _), start_le_behind hopener _ _ lines,
    fun hform => by simp at hform, fun _ => ?_⟩
  refine ⟨opener, closer, lines, hblock, String.toList_ofList, ?_, ?_⟩
  · rw [Nat.add_sub_cancel, hahead, hbehind, joined_cons_append, joined_of_closeBlock hclose]
    simp only [List.append_assoc]
  · refine not_infix_joined_of_closeBlock hcloser ?_ hclose
    rw [← htext]
    exact notMem_of_mem_ahead hfeed

theorem advanced_block {opener closer : List Char} {lines unread : List (List Char)}
    {following : Option String} (hfeed : ∀ l ∈ source, '\n' ∉ l)
    (h : cursor.StandsIn source) (hunread : cursor.unread = line :: later)
    (hfirst : d.firstComment cursor.openRaw line = .comment code (.block opener closer) rest)
    (hclose : closeBlock closer (rest :: later) = some (lines, unread)) :
    Advanced d source cursor
      (some (.ok (commentAt file (cursor.before code) .block
          (Gutter.textOf (d.gutter.map String.toList) lines) following)),
        (cursor.before code).endBlock opener.length closer lines unread) := by
  have htext : ahead source cursor.line (cursor.column + code.length + opener.length)
      = rest :: later := ahead_within (ahead_before h hunread hfirst)
  have hline : ((cursor.before code).endBlock opener.length closer lines unread).line
      = cursor.line + (lines.length - 1) := line_endBlock
  have hcolumn : ((cursor.before code).endBlock opener.length closer lines unread).column
      = columnBehind (cursor.column + code.length + opener.length) closer lines := column_endBlock
  refine ⟨⟨?_, ?_⟩, ?_, ?_⟩
  · rw [hline]
    exact Nat.le_trans h.line_pos (Nat.le_add_right _ _)
  · rw [hline, hcolumn, unread_endBlock]
    exact ahead_of_closeBlock h.line_pos htext hclose
  · rw [Cursor.place, Lexeme.start, Prod.Lex.toLex_lt_toLex]
    exact .inr ⟨rfl, Nat.lt_succ_of_le (Nat.le_add_right _ _)⟩
  · rw [lexemeOf, hline, hcolumn]
    exact isSlice_block hfeed h hunread hfirst hclose

/-- **One advance.** The cursor keeps standing in the source, it only goes forward, and a comment
that is found is a slice of the source. -/
theorem advanced_advance (file : String) (hfeed : ∀ l ∈ source, '\n' ∉ l)
    (h : cursor.StandsIn source) (hunread : cursor.unread = line :: later) :
    Advanced d source cursor (advance d file cursor line later) := by
  cases hfirst : d.firstComment cursor.openRaw line with
  | plain openRaw =>
    rw [advance_plain hfirst]
    exact advanced_plain h hunread
  | comment code opening rest =>
    cases opening with
    | line marker =>
      rw [advance_line hfirst]
      exact advanced_line h hunread hfirst
    | block opener closer =>
      cases hclose : closeBlock closer (rest :: later) with
      | none =>
        rw [advance_unclosed hfirst hclose]
        rfl
      | some closed =>
        rw [advance_block hfirst hclose]
        exact advanced_block hfeed h hunread hfirst hclose

/-- What holds of each comment that an advance finds holds of all that are found. -/
theorem forall_itemsFrom {P : Comment → Prop} (hfeed : ∀ l ∈ source, '\n' ∉ l)
    (hstep : ∀ cursor line later c after, cursor.StandsIn source → cursor.unread = line :: later →
      advance d file cursor line later = (some (.ok c), after) → P c)
    (h : cursor.StandsIn source) : ∀ c, .ok c ∈ itemsFrom d file cursor → P c := by
  induction cursor using itemsFrom.induct d file with
  | case1 cursor hunread =>
    rw [itemsFrom_nil hunread]
    simp
  | case2 cursor line later hunread step ih =>
    intro c hc
    have hadvanced : Advanced d source cursor step := advanced_advance file hfeed h hunread
    rw [itemsFrom_cons hunread] at hc
    change .ok c ∈ step.1.toList ++ itemsFrom d file step.2 at hc
    have hadvance : advance d file cursor line later = step := rfl
    obtain ⟨item, after⟩ := step
    rw [List.mem_append] at hc
    rcases item with _ | e | found
    · exact ih hadvanced.1 c (hc.resolve_left (by simp))
    · -- a comment that is not closed ends the scan
      rw [itemsFrom_nil hadvanced] at hc
      exact absurd hc (by simp)
    · rcases hc with hc | hc
      · obtain rfl : c = found := by simpa using hc
        exact hstep cursor line later c after h hunread hadvance
      · exact ih hadvanced.1 c hc

end Step

/-! ## The whole scan -/

/-- The comments of a text as they lie in it. -/
def lexemesFrom (d : Delimiters) (file : String) (cursor : Cursor) : List Lexeme :=
  (traceFrom d file cursor).filterMap fun item => (lexeme item).toOption

/-- **The scan.** From wherever a cursor stands, the comments found are slices of the source, the
first starts behind the cursor, and each starts behind the one before it. -/
theorem slices_lexemesFrom (d : Delimiters) (file : String) {source : List (List Char)}
    (hfeed : ∀ l ∈ source, '\n' ∉ l) {cursor : Cursor} (h : cursor.StandsIn source) :
    (∀ x ∈ lexemesFrom d file cursor, cursor.place < x.start ∧ x.IsSlice d source) ∧
      (lexemesFrom d file cursor).Pairwise fun a b => toLex a.behind < b.start := by
  induction cursor using traceFrom.induct d file with
  | case1 cursor hunread =>
    rw [lexemesFrom, traceFrom_nil hunread]
    simp
  | case2 cursor line later hunread next ih =>
    have hstep : Advanced d source cursor next := advanced_advance file hfeed h hunread
    rw [lexemesFrom, traceFrom_cons hunread]
    change (∀ x ∈ ((next.1.map (·, next.2)).toList ++ traceFrom d file next.2).filterMap _, _) ∧
      (((next.1.map (·, next.2)).toList ++ traceFrom d file next.2).filterMap _).Pairwise _
    obtain ⟨item, after⟩ := next
    rcases item with _ | e | c
    · obtain ⟨hafter, hplace⟩ := hstep
      obtain ⟨hslices, hpairwise⟩ := ih hafter
      refine ⟨fun x hx => ?_, hpairwise⟩
      obtain ⟨hx, hslice⟩ := hslices x hx
      exact ⟨hplace.trans hx, hslice⟩
    · rw [traceFrom_nil hstep]
      simp [lexeme, Except.toOption]
    · obtain ⟨hafter, hplace, hslice⟩ := hstep
      obtain ⟨hslices, hpairwise⟩ := ih hafter
      have hlist : ((Option.map (·, after) (some (Except.ok c))).toList
            ++ traceFrom d file after).filterMap (fun item => (lexeme item).toOption)
          = lexemeOf c after :: lexemesFrom d file after := rfl
      rw [hlist]
      constructor
      · intro x hx
        rcases List.mem_cons.1 hx with rfl | hx
        · exact ⟨hplace, hslice⟩
        · obtain ⟨hx, hslice'⟩ := hslices x hx
          exact ⟨hplace.trans (hslice.nonempty.trans_lt hx), hslice'⟩
      · rw [List.pairwise_cons]
        exact ⟨fun x hx => (hslices x hx).1, hpairwise⟩

/-- Without decoration, the text of a block comment is what stands between its delimiters. -/
theorem plain_of_isSlice {d : Delimiters} {source : List (List Char)} {x : Lexeme}
    (h : x.IsSlice d source) (hform : x.form = .block) (hgutter : d.gutter = none) :
    ∃ opener closer : String, d.blockStart = some opener ∧ d.blockEnd = some closer ∧
      opener.toList ++ x.text.toList ++ closer.toList
        <+: joined '\n' (ahead source x.position.line (x.position.column - 1)) ∧
      ¬ closer.toList <:+: x.text.toList := by
  obtain ⟨opener, closer, lines, hblock, htext, hsource, hcloser⟩ := h.block hform
  have hplain : x.text.toList = joined '\n' lines := by
    rw [htext, hgutter]
    cases lines <;> rfl
  obtain ⟨o, c, hstart, hend, rfl, rfl⟩ := Delimiters.exists_of_block? hblock
  refine ⟨o, c, hstart, hend, ?_, ?_⟩
  · rw [hsource, hplain]
    exact List.prefix_append _ _
  · rw [hplain]
    exact hcloser

/-- The lexemes are the comments that the scan returns. -/
theorem map_lexemesFrom (d : Delimiters) (file text : String) :
    (lexemesFrom d file (.start text.toList)).map (fun x => (x.form, x.position, x.text))
      = ((comments d file text).filterMap Except.toOption).map
          fun c => (c.form, c.position, c.text) := by
  rw [comments, ← map_fst_traceFrom, lexemesFrom, List.filterMap_map, List.map_filterMap,
    List.map_filterMap]
  refine List.filterMap_congr fun item _ => ?_
  obtain ⟨error | comment, cursor⟩ := item <;> rfl

/-- **Comments are disjoint slices of the source.** The comments that the scan returns come in the
order of their places, no character belongs to two of them, and each is what stands in the source
at its line and column. -/
theorem comments_disjoint_slices (d : Delimiters) (file text : String) :
    (lexemesFrom d file (.start text.toList)).map (fun x => (x.form, x.position, x.text))
        = ((comments d file text).filterMap Except.toOption).map
            (fun c => (c.form, c.position, c.text)) ∧
      (((comments d file text).filterMap Except.toOption).Pairwise fun a b =>
        toLex (a.position.line, a.position.column) < toLex (b.position.line, b.position.column)) ∧
      ((lexemesFrom d file (.start text.toList)).Pairwise fun a b =>
        ∀ line column, ¬ (a.Covers line column ∧ b.Covers line column)) ∧
      ∀ x ∈ lexemesFrom d file (.start text.toList),
        x.IsSlice d (Text.lines text.toList) ∧
        (x.form = .block → d.gutter = none →
          ∃ opener closer : String, d.blockStart = some opener ∧ d.blockEnd = some closer ∧
            opener.toList ++ x.text.toList ++ closer.toList
              <+: joined '\n' (ahead (Text.lines text.toList) x.position.line
                (x.position.column - 1)) ∧
            ¬ closer.toList <:+: x.text.toList) := by
  have hfeed : ∀ l ∈ Text.lines text.toList, '\n' ∉ l := fun l => feed_notMem_lines
  have hmap := map_lexemesFrom d file text
  obtain ⟨hslices, hbehind⟩ :=
    slices_lexemesFrom d file hfeed (standsIn_start text.toList)
  refine ⟨hmap, ?_, ?_, fun x hx => ⟨(hslices x hx).2, plain_of_isSlice (hslices x hx).2⟩⟩
  · have hpositions : (lexemesFrom d file (.start text.toList)).map Lexeme.position
        = ((comments d file text).filterMap Except.toOption).map Comment.position := by
      have hparts := congrArg (List.map fun t => t.2.1) hmap
      rw [List.map_map, List.map_map] at hparts
      exact hparts
    have hstarts : ((lexemesFrom d file (.start text.toList)).map Lexeme.position).Pairwise
        fun p q => toLex (p.line, p.column) < toLex (q.line, q.column) := by
      rw [List.pairwise_map]
      refine hbehind.imp_of_mem fun {a b} ha _ hab => ?_
      exact (hslices a ha).2.nonempty.trans_lt hab
    rw [hpositions, List.pairwise_map] at hstarts
    exact hstarts
  · refine hbehind.imp fun {a b} hab line column hboth => ?_
    -- a character of both would stand at or before the end of the first, and behind it
    obtain ⟨⟨-, hfirst⟩, ⟨hsecond, -⟩⟩ := hboth
    exact absurd (hab.trans_le hsecond) (not_lt_of_ge hfirst)

end Scan

end Marginalia
