/-
The code before a comment.

A comment comes with the code before it on its line and with the code of the
nearest line above that has any. The scan collects both piece by piece: code
is added up to the next comment, a line comment and the end of a line clear
what was collected, and a block comment does so only if it ends in another
line. Here the two are read off the source instead (`codeBefore`, `codeAbove`),
and the collected ones are shown to be the same.

The invariant is `Cursor.Recalls`: **what a cursor has collected is what stands
before it in the source**. One advance passes some code and then none. The
code is added on both sides; over no code, nothing changes as long as the
cursor stays in its line (`codeBefore_of_noCode`), and otherwise the line it
leaves becomes the nearest one that may have code (`codeAbove_of_noCode`).
-/
import Marginalia.Proofs.Comment.Code

set_option autoImplicit false

namespace Marginalia

namespace Scan

variable {xs : List Lexeme} {source : List (List Char)} {line column : Nat}

/-! ## What stands before a place -/

/-- The code of a line. -/
def codeOf (xs : List Lexeme) (source : List (List Char)) (line : Nat) : List Char :=
  codeFrom xs line 0 (lineAt source line)

/-- The code among this many first characters of a line. -/
def codeBefore (xs : List Lexeme) (source : List (List Char)) (line column : Nat) : List Char :=
  codeFrom xs line 0 ((lineAt source line).take column)

/-- The code, without its blank ends, of the nearest line above this one that has any. -/
def codeAbove (xs : List Lexeme) (source : List (List Char)) (line : Nat) : Option String :=
  (List.range' 1 (line - 1)).reverse.findSome? fun l => codeText (codeOf xs source l)

theorem codeBefore_zero : codeBefore xs source line 0 = [] := by
  rw [codeBefore, List.take_zero, codeFrom_nil]

theorem codeBefore_of_length_le (h : (lineAt source line).length ≤ column) :
    codeBefore xs source line column = codeOf xs source line := by
  rw [codeBefore, List.take_of_length_le h, codeOf]

theorem codeBefore_add (column more : Nat) :
    codeBefore xs source line (column + more)
      = codeBefore xs source line column
        ++ codeFrom xs line (min column (lineAt source line).length)
          (((lineAt source line).drop column).take more) := by
  unfold codeBefore
  rw [List.take_add, codeFrom_append, List.length_take, Nat.zero_add]

/-- Code right behind a place is added to the code before it. -/
theorem codeBefore_of_isCode {code : List Char}
    (hfront : code <+: (lineAt source line).drop column)
    (hcode : ∀ c, column < c → c ≤ column + code.length → isCode xs line c = true) :
    codeBefore xs source line (column + code.length) = codeBefore xs source line column ++ code := by
  rw [codeBefore_add, ← List.prefix_iff_eq_take.1 hfront]
  -- a place may lie behind the end of its line, but then there is no code behind it
  by_cases hempty : code = []
  · rw [hempty, codeFrom_nil]
  · have hlength := hfront.length_le
    have hpos := List.length_pos_iff.2 hempty
    rw [List.length_drop] at hlength
    have hcolumn : min column (lineAt source line).length = column := by omega
    rw [hcolumn, codeFrom_of_isCode hcode]

theorem NoCode.mono {place place' upTo upTo' : ℕ ×ₗ ℕ} (h : NoCode xs source place upTo)
    (hplace : place ≤ place') (hupTo : upTo' ≤ upTo) : NoCode xs source place' upTo' := by
  intro l c hpos hlength hl hc
  exact h l c hpos hlength (hplace.trans_lt hl) (hc.trans hupTo)

/-- Within a line, what is no code adds nothing. -/
theorem codeBefore_of_noCode {column' : Nat} (hle : column ≤ column')
    (h : NoCode xs source (toLex (line, column)) (toLex (line, column'))) :
    codeBefore xs source line column' = codeBefore xs source line column := by
  obtain ⟨more, rfl⟩ := Nat.exists_eq_add_of_le hle
  rw [codeBefore_add, codeFrom_of_noCode, List.append_nil]
  intro c hc hlength
  rw [List.length_take, List.length_drop] at hlength
  apply h line c (by omega) (by omega)
  · rw [place_lt_iff]
    omega
  · rw [place_le_iff]
    omega

/-- The code of a line that has none behind a place is the code before that place. -/
theorem codeOf_of_noCode (h : NoCode xs source (toLex (line, column)) (toLex (line + 1, 0))) :
    codeOf xs source line = codeBefore xs source line column := by
  rw [← codeBefore_of_length_le (Nat.le_max_right column _)]
  refine codeBefore_of_noCode (Nat.le_max_left _ _) (h.mono (le_refl _) ?_)
  rw [place_le_iff]
  omega

theorem codeAbove_succ (h : 1 ≤ line) :
    codeAbove xs source (line + 1)
      = (codeText (codeOf xs source line)).or (codeAbove xs source line) := by
  have hrange : List.range' 1 (line + 1 - 1) = List.range' 1 (line - 1) ++ [line] := by
    obtain ⟨before, rfl⟩ := Nat.exists_eq_add_of_le h
    rw [Nat.add_sub_cancel, Nat.add_sub_cancel_left, Nat.add_comm 1 before, List.range'_concat,
      Nat.one_mul, Nat.add_comm 1 before]
  unfold codeAbove
  rw [hrange, List.reverse_append, List.reverse_singleton, List.singleton_append,
    List.findSome?_cons]
  cases codeText (codeOf xs source line) <;> rfl

/-- From a place on to a later line without passing code, the nearest code above is the code before
the place. -/
theorem codeAbove_of_noCode {line' : Nat} (hline : 1 ≤ line) (hlt : line < line')
    (h : NoCode xs source (toLex (line, column)) (toLex (line', 0))) :
    codeAbove xs source line'
      = (codeText (codeBefore xs source line column)).or (codeAbove xs source line) := by
  induction line', hlt using Nat.le_induction with
  | base => rw [codeAbove_succ hline, codeOf_of_noCode h]
  | succ line' hlt ih =>
    have hbetween : toLex (line', 0) ≤ toLex (line' + 1, 0) := place_le_iff.2 (by omega)
    have hbehind : toLex (line, column) ≤ toLex (line', 0) := place_le_iff.2 (by omega)
    -- the line passed last has no code at all
    have hempty : codeText (codeOf xs source line') = none := by
      rw [codeOf_of_noCode (h.mono hbehind (le_refl _)), codeBefore_zero]
      rfl
    rw [codeAbove_succ (by omega), hempty, Option.none_or]
    exact ih (h.mono (le_refl _) hbetween)

theorem codeAbove_eq_none_iff :
    codeAbove xs source line = none
      ↔ ∀ l, 1 ≤ l → l < line → Text.allBlank (codeOf xs source l) := by
  unfold codeAbove
  rw [List.findSome?_eq_none_iff]
  constructor
  · intro h l hpos hlt
    apply codeText_eq_none_iff.1
    apply h l
    rw [List.mem_reverse, List.mem_range'_1]
    omega
  · intro h l hl
    rw [List.mem_reverse, List.mem_range'_1] at hl
    exact codeText_eq_none_iff.2 (h l hl.1 (by omega))

/-! ## What a cursor has collected -/

/-- The code that a cursor has collected is the code before it. -/
structure Cursor.Recalls (xs : List Lexeme) (source : List (List Char)) (cursor : Cursor) :
    Prop where
  lineCode : cursor.lineCode = codeBefore xs source cursor.line cursor.column
  precedingCode : cursor.precedingCode = codeAbove xs source cursor.line

/-- On the way from one cursor to another no code is collected: within a line nothing changes, and
a line that is left hands its code on. -/
structure Cursor.Keeps (cursor after : Cursor) : Prop where
  within : after.line = cursor.line →
    after.lineCode = cursor.lineCode ∧ after.precedingCode = cursor.precedingCode
  leaving : cursor.line < after.line →
    after.lineCode = [] ∧ after.precedingCode = (codeText cursor.lineCode).or cursor.precedingCode

theorem Cursor.keeps_endBlock (cursor : Cursor) (past : Nat) (closer : List Char)
    (lines unread : List (List Char)) :
    cursor.Keeps (cursor.endBlock past closer lines unread) := by
  unfold Cursor.endBlock
  by_cases hone : lines.length ≤ 1
  · rw [if_pos hone]
    exact ⟨fun _ => ⟨rfl, rfl⟩, fun hlt => absurd hlt (Nat.lt_irrefl _)⟩
  · rw [if_neg hone]
    refine ⟨fun hsame => ?_, fun _ => ⟨rfl, rfl⟩⟩
    simp only at hsame
    omega

section Step

variable {d : Delimiters} {file : String} {cursor after : Cursor} {code : List Char}

theorem recalls_start (text : List Char) : (Cursor.start text).Recalls xs source where
  lineCode := codeBefore_zero.symm
  precedingCode := rfl

/-- In front of a comment, the cursor has collected the code up to it. -/
theorem Cursor.Recalls.before (h : cursor.Recalls xs source)
    (hpasses : cursor.Passes xs source code after) : (cursor.before code).Recalls xs source where
  lineCode := by
    show cursor.lineCode ++ code = codeBefore xs source cursor.line (cursor.column + code.length)
    rw [codeBefore_of_isCode hpasses.front hpasses.allCode, h.lineCode]
  precedingCode := h.precedingCode

/-- What a cursor recalls survives a way without code. -/
theorem Cursor.Recalls.keeps {here : Cursor} (h : here.Recalls xs source) (hline : 1 ≤ here.line)
    (hnoCode : NoCode xs source here.place after.place) (hle : here.place ≤ after.place)
    (hkeeps : here.Keeps after) : after.Recalls xs source := by
  rw [Cursor.place, Cursor.place, place_le_iff] at hle
  by_cases hsame : after.line = here.line
  · obtain ⟨hlineCode, hprecedingCode⟩ := hkeeps.within hsame
    constructor
    · rw [hlineCode, h.lineCode, hsame]
      rw [Cursor.place, Cursor.place, hsame] at hnoCode
      exact (codeBefore_of_noCode (by omega) hnoCode).symm
    · rw [hprecedingCode, h.precedingCode, hsame]
  · -- nothing of the new line has been collected, and its characters so far are no code
    have hlt : here.line < after.line := by omega
    obtain ⟨hlineCode, hprecedingCode⟩ := hkeeps.leaving hlt
    have hfirst : toLex (after.line, 0) ≤ after.place := place_le_iff.2 (by omega)
    have hbefore : here.place ≤ toLex (after.line, 0) := place_le_iff.2 (by omega)
    constructor
    · rw [hlineCode, codeBefore_of_noCode (Nat.zero_le _) (hnoCode.mono hbefore (le_refl _)),
        codeBefore_zero]
    · rw [hprecedingCode, h.lineCode, h.precedingCode]
      exact (codeAbove_of_noCode hline hlt (hnoCode.mono (le_refl _) hfirst)).symm

/-- The cursor behind a comment, or behind a line without one. -/
theorem Cursor.Recalls.passes (h : cursor.Recalls xs source) (hline : 1 ≤ cursor.line)
    (hpasses : cursor.Passes xs source code after) (hkeeps : (cursor.before code).Keeps after) :
    after.Recalls xs source := by
  refine (h.before hpasses).keeps hline hpasses.noCode (le_trans ?_ hpasses.further) hkeeps
  exact place_le_iff.2 (.inr ⟨rfl, Nat.le_succ _⟩)

/-! ## Through the scan -/

/-- The code before a comment is told as it stands in the source. -/
structure TellsBefore (xs : List Lexeme) (source : List (List Char)) (c : Comment) : Prop where
  code : c.code
    = codeText (codeBefore xs source c.position.line (c.position.column - 1))
  attached : c.attached = c.code.isSome
  precedingCode : c.precedingCode = codeAbove xs source c.position.line

theorem tellsBefore_commentAt (h : cursor.Recalls xs source) (form : CommentForm) (text : List Char)
    (followingCode : Option String) :
    TellsBefore xs source (commentAt file cursor form text followingCode) where
  code := congrArg codeText h.lineCode
  attached := rfl
  precedingCode := h.precedingCode

/-- What one advance tells about the code before what it finds. -/
def Told (d : Delimiters) (file : String) (source : List (List Char)) (xs : List Lexeme) :
    Option (Except Unclosed Comment) × Cursor → Prop
  | (none, after) => after.Within d file source xs ∧ after.Recalls xs source
  | (some (.ok c), after) =>
    after.Within d file source xs ∧ after.Recalls xs source ∧ TellsBefore xs source c
  | (some (.error _), after) => after.unread = []

/-- **One advance.** The cursor keeps recalling the code before it, and so does the comment it
finds. -/
theorem told_advance {line : List Char} {later : List (List Char)}
    (hfeed : ∀ l ∈ source, '\n' ∉ l) (h : cursor.Within d file source xs)
    (hrecalls : cursor.Recalls xs source) (hunread : cursor.unread = line :: later) :
    Told d file source xs (advance d file cursor line later) := by
  cases hfirst : d.firstComment cursor.openRaw line with
  | plain openRaw =>
    have hadvance : advance d file cursor line later = _ := advance_plain hfirst
    obtain ⟨hwithin, hpasses⟩ := h.advance_none hfeed hunread hadvance rfl
    rw [hadvance]
    refine ⟨hwithin, hrecalls.passes h.line_pos hpasses ⟨fun hsame => ?_, fun _ => ⟨rfl, rfl⟩⟩⟩
    exact absurd hsame (Nat.succ_ne_self _)
  | comment code opening rest =>
    cases opening with
    | line marker =>
      have hadvance : advance d file cursor line later = _ := advance_line hfirst
      obtain ⟨hwithin, hpasses⟩ := h.advance_ok hfeed hunread hfirst hadvance
      rw [hadvance]
      refine ⟨hwithin, hrecalls.passes h.line_pos hpasses ⟨fun hsame => ?_, fun _ => ⟨rfl, rfl⟩⟩,
        tellsBefore_commentAt (hrecalls.before hpasses) _ _ _⟩
      exact absurd hsame (Nat.succ_ne_self _)
    | block opener closer =>
      cases hclose : closeBlock closer (rest :: later) with
      | none =>
        rw [advance_unclosed hfirst hclose]
        rfl
      | some closed =>
        have hadvance : advance d file cursor line later = _ := advance_block hfirst hclose
        obtain ⟨hwithin, hpasses⟩ := h.advance_ok hfeed hunread hfirst hadvance
        rw [hadvance]
        exact ⟨hwithin, hrecalls.passes h.line_pos hpasses (Cursor.keeps_endBlock _ _ _ _ _),
          tellsBefore_commentAt (hrecalls.before hpasses) _ _ _⟩

/-- **The scan.** From a cursor that recalls the code before it, all comments do. -/
theorem tellsBefore_itemsFrom (hfeed : ∀ l ∈ source, '\n' ∉ l)
    (h : cursor.Within d file source xs) (hrecalls : cursor.Recalls xs source) :
    ∀ c, .ok c ∈ itemsFrom d file cursor → TellsBefore xs source c := by
  induction cursor using itemsFrom.induct d file with
  | case1 cursor hunread =>
    intro c hc
    rw [itemsFrom_nil hunread] at hc
    exact absurd hc (by simp)
  | case2 cursor line later hunread next ih =>
    have hstep : Told d file source xs next := told_advance hfeed h hrecalls hunread
    intro c hc
    rw [itemsFrom_cons hunread, List.mem_append] at hc
    change .ok c ∈ next.1.toList ∨ .ok c ∈ itemsFrom d file next.2 at hc
    obtain ⟨item, after⟩ := next
    rcases item with _ | e | found
    · obtain ⟨hwithin, hafter⟩ := hstep
      rcases hc with hc | hc
      · exact absurd hc (by simp)
      · exact ih hwithin hafter c hc
    · rw [itemsFrom_nil hstep] at hc
      exact absurd hc (by simp)
    · obtain ⟨hwithin, hafter, htells⟩ := hstep
      rcases hc with hc | hc
      · obtain rfl : c = found := by simpa using hc
        exact htells
      · exact ih hwithin hafter c hc

end Step

end Scan

end Marginalia
