/-
The scan of a text, with the ends of its comments.

What the scan returns says where a comment starts but not where it ends. The
end is where the cursor stands afterwards, so the trace keeps that cursor
beside each item. Everything else here is about one advance of the cursor: it
does one of four things, by what it finds, and each has its equation.
-/
import Marginalia.Comment.Scan
import Marginalia.Proofs.Comment.Search

set_option autoImplicit false

namespace Marginalia

namespace Scan

/-- Everything found from a cursor on, each item with the cursor behind it. -/
def traceFrom (d : Delimiters) (file : String) (cursor : Cursor) :
    List (Except Unclosed Comment × Cursor) :=
  match _h : cursor.unread with
  | [] => []
  | line :: later =>
    let step := advance d file cursor line later
    (step.1.map (·, step.2)).toList ++ traceFrom d file step.2
termination_by weight cursor.unread
decreasing_by
  rw [_h]
  exact weight_advance ..

section Equations

variable {d : Delimiters} {file : String} {cursor : Cursor} {line : List Char}
  {later : List (List Char)}

theorem itemsFrom_nil (h : cursor.unread = []) : itemsFrom d file cursor = [] := by
  unfold itemsFrom
  split
  · rfl
  · simp_all

theorem itemsFrom_cons (h : cursor.unread = line :: later) :
    itemsFrom d file cursor = (advance d file cursor line later).1.toList
      ++ itemsFrom d file (advance d file cursor line later).2 := by
  rw [itemsFrom]
  split
  · simp_all
  · rename_i h'
    obtain ⟨rfl, rfl⟩ := List.cons.inj (h'.symm.trans h)
    rfl

theorem traceFrom_nil (h : cursor.unread = []) : traceFrom d file cursor = [] := by
  unfold traceFrom
  split
  · rfl
  · simp_all

theorem traceFrom_cons (h : cursor.unread = line :: later) :
    traceFrom d file cursor
      = ((advance d file cursor line later).1.map (·, (advance d file cursor line later).2)).toList
        ++ traceFrom d file (advance d file cursor line later).2 := by
  rw [traceFrom]
  split
  · simp_all
  · rename_i h'
    obtain ⟨rfl, rfl⟩ := List.cons.inj (h'.symm.trans h)
    rfl

/-! What an advance does, by what it finds. -/

/-- The cursor in front of a comment, past the code before it. -/
def Cursor.before (cursor : Cursor) (code : List Char) : Cursor :=
  { cursor with
    column := cursor.column + code.length
    lineCode := cursor.lineCode ++ code
    openRaw := none }

variable {openRaw : Option Char} {code rest marker opener closer : List Char}
  {lines unread : List (List Char)}

theorem advance_plain (h : d.firstComment cursor.openRaw line = .plain openRaw) :
    advance d file cursor line later
      = (none, { cursor with lineCode := cursor.lineCode ++ line, openRaw }.endLine later) := by
  simp only [advance, h]

theorem advance_line (h : d.firstComment cursor.openRaw line = .comment code (.line marker) rest) :
    advance d file cursor line later
      = (some (.ok (commentAt file (cursor.before code) .line rest (codeAhead d later))),
        (cursor.before code).endLine later) := by
  simp only [advance, h, Cursor.before]

theorem advance_unclosed
    (h : d.firstComment cursor.openRaw line = .comment code (.block opener closer) rest)
    (hclose : closeBlock closer (rest :: later) = none) :
    advance d file cursor line later
      = (some (.error ⟨⟨file, cursor.line, cursor.column + code.length + 1⟩⟩),
        { cursor.before code with unread := [] }) := by
  simp only [advance, h, hclose, Cursor.before]

theorem advance_block
    (h : d.firstComment cursor.openRaw line = .comment code (.block opener closer) rest)
    (hclose : closeBlock closer (rest :: later) = some (lines, unread)) :
    advance d file cursor line later
      = (some (.ok (commentAt file (cursor.before code) .block
          (Gutter.textOf (d.gutter.map String.toList) lines) (codeBehind d unread))),
        (cursor.before code).endBlock opener.length closer lines unread) := by
  simp only [advance, h, hclose, Cursor.before]

/-- A comment that an advance finds is a line comment, or a block comment that is closed. -/
theorem advance_found {c : Comment} {after : Cursor}
    (h : advance d file cursor line later = (some (.ok c), after)) :
    (∃ code marker rest, d.firstComment cursor.openRaw line = .comment code (.line marker) rest ∧
      c = commentAt file (cursor.before code) .line rest (codeAhead d later) ∧
      after = (cursor.before code).endLine later) ∨
    ∃ code opener closer rest lines unread,
      d.firstComment cursor.openRaw line = .comment code (.block opener closer) rest ∧
      closeBlock closer (rest :: later) = some (lines, unread) ∧
      c = commentAt file (cursor.before code) .block
        (Gutter.textOf (d.gutter.map String.toList) lines) (codeBehind d unread) ∧
      after = (cursor.before code).endBlock opener.length closer lines unread := by
  cases hfirst : d.firstComment cursor.openRaw line with
  | plain openRaw =>
    rw [advance_plain hfirst] at h
    exact absurd h (by simp)
  | comment code opening rest =>
    cases opening with
    | line marker =>
      rw [advance_line hfirst] at h
      obtain ⟨hc, hafter⟩ := Prod.mk.inj h
      exact .inl ⟨code, marker, rest, rfl, (Except.ok.inj (Option.some.inj hc)).symm, hafter.symm⟩
    | block opener closer =>
      cases hclose : closeBlock closer (rest :: later) with
      | none =>
        rw [advance_unclosed hfirst hclose] at h
        exact absurd h (by simp)
      | some closed =>
        rw [advance_block hfirst hclose] at h
        obtain ⟨hc, hafter⟩ := Prod.mk.inj h
        exact .inr ⟨code, opener, closer, rest, closed.1, closed.2, rfl, hclose,
          (Except.ok.inj (Option.some.inj hc)).symm, hafter.symm⟩

end Equations

/-- Apart from the cursors, the trace is what the scan returns. -/
theorem map_fst_traceFrom (d : Delimiters) (file : String) (cursor : Cursor) :
    (traceFrom d file cursor).map Prod.fst = itemsFrom d file cursor := by
  induction cursor using traceFrom.induct d file with
  | case1 cursor h => rw [traceFrom_nil h, itemsFrom_nil h, List.map_nil]
  | case2 cursor line later h step ih =>
    rw [traceFrom_cons h, itemsFrom_cons h, List.map_append, ih, Option.toList_map, List.map_map]
    exact congrArg (· ++ _) (List.map_id _)

/-! ## Behind a block comment -/

theorem closeBlock_ne_nil {closer : List Char} {unread lines after : List (List Char)}
    (h : closeBlock closer unread = some (lines, after)) : lines ≠ [] := by
  cases unread with
  | nil => simp [closeBlock] at h
  | cons line later =>
    rw [closeBlock] at h
    split at h
    · obtain ⟨rfl, -⟩ := Prod.mk.inj (Option.some.inj h)
      simp
    · obtain ⟨x, -, heq⟩ := Option.map_eq_some_iff.1 h
      obtain ⟨rfl, -⟩ := Prod.mk.inj heq
      simp

/-- The column behind a block comment with these lines, whose text starts behind `column`. -/
def columnBehind (column : Nat) (closer : List Char) (lines : List (List Char)) : Nat :=
  (if lines.length ≤ 1 then column else 0) + (lines.getLast?.getD []).length + closer.length

section EndBlock

variable {cursor : Cursor} {past : Nat} {closer : List Char} {lines unread : List (List Char)}

theorem unread_endBlock : (cursor.endBlock past closer lines unread).unread = unread := by
  unfold Cursor.endBlock
  split_ifs <;> rfl

theorem line_endBlock :
    (cursor.endBlock past closer lines unread).line = cursor.line + (lines.length - 1) := by
  unfold Cursor.endBlock
  split_ifs with hone
  · change cursor.line = _
    omega
  · rfl

theorem column_endBlock :
    (cursor.endBlock past closer lines unread).column
      = columnBehind (cursor.column + past) closer lines := by
  unfold Cursor.endBlock columnBehind
  split_ifs <;> simp only [Nat.zero_add, Nat.add_assoc]

theorem openRaw_endBlock :
    (cursor.endBlock past closer lines unread).openRaw = cursor.openRaw := by
  unfold Cursor.endBlock
  split_ifs <;> rfl

end EndBlock

end Scan

end Marginalia
