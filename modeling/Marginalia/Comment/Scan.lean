/-
The comments of a text, with the code around them.

A cursor stands in front of the unread part of the text: what is left of the
current line, and the lines after it. Advancing it either finds the next
comment in that rest of a line or finishes the line. A block comment may end
lines further down, and then the cursor goes on behind its closer; one that
never ends is an error, and nothing is read after it.

The code that follows a comment is looked up ahead of the cursor by a search
of its own, `codeAhead`, which skips blank lines and comments and does not
carry an open raw string from line to line.
-/
import Marginalia.Comment.Delimiters
import Marginalia.Comment.Gutter
import Marginalia.Position

set_option autoImplicit false

namespace Marginalia

/-! ## Comments -/

/-- The two forms of comments. -/
inductive CommentForm where
  /-- From a marker to the end of the line. -/
  | line
  /-- Between an opener and a closer. -/
  | block
deriving DecidableEq, Repr

/-- A comment without its delimiters, and the code around it. -/
structure Comment where
  text : String
  /-- Where the opening delimiter stands. -/
  position : Position
  form : CommentForm
  /-- Whether there is code before the comment on its first line. -/
  attached : Bool
  /-- The code before the comment on its first line. -/
  code : Option String
  /-- The code of the nearest earlier line that has any. -/
  precedingCode : Option String
  /-- The next code after the comment. -/
  followingCode : Option String
deriving DecidableEq, Repr

/-- A block comment that is opened at a position and never closed. -/
structure Unclosed where
  position : Position
deriving DecidableEq, Repr

/-- The wording of the error. -/
def Unclosed.message (e : Unclosed) : String :=
  s!"unterminated block comment starting at {e.position.text}"

namespace Scan

/-! ## The unread text -/

/-- A stretch of code without its blank ends, unless it is blank. -/
def codeText (code : List Char) : Option String :=
  let text := Text.trim code
  if text.isEmpty then none else some (String.ofList text)

/-- The number of characters and line ends that are still unread. -/
def weight : List (List Char) → Nat
  | [] => 0
  | line :: unread => line.length + 1 + weight unread

/-- Reads up to the first closer: the lines of text before it, and what is unread after it. -/
def closeBlock (closer : List Char) :
    List (List Char) → Option (List (List Char) × List (List Char))
  | [] => none
  | line :: later =>
    match Text.cutAt closer line with
    | some (before, rest) => some ([before], rest :: later)
    | none => (closeBlock closer later).map fun (lines, unread) => (line :: lines, unread)

theorem length_lt_of_opening? {d : Delimiters} {text rest : List Char} {opening : Opening}
    (h : d.opening? text = some (opening, rest)) : rest.length < text.length := by
  simp only [Delimiters.opening?, Option.or_eq_some_iff] at h
  rcases h with h | ⟨_, h⟩
  · obtain ⟨⟨opener, closer⟩, hb, h⟩ := Option.bind_eq_some_iff.1 h
    obtain ⟨r, hr, he⟩ := Option.map_eq_some_iff.1 h
    obtain ⟨rfl, rfl⟩ := Prod.mk.inj he
    have hne : opener ≠ [] := by
      simp only [Delimiters.block?] at hb
      split at hb
      · split at hb
        · simp at hb
        · rename_i hne
          obtain ⟨rfl, rfl⟩ := Prod.mk.inj (Option.some.inj hb)
          intro hn
          simp_all
      · simp at hb
    have := congrArg List.length (Text.eq_append_of_after? hr)
    have := List.length_pos_iff.2 hne
    simp_all
  · obtain ⟨marker, _, h⟩ := List.exists_of_findSome?_eq_some h
    split at h
    · simp at h
    · rename_i hm
      obtain ⟨r, hr, he⟩ := Option.map_eq_some_iff.1 h
      obtain ⟨rfl, rfl⟩ := Prod.mk.inj he
      have := congrArg List.length (Text.eq_append_of_after? hr)
      have : marker.toList ≠ [] := by
        intro hn
        simp_all
      have := List.length_pos_iff.2 this
      simp only [List.length_append] at *
      omega

theorem length_lt_of_search {d : Delimiters} {standing : Standing} {text code rest : List Char}
    {opening : Opening} (h : d.search standing text = .comment code opening rest) :
    rest.length < text.length := by
  induction text generalizing standing code with
  | nil => cases standing <;> simp [Delimiters.search] at h
  | cons c text ih =>
    have step (s : Standing) (h : (d.search s text).cons c = .comment code opening rest) :
        rest.length < (c :: text).length := by
      cases hs : d.search s text with
      | plain r => simp [hs, Stretch.cons] at h
      | comment code' opening' rest' =>
        simp only [hs, Stretch.cons, Stretch.comment.injEq] at h
        have := ih (h.2.1 ▸ h.2.2 ▸ hs)
        simp only [List.length_cons]
        omega
    match standing with
    | .code 0 =>
      simp only [Delimiters.search] at h
      split at h
      · rename_i ho
        simp only [Stretch.comment.injEq] at h
        rw [← h.2.2]
        exact length_lt_of_opening? ho
      · exact step _ h
    | .code (n + 1) => exact step _ h
    | .plain quote escaped => exact step _ h
    | .raw quote => exact step _ h

theorem length_lt_of_firstComment {d : Delimiters} {openRaw : Option Char}
    {text code rest : List Char} {opening : Opening}
    (h : d.firstComment openRaw text = .comment code opening rest) : rest.length < text.length :=
  length_lt_of_search h

theorem weight_le_of_closeBlock {closer : List Char} {unread lines after : List (List Char)}
    (h : closeBlock closer unread = some (lines, after)) : weight after ≤ weight unread := by
  induction unread generalizing lines with
  | nil => simp [closeBlock] at h
  | cons line later ih =>
    simp only [closeBlock] at h
    split at h
    · rename_i hc
      obtain ⟨_, rfl⟩ := Prod.mk.inj (Option.some.inj h)
      have := congrArg List.length (Text.eq_append_of_cutAt hc)
      simp only [List.length_append] at this
      simp only [weight]
      omega
    · obtain ⟨⟨ls, un⟩, hc, he⟩ := Option.map_eq_some_iff.1 h
      obtain ⟨_, rfl⟩ := Prod.mk.inj he
      have := ih hc
      simp only [weight] at *
      omega

/-! ## Code ahead -/

/-- The first code in the unread text, past blank lines and comments. -/
def codeAhead (d : Delimiters) : List (List Char) → Option String
  | [] => none
  | line :: later =>
    match _hs : d.firstComment none line with
    | .plain _ => (codeText line).or (codeAhead d later)
    | .comment code (.line _) _ => (codeText code).or (codeAhead d later)
    | .comment code (.block _ closer) rest =>
      (codeText code).or <|
        match _hc : closeBlock closer (rest :: later) with
        | none => none
        | some (_, unread) => codeAhead d unread
termination_by unread => weight unread
decreasing_by
  · simp [weight]
  · simp [weight]
  · have := length_lt_of_firstComment _hs
    have := weight_le_of_closeBlock _hc
    simp only [weight] at *
    omega

/-- The code right behind a block comment: in the rest of its last line up to the next comment, or
else in the lines after that. -/
def codeBehind (d : Delimiters) : List (List Char) → Option String
  | [] => none
  | line :: later =>
    let code := match d.firstComment none line with
      | .plain _ => line
      | .comment code _ _ => code
    (codeText code).or (codeAhead d later)

/-! ## Advancing -/

/-- A place in the text, and what has been seen on the way to it. -/
structure Cursor where
  /-- The number of the current line, from one. -/
  line : Nat
  /-- The number of characters of the current line before the cursor. -/
  column : Nat
  /-- The rest of the current line, and the lines after it. -/
  unread : List (List Char)
  /-- The code of the current line before the cursor. -/
  lineCode : List Char
  /-- The code of the nearest earlier line that has any. -/
  precedingCode : Option String
  /-- The raw string that is open at the cursor. -/
  openRaw : Option Char
deriving DecidableEq, Repr

namespace Cursor

/-- The cursor in front of a whole text. -/
def start (text : List Char) : Cursor :=
  ⟨1, 0, Text.lines text, [], none, none⟩

/-- The cursor in front of the next line. -/
def endLine (cursor : Cursor) (later : List (List Char)) : Cursor :=
  { cursor with
    line := cursor.line + 1
    column := 0
    unread := later
    lineCode := []
    precedingCode := (codeText cursor.lineCode).or cursor.precedingCode }

/-- The cursor behind a block comment with these lines of text, which starts with an opener `past`
characters long and leaves `unread` unread. -/
def endBlock (cursor : Cursor) (past : Nat) (closer : List Char) (lines unread : List (List Char)) :
    Cursor :=
  let last := (lines.getLast?.getD []).length + closer.length
  if lines.length ≤ 1 then
    { cursor with column := cursor.column + past + last, unread }
  else
    { cursor with
      line := cursor.line + (lines.length - 1)
      column := last
      unread
      lineCode := []
      precedingCode := (codeText cursor.lineCode).or cursor.precedingCode }

end Cursor

/-- The comment found at a cursor that has passed the code before it. -/
def commentAt (file : String) (cursor : Cursor) (form : CommentForm) (text : List Char)
    (followingCode : Option String) : Comment :=
  let code := codeText cursor.lineCode
  { text := String.ofList text
    position := ⟨file, cursor.line, cursor.column + 1⟩
    form
    attached := code.isSome
    code
    precedingCode := cursor.precedingCode
    followingCode }

/-- Reads on in the current line, up to its end or behind its next comment. -/
def advance (d : Delimiters) (file : String) (cursor : Cursor) (line : List Char)
    (later : List (List Char)) : Option (Except Unclosed Comment) × Cursor :=
  match d.firstComment cursor.openRaw line with
  | .plain openRaw =>
    (none, { cursor with lineCode := cursor.lineCode ++ line, openRaw }.endLine later)
  | .comment code opening rest =>
    let here := { cursor with
      column := cursor.column + code.length
      lineCode := cursor.lineCode ++ code
      openRaw := none }
    match opening with
    | .line _ =>
      (some (.ok (commentAt file here .line rest (codeAhead d later))), here.endLine later)
    | .block opener closer =>
      match closeBlock closer (rest :: later) with
      | none =>
        (some (.error ⟨⟨file, here.line, here.column + 1⟩⟩), { here with unread := [] })
      | some (lines, unread) =>
        let text := Gutter.textOf (d.gutter.map String.toList) lines
        (some (.ok (commentAt file here .block text (codeBehind d unread))),
          here.endBlock opener.length closer lines unread)

theorem weight_advance (d : Delimiters) (file : String) (cursor : Cursor) (line : List Char)
    (later : List (List Char)) :
    weight (advance d file cursor line later).2.unread < weight (line :: later) := by
  simp only [advance]
  split
  · simp [Cursor.endLine, weight]
  · rename_i code opening rest hs
    have hlt := length_lt_of_firstComment hs
    split
    · simp [Cursor.endLine, weight]
    · split
      · simp only [weight]
        omega
      · rename_i lines unread hc
        have hle := weight_le_of_closeBlock hc
        simp only [Cursor.endBlock]
        simp only [weight] at *
        split <;> simp only <;> omega

/-- Everything found from a cursor on. -/
def itemsFrom (d : Delimiters) (file : String) (cursor : Cursor) : List (Except Unclosed Comment) :=
  match _h : cursor.unread with
  | [] => []
  | line :: later =>
    let step := advance d file cursor line later
    step.1.toList ++ itemsFrom d file step.2
termination_by weight cursor.unread
decreasing_by
  rw [_h]
  exact weight_advance ..

end Scan

/-- The comments of a text in order. An unclosed block comment ends the list. -/
def comments (d : Delimiters) (file text : String) : List (Except Unclosed Comment) :=
  Scan.itemsFrom d file (.start text.toList)

end Marginalia
