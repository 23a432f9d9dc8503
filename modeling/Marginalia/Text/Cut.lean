/-
Cutting a text: off a leading literal, at the first place a literal stands,
at every separator, and into lines.

Each cut returns the parts and leaves out only what it cut at, so the parts
put the text together again. The one place where something more is lost is
`lines`: a line feed ends a line, a carriage return right before that line
feed goes with it, and a carriage return anywhere else is a character like
any other.
-/

set_option autoImplicit false

namespace Marginalia.Text

/-! ## Literals -/

/-- What follows `literal`, if the text starts with it. -/
def after? : List Char → List Char → Option (List Char)
  | [], text => some text
  | _ :: _, [] => none
  | l :: literal, c :: text => if l = c then after? literal text else none

/-- Whether the text starts with `literal`. -/
def startsWith (literal text : List Char) : Bool :=
  (after? literal text).isSome

/-- The text before and after the first place where `literal` stands. -/
def cutAt (literal : List Char) : List Char → Option (List Char × List Char)
  | [] => if literal.isEmpty then some ([], []) else none
  | c :: text =>
    match after? literal (c :: text) with
    | some rest => some ([], rest)
    | none => (cutAt literal text).map fun (before, rest) => (c :: before, rest)

/-- Whether `literal` stands anywhere in the text. -/
def contains (literal text : List Char) : Bool :=
  (cutAt literal text).isSome

/-- Puts `replacement` for every `literal`, from the left and without overlaps. The number counts
the characters of a literal just replaced that are still to be passed over. -/
def replaceFrom (literal replacement : List Char) : Nat → List Char → List Char
  | _, [] => []
  | passed + 1, _ :: text => replaceFrom literal replacement passed text
  | 0, c :: text =>
    if startsWith literal (c :: text) then
      replacement ++ replaceFrom literal replacement (literal.length - 1) text
    else
      c :: replaceFrom literal replacement 0 text

/-- Puts `replacement` for every occurrence of a non-empty `literal`. -/
def replaceAll (literal replacement text : List Char) : List Char :=
  replaceFrom literal replacement 0 text

/-! ## Separators and lines -/

/-- The pieces between the separators; there is one more of them than there are separators. -/
def pieces (separator : Char) : List Char → List (List Char)
  | [] => [[]]
  | c :: text =>
    if c = separator then
      [] :: pieces separator text
    else
      match pieces separator text with
      | [] => [[c]]
      | piece :: others => (c :: piece) :: others

/-- The pieces with the separator between every two. -/
def joined (separator : Char) : List (List Char) → List Char
  | [] => []
  | [piece] => piece
  | piece :: others => piece ++ separator :: joined separator others

/-- A line without the carriage return that belongs to its line feed. -/
def dropReturn (line : List Char) : List Char :=
  if line.getLast? = some '\r' then line.dropLast else line

/-- The lines of a text. A final line feed starts no further line. -/
def lines (text : List Char) : List (List Char) :=
  let all := pieces '\n' text
  let last := all.getLast?.getD []
  all.dropLast.map dropReturn ++ (if last.isEmpty then [] else [last])

/-! ## The parts put the text together again -/

theorem eq_append_of_after? {literal text rest : List Char} (h : after? literal text = some rest) :
    text = literal ++ rest := by
  fun_induction after? literal text with
  | case1 => simp_all
  | case2 => simp at h
  | case3 _ c _ ih => simp [ih h]
  | case4 => simp at h

theorem eq_append_of_cutAt {literal text before rest : List Char}
    (h : cutAt literal text = some (before, rest)) : text = before ++ literal ++ rest := by
  induction text generalizing before with
  | nil =>
    simp only [cutAt] at h
    split at h
    · rename_i hl
      simp_all
    · simp at h
  | cons c text ih =>
    simp only [cutAt] at h
    split at h
    · rename_i hr
      simp only [Option.some.injEq, Prod.mk.injEq] at h
      rw [← h.1, ← h.2]
      simpa using eq_append_of_after? hr
    · obtain ⟨⟨b, r⟩, hb, he⟩ := Option.map_eq_some_iff.1 h
      obtain ⟨rfl, rfl⟩ := Prod.mk.inj he
      simpa using ih hb

theorem pieces_ne_nil (separator : Char) (text : List Char) : pieces separator text ≠ [] := by
  cases text with
  | nil => simp [pieces]
  | cons c text =>
    simp only [pieces]
    split
    · simp
    · split <;> simp

theorem joined_pieces (separator : Char) (text : List Char) :
    joined separator (pieces separator text) = text := by
  induction text with
  | nil => rfl
  | cons c text ih =>
    simp only [pieces]
    split
    · rename_i hc
      subst hc
      cases hp : pieces c text with
      | nil => exact absurd hp (pieces_ne_nil c text)
      | cons piece others => simp [joined, ← hp, ih]
    · cases hp : pieces separator text with
      | nil => exact absurd hp (pieces_ne_nil separator text)
      | cons piece others =>
        rw [hp] at ih
        cases others with
        | nil => simpa [joined] using ih
        | cons p ps => simpa [joined] using ih

end Marginalia.Text
