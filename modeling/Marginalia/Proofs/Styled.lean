/-
Styled text with its style sequences deleted again.

A style sequence is an escape character, an opening bracket, digits and
semicolons, and an `m`. `unstyled` deletes every one of them, from the left,
and leaves alone an escape that starts none.

Rendering with colours puts sequences in and changes nothing else, so deleting
them gives the rendering without colours, the blanks that fill a span up to its
width included. That asks of the text only that it has no escapes of its own:
one of these could be the start of a sequence, and a reset inside a span is
followed by the span's style again.
-/
import Marginalia.Proofs.Text.Cut
import Marginalia.Styled

set_option autoImplicit false

namespace Marginalia

namespace Style

/-- The character that every style sequence starts with. -/
def escape : Char := '\x1b'

/-- A text without escapes. -/
def Unescaped (text : String) : Prop :=
  escape ∉ text.toList

instance (text : String) : Decidable (Unescaped text) :=
  inferInstanceAs (Decidable (¬ escape ∈ text.toList))

/-- The characters between the bracket of a style sequence and its end. -/
def isCode (c : Char) : Bool :=
  c.isDigit || c = ';'

/-- What follows the style sequence that the text starts with. -/
def afterSequence? (text : List Char) : Option (List Char) :=
  (Text.after? [escape, '['] text).bind fun codes => Text.after? ['m'] (codes.dropWhile isCode)

theorem length_lt_of_afterSequence? {text rest : List Char} (h : afterSequence? text = some rest) :
    rest.length < text.length := by
  obtain ⟨codes, hcodes, hrest⟩ := Option.bind_eq_some_iff.1 h
  have hle := (List.dropWhile_suffix isCode (l := codes)).length_le
  rw [Text.eq_append_of_after? hrest] at hle
  rw [Text.eq_append_of_after? hcodes]
  simp only [List.length_append, List.length_cons, List.length_nil] at hle ⊢
  omega

/-- The text with all style sequences deleted. -/
def unstyled : List Char → List Char
  | [] => []
  | c :: text =>
    match _h : afterSequence? (c :: text) with
    | some rest => unstyled rest
    | none => c :: unstyled text
termination_by text => text.length
decreasing_by
  · exact length_lt_of_afterSequence? ‹_›
  · simp

/-! ## Deleting in turn -/

theorem unstyled_of_afterSequence? {text rest : List Char} (h : afterSequence? text = some rest) :
    unstyled text = unstyled rest := by
  cases text with
  | nil => exact absurd h (by simp [afterSequence?, Text.after?])
  | cons c text =>
    rw [unstyled]
    split
    · rename_i rest' hrest
      rw [h, Option.some_inj] at hrest
      rw [hrest]
    · rename_i hnone
      rw [h] at hnone
      exact absurd hnone (by simp)

theorem unstyled_cons {c : Char} {text : List Char} (h : afterSequence? (c :: text) = none) :
    unstyled (c :: text) = c :: unstyled text := by
  rw [unstyled]
  split
  · rename_i hsome
    rw [h] at hsome
    exact absurd hsome (by simp)
  · rfl

/-- Nothing is deleted where there is no escape. -/
theorem unstyled_append {front : List Char} (h : escape ∉ front) (text : List Char) :
    unstyled (front ++ text) = front ++ unstyled text := by
  induction front with
  | nil => rfl
  | cons c front ih =>
    rw [List.mem_cons, not_or] at h
    have hnone : afterSequence? (c :: (front ++ text)) = none := by
      rw [afterSequence?, Text.after?, if_neg h.1, Option.bind_none]
    rw [List.cons_append, unstyled_cons hnone, ih h.2, List.cons_append]

/-- A style sequence is deleted. -/
theorem unstyled_sequence_append {codes : List Char} (h : ∀ c ∈ codes, isCode c)
    (text : List Char) : unstyled (escape :: '[' :: (codes ++ 'm' :: text)) = unstyled text := by
  apply unstyled_of_afterSequence?
  have hopen : Text.after? [escape, '['] (escape :: '[' :: (codes ++ 'm' :: text))
      = some (codes ++ 'm' :: text) := Text.after?_append [escape, '['] _
  have hend : (codes ++ 'm' :: text).dropWhile isCode = 'm' :: text := by
    rw [List.dropWhile_append_of_pos h]
    rfl
  rw [afterSequence?, hopen, Option.bind_some, hend]
  exact Text.after?_append ['m'] text

/-! ## The sequences of a style -/

theorem all_isDigit_of_mem_codes {style : Style} {code : String} (h : code ∈ style.codes) :
    code.toList.all Char.isDigit := by
  rw [codes, List.mem_append, List.mem_append] at h
  rcases h with (h | h) | h
  · obtain ⟨-, rfl⟩ : style.bold ∧ code = "1" := by simpa using h
    rfl
  · obtain ⟨-, rfl⟩ : style.dimmed ∧ code = "2" := by simpa using h
    rfl
  · obtain ⟨colour, -, rfl⟩ : ∃ colour, style.colour = some colour ∧ colour.code = code := by
      simpa using h
    cases colour <;> rfl

/-- What turns a style on is a style sequence. -/
theorem unstyled_on (style : Style) (text : List Char) :
    unstyled (style.sequence.toList ++ text) = unstyled text := by
  have hcodes : ∀ c ∈ (";".intercalate style.codes).toList, isCode c := by
    intro c hc
    rw [String.toList_intercalate] at hc
    rcases Text.mem_of_mem_intercalate hc with hc | ⟨part, hpart, hc⟩
    · obtain rfl : c = ';' := by simpa using hc
      rfl
    · obtain ⟨code, hcode, rfl⟩ := List.mem_map.1 hpart
      have hdigit := List.all_eq_true.1 (all_isDigit_of_mem_codes hcode) c hc
      rw [isCode, hdigit, Bool.true_or]
  have hparts : style.sequence.toList ++ text
      = escape :: '[' :: ((";".intercalate style.codes).toList ++ 'm' :: text) := by
    simp [sequence, escape]
  rw [hparts, unstyled_sequence_append hcodes]

/-- What turns all styles off is one, too. -/
theorem unstyled_off (text : List Char) : unstyled (reset.toList ++ text) = unstyled text := by
  have hcodes : ∀ c ∈ ['0'], isCode c := by
    intro c hc
    rw [List.mem_singleton.1 hc]
    rfl
  exact unstyled_sequence_append hcodes text

/-! ## Texts without escapes -/

@[simp]
theorem unescaped_append {front back : String} :
    Unescaped (front ++ back) ↔ Unescaped front ∧ Unescaped back := by
  simp [Unescaped]

@[simp]
theorem unescaped_toString {text : String} : Unescaped (toString text) ↔ Unescaped text :=
  Iff.rfl

theorem unescaped_ofList {text : List Char} : Unescaped (String.ofList text) ↔ escape ∉ text := by
  rw [Unescaped, String.toList_ofList]

theorem escape_notMem_blanks (n : Nat) : escape ∉ List.replicate n ' ' := by
  intro hmem
  exact absurd (List.eq_of_mem_replicate hmem) (by decide)

/-- A number is written in digits. -/
@[simp]
theorem unescaped_repr (n : Nat) : Unescaped n.repr := by
  rw [Unescaped, Nat.toList_repr]
  intro hmem
  exact absurd (Nat.isDigit_of_mem_toDigits (by decide) (by decide) hmem) (by decide)

theorem unescaped_intercalate {between : String} {parts : List String} (hbetween : Unescaped between)
    (hparts : ∀ part ∈ parts, Unescaped part) : Unescaped (between.intercalate parts) := by
  rw [Unescaped, String.toList_intercalate]
  intro hmem
  rcases Text.mem_of_mem_intercalate hmem with hmem | ⟨chars, hchars, hmem⟩
  · exact hbetween hmem
  · obtain ⟨part, hpart, rfl⟩ := List.mem_map.1 hchars
    exact hparts part hpart hmem

end Style

/-! ## Rendered text -/

open Style

theorem Span.escape_notMem_padded {width : Nat} {text : List Char} (h : escape ∉ text) :
    escape ∉ padded width text := by
  rw [padded, List.mem_append, not_or]
  exact ⟨h, escape_notMem_blanks _⟩

/-- **One span.** With the sequences deleted, a span in colour is the span without, whatever
follows it. -/
theorem Span.unstyled_render_append {span : Span} (h : Unescaped span.text) (text : List Char) :
    unstyled ((span.render true).toList ++ text) = (span.render false).toList ++ unstyled text := by
  have hpadded : escape ∉ padded span.width span.text.toList := escape_notMem_padded h
  have hoff : span.render false = String.ofList (padded span.width span.text.toList) := by
    simp [render]
  by_cases hplain : span.isPlain
  · have hsame : span.render true = span.render false := by simp [render, hplain]
    rw [hsame, hoff, String.toList_ofList, unstyled_append hpadded]
  · -- without escapes there is no reset in the text to be followed by the style
    have hinner : ∀ restart, Text.replaceAll reset.toList restart span.text.toList
        = span.text.toList := Text.replaceAll_of_notMem h
    have hon : (span.render true).toList = span.style.sequence.toList
        ++ (padded span.width span.text.toList ++ reset.toList) := by
      simp [render, hplain, hinner]
    rw [hon, hoff, String.toList_ofList, List.append_assoc, unstyled_on, List.append_assoc,
      unstyled_append hpadded, unstyled_off]

namespace Styled

/-- Styled text without escapes. -/
def Unescaped (text : Styled) : Prop :=
  ∀ span ∈ text, Style.Unescaped span.text

/-- **Colours are all that style sequences are.** Deleting them gives the text as it is rendered
without colours. -/
theorem unstyled_render {text : Styled} (h : text.Unescaped) :
    unstyled (text.render true).toList = (text.render false).toList := by
  simp only [render, String.toList_join, List.flatMap_map]
  induction text with
  | nil => simp [unstyled]
  | cons span text ih =>
    rw [Unescaped, List.forall_mem_cons] at h
    rw [List.flatMap_cons, List.flatMap_cons, Span.unstyled_render_append h.1, ih h.2]

/-! ### Where a styled text has no escapes -/

@[simp]
theorem unescaped_nil : Unescaped [] := by
  simp [Unescaped]

@[simp]
theorem unescaped_append {front back : Styled} :
    Unescaped (front ++ back) ↔ front.Unescaped ∧ back.Unescaped := by
  simp [Unescaped, or_imp, forall_and]

@[simp]
theorem unescaped_flatMap {α : Type} {items : List α} {f : α → Styled} :
    Unescaped (items.flatMap f) ↔ ∀ item ∈ items, (f item).Unescaped := by
  simp only [Unescaped, List.mem_flatMap]
  grind

@[simp]
theorem unescaped_cons {span : Span} {text : Styled} :
    Unescaped (span :: text) ↔ Style.Unescaped span.text ∧ text.Unescaped := by
  simp [Unescaped]

@[simp]
theorem unescaped_plain {text : String} : (plain text).Unescaped ↔ Style.Unescaped text := by
  simp [plain]

@[simp]
theorem unescaped_bold {text : String} : (bold text).Unescaped ↔ Style.Unescaped text := by
  simp [bold]

@[simp]
theorem unescaped_dimmed {text : String} : (dimmed text).Unescaped ↔ Style.Unescaped text := by
  simp [dimmed]

@[simp]
theorem unescaped_coloured {colour : Colour} {text : String} :
    (coloured colour text).Unescaped ↔ Style.Unescaped text := by
  simp [coloured]

@[simp]
theorem unescaped_strong {colour : Colour} {text : String} :
    (strong colour text).Unescaped ↔ Style.Unescaped text := by
  simp [strong]

end Styled

end Marginalia
