/-
The search for the first comment of a stretch, one character at a time.

At a character of code a comment is opened by the block opener or else by the
first line marker that stands there; `opening?_eq` says so without the search
through the markers. At any other character the search just goes on, and
`next` is where it stands then. So what the search finds is either found right
here or found from the next character on (`search_cons_plain`,
`search_cons_comment`), which is all that proofs about it need.
-/
import Marginalia.Comment.Delimiters
import Marginalia.Proofs.Text.Cut

set_option autoImplicit false

namespace Marginalia

/-- The delimiter that opens a comment. -/
def Opening.mark : Opening → List Char
  | .line marker => marker
  | .block opener _ => opener

namespace Delimiters

/-! ## Openings -/

theorem block?_ne_nil {d : Delimiters} {opener closer : List Char}
    (h : d.block? = some (opener, closer)) : opener ≠ [] ∧ closer ≠ [] := by
  unfold block? at h
  split at h
  · split at h
    · simp at h
    · obtain ⟨rfl, rfl⟩ := Prod.mk.inj (Option.some.inj h)
      simp_all
  · simp at h

/-- The block pair, if its opener stands at the start of a text. -/
def blockAt? (d : Delimiters) (text : List Char) : Option (List Char × List Char) :=
  d.block?.filter fun b => b.1.isPrefixOf text

/-- The first line marker, of those that are not empty, that stands at the start of a text. -/
def markerAt? (d : Delimiters) (text : List Char) : Option String :=
  d.lineMarkers.find? fun m => !m.isEmpty && m.toList.isPrefixOf text

/-- A marker is found together with what follows it. -/
private theorem findSome?_markers (markers : List String) (text : List Char) :
    (markers.findSome? fun marker =>
      if marker.isEmpty then none
      else (Text.after? marker.toList text).map fun rest => (Opening.line marker.toList, rest))
      = (markers.find? fun m => !m.isEmpty && m.toList.isPrefixOf text).map fun marker =>
        (Opening.line marker.toList, text.drop marker.toList.length) := by
  induction markers with
  | nil => rfl
  | cons m markers ih =>
    rw [List.findSome?_cons, List.find?_cons, ih, Text.after?_eq]
    by_cases hempty : m.isEmpty
    · simp [hempty]
    · cases hfits : m.toList.isPrefixOf text <;> simp [hempty]

/-- **Openings.** A comment is opened by the block opener or else by the first line marker. -/
theorem opening?_eq (d : Delimiters) (text : List Char) :
    d.opening? text = match d.blockAt? text with
      | some b => some (.block b.1 b.2, text.drop b.1.length)
      | none => (d.markerAt? text).map fun m => (.line m.toList, text.drop m.toList.length) := by
  rw [opening?, findSome?_markers, blockAt?, markerAt?]
  cases d.block? with
  | none => rfl
  | some b =>
    obtain ⟨opener, closer⟩ := b
    simp only [Option.bind_some, Option.filter_some, Text.after?_eq]
    cases opener.isPrefixOf text <;> rfl

/-- What an opening says about the text it is found in. -/
theorem opening?_eq_some {d : Delimiters} {text rest : List Char} {opening : Opening}
    (h : d.opening? text = some (opening, rest)) :
    text = opening.mark ++ rest ∧ opening.mark ≠ [] ∧
      ∀ opener closer, opening = .block opener closer → closer ≠ [] := by
  have hstarts : ∀ literal : List Char, literal.isPrefixOf text →
      text = literal ++ text.drop literal.length := by
    intro literal hliteral
    exact List.prefix_iff_eq_append.1 (List.isPrefixOf_iff_prefix.1 hliteral) |>.symm
  rw [opening?_eq] at h
  cases hb : d.blockAt? text with
  | some b =>
    rw [hb] at h
    obtain ⟨rfl, rfl⟩ := Prod.mk.inj (Option.some.inj h)
    obtain ⟨hblock, hfits⟩ := Option.filter_eq_some_iff.1 hb
    obtain ⟨hopener, hcloser⟩ := block?_ne_nil hblock
    refine ⟨hstarts b.1 hfits, hopener, ?_⟩
    rintro opener closer ⟨⟩
    exact hcloser
  | none =>
    rw [hb] at h
    obtain ⟨m, hm, heq⟩ := Option.map_eq_some_iff.1 h
    obtain ⟨rfl, rfl⟩ := Prod.mk.inj heq
    have hfits := List.find?_some hm
    rw [Bool.and_eq_true] at hfits
    refine ⟨hstarts m.toList hfits.2, by simpa [Opening.mark] using hfits.1, ?_⟩
    rintro opener closer ⟨⟩

/-! ## One character -/

variable {d : Delimiters}

/-- Where the search stands after character `c` that opens no comment. -/
def next (d : Delimiters) (standing : Standing) (c : Char) (text : List Char) : Standing :=
  match standing with
  | .code 0 => d.enter c text
  | .code (passed + 1) => .code passed
  | standing => passString c standing

/-- The search goes on behind a character that opens no comment. -/
theorem search_cons {standing : Standing} {c : Char} {text : List Char}
    (h : standing = .code 0 → d.opening? (c :: text) = none) :
    d.search standing (c :: text) = (d.search (next d standing c text) text).cons c := by
  match standing with
  | .code 0 => simp [search, h rfl, next]
  | .code (passed + 1) => rfl
  | .raw quote => rfl
  | .plain quote escaped => rfl

/-- A search that finds no comment finds none from the next character on. -/
theorem search_cons_plain {standing : Standing} {c : Char} {text : List Char}
    {openRaw : Option Char} (h : d.search standing (c :: text) = .plain openRaw) :
    (standing = .code 0 → d.opening? (c :: text) = none) ∧
      d.search (next d standing c text) text = .plain openRaw := by
  have hopening : standing = .code 0 → d.opening? (c :: text) = none := by
    rintro rfl
    cases hopening : d.opening? (c :: text) with
    | none => rfl
    | some o => simp [search, hopening] at h
  refine ⟨hopening, ?_⟩
  rw [search_cons hopening] at h
  cases hsearch : d.search (next d standing c text) text with
  | plain r => simpa [hsearch, Stretch.cons] using h
  | comment code opening rest => simp [hsearch, Stretch.cons] at h

/-- A comment that the search finds is opened right there, or found from the next character on. -/
theorem search_cons_comment {standing : Standing} {c : Char} {text code rest : List Char}
    {opening : Opening} (h : d.search standing (c :: text) = .comment code opening rest) :
    (standing = .code 0 ∧ code = [] ∧ d.opening? (c :: text) = some (opening, rest)) ∨
      ((standing = .code 0 → d.opening? (c :: text) = none) ∧
        ∃ code', code = c :: code' ∧
          d.search (next d standing c text) text = .comment code' opening rest) := by
  by_cases hopening : standing = .code 0 → d.opening? (c :: text) = none
  · rw [search_cons hopening] at h
    refine .inr ⟨hopening, ?_⟩
    cases hsearch : d.search (next d standing c text) text with
    | plain r => simp [hsearch, Stretch.cons] at h
    | comment code' opening' rest' =>
      rw [hsearch, Stretch.cons] at h
      obtain ⟨rfl, rfl, rfl⟩ := Stretch.comment.inj h
      exact ⟨code', rfl, rfl⟩
  · obtain ⟨hcode, hsome⟩ := Classical.not_imp.1 hopening
    obtain ⟨⟨opening', rest'⟩, hsome⟩ := Option.ne_none_iff_exists'.1 hsome
    rw [hcode, search, hsome] at h
    obtain ⟨rfl, rfl, rfl⟩ := Stretch.comment.inj h
    exact .inl ⟨hcode, rfl, hsome⟩

/-- A comment that the search finds is opened right behind the code before it. -/
theorem search_eq_comment {text code rest : List Char} {standing : Standing} {opening : Opening}
    (h : d.search standing text = .comment code opening rest) :
    ∃ tail, text = code ++ tail ∧ d.opening? tail = some (opening, rest) := by
  induction text generalizing standing code with
  | nil => cases standing <;> simp [search] at h
  | cons c text ih =>
    rcases search_cons_comment h with ⟨-, rfl, hopening⟩ | ⟨-, code', rfl, hsearch⟩
    · exact ⟨c :: text, rfl, hopening⟩
    · obtain ⟨tail, rfl, htail⟩ := ih hsearch
      exact ⟨tail, rfl, htail⟩

/-- Where the search stands in front of a stretch. -/
def standingAt : Option Char → Standing
  | some quote => .raw quote
  | none => .code 0

theorem firstComment_eq (openRaw : Option Char) (text : List Char) :
    d.firstComment openRaw text = d.search (standingAt openRaw) text := by
  cases openRaw <;> rfl

/-- A block comment that is found has a closer to look for. -/
theorem closer_ne_nil {line code rest opener closer : List Char} {openRaw : Option Char}
    (h : d.firstComment openRaw line = .comment code (.block opener closer) rest) :
    closer ≠ [] := by
  rw [firstComment_eq] at h
  obtain ⟨text, -, hopening⟩ := search_eq_comment h
  exact (opening?_eq_some hopening).2.2 opener closer rfl

end Delimiters

end Marginalia
