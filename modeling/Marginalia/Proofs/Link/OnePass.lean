/-
Filling a template place by place, against filling it in one pass.

One pass reads the template from left to right, puts a value for each place
and never looks at what it has put (`onePass`). An address is made otherwise:
one place after the other is filled in the whole text, so that a root or a path
that was put earlier is searched for the places that come later. A place may be
**made** on the way, by a value that holds its mark or by one that completes it
together with what stands around.

The places of the template are never lost before their turn, so each stands
there as often as in the template or more often, and it is more often exactly if
it was made. Suppose that both ways come to the same. Every line and every column
that was made leaves digits behind that one pass does not have, so none was
made. A path that was made changes the length, unless the path of the file is as
long as the mark, and then it is put in place and can be compared with what
stands there in one pass, which is the mark.
-/
import Marginalia.Proofs.Link.Parts

set_option autoImplicit false

namespace Marginalia.LinkFormat

open Text (replaceAll)

/-! ## Counting characters -/

section Counting

variable (test : Char → Bool)

/-- The characters of parts that are written out in two ways. -/
theorem countP_spelled (value value' : Place → List Char) (ps : List Part) :
    (spelled value ps).countP test
        + (Place.all.map fun p => ps.count (.place p) * (value' p).countP test).sum
      = (spelled value' ps).countP test
        + (Place.all.map fun p => ps.count (.place p) * (value p).countP test).sum := by
  induction ps with
  | nil => simp [spelled]
  | cons part ps ih =>
    rw [Place.sum_map_all, Place.sum_map_all] at ih ⊢
    cases part with
    | char c =>
      simp only [spelled, List.countP_cons, List.count_cons, reduceCtorEq, beq_iff_eq, if_false,
        Nat.add_zero]
      omega
    | place place =>
      simp only [spelled, List.countP_append, List.count_cons, Nat.add_mul]
      cases place <;> simp <;> omega

theorem countP_replaceAll (place : Place) (filling text : List Char) :
    (replaceAll place.mark filling text).countP test
        + standing place text * place.mark.countP test
      = text.countP test + standing place text * filling.countP test := by
  have hcount := countP_spelled test (Function.update Place.mark place filling) Place.mark
    (parts text)
  rw [← replaceAll_eq, spelled_mark_parts, Place.sum_map_all, Place.sum_map_all] at hcount
  unfold standing
  cases place <;> simp only [Function.update, reduceCtorEq, dite_true, dite_false] at hcount <;>
    omega

end Counting

section Lengths

variable {value value' : Place → List Char} {ps : List Part}

theorem length_spelled
    (h : ∀ place, .place place ∈ ps → (value place).length = (value' place).length) :
    (spelled value ps).length = (spelled value' ps).length := by
  induction ps with
  | nil => rfl
  | cons part ps ih =>
    have hrest := ih fun place hplace => h place (List.mem_cons_of_mem _ hplace)
    cases part with
    | char c => rw [spelled, spelled, List.length_cons, List.length_cons, hrest]
    | place place =>
      rw [spelled, spelled, List.length_append, List.length_append, hrest,
        h place List.mem_cons_self]

/-- Values of the same lengths that come to the same text are the same. -/
theorem value_eq_of_spelled_eq
    (h : ∀ place, .place place ∈ ps → (value place).length = (value' place).length)
    (heq : spelled value ps = spelled value' ps) :
    ∀ place, .place place ∈ ps → value place = value' place := by
  induction ps with
  | nil => simp
  | cons part ps ih =>
    have hlater : ∀ place, .place place ∈ ps → (value place).length = (value' place).length :=
      fun place hplace => h place (List.mem_cons_of_mem _ hplace)
    intro place hplace
    cases part with
    | char c =>
      rw [spelled, spelled, List.cons.injEq] at heq
      exact ih hlater heq.2 place (by simpa using hplace)
    | place other =>
      rw [spelled, spelled] at heq
      obtain ⟨hfirst, hrest⟩ := List.append_inj heq (h other List.mem_cons_self)
      rcases List.mem_cons.1 hplace with hplace | hplace
      · obtain rfl : place = other := by simpa using hplace
        exact hfirst
      · exact ih hlater hrest place hplace

end Lengths

/-! ## One text from two readings -/

/-- Whether a part is a place other than the root. -/
def Part.isOwn : Part → Bool
  | .char _ => false
  | .place p => p ≠ .root

section Readings

variable {value : Place → List Char} {root : List Char} {ps : List Part}

/-- Written out without places, parts do not depend on the values. -/
private theorem spelled_update_root (value value' : Place → List Char)
    (h : ∀ part ∈ ps, ¬ part.isOwn) :
    spelled (Function.update value .root root) ps
      = spelled (Function.update value' .root root) ps := by
  apply spelled_congr
  intro place hplace
  obtain rfl : place = .root := by simpa [Part.isOwn] using h _ hplace
  rw [Function.update_self, Function.update_self]

private theorem count_eq_zero_of_not_isOwn {place : Place} (hne : place ≠ .root)
    (h : ∀ part ∈ ps, ¬ part.isOwn) : ps.count (.place place) = 0 :=
  List.count_eq_zero.2 fun hmem => h _ hmem (by simpa [Part.isOwn] using hne)

/-- A text that comes out as it is, though its places were filled, has its places filled with their
marks. -/
private theorem value_eq_mark_of_mem {text : List Char} (hroot : value .root = Place.root.mark)
    (hlength : ∀ place, place ≠ .root → standing place text ≠ 0 →
      (value place).length = place.mark.length)
    {tail tail' : List Char} (heq : spelled value (parts text) ++ tail = text ++ tail') :
    (∀ place, standing place text ≠ 0 → value place = place.mark) ∧ tail = tail' := by
  have hsame : ∀ place, .place place ∈ parts text →
      (value place).length = place.mark.length := by
    intro place hplace
    by_cases hne : place = .root
    · rw [hne, hroot]
    · exact hlength place hne fun h => List.count_eq_zero.1 h hplace
  have hwhole : (spelled value (parts text)).length = text.length := by
    rw [length_spelled hsame, spelled_mark_parts]
  obtain ⟨htext, htail⟩ := List.append_inj heq hwhole
  refine ⟨fun place hplace => ?_, htail⟩
  refine value_eq_of_spelled_eq hsame (htext.trans (spelled_mark_parts text).symm) place ?_
  by_contra hmem
  exact hplace (List.count_eq_zero.2 hmem)

/-- **One text from two readings.** A text has places of its own, and a root was put into it. It is
filled once at every place that stands in it, and once at its own places alone. If both come to the
same, a place that was made is filled with its mark, unless the lengths could have made up for
it. -/
theorem value_eq_mark_of_spelled_eq (hroot : value .root = Place.root.mark)
    (hlength : ∀ place, place ≠ .root → (value place).length = place.mark.length ∨
      standing place (spelled (Function.update Place.mark .root root) ps) = ps.count (.place place))
    (heq : spelled value (parts (spelled (Function.update Place.mark .root root) ps))
      = spelled (Function.update value .root root) ps) :
    ∀ place, place ≠ .root → value place = place.mark ∨
      standing place (spelled (Function.update Place.mark .root root) ps)
        = ps.count (.place place) := by
  induction ps using induction_own Part.isOwn with
  | whole ps hnone =>
    rw [spelled_update_root value Place.mark hnone] at heq
    have hzero : ∀ place, place ≠ .root → ps.count (.place place) = 0 :=
      fun place hne => count_eq_zero_of_not_isOwn hne hnone
    obtain ⟨hfilled, -⟩ := value_eq_mark_of_mem hroot
      (fun place hne hplace => (hlength place hne).resolve_right fun h =>
        hplace (h.trans (hzero place hne)))
      (congrArg (· ++ []) heq)
    intro place hne
    rw [hzero place hne]
    exact (Decidable.em _).symm.imp_left (hfilled place)
  | cut front part ps hfront hpart ih =>
    obtain ⟨q, rfl, hq⟩ : ∃ q, part = .place q ∧ q ≠ .root := by
      cases part with
      | char c => simp [Part.isOwn] at hpart
      | place q => exact ⟨q, rfl, by simpa [Part.isOwn] using hpart⟩
    have hcount : ∀ place, place ≠ .root → (front ++ Part.place q :: ps).count (.place place)
        = ps.count (.place place) + if q = place then 1 else 0 := by
      intro place hne
      rw [List.count_append, count_eq_zero_of_not_isOwn hne hfront, List.count_cons]
      simp
    have hle : ∀ place, place ≠ .root → ps.count (.place place)
        ≤ standing place (spelled (Function.update Place.mark .root root) ps) :=
      fun place hne => count_le_standing (Function.update_of_ne hne _ _) ps
    rw [spelled_append, spelled, Function.update_of_ne hq, parts_append_mark, spelled_append,
      spelled_append, spelled, spelled, Function.update_of_ne hq,
      spelled_update_root value Place.mark hfront] at heq
    simp only [spelled_append, spelled, Function.update_of_ne hq, standing_append_mark]
      at hlength ⊢
    have hlater : ∀ place, place ≠ .root → (value place).length = place.mark.length ∨
        (standing place (spelled (Function.update Place.mark .root root) front) = 0 ∧
          standing place (spelled (Function.update Place.mark .root root) ps)
            = ps.count (.place place)) := by
      intro place hne
      have := hle place hne
      have := hcount place hne
      rcases hlength place hne with h | h
      · exact .inl h
      · exact .inr (by omega)
    obtain ⟨hfilled, htail⟩ := value_eq_mark_of_mem hroot
      (fun place hne hplace => (hlater place hne).resolve_right fun h => hplace h.1) heq
    have hrest := ih (fun place hne => (hlater place hne).imp_right And.right)
      (List.append_cancel_left htail)
    intro place hne
    rw [hcount place hne]
    by_cases hplace : standing place (spelled (Function.update Place.mark .root root) front) = 0
    · exact (hrest place hne).imp_right fun h => by omega
    · exact .inl (hfilled place hplace)

end Readings

/-! ## Filling all places in turn -/

/-- A template with some places filled, one after the other. -/
def filled (value : Place → List Char) (template : List Char) (places : List Place) : List Char :=
  places.foldl (fun text place => replaceAll place.mark (value place) text) template

/-- The text in which a place is looked for when its turn comes. -/
def atTurn (value : Place → List Char) (template : List Char) (place : Place) : List Char :=
  filled value template (Place.all.takeWhile (· ≠ place))

section Turns

variable (value : Place → List Char) (template : List Char)

theorem atTurn_root : atTurn value template .root = template := rfl

theorem atTurn_path :
    atTurn value template .path = replaceAll Place.root.mark (value .root) template := rfl

theorem atTurn_line : atTurn value template .line
    = replaceAll Place.path.mark (value .path) (atTurn value template .path) := rfl

theorem atTurn_column : atTurn value template .column
    = replaceAll Place.line.mark (value .line) (atTurn value template .line) := rfl

theorem filled_all : filled value template Place.all
    = replaceAll Place.column.mark (value .column) (atTurn value template .column) := rfl

theorem standing_le_atTurn_path {place : Place} (hne : place ≠ .root) :
    standing place template ≤ standing place (atTurn value template .path) :=
  standing_le_replaceAll hne _ _

theorem standing_atTurn_path_le {place : Place} (hne : place ≠ .root) :
    standing place (atTurn value template .path)
      ≤ standing place (atTurn value template place) := by
  have hpath : place ≠ .path →
      standing place (atTurn value template .path) ≤ standing place (atTurn value template .line) :=
    fun hne => standing_le_replaceAll hne _ _
  have hline : place ≠ .line → standing place (atTurn value template .line)
      ≤ standing place (atTurn value template .column) :=
    fun hne => standing_le_replaceAll hne _ _
  cases place with
  | root => exact absurd rfl hne
  | path => exact Nat.le_refl _
  | line => exact hpath (by decide)
  | column => exact Nat.le_trans (hpath (by decide)) (hline (by decide))

/-- The places of the template are still there when their turn comes. -/
theorem standing_le_atTurn (place : Place) :
    standing place template ≤ standing place (atTurn value template place) := by
  by_cases hne : place = .root
  · subst hne
    exact Nat.le_refl _
  · exact Nat.le_trans (standing_le_atTurn_path value template hne)
      (standing_atTurn_path_le value template hne)

variable (test : Char → Bool)

/-- The characters of a template that is filled in turn. -/
theorem countP_filled : (filled value template Place.all).countP test
      + (Place.all.map fun p => standing p (atTurn value template p) * p.mark.countP test).sum
    = template.countP test
      + (Place.all.map fun p =>
          standing p (atTurn value template p) * (value p).countP test).sum := by
  have hroot := countP_replaceAll test .root (value .root) template
  have hpath := countP_replaceAll test .path (value .path) (atTurn value template .path)
  have hline := countP_replaceAll test .line (value .line) (atTurn value template .line)
  have hcolumn := countP_replaceAll test .column (value .column) (atTurn value template .column)
  rw [← atTurn_path] at hroot
  rw [← atTurn_line] at hpath
  rw [← atTurn_column] at hline
  rw [← filled_all] at hcolumn
  rw [Place.sum_map_all, Place.sum_map_all, atTurn_root]
  omega

/-- The characters of a template that is filled in one pass. -/
theorem countP_spelled_parts : (spelled value (parts template)).countP test
      + (Place.all.map fun p => standing p template * p.mark.countP test).sum
    = template.countP test
      + (Place.all.map fun p => standing p template * (value p).countP test).sum := by
  have hcount := countP_spelled test value Place.mark (parts template)
  rwa [spelled_mark_parts] at hcount

end Turns

section Agreement

variable {value : Place → List Char} {template : List Char}

/-- If both ways come to the same, no line and no column was made: there are no digits to spare. -/
theorem standing_eq_of_digits
    (heq : filled value template Place.all = spelled value (parts template)) {place : Place}
    (hdigits : 0 < (value place).countP Char.isDigit) :
    standing place (atTurn value template place) = standing place template := by
  have hturns := countP_filled value template Char.isDigit
  have hpass := countP_spelled_parts value template Char.isDigit
  simp only [Place.countP_isDigit_mark, Nat.mul_zero, Place.sum_map_all] at hturns hpass
  rw [heq] at hturns
  have hle : ∀ p, standing p template * (value p).countP Char.isDigit
      ≤ standing p (atTurn value template p) * (value p).countP Char.isDigit :=
    fun p => Nat.mul_le_mul_right _ (standing_le_atTurn value template p)
  have hroot := hle .root
  have hpath := hle .path
  have hline := hle .line
  have hcolumn := hle .column
  apply Nat.eq_of_mul_eq_mul_right hdigits
  cases place <;> omega

/-- If both ways come to the same and only paths were made, then a path is as long as its mark. -/
theorem length_eq_of_standing_eq
    (heq : filled value template Place.all = spelled value (parts template))
    (hothers : ∀ place, place ≠ .path →
      standing place (atTurn value template place) = standing place template) :
    (value .path).length = Place.path.mark.length ∨
      standing .path (atTurn value template .path) = standing .path template := by
  have hturns := countP_filled value template fun _ => true
  have hpass := countP_spelled_parts value template fun _ => true
  rw [heq] at hturns
  simp only [Place.sum_map_all, List.countP_true, hothers .root (by decide),
    hothers .line (by decide), hothers .column (by decide)] at hturns hpass
  obtain ⟨made, hmade⟩ := Nat.exists_eq_add_of_le (standing_le_atTurn value template .path)
  rw [hmade] at hturns ⊢
  have hbalance : made * (value .path).length = made * Place.path.mark.length := by
    rw [Nat.add_mul, Nat.add_mul] at hturns
    omega
  rcases Nat.eq_zero_or_pos made with hzero | hpos
  · exact .inr (by omega)
  · exact .inl (Nat.eq_of_mul_eq_mul_left hpos hbalance)

/-- With the root and the path in place, lines and columns are filled at once if none was made. -/
theorem filled_eq_spelled {root : List Char} {ps : List Part}
    (hpath : atTurn value template .line
      = spelled (Function.update (Function.update Place.mark .root root) .path (value .path)) ps)
    (hlines : standing .line (atTurn value template .line) = ps.count (.place .line))
    (hcolumns : standing .column (atTurn value template .column) = ps.count (.place .column)) :
    filled value template Place.all = spelled (Function.update value .root root) ps := by
  have hline : Function.update (Function.update Place.mark .root root) .path (value .path) .line
      = Place.line.mark := rfl
  have hcolumn : Function.update (Function.update (Function.update Place.mark .root root) .path
      (value .path)) .line (value .line) .column = Place.column.mark := rfl
  rw [hpath] at hlines
  rw [atTurn_column, hpath, replaceAll_spelled hline hlines] at hcolumns
  rw [filled_all, atTurn_column, hpath, replaceAll_spelled hline hlines,
    replaceAll_spelled hcolumn hcolumns]
  apply spelled_congr
  intro place _
  cases place <;> rfl

theorem atTurn_path_eq (value : Place → List Char) (template : List Char) :
    atTurn value template .path
      = spelled (Function.update Place.mark .root (value .root)) (parts template) :=
  replaceAll_eq _ _ _

/-- If both ways come to the same, what was made is filled with its mark. -/
theorem value_eq_mark_of_filled_eq (hline : 0 < (value .line).countP Char.isDigit)
    (hcolumn : 0 < (value .column).countP Char.isDigit)
    (heq : filled value template Place.all = spelled value (parts template)) {place : Place}
    (hmade : standing place template < standing place (atTurn value template place)) :
    value place = place.mark := by
  have hothers : ∀ place, place ≠ .path →
      standing place (atTurn value template place) = standing place template := by
    intro place hne
    cases place with
    | root => rfl
    | path => exact absurd rfl hne
    | line => exact standing_eq_of_digits heq hline
    | column => exact standing_eq_of_digits heq hcolumn
  -- nothing is lost before its turn, so what is not made is not made by the root either
  have hbefore : ∀ place, place ≠ .root → place ≠ .path →
      standing place (atTurn value template .path) = standing place template := by
    intro place hne hne'
    have hle := standing_le_atTurn_path value template hne
    have hle' := standing_atTurn_path_le value template hne
    have hsame := hothers place hne'
    omega
  have hpath : atTurn value template .line
      = spelled (Function.update (Function.update Place.mark .root Place.root.mark) .path
          (value .path)) (parts (atTurn value template .path)) := by
    rw [Function.update_eq_self, atTurn_line, replaceAll_eq]
  have hfilled := filled_eq_spelled hpath
    ((hothers .line (by decide)).trans (hbefore .line (by decide) (by decide)).symm)
    ((hothers .column (by decide)).trans (hbefore .column (by decide) (by decide)).symm)
  -- so the text behind the root is filled at its own places, and at all that stand in it
  have hreadings : spelled (Function.update value .root Place.root.mark)
        (parts (spelled (Function.update Place.mark .root (value .root)) (parts template)))
      = spelled (Function.update (Function.update value .root Place.root.mark) .root (value .root))
          (parts template) := by
    rw [Function.update_idem, Function.update_eq_self, ← heq, hfilled, atTurn_path_eq]
  have hlength : ∀ place, place ≠ .root →
      (Function.update value .root Place.root.mark place).length = place.mark.length ∨
      standing place (spelled (Function.update Place.mark .root (value .root)) (parts template))
        = (parts template).count (.place place) := by
    intro place hne
    rw [Function.update_of_ne hne, ← atTurn_path_eq]
    by_cases hplace : place = .path
    · subst hplace
      exact length_eq_of_standing_eq heq hothers
    · exact .inr (hbefore place hne hplace)
  by_cases hplace : place = .path
  · subst hplace
    have hresult := value_eq_mark_of_spelled_eq (Function.update_self _ _ _) hlength hreadings
      .path (by decide)
    rw [← atTurn_path_eq] at hresult
    exact hresult.resolve_right fun h => absurd h (Nat.ne_of_gt hmade)
  · exact absurd (hothers place hplace) (Nat.ne_of_gt hmade)

/-- **Filled in turn and filled in one pass.** Where lines and columns are digits, both come to the
same exactly if every place that is made on the way is filled with its own mark. -/
theorem filled_eq_spelled_iff (hline : 0 < (value .line).countP Char.isDigit)
    (hcolumn : 0 < (value .column).countP Char.isDigit) :
    filled value template Place.all = spelled value (parts template) ↔
      ∀ place, standing place template < standing place (atTurn value template place) →
        value place = place.mark := by
  constructor
  · intro heq place hmade
    exact value_eq_mark_of_filled_eq hline hcolumn heq hmade
  · intro hmade
    have hsame : ∀ place, value place ≠ place.mark →
        standing place (atTurn value template place) = standing place template := by
      intro place hmark
      have hle := standing_le_atTurn value template place
      have hnot := mt (hmade place) hmark
      omega
    have hdigits : ∀ place, 0 < (value place).countP Char.isDigit → value place ≠ place.mark := by
      intro place hdigits hmark
      rw [hmark, Place.countP_isDigit_mark] at hdigits
      omega
    have hpath : atTurn value template .line
        = spelled (Function.update (Function.update Place.mark .root (value .root)) .path
            (value .path)) (parts template) := by
      rw [atTurn_line]
      by_cases hmark : value .path = Place.path.mark
      · rw [hmark, replaceAll_mark_mark, atTurn_path_eq]
        exact congrArg (spelled · _) (Function.update_eq_self_iff.2 rfl).symm
      · have hpaths := hsame .path hmark
        rw [atTurn_path_eq] at hpaths ⊢
        exact replaceAll_spelled rfl hpaths
    rw [filled_eq_spelled hpath (hsame .line (hdigits .line hline))
      (hsame .column (hdigits .column hcolumn)), Function.update_eq_self]

end Agreement

/-! ## Addresses -/

/-- What goes to the places of a template. -/
def valueAt (format : LinkFormat) (position : Position) : Place → List Char
  | .root => format.root.toList
  | .path => (SourcePath.slashed position.file).toList
  | .line => (toString position.line).toList
  | .column => (toString position.column).toList

/-- **The template filled in one pass**, from left to right. What was put is not looked at again. -/
def onePass (format : LinkFormat) (position : Position) : String :=
  String.ofList (spelled (format.valueAt position) (parts format.template.toList))

/-- A place is made on the way if it stands more often at its turn than in the template. -/
def Made (format : LinkFormat) (position : Position) (place : Place) : Prop :=
  standing place format.template.toList
    < standing place (atTurn (format.valueAt position) format.template.toList place)

theorem url_eq_filled (format : LinkFormat) (position : Position) :
    format.url position
      = String.ofList (filled (format.valueAt position) format.template.toList Place.all) :=
  rfl

theorem countP_isDigit_toString_pos (n : Nat) : 0 < (toString n).toList.countP Char.isDigit := by
  rw [Nat.toString_eq_repr, Nat.toList_repr, List.countP_pos_iff]
  obtain ⟨c, hc⟩ := List.exists_mem_of_ne_nil _ (Nat.toDigits_ne_nil (n := n) (b := 10))
  exact ⟨c, hc, Nat.isDigit_of_mem_toDigits (by decide) (by decide) hc⟩

/-- **When an address is that of the single pass.** Filling one place after the other gives the
template with each of its places filled once exactly if every place that is made on the way, by what
was put earlier, is filled with its own mark again. -/
theorem url_eq_onePass_iff (format : LinkFormat) (position : Position) :
    format.url position = format.onePass position ↔
      ∀ place, format.Made position place → format.valueAt position place = place.mark := by
  rw [url_eq_filled, onePass, String.ofList_inj]
  exact filled_eq_spelled_iff (countP_isDigit_toString_pos _) (countP_isDigit_toString_pos _)

/-- A file whose name looks like a place. -/
def bracedFile : Position :=
  ⟨"docs/\x7bline\x7d.md", 7, 1⟩

/-- The name of the file is filled in as if it were part of the template. -/
theorem url_bracedFile :
    (LinkFormat.of "https://example.org" none).url bracedFile = "https://example.org/docs/7.md" ∧
    (LinkFormat.of "https://example.org" none).onePass bracedFile
      = "https://example.org/docs/\x7bline\x7d.md" := by
  decide +kernel

end Marginalia.LinkFormat
