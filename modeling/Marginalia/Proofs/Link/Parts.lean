/-
The places in a text, and what it does to fill one of them.

A text is read from left to right into its **parts**, which are places and the
characters between them. Marks open with a brace and have none inside. So they
never overlap, and a mark stays a part of its own whatever is put in front of it
or behind it (`parts_append_mark`). Filling one place is then the same as
writing the parts out again with another value for that place
(`replaceAll_eq`).

Parts that are written out need not be the parts of what was written: values may
hold marks, or complete them with what stands around. `count_le_standing` says
that the places that were meant are still there, and `replaceAll_spelled` that
only these are filled if there are no more than these.
-/
import Marginalia.Link
import Marginalia.Proofs.Text.Cut
import Mathlib.Algebra.GroupWithZero.Nat

set_option autoImplicit false

namespace Marginalia.LinkFormat

open Text (replaceAll)

/-! ## Places and parts -/

/-- The places of a template. -/
inductive Place where
  | root
  | path
  | line
  | column
deriving DecidableEq, Repr

namespace Place

/-- All places, in the order they are filled. -/
def all : List Place :=
  [.root, .path, .line, .column]

/-- A place without its opening brace. -/
def inner : Place → List Char
  | .root => ['r', 'o', 'o', 't', '\x7d']
  | .path => ['p', 'a', 't', 'h', '\x7d']
  | .line => ['l', 'i', 'n', 'e', '\x7d']
  | .column => ['c', 'o', 'l', 'u', 'm', 'n', '\x7d']

/-- How a place is written. -/
def mark (place : Place) : List Char :=
  '\x7b' :: place.inner

theorem mem_all (place : Place) : place ∈ all := by
  cases place <;> decide

theorem sum_map_all (f : Place → Nat) :
    (all.map f).sum = f .root + f .path + f .line + f .column := by
  simp only [all, List.map_cons, List.map_nil, List.sum_cons, List.sum_nil]
  omega

theorem brace_notMem_inner (place : Place) : '\x7b' ∉ place.inner := by
  cases place <;> decide

/-- No mark holds a digit. -/
theorem countP_isDigit_mark (place : Place) : place.mark.countP Char.isDigit = 0 := by
  cases place <;> decide

/-- No mark starts another. -/
theorem isPrefixOf_mark_append (place other : Place) (text : List Char) :
    place.mark.isPrefixOf (other.mark ++ text) = decide (place = other) := by
  cases place <;> cases other <;> simp [mark, inner, List.isPrefixOf]

end Place

/-- A part of a text. -/
inductive Part where
  | char (c : Char)
  | place (place : Place)
deriving DecidableEq, Repr

/-- The place whose mark a text starts with. -/
def placeAt? (text : List Char) : Option Place :=
  Place.all.find? fun place => place.mark.isPrefixOf text

/-- Reads a text from left to right into its parts. The number counts the characters of a mark just
read that are still to be passed over. -/
def partsFrom : Nat → List Char → List Part
  | _, [] => []
  | passed + 1, _ :: text => partsFrom passed text
  | 0, c :: text =>
    match placeAt? (c :: text) with
    | some place => .place place :: partsFrom place.inner.length text
    | none => .char c :: partsFrom 0 text

/-- The parts of a text. -/
def parts (text : List Char) : List Part :=
  partsFrom 0 text

/-- Parts written out, with a value for each place. -/
def spelled (value : Place → List Char) : List Part → List Char
  | [] => []
  | .char c :: ps => c :: spelled value ps
  | .place place :: ps => value place ++ spelled value ps

/-- How often a place stands in a text. -/
def standing (place : Place) (text : List Char) : Nat :=
  (parts text).count (.place place)

/-! ## The parts of a text -/

section Parts

variable {place : Place} {c : Char} {text : List Char}

theorem placeAt?_mark_append (place : Place) (text : List Char) :
    placeAt? (place.mark ++ text) = some place := by
  cases place <;> simp [placeAt?, Place.all, Place.isPrefixOf_mark_append]

theorem eq_mark_append_of_placeAt? (h : placeAt? text = some place) :
    ∃ rest, text = place.mark ++ rest := by
  have hstarts := List.find?_some h
  obtain ⟨rest, hrest⟩ := List.isPrefixOf_iff_prefix.1 hstarts
  exact ⟨rest, hrest.symm⟩

/-- A mark that starts in front of a brace ends in front of it. -/
theorem placeAt?_append_brace (c : Char) (front back : List Char) :
    placeAt? (c :: front ++ '\x7b' :: back) = placeAt? (c :: front) := by
  have hstarts : ∀ place : Place, place.mark.isPrefixOf (c :: front ++ '\x7b' :: back)
      = place.mark.isPrefixOf (c :: front) := by
    intro place
    have hinner : place.inner.isPrefixOf (front ++ '\x7b' :: back)
        = place.inner.isPrefixOf front := by
      rw [Text.isPrefixOf_eq, Text.isPrefixOf_eq,
        Text.after?_append_cons place.brace_notMem_inner, Option.isSome_map]
    rw [Place.mark, List.cons_append, List.isPrefixOf, List.isPrefixOf, hinner]
  simp only [placeAt?, hstarts]

theorem partsFrom_append (passed text : List Char) :
    partsFrom passed.length (passed ++ text) = parts text := by
  induction passed with
  | nil => rfl
  | cons c passed ih => rw [List.length_cons, List.cons_append, partsFrom, ih]

theorem parts_cons (h : placeAt? (c :: text) = none) :
    parts (c :: text) = .char c :: parts text := by
  rw [parts, partsFrom, h]
  rfl

theorem parts_mark_append (place : Place) (text : List Char) :
    parts (place.mark ++ text) = .place place :: parts text := by
  have hat := placeAt?_mark_append place text
  rw [Place.mark, List.cons_append] at hat ⊢
  rw [parts, partsFrom, hat]
  exact congrArg _ (partsFrom_append place.inner text)

/-- **Induction along the parts of a text.** -/
theorem induction_parts {motive : List Char → Prop} (nil : motive [])
    (char : ∀ c text, placeAt? (c :: text) = none → motive text → motive (c :: text))
    (place : ∀ place text, motive text → motive (Place.mark place ++ text))
    (text : List Char) : motive text := by
  induction hn : text.length using Nat.strongRecOn generalizing text with
  | _ n ih =>
    cases text with
    | nil => exact nil
    | cons c text =>
      rw [List.length_cons] at hn
      cases hat : placeAt? (c :: text) with
      | none => exact char c text hat (ih text.length (by omega) text rfl)
      | some p =>
        obtain ⟨rest, hrest⟩ := eq_mark_append_of_placeAt? hat
        have hlength := congrArg List.length hrest
        rw [Place.mark, List.cons_append, List.length_cons, List.length_cons,
          List.length_append] at hlength
        rw [hrest]
        exact place p rest (ih rest.length (by omega) rest rfl)

theorem spelled_append (value : Place → List Char) (ps qs : List Part) :
    spelled value (ps ++ qs) = spelled value ps ++ spelled value qs := by
  induction ps with
  | nil => rfl
  | cons part ps ih => cases part <;> simp [spelled, ih]

theorem spelled_congr {value value' : Place → List Char} {ps : List Part}
    (h : ∀ place, .place place ∈ ps → value place = value' place) :
    spelled value ps = spelled value' ps := by
  induction ps with
  | nil => rfl
  | cons part ps ih =>
    have hrest := ih fun place hplace => h place (List.mem_cons_of_mem _ hplace)
    cases part with
    | char c => rw [spelled, spelled, hrest]
    | place place => rw [spelled, spelled, hrest, h place List.mem_cons_self]

/-- Nothing is lost in the parts. -/
theorem spelled_mark_parts (text : List Char) : spelled Place.mark (parts text) = text := by
  induction text using induction_parts with
  | nil => rfl
  | char c text h ih => rw [parts_cons h, spelled, ih]
  | place place text ih => rw [parts_mark_append, spelled, ih]

/-- **A mark stays a part of its own**, whatever stands around it. -/
theorem parts_append_mark (front : List Char) (place : Place) (back : List Char) :
    parts (front ++ (place.mark ++ back)) = parts front ++ .place place :: parts back := by
  induction front using induction_parts with
  | nil => exact parts_mark_append place back
  | char c front h ih =>
    have hat : placeAt? (c :: (front ++ (place.mark ++ back))) = none := by
      rw [← h]
      exact placeAt?_append_brace c front (place.inner ++ back)
    rw [List.cons_append, parts_cons hat, ih, parts_cons h, List.cons_append]
  | place other front ih =>
    rw [List.append_assoc, parts_mark_append, ih, parts_mark_append, List.cons_append]

theorem standing_append_mark (front : List Char) (place other : Place) (back : List Char) :
    standing place (front ++ (other.mark ++ back))
      = standing place front + (standing place back + if other = place then 1 else 0) := by
  rw [standing, parts_append_mark, List.count_append, List.count_cons]
  simp [standing]

end Parts

/-! ## Filling one place -/

section Filling

variable {place other : Place} {value : Place → List Char} {c : Char} {text filling : List Char}
  {ps : List Part}

theorem replaceAll_cons (h : ¬ place.mark.isPrefixOf (c :: text)) :
    replaceAll place.mark filling (c :: text) = c :: replaceAll place.mark filling text := by
  rw [Text.isPrefixOf_eq] at h
  rw [replaceAll, Text.replaceFrom, Text.startsWith, if_neg h]
  rfl

/-- Where no brace opens, nothing is filled. -/
theorem replaceAll_append {kept : List Char} (h : '\x7b' ∉ kept) (text : List Char) :
    replaceAll place.mark filling (kept ++ text) = kept ++ replaceAll place.mark filling text := by
  induction kept with
  | nil => rfl
  | cons c kept ih =>
    rw [List.mem_cons, not_or] at h
    have hopens : ¬ place.mark.isPrefixOf (c :: (kept ++ text)) := by
      simp [Place.mark, List.isPrefixOf, h.1]
    rw [List.cons_append, replaceAll_cons hopens, ih h.2, List.cons_append]

private theorem replaceFrom_passed (literal passed text : List Char) :
    Text.replaceFrom literal filling passed.length (passed ++ text)
      = replaceAll literal filling text := by
  induction passed with
  | nil => rfl
  | cons c passed ih => rw [List.length_cons, List.cons_append, Text.replaceFrom, ih]

/-- A mark is filled if it is the one that is looked for. -/
theorem replaceAll_mark_append (place other : Place) (text : List Char) :
    replaceAll place.mark filling (other.mark ++ text)
      = Function.update Place.mark place filling other ++ replaceAll place.mark filling text := by
  have hstarts := place.isPrefixOf_mark_append other text
  by_cases hplace : other = place
  · subst hplace
    rw [decide_eq_true rfl, Text.isPrefixOf_eq] at hstarts
    rw [Place.mark, List.cons_append] at hstarts ⊢
    rw [replaceAll, Text.replaceFrom, Text.startsWith, if_pos hstarts, Function.update_self]
    exact congrArg _ (replaceFrom_passed _ _ _)
  · rw [decide_eq_false (Ne.symm hplace)] at hstarts
    rw [Function.update_of_ne hplace]
    change replaceAll place.mark filling ('\x7b' :: (other.inner ++ text)) = _
    change place.mark.isPrefixOf ('\x7b' :: (other.inner ++ text)) = _ at hstarts
    rw [replaceAll_cons (by simp [hstarts]), replaceAll_append other.brace_notMem_inner]
    rfl

/-- **Filling a place** writes a text out again, with the filling for that place alone. -/
theorem replaceAll_eq (place : Place) (filling text : List Char) :
    replaceAll place.mark filling text
      = spelled (Function.update Place.mark place filling) (parts text) := by
  induction text using induction_parts with
  | nil => rfl
  | char c text h ih =>
    have hopens : ¬ place.mark.isPrefixOf (c :: text) := by
      have hnone := List.find?_eq_none.1 h place place.mem_all
      simpa using hnone
    rw [replaceAll_cons hopens, parts_cons h, spelled, ih]
  | place other text ih => rw [replaceAll_mark_append, parts_mark_append, spelled, ih]

theorem replaceAll_append_mark (front back : List Char) :
    replaceAll place.mark filling (front ++ (place.mark ++ back))
      = replaceAll place.mark filling front ++ (filling ++ replaceAll place.mark filling back) := by
  rw [replaceAll_eq, parts_append_mark, spelled_append, spelled, Function.update_self,
    ← replaceAll_eq, ← replaceAll_eq]

theorem replaceAll_of_standing_eq_zero (h : standing place text = 0) :
    replaceAll place.mark filling text = text := by
  have hsame : ∀ other, .place other ∈ parts text →
      Function.update Place.mark place filling other = other.mark := by
    intro other hother
    apply Function.update_of_ne
    rintro rfl
    exact List.count_eq_zero.1 h hother
  rw [replaceAll_eq, spelled_congr hsame, spelled_mark_parts]

/-- **Induction along some of the parts.** What holds of parts with none of these, and goes over to
parts that have one of these and none before it, holds of all. -/
theorem induction_own (own : Part → Bool) {motive : List Part → Prop}
    (whole : ∀ ps, (∀ part ∈ ps, ¬ own part) → motive ps)
    (cut : ∀ front part ps, (∀ part ∈ front, ¬ own part) → own part → motive ps →
      motive (front ++ part :: ps))
    (ps : List Part) : motive ps := by
  induction hn : ps.length using Nat.strongRecOn generalizing ps with
  | _ n ih =>
    cases hfind : ps.find? own with
    | none => exact whole ps (List.find?_eq_none.1 hfind)
    | some part =>
      obtain ⟨hown, front, rest, rfl, hfront⟩ := List.find?_eq_some_iff_append.1 hfind
      refine cut front part rest (fun p hp => by simpa using hfront p hp) hown ?_
      apply ih rest.length _ rest rfl
      rw [← hn, List.length_append, List.length_cons]
      omega

/-- A place that is written as its mark stands in what is written. -/
theorem count_le_standing (hvalue : value place = place.mark) (ps : List Part) :
    ps.count (.place place) ≤ standing place (spelled value ps) := by
  induction ps using induction_own (· = .place place) with
  | whole ps hnone =>
    have hzero : ps.count (.place place) = 0 :=
      List.count_eq_zero.2 fun hmem => hnone _ hmem (by simp)
    omega
  | cut front part ps hfront hpart ih =>
    obtain rfl : part = .place place := by simpa using hpart
    have hzero : front.count (.place place) = 0 :=
      List.count_eq_zero.2 fun hmem => hfront _ hmem (by simp)
    rw [spelled_append, spelled, hvalue, standing_append_mark, if_pos rfl, List.count_append,
      List.count_cons_self]
    omega

/-- **Only the own places are filled**, if no other stands in what is written. -/
theorem replaceAll_spelled (hvalue : value place = place.mark)
    (h : standing place (spelled value ps) = ps.count (.place place)) :
    replaceAll place.mark filling (spelled value ps)
      = spelled (Function.update value place filling) ps := by
  have hsame : ∀ {qs : List Part}, (∀ part ∈ qs, ¬ decide (part = .place place)) →
      qs.count (.place place) = 0 ∧
        spelled (Function.update value place filling) qs = spelled value qs := by
    intro qs hqs
    refine ⟨List.count_eq_zero.2 fun hmem => hqs _ hmem (by simp), spelled_congr ?_⟩
    intro other hother
    apply Function.update_of_ne
    rintro rfl
    exact hqs _ hother (by simp)
  induction ps using induction_own (· = .place place) with
  | whole ps hnone =>
    obtain ⟨hzero, hspelled⟩ := hsame hnone
    rw [hspelled, replaceAll_of_standing_eq_zero (h.trans hzero)]
  | cut front part ps hfront hpart ih =>
    obtain rfl : part = .place place := by simpa using hpart
    obtain ⟨hzero, hspelled⟩ := hsame hfront
    have hrest := count_le_standing hvalue ps
    rw [spelled_append, spelled, hvalue, standing_append_mark, if_pos rfl, List.count_append,
      List.count_cons_self] at h
    rw [spelled_append, spelled, hvalue, replaceAll_append_mark, ih (by omega),
      replaceAll_of_standing_eq_zero (by omega), spelled_append, spelled, hspelled,
      Function.update_self]

/-- Filling a place with its own mark changes nothing. -/
theorem replaceAll_mark_mark (place : Place) (text : List Char) :
    replaceAll place.mark place.mark text = text := by
  rw [replaceAll_eq, Function.update_eq_self, spelled_mark_parts]

/-- No place but the one that is filled gets lost. -/
theorem standing_le_replaceAll (hne : other ≠ place) (filling text : List Char) :
    standing other text ≤ standing other (replaceAll place.mark filling text) := by
  rw [replaceAll_eq]
  exact count_le_standing (Function.update_of_ne hne _ _) (parts text)

end Filling

end Marginalia.LinkFormat
