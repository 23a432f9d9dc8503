/-
Reading a document back, part by part.

A record is read field by field, so all that matters of it is what is found
under each name. `find?` is worked out here for every way in which fields are
put together: one after another, appended, and left out where there is no
value. After that a reader of a record is only a row of fields, each found and
read, and nothing opens a list of fields again.

An absent value is written in two ways, as `null` and by leaving the field
out. Both are read as absent, which is why what a present value is written as
must never be `null`.
-/
import Marginalia.Data.Value
import Mathlib.Data.List.Basic

set_option autoImplicit false

namespace Marginalia

variable {α : Type} {encode : α → Value} {decode : Value → Option α}

/-! ## Values -/

namespace Value

theorem toNat?_nat {n : Nat} (h : n < natBound) : toNat? (nat n) = some n := by
  rw [nat, toNat?, if_pos ⟨Int.natCast_nonneg n, by rwa [Int.toNat_natCast]⟩, Int.toNat_natCast]

/-- What is undone item by item is undone for the whole list. -/
theorem mapM_map_eq_some {β : Type} {write : α → β} {read : β → Option α} {items : List α}
    (h : ∀ a ∈ items, read (write a) = some a) : (items.map write).mapM read = some items := by
  induction items with
  | nil => rfl
  | cons a items ih =>
    rw [List.map_cons, List.mapM_cons, h a List.mem_cons_self,
      ih fun b hb => h b (List.mem_cons_of_mem _ hb)]
    rfl

theorem toList?_map {items : List α} (h : ∀ a ∈ items, decode (encode a) = some a) :
    toList? decode (.list (items.map encode)) = some items :=
  mapM_map_eq_some h

theorem toOption?_of_decode {v : Value} {a : α} (hv : v ≠ .null) (h : decode v = some a) :
    toOption? decode v = some (some a) := by
  rw [toOption?]
  · rw [h, Option.map_some]
  · exact hv

theorem toOption?_optText (text : Option String) :
    toOption? toText? (optText text) = some text := by
  cases text <;> rfl

end Value

/-! ## Fields -/

namespace Fields

variable {entries rest : List (String × Value)} {positional : Bool} {name key : String} {v : Value}

@[simp]
theorem find?_nil : (mk [] positional).find? name = none := rfl

@[simp]
theorem find?_cons :
    (mk ((key, v) :: entries) positional).find? name
      = if key = name then some v else (mk entries positional).find? name := by
  by_cases hkey : key = name
  · simp [find?, hkey]
  · simp [find?, hkey]

@[simp]
theorem find?_append :
    (mk (entries ++ rest) positional).find? name
      = ((mk entries positional).find? name).or ((mk rest positional).find? name) := by
  rw [find?, List.find?_append, Option.map_or]
  rfl

@[simp]
theorem find?_ite {c : Prop} [Decidable c] :
    (mk (if c then entries else rest) positional).find? name
      = if c then (mk entries positional).find? name else (mk rest positional).find? name := by
  split <;> rfl

@[simp]
theorem find?_optField {value : Option α} :
    (mk (Value.optField key value encode) positional).find? name
      = if key = name then value.map encode else none := by
  cases value with
  | none => simp [Value.optField]
  | some a => simp [Value.optField]

theorem of?_record (names : List String) :
    of? names (.record entries) = some ⟨entries, false⟩ := rfl

/-- A field that is left out where there is no value is read as none there. -/
theorem optional_of_find? (name : String) (value : Option α)
    (hfind : (mk entries false).find? name = value.map encode) (hnull : ∀ a, encode a ≠ .null)
    (h : ∀ a ∈ value, decode (encode a) = some a) :
    (mk entries false).optional name decode = some value := by
  rw [optional, hfind]
  cases value with
  | none => rfl
  | some a => exact Value.toOption?_of_decode (hnull a) (h a rfl)

theorem optional_text (name : String) (text : Option String)
    (hfind : (mk entries false).find? name = text.map .text) :
    (mk entries false).optional name Value.toText? = some text :=
  optional_of_find? name text hfind (fun _ h => by simp at h) fun _ _ => rfl

theorem optional_optText (name : String) (text : Option String)
    (hfind : (mk entries false).find? name = some (.optText text)) :
    (mk entries false).optional name Value.toText? = some text := by
  rw [optional, hfind]
  exact Value.toOption?_optText text

/-- A field that is left out where it would say the default. -/
theorem orDefault_of_find? (name : String) (a default : α)
    (hleft : a = default → (mk entries false).find? name = none)
    (hput : a ≠ default → ∃ v, (mk entries false).find? name = some v ∧ decode v = some a) :
    (mk entries false).orDefault name default decode = some a := by
  rw [orDefault]
  by_cases ha : a = default
  · rw [hleft ha, ha]
  · obtain ⟨v, hfind, hv⟩ := hput ha
    rw [hfind]
    exact hv

end Fields

end Marginalia
