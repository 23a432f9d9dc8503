/-
What can be read from a sorted map, operation by operation.

A map is seen through `get?` and through the list of its entries, and the two
views agree: an entry is listed exactly if it is what the look-up of its key
returns. From that every operation gets one equation on look-ups, and two maps
with the same look-ups are **equal**, entry lists and all. Nothing after this
file opens an entry list to find out what an operation did to it.

Keys are compared by a lawful order throughout, so that "the same key" and
"the key that compares as equal" are one thing.
-/
import Marginalia.Data.Sorted
import Mathlib.Data.List.Sort

set_option autoImplicit false

namespace Marginalia

namespace SortedMap

variable {κ α β : Type} [Ord κ] [Std.TransOrd κ] [Std.LawfulEqOrd κ]

/-! ## Look-up and the list of entries -/

omit [Std.LawfulEqOrd κ] in
/-- Keys are listed at most once. -/
theorem key_unique {entries : List (κ × α)}
    (h : entries.Pairwise fun a b => compare a.1 b.1 = .lt) {k : κ} {v w : α}
    (hv : (k, v) ∈ entries) (hw : (k, w) ∈ entries) : v = w := by
  induction entries with
  | nil => simp at hv
  | cons e entries ih =>
    have hhead := (List.pairwise_cons.1 h).1
    have hself : compare k k ≠ .lt := by simp
    -- were the key in front and further back, it would be less than itself
    rcases List.mem_cons.1 hv with hv | hv <;> rcases List.mem_cons.1 hw with hw | hw
    · rw [← hv] at hw
      exact (Prod.mk.inj hw).2.symm
    · rw [← hv] at hhead
      exact absurd (hhead _ hw) hself
    · rw [← hw] at hhead
      exact absurd (hhead _ hv) hself
    · exact ih (List.pairwise_cons.1 h).2 hv hw

/-- **The two views agree.** A value is looked up exactly if it is listed with its key. -/
theorem get?_eq_some_iff {map : SortedMap κ α} {k : κ} {v : α} :
    map.get? k = some v ↔ (k, v) ∈ map.toList := by
  constructor
  · intro h
    obtain ⟨⟨k', v'⟩, hfind, hv⟩ := Option.map_eq_some_iff.1 h
    have hk : k' = k := by simpa using List.find?_some hfind
    have hmem := List.mem_of_find?_eq_some hfind
    rwa [hk, show v' = v from hv] at hmem
  · intro h
    have hfound : (map.toList.find? fun e => compare e.1 k == .eq).isSome :=
      List.find?_isSome.2 ⟨(k, v), h, by simp⟩
    obtain ⟨⟨k', w⟩, hfind⟩ := Option.isSome_iff_exists.1 hfound
    have hk : k' = k := by simpa using List.find?_some hfind
    have hmem := List.mem_of_find?_eq_some hfind
    rw [hk] at hmem
    rw [get?, hfind, Option.map_some, key_unique map.ordered hmem h]

omit [Std.TransOrd κ] [Std.LawfulEqOrd κ] in
theorem ext_toList {a b : SortedMap κ α} (h : a.toList = b.toList) : a = b := by
  cases a
  cases b
  simpa using h

/-- **Extensionality.** Maps that answer every look-up alike are equal. -/
theorem ext_get? {a b : SortedMap κ α} (h : ∀ k, a.get? k = b.get? k) : a = b := by
  -- two increasing lists with the same members are one list
  have hlist : a.toList = b.toList := by
    have : Std.Irrefl fun x y : κ × α => compare x.1 y.1 = .lt :=
      ⟨fun x hx => by simp at hx⟩
    have : Std.Antisymm fun x y : κ × α => compare x.1 y.1 = .lt :=
      ⟨fun x y hx hy => absurd hx (Std.OrientedCmp.not_lt_of_lt hy)⟩
    refine List.Pairwise.eq_of_mem_iff a.ordered b.ordered fun e => ?_
    rw [← get?_eq_some_iff, ← get?_eq_some_iff, h]
  exact ext_toList hlist

/-- A key is listed exactly if it is bound. -/
theorem mem_keys_iff {map : SortedMap κ α} {k : κ} : k ∈ map.keys ↔ (map.get? k).isSome := by
  rw [Option.isSome_iff_exists, keys, List.mem_map]
  constructor
  · rintro ⟨⟨k', v⟩, h, rfl⟩
    exact ⟨v, get?_eq_some_iff.2 h⟩
  · rintro ⟨v, h⟩
    exact ⟨(k, v), get?_eq_some_iff.1 h, rfl⟩

/-! ## Look-ups after an operation -/

omit [Std.TransOrd κ] [Std.LawfulEqOrd κ] in
@[simp]
theorem get?_empty (k : κ) : (empty : SortedMap κ α).get? k = none := rfl

/-- A value that is replaced by a function of its key and itself. -/
@[simp]
theorem get?_mapEntries (f : κ → α → β) (map : SortedMap κ α) (k : κ) :
    (map.mapEntries f).get? k = (map.get? k).map (f k) := by
  refine Option.ext fun w => ?_
  rw [get?_eq_some_iff, mapEntries, List.mem_map]
  constructor
  · rintro ⟨⟨k', v⟩, h, he⟩
    obtain ⟨rfl, rfl⟩ := Prod.mk.inj he
    rw [get?_eq_some_iff.2 h, Option.map_some]
  · intro h
    obtain ⟨v, hv, rfl⟩ := Option.map_eq_some_iff.1 h
    exact ⟨(k, v), get?_eq_some_iff.1 hv, rfl⟩

section Update

variable [DecidableEq κ]

/-- The value of a key in a list of entries, as the look-up of a map finds it. -/
private theorem find?_putEntry (key k : κ) (f : Option α → α) {entries : List (κ × α)}
    (h : entries.Pairwise fun a b => compare a.1 b.1 = .lt) :
    ((putEntry key f entries).find? fun e => compare e.1 k == .eq).map (·.2)
      = if k = key then some (f ((entries.find? fun e => compare e.1 key == .eq).map (·.2)))
        else (entries.find? fun e => compare e.1 k == .eq).map (·.2) := by
  induction entries with
  | nil =>
    by_cases hk : k = key
    · simp [putEntry, hk]
    · simp [putEntry, hk, Ne.symm hk]
  | cons e entries ih =>
    obtain ⟨k', v⟩ := e
    have hhead := (List.pairwise_cons.1 h).1
    simp only [putEntry]
    cases hc : compare key k' with
    | lt =>
      -- the key belongs in front of all entries, so none of them has it
      have hnone : ((k', v) :: entries).find? (fun e => compare e.1 key == .eq) = none := by
        rw [List.find?_eq_none]
        intro e he heq
        have hle : compare key e.1 = .lt := by
          rcases List.mem_cons.1 he with rfl | he
          · exact hc
          · exact Std.TransCmp.lt_trans hc (hhead e he)
        have hek : e.1 = key := by simpa using heq
        simp [hek] at hle
      by_cases hk : k = key
      · rw [if_pos hk, hnone, hk]
        simp
      · rw [if_neg hk, List.find?_cons_of_neg (by simpa using Ne.symm hk)]
    | eq =>
      have hk' : key = k' := by simpa using hc
      subst hk'
      by_cases hk : k = key
      · simp [hk]
      · simp [hk, Ne.symm hk]
    | gt =>
      -- the key belongs further back, and the entry in front stays what it is
      have hne : k' ≠ key := by
        rintro rfl
        simp at hc
      have ih := ih (List.pairwise_cons.1 h).2
      by_cases hk' : k' = k
      · subst hk'
        simp [hne]
      · rw [List.find?_cons_of_neg (by simpa using hk'),
          List.find?_cons_of_neg (by simpa using hne),
          List.find?_cons_of_neg (by simpa using hk'), ih]

/-- `put` changes what its key is bound to and nothing else. -/
theorem get?_put (map : SortedMap κ α) (key k : κ) (f : Option α → α) :
    (map.put key f).get? k = if k = key then some (f (map.get? key)) else map.get? k :=
  find?_putEntry key k f map.ordered

theorem get?_insert (map : SortedMap κ α) (key k : κ) (v : α) :
    (map.insert key v).get? k = if k = key then some v else map.get? k :=
  get?_put map key k _

theorem get?_insertNew (map : SortedMap κ α) (key k : κ) (v : α) :
    (map.insertNew key v).get? k
      = if k = key then some ((map.get? key).getD v) else map.get? k :=
  get?_put map key k _

theorem get?_modify (map : SortedMap κ α) (key k : κ) (f : α → α) :
    (map.modify key f).get? k = if k = key then (map.get? key).map f else map.get? k := by
  rw [modify, get?_mapEntries]
  by_cases hk : k = key
  · subst hk
    simp
  · simp [hk]

end Update

/-! ## Maps of their own entries -/

omit [Std.LawfulEqOrd κ] in
/-- A key behind all others is put at the end. -/
private theorem putEntry_of_lt {key : κ} {entries : List (κ × α)} (f : Option α → α)
    (h : ∀ e ∈ entries, compare e.1 key = .lt) :
    putEntry key f entries = entries ++ [(key, f none)] := by
  induction entries with
  | nil => rfl
  | cons e entries ih =>
    have hgt : compare key e.1 = .gt := Std.OrientedCmp.gt_of_lt (h e List.mem_cons_self)
    rw [putEntry, hgt, ih fun e he => h e (List.mem_cons_of_mem _ he)]
    rfl

omit [Std.LawfulEqOrd κ] in
private theorem toList_foldl_insert {map : SortedMap κ α} {entries : List (κ × α)}
    (h : (map.toList ++ entries).Pairwise fun a b => compare a.1 b.1 = .lt) :
    (entries.foldl (fun map (key, value) => map.insert key value) map).toList
      = map.toList ++ entries := by
  induction entries generalizing map with
  | nil => rw [List.foldl_nil, List.append_nil]
  | cons e entries ih =>
    have hlast : (map.insert e.1 e.2).toList = map.toList ++ [e] := by
      refine putEntry_of_lt _ fun e' he' => ?_
      exact (List.pairwise_append.1 h).2.2 e' he' e List.mem_cons_self
    rw [List.append_cons, ← hlast] at h ⊢
    exact ih h

omit [Std.LawfulEqOrd κ] in
/-- **A map is the map of its entries.** They come in order, so each is put behind the others. -/
theorem ofList_toList (map : SortedMap κ α) : ofList map.toList = map := by
  have hordered : ((empty : SortedMap κ α).toList ++ map.toList).Pairwise
      fun a b => compare a.1 b.1 = .lt := map.ordered
  exact ext_toList (toList_foldl_insert hordered)

end SortedMap

/-! ## Sets -/

namespace SortedSet

variable {κ : Type} [Ord κ] [Std.TransOrd κ] [Std.LawfulEqOrd κ]

omit [Std.TransOrd κ] [Std.LawfulEqOrd κ] in
@[simp]
theorem mem_elements_empty (k : κ) : ¬ k ∈ elements (SortedMap.empty : SortedSet κ) := by
  simp [elements, SortedMap.keys, SortedMap.empty]

omit [Std.TransOrd κ] [Std.LawfulEqOrd κ] in
theorem pairwise_elements (s : SortedSet κ) :
    (elements s).Pairwise fun k k' => compare k k' = .lt :=
  List.pairwise_map.2 s.ordered

/-- Adding an element adds that element. -/
@[simp]
theorem mem_elements_add [DecidableEq κ] (s : SortedSet κ) (x k : κ) :
    k ∈ elements (add s x) ↔ k = x ∨ k ∈ elements s := by
  rw [elements, SortedMap.mem_keys_iff, add, SortedMap.get?_insert, elements,
    SortedMap.mem_keys_iff]
  by_cases hk : k = x
  · simp [hk]
  · simp [hk]

/-- **Extensionality.** Sets with the same elements are equal. -/
theorem ext_elements {a b : SortedSet κ} (h : ∀ k, k ∈ elements a ↔ k ∈ elements b) : a = b := by
  refine SortedMap.ext_get? fun k => ?_
  have hk := h k
  rw [elements, elements, SortedMap.mem_keys_iff, SortedMap.mem_keys_iff] at hk
  cases ha : SortedMap.get? a k <;> cases hb : SortedMap.get? b k <;> simp_all

omit [Std.LawfulEqOrd κ] in
/-- A set is the set of its elements. -/
theorem ofList_elements (s : SortedSet κ) : ofList (elements s) = s := by
  have hmaps : ofList (elements s) = SortedMap.ofList s.toList := by
    rw [ofList, elements, SortedMap.keys, List.foldl_map, SortedMap.ofList]
    rfl
  rw [hmaps, SortedMap.ofList_toList]

end SortedSet

end Marginalia
