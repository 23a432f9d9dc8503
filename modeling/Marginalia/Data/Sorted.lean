/-
Finite maps and sets whose order can be seen: lists kept strictly increasing
by key.

Strict increase is a field of the type, so two maps with the same entries are
equal, a map read back from a document is the map that was written, and a walk
over a map is a walk in key order. Inserting is a single pass that replaces on
collision; everything else that builds a map goes through it or leaves the
keys alone.
-/

set_option autoImplicit false

namespace Marginalia

/-- A finite map, as the list of its entries in strictly increasing key order. -/
structure SortedMap (κ α : Type) [Ord κ] where
  /-- The entries, in key order. -/
  toList : List (κ × α)
  ordered : toList.Pairwise fun a b => compare a.1 b.1 = .lt
deriving DecidableEq

namespace SortedMap

variable {κ α β : Type} [Ord κ]

/-! ## Entry lists -/

/-- Puts `f` of the present value, or of `none`, at `key`. -/
def putEntry (key : κ) (f : Option α → α) : List (κ × α) → List (κ × α)
  | [] => [(key, f none)]
  | (k, v) :: entries =>
    match compare key k with
    | .lt => (key, f none) :: (k, v) :: entries
    | .eq => (k, f (some v)) :: entries
    | .gt => (k, v) :: putEntry key f entries

theorem mem_putEntry {key : κ} {f : Option α → α} {entries : List (κ × α)} {e : κ × α}
    (h : e ∈ putEntry key f entries) : e.1 = key ∨ ∃ e' ∈ entries, e'.1 = e.1 := by
  induction entries with
  | nil =>
    simp only [putEntry, List.mem_singleton] at h
    simp [h]
  | cons kv entries ih =>
    obtain ⟨k, v⟩ := kv
    simp only [putEntry] at h
    split at h
    · rcases List.mem_cons.1 h with rfl | h
      · exact .inl rfl
      · exact .inr ⟨e, h, rfl⟩
    · rcases List.mem_cons.1 h with rfl | h
      · exact .inr ⟨(k, v), by simp, rfl⟩
      · exact .inr ⟨e, by simp [h], rfl⟩
    · rcases List.mem_cons.1 h with rfl | h
      · exact .inr ⟨(k, v), by simp, rfl⟩
      · rcases ih h with h | ⟨e', he, hk⟩
        · exact .inl h
        · exact .inr ⟨e', by simp [he], hk⟩

theorem putEntry_ordered [Std.TransOrd κ] (key : κ) (f : Option α → α) {entries : List (κ × α)}
    (h : entries.Pairwise fun a b => compare a.1 b.1 = .lt) :
    (putEntry key f entries).Pairwise fun a b => compare a.1 b.1 = .lt := by
  induction entries with
  | nil => simp [putEntry]
  | cons kv entries ih =>
    obtain ⟨k, v⟩ := kv
    have hk := (List.pairwise_cons.1 h).1
    have ht := (List.pairwise_cons.1 h).2
    simp only [putEntry]
    split
    · rename_i hlt
      refine List.pairwise_cons.2 ⟨fun e he => ?_, h⟩
      rcases List.mem_cons.1 he with rfl | he
      · exact hlt
      · exact Std.TransCmp.lt_trans hlt (hk e he)
    · exact List.pairwise_cons.2 ⟨hk, ht⟩
    · rename_i hgt
      refine List.pairwise_cons.2 ⟨fun e he => ?_, ih ht⟩
      rcases mem_putEntry he with hkey | ⟨e', he', hkey⟩
      · rw [hkey]
        exact Std.OrientedCmp.lt_of_gt hgt
      · rw [← hkey]
        exact hk e' he'

/-! ## Maps -/

/-- The map without entries. -/
def empty : SortedMap κ α :=
  ⟨[], List.Pairwise.nil⟩

instance : EmptyCollection (SortedMap κ α) := ⟨empty⟩

instance : Inhabited (SortedMap κ α) := ⟨empty⟩

/-- Puts `f` of the present value, or of `none`, at `key`. -/
def put [Std.TransOrd κ] (map : SortedMap κ α) (key : κ) (f : Option α → α) : SortedMap κ α :=
  ⟨putEntry key f map.toList, putEntry_ordered key f map.ordered⟩

/-- Binds `key` to `value`, whatever it was bound to before. -/
def insert [Std.TransOrd κ] (map : SortedMap κ α) (key : κ) (value : α) : SortedMap κ α :=
  map.put key fun _ => value

/-- Binds `key` to `value` unless it is bound already. -/
def insertNew [Std.TransOrd κ] (map : SortedMap κ α) (key : κ) (value : α) : SortedMap κ α :=
  map.put key fun present => present.getD value

/-- The map of a list of bindings; of two for one key the later one counts. -/
def ofList [Std.TransOrd κ] (bindings : List (κ × α)) : SortedMap κ α :=
  bindings.foldl (fun map (key, value) => map.insert key value) empty

/-- The value at `key`. -/
def get? (map : SortedMap κ α) (key : κ) : Option α :=
  (map.toList.find? fun e => compare e.1 key == .eq).map (·.2)

/-- Whether `key` is bound. -/
def contains (map : SortedMap κ α) (key : κ) : Bool :=
  (map.get? key).isSome

/-- The keys, in order. -/
def keys (map : SortedMap κ α) : List κ :=
  map.toList.map (·.1)

/-- The values, in the order of their keys. -/
def values (map : SortedMap κ α) : List α :=
  map.toList.map (·.2)

/-- The number of entries. -/
def size (map : SortedMap κ α) : Nat :=
  map.toList.length

/-- The map with every value replaced; keys stay. -/
def mapEntries (f : κ → α → β) (map : SortedMap κ α) : SortedMap κ β :=
  ⟨map.toList.map fun e => (e.1, f e.1 e.2), by
    simpa [List.pairwise_map] using map.ordered⟩

/-- Changes the value at `key`, if there is one. -/
def modify (map : SortedMap κ α) (key : κ) (f : α → α) : SortedMap κ α :=
  map.mapEntries fun k v => if compare k key == .eq then f v else v

end SortedMap

/-! ## Sets -/

/-- A finite set, as a map to nothing in particular. -/
abbrev SortedSet (κ : Type) [Ord κ] := SortedMap κ Unit

namespace SortedSet

variable {κ : Type} [Ord κ]

/-- Puts an element in. -/
def add [Std.TransOrd κ] (s : SortedSet κ) (element : κ) : SortedSet κ :=
  SortedMap.insert s element ()

/-- The set of the elements of a list. -/
def ofList [Std.TransOrd κ] (elements : List κ) : SortedSet κ :=
  elements.foldl add SortedMap.empty

/-- The elements, in order. -/
def elements (s : SortedSet κ) : List κ :=
  SortedMap.keys s

end SortedSet

end Marginalia
