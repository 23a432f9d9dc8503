/-
Attribute groups, written and read.

`Group` is the writer's side of the attributes: the three kinds of group there
are, each with its key and its text. A group has many spellings, because white
space may stand inside the braces. `Spells` says which texts between two braces
stand for it, and `Row` puts spelled groups in braces, one behind the other,
lets no key come twice and ends where no further brace opens.

The reader fills a record of slots from the left. So the induction is over the
row, for every record whose slots are still free for the groups to come, and
what a record becomes is `extendedBy`, which lets the groups speak where the
record is silent. `readFrom_eq_ok_iff` is that induction, in both directions.

Reading a row of proper groups gives back what they say, in whatever order they
stand: their values have no blank ends, and neither are empty nor close their
brace early. The other way round, **whatever is read is what some proper groups
say**. They need not be spelled as they are written. But a text from which
nothing is read had no group in it.
-/
import Marginalia.Note.Attributes
import Marginalia.Proofs.Text.Blank
import Marginalia.Proofs.Text.Cut
import Mathlib.Data.List.Forall2
import Mathlib.Data.String.Basic

set_option autoImplicit false

namespace Marginalia

/-- A computation succeeds if both of its parts do. -/
theorem bind_eq_ok_iff {ε α β : Type} {first : Except ε α} {next : α → Except ε β} {b : β} :
    first >>= next = .ok b ↔ ∃ a, first = .ok a ∧ next a = .ok b := by
  cases first with
  | error fault => simp [bind, Except.bind]
  | ok a => simp [bind, Except.bind]

namespace Attributes

/-- A value that can stand in a group: it is not empty, has no blank ends, and does not leave its
braces or its line. -/
def Legible (value : String) : Prop :=
  value ≠ "" ∧ Text.trimmed value = value ∧ '\x7d' ∉ value.toList ∧ '\n' ∉ value.toList

instance (value : String) : Decidable (Legible value) :=
  inferInstanceAs (Decidable (_ ∧ _))

inductive Group where
  | nickname (value : String)
  | title (value : String)
  | doNotCollect
deriving DecidableEq

namespace Group

/-- The key a group stands under. -/
def key : Group → String
  | nickname _ => "alias"
  | title _ => "title"
  | doNotCollect => "do-not-collect"

/-- The value of a group, if it is of a kind that has one. -/
def value? : Group → Option String
  | nickname value => some value
  | title value => some value
  | doNotCollect => none

/-- What stands between the braces. -/
def inside (g : Group) : String :=
  match g.value? with
  | some value => g.key ++ ":" ++ value
  | none => g.key

def text (g : Group) : String :=
  "\x7b" ++ g.inside ++ "\x7d"

def nickname? : Group → Option String
  | nickname value => some value
  | _ => none

def title? : Group → Option String
  | title value => some value
  | _ => none

/-- Whether a group that has a value has one that can be told from what stands around it. -/
def Proper (g : Group) : Prop :=
  ∀ value ∈ g.value?, Legible value

instance (g : Group) : Decidable g.Proper :=
  inferInstanceAs (Decidable (∀ value ∈ g.value?, Legible value))

/-- A key is not split, does not close its brace, does not end its line and has no blank ends. -/
theorem key_plain (g : Group) :
    ':' ∉ g.key.toList ∧ '\x7d' ∉ g.key.toList ∧ '\n' ∉ g.key.toList
      ∧ Text.trim g.key.toList = g.key.toList := by
  cases g <;> (dsimp only [key]; decide)

theorem notMem_inside {g : Group} {c : Char} (hkey : c ∉ g.key.toList) (hcolon : c ≠ ':')
    (hvalue : ∀ value ∈ g.value?, c ∉ value.toList) : c ∉ g.inside.toList := by
  rw [inside]
  cases hg : g.value? with
  | none => exact hkey
  | some value =>
    have hvalue := hvalue value hg
    simp [hkey, hcolon, hvalue]

theorem Proper.brace_notMem {g : Group} (h : g.Proper) : '\x7d' ∉ g.inside.toList := by
  obtain ⟨-, hkey, -, -⟩ := g.key_plain
  exact notMem_inside hkey (by decide) fun value hvalue => (h value hvalue).2.2.1

theorem Proper.feed_notMem {g : Group} (h : g.Proper) : '\n' ∉ g.text.toList := by
  obtain ⟨-, -, hkey, -⟩ := g.key_plain
  have hinside : '\n' ∉ g.inside.toList :=
    notMem_inside hkey (by decide) fun value hvalue => (h value hvalue).2.2.2
  simp [text, hinside]

end Group

/-- A row of groups as it is written. -/
def written (groups : List Group) : String :=
  String.join (groups.map Group.text)

theorem toList_written (groups : List Group) :
    (written groups).toList = groups.flatMap fun g => g.text.toList := by
  rw [written, String.toList_join, List.flatMap_map]

theorem feed_notMem_written {groups : List Group} (h : ∀ g ∈ groups, g.Proper) :
    '\n' ∉ (written groups).toList := by
  rw [toList_written, List.mem_flatMap]
  rintro ⟨g, hg, hfeed⟩
  exact (h g hg).feed_notMem hfeed

/-! ## What a row of groups says -/

/-- The attributes with what the groups say where they say nothing themselves. -/
def extendedBy (a : Attributes) (groups : List Group) : Attributes where
  nickname := a.nickname.or (groups.findSome? Group.nickname?)
  title := a.title.or (groups.findSome? Group.title?)
  doNotCollect := a.doNotCollect || groups.contains .doNotCollect

@[simp]
theorem extendedBy_nil (a : Attributes) : a.extendedBy [] = a := by
  simp [extendedBy]

theorem extendedBy_cons (a : Attributes) (g : Group) (groups : List Group) :
    a.extendedBy (g :: groups) = (a.extendedBy [g]).extendedBy groups := by
  rw [← List.singleton_append]
  simp only [extendedBy, List.findSome?_append, Option.or_assoc, List.contains_append,
    Bool.or_assoc]

/-- Whether the slot of a group is still free. -/
def Lacks (a : Attributes) : Group → Prop
  | .nickname _ => a.nickname = none
  | .title _ => a.title = none
  | .doNotCollect => a.doNotCollect = false

/-- A group takes the slot of its key, and no other. -/
theorem lacks_extendedBy_iff {a : Attributes} {g other : Group} :
    (a.extendedBy [g]).Lacks other ↔ a.Lacks other ∧ g.key ≠ other.key := by
  cases g <;> cases other <;> simp [Lacks, extendedBy, Group.key, Group.nickname?, Group.title?]

/-! ## One group -/

theorem split_append {front : List Char} (hcolon : ':' ∉ front) (back : List Char) :
    split (front ++ ':' :: back)
      = (String.ofList (Text.trim front), some (String.ofList (Text.trim back))) := by
  unfold split
  rw [Text.cutAt_append hcolon]

theorem split_of_notMem {inside : List Char} (hcolon : ':' ∉ inside) :
    split inside = (String.ofList (Text.trim inside), none) := by
  unfold split
  rw [Text.cutAt_of_notMem hcolon]

theorem fill_eq_ok_iff {key value : String} {present filled : Option String} :
    fill key present value = .ok filled ↔ value ≠ "" ∧ present = none ∧ filled = some value := by
  unfold fill
  split
  · rename_i hvalue
    have hvalue : value = "" := by simpa using hvalue
    simp [hvalue]
  · rename_i hvalue
    have hvalue : value ≠ "" := by simpa using hvalue
    cases present with
    | none => simp [hvalue, eq_comm]
    | some _ => simp

/-- **One group.** A group is taken exactly if it splits into a key and what the key asks for, and
the slot of the key is free. -/
theorem add_eq_ok_iff {a a' : Attributes} {inside : List Char} :
    a.add inside = .ok a' ↔ ∃ g : Group, split inside = (g.key, g.value?) ∧
      (∀ value ∈ g.value?, value ≠ "") ∧ a.Lacks g ∧ a' = a.extendedBy [g] := by
  constructor
  · intro h
    unfold add at h
    split at h
    · rename_i value hsplit
      obtain ⟨filled, hfill, heq⟩ := bind_eq_ok_iff.1 h
      obtain ⟨hne, hfree, rfl⟩ := fill_eq_ok_iff.1 hfill
      refine ⟨.nickname value, hsplit, by simpa [Group.value?] using hne, hfree, ?_⟩
      cases heq
      simp [extendedBy, hfree, Group.nickname?, Group.title?]
    · rename_i value hsplit
      obtain ⟨filled, hfill, heq⟩ := bind_eq_ok_iff.1 h
      obtain ⟨hne, hfree, rfl⟩ := fill_eq_ok_iff.1 hfill
      refine ⟨.title value, hsplit, by simpa [Group.value?] using hne, hfree, ?_⟩
      cases heq
      simp [extendedBy, hfree, Group.nickname?, Group.title?]
    · rename_i hsplit
      split at h
      · exact absurd h (by simp)
      · rename_i hfree
        refine ⟨.doNotCollect, hsplit, by simp [Group.value?], by simpa [Lacks] using hfree, ?_⟩
        cases h
        simp [extendedBy, Group.nickname?, Group.title?]
    all_goals exact absurd h (by simp)
  · rintro ⟨g, hsplit, hne, hfree, rfl⟩
    rw [add, hsplit]
    cases g with
    | nickname value =>
      have hfill : fill "alias" none value = .ok (some value) :=
        fill_eq_ok_iff.2 ⟨hne value rfl, rfl, rfl⟩
      have hfree : a.nickname = none := hfree
      simp [Group.key, Group.value?, hfill, hfree, extendedBy, Group.nickname?, Group.title?]
    | title value =>
      have hfill : fill "title" none value = .ok (some value) :=
        fill_eq_ok_iff.2 ⟨hne value rfl, rfl, rfl⟩
      have hfree : a.title = none := hfree
      simp [Group.key, Group.value?, hfill, hfree, extendedBy, Group.nickname?, Group.title?]
    | doNotCollect =>
      have hfree : a.doNotCollect = false := hfree
      simp [Group.key, Group.value?, hfree, extendedBy, Group.nickname?, Group.title?]

/-- **One turn of the loop.** The first group is taken, and the rest is read on top of it. -/
theorem readFrom_group {inside : List Char} (hbrace : '\x7d' ∉ inside) (a : Attributes)
    (rest : List Char) :
    readFrom a ('\x7b' :: (inside ++ '\x7d' :: rest)) = a.add inside >>= (readFrom · rest) := by
  have hcut := Text.cutAt_append hbrace rest
  rw [readFrom]
  split
  · rename_i hnone
    rw [hcut] at hnone
    cases hnone
  · rename_i group rest' hsome
    rw [hcut] at hsome
    cases hsome
    rfl

theorem readFrom_of_head? {a : Attributes} {text : List Char} (h : text.head? ≠ some '\x7b') :
    readFrom a text = .ok (a, text) := by
  rw [readFrom]
  rintro inside rfl
  exact h rfl

/-! ## Rows of groups -/

/-- A text between braces stands for a group. -/
inductive Spells : Group → List Char → Prop where
  | nickname {front back : List Char} (hcolon : ':' ∉ front)
      (hkey : Text.trim front = "alias".toList) (hvalue : Text.trim back ≠ []) :
      Spells (.nickname (String.ofList (Text.trim back))) (front ++ ':' :: back)
  | title {front back : List Char} (hcolon : ':' ∉ front)
      (hkey : Text.trim front = "title".toList) (hvalue : Text.trim back ≠ []) :
      Spells (.title (String.ofList (Text.trim back))) (front ++ ':' :: back)
  | doNotCollect {inside : List Char} (hcolon : ':' ∉ inside)
      (hkey : Text.trim inside = "do-not-collect".toList) : Spells .doNotCollect inside

/-- Texts in braces, one behind the other. -/
def braced (insides : List (List Char)) : List Char :=
  insides.flatMap fun inside => '\x7b' :: (inside ++ ['\x7d'])

/-- A text that starts with a row of groups, no key twice, and goes on with the rest. -/
structure Row (text : List Char) (groups : List Group) (rest : List Char) : Prop where
  written : ∃ insides, List.Forall₂ Spells groups insides ∧ (∀ inside ∈ insides, '\x7d' ∉ inside) ∧
    text = braced insides ++ rest
  ends : rest.head? ≠ some '\x7b'
  keys : (groups.map Group.key).Nodup

/-- **A group is spelled by exactly the texts that are split into it.** -/
theorem spells_iff {g : Group} {inside : List Char} :
    Spells g inside ↔
      split inside = (g.key, g.value?) ∧ ∀ value ∈ g.value?, value ≠ "" := by
  constructor
  · intro h
    cases h with
    | nickname hcolon hkey hvalue =>
      rw [split_append hcolon, hkey]
      exact ⟨rfl, by simpa [Group.value?] using hvalue⟩
    | title hcolon hkey hvalue =>
      rw [split_append hcolon, hkey]
      exact ⟨rfl, by simpa [Group.value?] using hvalue⟩
    | doNotCollect hcolon hkey =>
      rw [split_of_notMem hcolon, hkey]
      exact ⟨rfl, by simp [Group.value?]⟩
  · rintro ⟨hsplit, hne⟩
    by_cases hcolon : ':' ∈ inside
    -- with a colon there is a value, and only two kinds of group have one
    · obtain ⟨front, back, rfl, hfront⟩ := List.eq_append_cons_of_mem hcolon
      rw [split_append hfront, Prod.mk.injEq, String.ofList_eq] at hsplit
      obtain ⟨hkey, hvalue⟩ := hsplit
      have hback : Text.trim back ≠ [] := by
        have hne := hne _ hvalue.symm
        rwa [ne_eq, String.ofList_eq_empty_iff] at hne
      cases g with
      | nickname value =>
        obtain rfl := Option.some.inj hvalue
        exact .nickname hfront hkey hback
      | title value =>
        obtain rfl := Option.some.inj hvalue
        exact .title hfront hkey hback
      | doNotCollect => exact absurd hvalue (by simp [Group.value?])
    · rw [split_of_notMem hcolon, Prod.mk.injEq, String.ofList_eq] at hsplit
      obtain ⟨hkey, hvalue⟩ := hsplit
      cases g with
      | nickname value => exact absurd hvalue (by simp [Group.value?])
      | title value => exact absurd hvalue (by simp [Group.value?])
      | doNotCollect => exact .doNotCollect hcolon hkey

theorem add_eq_ok_iff_spells {a a' : Attributes} {inside : List Char} :
    a.add inside = .ok a' ↔ ∃ g, Spells g inside ∧ a.Lacks g ∧ a' = a.extendedBy [g] := by
  simp only [add_eq_ok_iff, spells_iff, and_assoc]

section Rows

variable {text rest : List Char} {g : Group} {groups : List Group}

theorem braced_cons (inside : List Char) (insides : List (List Char)) (rest : List Char) :
    braced (inside :: insides) ++ rest = '\x7b' :: (inside ++ '\x7d' :: (braced insides ++ rest)) := by
  simp [braced]

theorem row_nil_iff : Row text [] rest ↔ text = rest ∧ rest.head? ≠ some '\x7b' := by
  constructor
  · rintro ⟨⟨insides, hspells, -, rfl⟩, hends, -⟩
    rw [List.forall₂_nil_left_iff.1 hspells]
    exact ⟨rfl, hends⟩
  · rintro ⟨rfl, hends⟩
    exact ⟨⟨[], .nil, by simp, rfl⟩, hends, List.nodup_nil⟩

theorem row_cons_iff : Row text (g :: groups) rest ↔
    ∃ inside later, text = '\x7b' :: (inside ++ '\x7d' :: later) ∧ '\x7d' ∉ inside ∧
      Spells g inside ∧ Row later groups rest ∧ ∀ other ∈ groups, g.key ≠ other.key := by
  have hfresh : g.key ∉ groups.map Group.key ↔ ∀ other ∈ groups, g.key ≠ other.key := by
    simp [eq_comm]
  constructor
  · rintro ⟨⟨insides, hspells, hbraces, rfl⟩, hends, hkeys⟩
    obtain ⟨inside, later, hspelled, hlater, rfl⟩ := List.forall₂_cons_left_iff.1 hspells
    rw [List.forall_mem_cons] at hbraces
    rw [List.map_cons, List.nodup_cons, hfresh] at hkeys
    exact ⟨inside, braced later ++ rest, braced_cons inside later rest, hbraces.1, hspelled,
      ⟨⟨later, hlater, hbraces.2, rfl⟩, hends, hkeys.2⟩, hkeys.1⟩
  · rintro ⟨inside, later, rfl, hbrace, hspelled, ⟨⟨insides, hspells, hbraces, rfl⟩, hends, hkeys⟩,
      hother⟩
    refine ⟨⟨inside :: insides, .cons hspelled hspells, List.forall_mem_cons.2 ⟨hbrace, hbraces⟩,
      (braced_cons inside insides rest).symm⟩, hends, ?_⟩
    rw [List.map_cons, List.nodup_cons, hfresh]
    exact ⟨hother, hkeys⟩

/-- **The loop.** On top of a record the reader accepts the rows whose slots are free. -/
theorem readFrom_eq_ok_iff {a a' : Attributes} :
    readFrom a text = .ok (a', rest) ↔
      ∃ groups, Row text groups rest ∧ (∀ g ∈ groups, a.Lacks g) ∧ a' = a.extendedBy groups := by
  constructor
  · intro h
    fun_induction readFrom a text with
    | case1 a inside hcut => exact absurd h (by simp)
    | case2 a inside group later hcut ih =>
      obtain ⟨a₁, hadd, h⟩ := bind_eq_ok_iff.1 h
      obtain ⟨g, hspells, hfree, rfl⟩ := add_eq_ok_iff_spells.1 hadd
      obtain ⟨groups, hrow, hothers, rfl⟩ := ih _ h
      -- what finds its slot free behind the group found it free before, under another key
      have hothers := fun other hother => lacks_extendedBy_iff.1 (hothers other hother)
      refine ⟨g :: groups, row_cons_iff.2 ⟨group, later, ?_, Text.notMem_of_cutAt hcut, hspells, hrow,
        fun other hother => (hothers other hother).2⟩, ?_, (extendedBy_cons a g groups).symm⟩
      · rw [Text.eq_append_of_cutAt hcut]
        simp
      · exact List.forall_mem_cons.2 ⟨hfree, fun other hother => (hothers other hother).1⟩
    | case3 a text hopen =>
      rw [Except.ok.injEq, Prod.mk.injEq] at h
      obtain ⟨rfl, rfl⟩ := h
      refine ⟨[], row_nil_iff.2 ⟨rfl, fun hhead => ?_⟩, by simp, (extendedBy_nil a).symm⟩
      obtain ⟨inside, htext⟩ := List.head?_eq_some_iff.1 hhead
      exact hopen inside htext
  · rintro ⟨groups, hrow, hfree, rfl⟩
    induction groups generalizing a text with
    | nil =>
      obtain ⟨rfl, hends⟩ := row_nil_iff.1 hrow
      rw [extendedBy_nil]
      exact readFrom_of_head? hends
    | cons g groups ih =>
      obtain ⟨inside, later, rfl, hbrace, hspells, hlater, hkeys⟩ := row_cons_iff.1 hrow
      rw [List.forall_mem_cons] at hfree
      have hadd := add_eq_ok_iff_spells.2 ⟨g, hspells, hfree.1, rfl⟩
      rw [extendedBy_cons a g groups, readFrom_group hbrace, hadd]
      exact ih hlater fun other hother =>
        lacks_extendedBy_iff.2 ⟨hfree.2 other hother, hkeys other hother⟩

theorem Row.suffix (h : Row text groups rest) : rest <:+ text := by
  obtain ⟨insides, -, -, rfl⟩ := h.written
  exact List.suffix_append _ rest

end Rows

/-! ## Reading what is written -/

/-- A group is split where it was put together. -/
theorem spells_inside {g : Group} (h : g.Proper) : Spells g g.inside.toList := by
  obtain ⟨hcolon, -, -, hkey⟩ := g.key_plain
  refine spells_iff.2 ⟨?_, fun value hvalue => (h value hvalue).1⟩
  rw [Group.inside]
  cases hg : g.value? with
  | none =>
    simp only [split_of_notMem hcolon, hkey, String.ofList_toList]
  | some value =>
    have htext : (g.key ++ ":" ++ value).toList = g.key.toList ++ ':' :: value.toList := by
      simp
    have hvalue : String.ofList (Text.trim value.toList) = value := (h value hg).2.1
    simp only [htext, split_append hcolon, hkey, hvalue, String.ofList_toList]

/-- Proper groups with different keys are a row as they are written. -/
theorem row_written {groups : List Group} (hproper : ∀ g ∈ groups, g.Proper)
    (hkeys : (groups.map Group.key).Nodup) {rest : List Char} (hrest : rest.head? ≠ some '\x7b') :
    Row ((written groups).toList ++ rest) groups rest := by
  refine ⟨⟨groups.map fun g => g.inside.toList, ?_, ?_, ?_⟩, hrest, hkeys⟩
  · rw [List.forall₂_map_right_iff, List.forall₂_same]
    exact fun g hg => spells_inside (hproper g hg)
  · intro inside hinside
    obtain ⟨g, hg, rfl⟩ := List.mem_map.1 hinside
    exact (hproper g hg).brace_notMem
  · rw [toList_written, braced, List.flatMap_map]
    simp [Group.text]

theorem lacks_empty (g : Group) : ({} : Attributes).Lacks g := by
  cases g <;> rfl

/-- **Reading undoes writing.** Proper groups with different keys, in any order, are read as what
they say. -/
theorem read_written {groups : List Group} (hproper : ∀ g ∈ groups, g.Proper)
    (hkeys : (groups.map Group.key).Nodup) {rest : List Char} (hrest : rest.head? ≠ some '\x7b') :
    read ((written groups).toList ++ rest) = .ok (({} : Attributes).extendedBy groups, rest) :=
  readFrom_eq_ok_iff.2
    ⟨groups, row_written hproper hkeys hrest, fun g _ => lacks_empty g, rfl⟩

/-! ## What has been read -/

/-- A value is a part of its group, without blank ends. -/
theorem split_value {group : List Char} {key value : String}
    (h : split group = (key, some value)) :
    Text.trimmed value = value ∧ ∀ c ∈ value.toList, c ∈ group := by
  by_cases hcolon : ':' ∈ group
  · obtain ⟨front, back, rfl, hfront⟩ := List.eq_append_cons_of_mem hcolon
    rw [split_append hfront] at h
    obtain rfl : String.ofList (Text.trim back) = value :=
      Option.some.inj (congrArg Prod.snd h)
    constructor
    · rw [Text.trimmed, String.toList_ofList, Text.trim_trim]
    · intro c hc
      rw [String.toList_ofList] at hc
      have hback : c ∈ back := (Text.trim_infix back).subset hc
      exact List.mem_append_right _ (List.mem_cons_of_mem _ hback)
  · rw [split_of_notMem hcolon] at h
    exact absurd (congrArg Prod.snd h) (by simp)

/-- What is spelled without leaving its braces or its line can be written. -/
theorem Spells.proper {g : Group} {inside : List Char} (h : Spells g inside)
    (hbrace : '\x7d' ∉ inside) (hfeed : '\n' ∉ inside) : g.Proper := by
  obtain ⟨hsplit, hne⟩ := spells_iff.1 h
  intro value hvalue
  rw [Option.mem_def.1 hvalue] at hsplit
  obtain ⟨htrimmed, hpart⟩ := split_value hsplit
  exact ⟨hne value hvalue, htrimmed, fun hc => hbrace (hpart _ hc), fun hc => hfeed (hpart _ hc)⟩

theorem Row.proper {text rest : List Char} {groups : List Group} (h : Row text groups rest)
    (hfeed : '\n' ∉ text) : ∀ g ∈ groups, g.Proper := by
  induction groups generalizing text with
  | nil => simp
  | cons g groups ih =>
    obtain ⟨inside, later, rfl, hbrace, hspells, hlater, -⟩ := row_cons_iff.1 h
    simp only [List.mem_cons, List.mem_append, not_or] at hfeed
    exact List.forall_mem_cons.2
      ⟨hspells.proper hbrace hfeed.2.1, ih hlater hfeed.2.2.2⟩

theorem eq_nil_of_isEmpty_extendedBy {groups : List Group}
    (h : (({} : Attributes).extendedBy groups).isEmpty) : groups = [] := by
  simp only [isEmpty, extendedBy, Option.none_or, Bool.and_eq_true, Option.isNone_iff_eq_none,
    List.findSome?_eq_none_iff, Bool.false_or, Bool.not_eq_true', List.contains_eq_mem,
    decide_eq_false_iff_not] at h
  obtain ⟨⟨hnickname, htitle⟩, hflag⟩ := h
  rw [List.eq_nil_iff_forall_not_mem]
  intro g hg
  cases g with
  | nickname value => exact absurd (hnickname _ hg) (by simp [Group.nickname?])
  | title value => exact absurd (htitle _ hg) (by simp [Group.title?])
  | doNotCollect => exact hflag hg

/-- **What is read can be written.** The values are legible, the text left over is the end of the
text, and if nothing is said it is the whole text. -/
theorem legible_of_read {a : Attributes} {text rest : List Char} (hfeed : '\n' ∉ text)
    (h : read text = .ok (a, rest)) :
    (∀ value ∈ a.nickname, Legible value) ∧ (∀ value ∈ a.title, Legible value)
      ∧ rest <:+ text ∧ (a.isEmpty → rest = text) := by
  obtain ⟨groups, hrow, -, rfl⟩ := readFrom_eq_ok_iff.1 h
  have hproper := hrow.proper hfeed
  refine ⟨?_, ?_, hrow.suffix, ?_⟩
  · intro value hvalue
    obtain ⟨g, hg, hnickname⟩ := List.exists_of_findSome?_eq_some hvalue
    cases g with
    | nickname _ => exact hproper _ hg value hnickname
    | title _ => exact absurd hnickname (by simp [Group.nickname?])
    | doNotCollect => exact absurd hnickname (by simp [Group.nickname?])
  · intro value hvalue
    obtain ⟨g, hg, htitle⟩ := List.exists_of_findSome?_eq_some hvalue
    cases g with
    | nickname _ => exact absurd htitle (by simp [Group.title?])
    | title _ => exact hproper _ hg value htitle
    | doNotCollect => exact absurd htitle (by simp [Group.title?])
  · intro hempty
    obtain rfl := eq_nil_of_isEmpty_extendedBy hempty
    exact (row_nil_iff.1 hrow).1.symm

end Attributes

end Marginalia
