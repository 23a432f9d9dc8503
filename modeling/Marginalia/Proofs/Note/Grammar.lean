/-
The attribute reader accepts exactly the rows of groups.

`Row` is the grammar, and from an empty record the reader finds every slot free.
What is left to see is what a row comes to: a record that was extended by groups
with different keys says what they say. `Says` speaks of membership only, so it
cannot depend on the order of the groups, and neither can the reader.

A text that is no row is refused with some fault, and the fault goes through to
the comment that has the text behind its marker.
-/
import Marginalia.Proofs.Note.WellFormed
import Marginalia.Sheet
import Mathlib.Data.List.Nodup
import Mathlib.Data.List.Perm.Basic

set_option autoImplicit false

namespace Marginalia

namespace Attributes

/-! ## What a row says -/

/-- The attributes are exactly what the groups say. -/
structure Says (a : Attributes) (groups : List Group) : Prop where
  nickname : ∀ value, a.nickname = some value ↔ .nickname value ∈ groups
  title : ∀ value, a.title = some value ↔ .title value ∈ groups
  doNotCollect : a.doNotCollect ↔ .doNotCollect ∈ groups

section Rows

variable {text rest : List Char} {groups : List Group}

/-- A kind of group that a row has at most once is found where it is. -/
private theorem findSome?_eq_some_iff_mem {find : Group → Option String} {make : String → Group}
    (hfind : ∀ g value, find g = some value ↔ g = make value)
    (hkey : ∀ v w, (make v).key = (make w).key) (hkeys : (groups.map Group.key).Nodup)
    (value : String) : groups.findSome? find = some value ↔ make value ∈ groups := by
  have hmem : ∀ v, groups.findSome? find = some v → make v ∈ groups := by
    intro v hv
    obtain ⟨g, hg, hfound⟩ := List.exists_of_findSome?_eq_some hv
    rwa [(hfind g v).1 hfound] at hg
  constructor
  · exact hmem value
  · intro hvalue
    have hfound : find (make value) = some value := (hfind _ _).2 rfl
    cases hsome : groups.findSome? find with
    | none => exact absurd (List.findSome?_eq_none_iff.1 hsome _ hvalue) (by simp [hfound])
    | some other =>
      have hsame := List.inj_on_of_nodup_map hkeys (hmem other hsome) hvalue (hkey other value)
      rw [← hfound, ← hsame]
      exact ((hfind _ _).2 rfl).symm

/-- **A record extended by a row says what the row says.** -/
theorem says_extendedBy (hkeys : (groups.map Group.key).Nodup) :
    (({} : Attributes).extendedBy groups).Says groups := by
  have hnickname : ∀ (g : Group) value, g.nickname? = some value ↔ g = .nickname value := by
    intro g value
    cases g <;> simp [Group.nickname?]
  have htitle : ∀ (g : Group) value, g.title? = some value ↔ g = .title value := by
    intro g value
    cases g <;> simp [Group.title?]
  refine ⟨fun value => ?_, fun value => ?_, ?_⟩
  · show none.or (groups.findSome? Group.nickname?) = some value ↔ _
    rw [Option.none_or]
    exact findSome?_eq_some_iff_mem hnickname (fun _ _ => rfl) hkeys value
  · show none.or (groups.findSome? Group.title?) = some value ↔ _
    rw [Option.none_or]
    exact findSome?_eq_some_iff_mem htitle (fun _ _ => rfl) hkeys value
  · simp [extendedBy]

/-- The groups of a row determine what they say. -/
theorem Says.eq {a b : Attributes} (ha : a.Says groups) (hb : b.Says groups) : a = b := by
  have hnickname : a.nickname = b.nickname :=
    Option.ext fun value => (ha.nickname value).trans (hb.nickname value).symm
  have htitle : a.title = b.title :=
    Option.ext fun value => (ha.title value).trans (hb.title value).symm
  have hflag : a.doNotCollect = b.doNotCollect :=
    Bool.eq_iff_iff.2 (ha.doNotCollect.trans hb.doNotCollect.symm)
  obtain ⟨_, _, _⟩ := a
  obtain ⟨_, _, _⟩ := b
  congr

/-- Groups say the same in any order. -/
theorem Says.perm {a : Attributes} {groups' : List Group} (h : a.Says groups)
    (hperm : groups.Perm groups') : a.Says groups' :=
  ⟨fun value => (h.nickname value).trans hperm.mem_iff,
    fun value => (h.title value).trans hperm.mem_iff, h.doNotCollect.trans hperm.mem_iff⟩

/-- **The reader accepts exactly the rows**, and reads what they say. -/
theorem read_eq_ok_iff {a : Attributes} :
    read text = .ok (a, rest) ↔ ∃ groups, Row text groups rest ∧ a.Says groups := by
  unfold read
  rw [readFrom_eq_ok_iff]
  constructor
  · rintro ⟨groups, hrow, -, rfl⟩
    exact ⟨groups, hrow, says_extendedBy hrow.keys⟩
  · rintro ⟨groups, hrow, hsays⟩
    exact ⟨groups, hrow, fun g _ => lacks_empty g, hsays.eq (says_extendedBy hrow.keys)⟩

/-! ## The order of groups -/

/-- Texts without closing braces can be told apart in their braces. -/
theorem braced_inj {insides insides' : List (List Char)} (h : ∀ inside ∈ insides, '\x7d' ∉ inside)
    (h' : ∀ inside ∈ insides', '\x7d' ∉ inside) (heq : braced insides = braced insides') :
    insides = insides' := by
  induction insides generalizing insides' with
  | nil =>
    cases insides' with
    | nil => rfl
    | cons inside' insides' => exact absurd heq (by simp [braced])
  | cons inside insides ih =>
    cases insides' with
    | nil => exact absurd heq (by simp [braced])
    | cons inside' insides' =>
      rw [List.forall_mem_cons] at h h'
      have hrows : inside ++ '\x7d' :: braced insides = inside' ++ '\x7d' :: braced insides' := by
        simpa [braced] using heq
      -- both are cut at their first closing brace
      have hcut := Text.cutAt_append h.1 (braced insides)
      rw [hrows, Text.cutAt_append h'.1] at hcut
      obtain ⟨rfl, hlater⟩ := Prod.mk.inj (Option.some.inj hcut)
      rw [ih h.2 h'.2 hlater.symm]

theorem read_perm {insides insides' : List (List Char)} {a : Attributes}
    (hbraces : ∀ inside ∈ insides, '\x7d' ∉ inside) (hperm : insides.Perm insides')
    (hread : read (braced insides ++ rest) = .ok (a, rest)) :
    read (braced insides' ++ rest) = .ok (a, rest) := by
  obtain ⟨groups, ⟨⟨written, hspells, hwritten, htext⟩, hends, hkeys⟩, hsays⟩ :=
    read_eq_ok_iff.1 hread
  obtain rfl : insides = written := braced_inj hbraces hwritten (List.append_cancel_right htext)
  obtain ⟨groups', hspells', hgroups⟩ :=
    List.perm_comp_forall₂ hperm.symm (List.Forall₂.flip hspells)
  refine read_eq_ok_iff.2 ⟨groups', ⟨⟨insides', hspells'.flip, ?_, rfl⟩, hends, ?_⟩,
    hsays.perm hgroups.symm⟩
  · exact fun inside hinside => hbraces inside (hperm.mem_iff.2 hinside)
  · exact (hgroups.map Group.key).nodup_iff.2 hkeys

end Rows

end Attributes

/-! ## Comments -/

namespace Note

/-- A comment with a marker that names a topic, and with this text behind it on the line. -/
inductive Marked (comment : Comment) (behind : List Char) : Prop where
  | intro (lead path : List Char) (below : Option (List Char)) (topic : Topic)
      (hlead : Text.allBlank lead) (hbracket : ']' ∉ path) (hfeed : '\n' ∉ path ++ ']' :: behind)
      (htopic : Topic.parse (String.ofList path) = .ok topic)
      (htext : comment.text.toList = lead ++ '@' :: '[' :: above (path ++ ']' :: behind) below)

/-- **A fault of the attributes is the fault of the comment.** -/
theorem read_of_fault {comment : Comment} {behind : List Char} {fault : AttributeFault}
    (h : Marked comment behind) (hfault : Attributes.read behind = .error fault)
    (heuristic : Heuristic) : read heuristic comment = .malformed (.attributes fault) := by
  obtain ⟨lead, path, below, topic, hlead, hbracket, hfeed, htopic, htext⟩ := h
  have htrim : Text.trimStart comment.text.toList
      = ['@', '['] ++ above (path ++ ']' :: behind) below := by
    rw [htext, Text.trimStart_append hlead]
    exact List.dropWhile_cons_of_neg (by decide)
  have hread : readMarker comment heuristic (above (path ++ ']' :: behind) below)
      = .error (.attributes fault) := by
    rw [readMarker_line hfeed, Text.cutAt_append hbracket]
    simp only [htopic, hfault]
    rfl
  unfold read
  simp only [htrim, Text.after?_append, hread]

end Note

namespace Attributes

/-- **The grammar of attributes.** A text is read exactly if it starts with a row of groups, and
then as what they say. Any other text is refused, and a comment that has it behind its marker is
malformed. The order of the groups does not matter. -/
theorem read_iff_row (text : List Char) :
    (∀ a rest, read text = .ok (a, rest) ↔ ∃ groups, Row text groups rest ∧ a.Says groups) ∧
    ((¬ ∃ groups rest, Row text groups rest) → ∃ fault, read text = .error fault ∧
      ∀ heuristic comment, Note.Marked comment text →
        Note.read heuristic comment = .malformed (.attributes fault) ∧
        Sheet.malformed? heuristic comment
          = some ⟨comment.position, (NoteFault.attributes fault).message⟩) ∧
    (∀ insides insides' rest a, (∀ inside ∈ insides, '\x7d' ∉ inside) → insides.Perm insides' →
      text = braced insides ++ rest → read text = .ok (a, rest) →
      read (braced insides' ++ rest) = .ok (a, rest)) := by
  refine ⟨fun a rest => read_eq_ok_iff, fun hnone => ?_, ?_⟩
  · cases hread : read text with
    | ok result =>
      obtain ⟨groups, hrow, -⟩ := read_eq_ok_iff.1 hread
      exact absurd ⟨groups, result.2, hrow⟩ hnone
    | error fault =>
      refine ⟨fault, rfl, fun heuristic comment hmarked => ?_⟩
      have hmalformed := Note.read_of_fault hmarked hread heuristic
      refine ⟨hmalformed, ?_⟩
      unfold Sheet.malformed?
      rw [hmalformed]
  · rintro insides insides' rest a hbraces hperm rfl hread
    exact read_perm hbraces hperm hread

/-- A row with white space in its braces and a colon in a value. -/
def spacedInsides : List (List Char) :=
  [" alias : Rules: all ".toList, "do-not-collect ".toList]

def spacedAttributes : Attributes :=
  ⟨some "Rules: all", none, true⟩

/-- A key that comes twice. -/
def doubledText : List Char :=
  "\x7btitle:A\x7d\x7btitle:B\x7d see".toList

def doubledComment : Comment :=
  { Note.settleComment with text := " @[A]\x7btitle:A\x7d\x7btitle:B\x7d see\n below" }

theorem read_iff_row_spaced :
    (∀ inside ∈ spacedInsides, '\x7d' ∉ inside) ∧ spacedInsides.Perm spacedInsides.reverse ∧
    read (braced spacedInsides ++ [' ']) = .ok (spacedAttributes, [' ']) ∧
    read (braced spacedInsides.reverse ++ [' ']) = .ok (spacedAttributes, [' ']) ∧
    (¬ ∃ groups rest, Row doubledText groups rest) ∧
    Note.Marked doubledComment doubledText ∧
    ∃ fault, read doubledText = .error fault ∧
      Note.read Note.settleHeuristic doubledComment = .malformed (.attributes fault) := by
  have hbraces : ∀ inside ∈ spacedInsides, '\x7d' ∉ inside := by decide
  have hperm : spacedInsides.Perm spacedInsides.reverse := (List.reverse_perm _).symm
  have hread : read (braced spacedInsides ++ [' ']) = .ok (spacedAttributes, [' ']) := by
    decide +kernel
  have hnone : ¬ ∃ groups rest, Row doubledText groups rest := by
    have hdoubled : read doubledText = .error (.duplicate "title") := by decide +kernel
    rintro ⟨groups, rest, hrow⟩
    have hok := ((read_iff_row doubledText).1 _ rest).2 ⟨groups, hrow, says_extendedBy hrow.keys⟩
    rw [hdoubled] at hok
    exact absurd hok (by simp)
  have hmarked : Note.Marked doubledComment doubledText :=
    .intro [' '] ['A'] (some " below".toList) (.single "A") (by decide) (by decide) (by decide)
      (by decide +kernel) (by decide)
  have hreversed := (read_iff_row _).2.2 _ _ _ _ hbraces hperm rfl hread
  obtain ⟨fault, hfault, hcomment⟩ := (read_iff_row doubledText).2.1 hnone
  exact ⟨hbraces, hperm, hread, hreversed, hnone, hmarked, fault, hfault,
    (hcomment Note.settleHeuristic doubledComment hmarked).1⟩

end Attributes

end Marginalia
