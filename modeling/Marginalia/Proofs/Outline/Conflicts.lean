/-
The conflicts of a topic, and the order they are listed in.

A note is disputed if it says something else than the note of its kind that
comes first. The conflicts of an entry are the traces of the disputed notes, and
there are no others, for any notes at all: a blank title may come first among
the declarations, and then every title that can be read is disputed.

Each kind is held against its own first note, and the two passes write into one
list, one behind the other. The notes about a topic come in order, so the
conflicts of **one kind** do, too. Across the kinds nothing keeps them in order:
the list is in the order of places exactly if no disputed declaration stands
behind a disputed block.
-/
import Marginalia.Proofs.Outline.Content

set_option autoImplicit false

namespace Marginalia

/-! ## Disputed notes -/

namespace Merge

/-- Whether a note says something else than the first of its kind: a declaration than the first
with a title, a collected block than the first. A declaration without a title that can be read
says nothing. -/
def disputed (group : List Note) (n : Note) : Bool :=
  match n.kind with
  | .declaration => (Content.normal n.title).isSome &&
      (titledDeclaration group).any fun c => Content.normal n.title ≠ Content.normal c.title
  | .block => n.isCollected && !blockAgrees group n
  | .reference => false

variable {group : List Note} {m n : Note}

theorem disputed_declaration (h : n.kind = .declaration) :
    disputed group n = (titledDeclaration group).any (declarationDiverges · n) := by
  unfold disputed
  rw [h]
  cases hc : titledDeclaration group with
  | none => simp
  | some c =>
    have hckind := (of_titledDeclaration hc).2
    rw [Option.any_some, Option.any_some, declarationDiverges, content_declaration h,
      content_declaration hckind]
    simp

theorem disputed_block (h : n.kind = .block) :
    disputed group n = (n.isCollected && !blockAgrees group n) := by
  unfold disputed
  rw [h]

/-- Notes with the same trace are disputed alike, if both are collected. -/
theorem disputed_congr (h : conflictOf m = conflictOf n) (hm : m.isCollected) (hn : n.isCollected) :
    disputed group m = disputed group n := by
  obtain ⟨hkind, -, hcontent⟩ := Conflict.mk.inj h
  cases hnkind : n.kind with
  | declaration =>
    rw [hnkind] at hkind
    rw [disputed_declaration hkind, disputed_declaration hnkind]
    simp only [declarationDiverges, hcontent]
  | block =>
    rw [hnkind] at hkind
    have hsame : m.content = n.content := by
      rw [content_of_ne_reference (by simp [hkind]), content_of_ne_reference (by simp [hnkind]),
        hcontent]
    rw [disputed_block hkind, disputed_block hnkind, hm, hn, blockAgrees, blockAgrees, hsame]
  | reference =>
    rw [hnkind] at hkind
    unfold disputed
    rw [hkind, hnkind]

/-- The disputed notes of one kind. -/
def disputedOf (group : List Note) (kind : NoteKind) : List Note :=
  group.filter fun n => n.kind = kind && disputed group n

theorem mem_disputedOf {kind : NoteKind} :
    n ∈ disputedOf group kind ↔ n ∈ group ∧ n.kind = kind ∧ disputed group n := by
  rw [disputedOf, List.mem_filter, Bool.and_eq_true, decide_eq_true_eq]

/-- **The conflicts are the traces of the disputed notes**, declarations first. -/
theorem trace_disagreements (group : List Note) :
    (merge group).disagreements.map trace
      = (disputedOf group .declaration ++ disputedOf group .block).map conflictOf := by
  have hdeclarations : ∀ n ∈ group, n.kind = .declaration →
      (!disputed group n) = !(titledDeclaration group).any (declarationDiverges · n) := by
    intro n _ hkind
    rw [disputed_declaration hkind]
  have hblocks : (group.filter fun n => n.kind = .block && n.isCollected && !blockAgrees group n)
      = disputedOf group .block := by
    refine List.filter_congr fun n _ => ?_
    by_cases hkind : n.kind = .block
    · rw [disputed_block hkind, Bool.and_assoc]
    · simp [hkind]
  rw [disagreements_merge, List.map_append, trace_splitDeclarations hdeclarations,
    trace_splitBlocks, hblocks, List.map_append]
  simp only [Bool.not_not, disputedOf]

/-- A collected note is disputed exactly if its trace is listed. -/
theorem conflictOf_mem_iff (hn : n ∈ group) (hcollected : n.isCollected) :
    conflictOf n ∈ (merge group).disagreements.map trace ↔ disputed group n := by
  rw [trace_disagreements, List.mem_map]
  constructor
  · rintro ⟨m, hm, htrace⟩
    rw [List.mem_append, mem_disputedOf, mem_disputedOf] at hm
    have hdisputed : disputed group m := by
      rcases hm with hm | hm
      · exact hm.2.2
      · exact hm.2.2
    -- only collected blocks are disputed, and notes of the other kinds are collected anyway
    have hmcollected : m.isCollected := by
      rcases hm with ⟨-, hkind, -⟩ | ⟨-, hkind, -⟩
      · exact Note.isCollected_of_ne_block (by simp [hkind])
      · rw [disputed_block hkind, Bool.and_eq_true] at hdisputed
        exact hdisputed.1
    rwa [← disputed_congr htrace hmcollected hcollected]
  · intro hdisputed
    refine ⟨n, ?_, rfl⟩
    rw [List.mem_append, mem_disputedOf, mem_disputedOf]
    cases hkind : n.kind with
    | declaration => exact .inl ⟨hn, rfl, hdisputed⟩
    | block => exact .inr ⟨hn, rfl, hdisputed⟩
    | reference =>
      unfold disputed at hdisputed
      rw [hkind] at hdisputed
      exact absurd hdisputed (by simp)

end Merge

/-! ## Their order -/

/-- Conflicts by kind, then place. -/
def Conflict.order : Conflict → Conflict → Ordering :=
  compareLex (compareOn Conflict.kind) (compareOn Conflict.position)

namespace Outline

variable {notes : List Note} {p : Topic} {e : Entry}

/-- A disputed declaration about the topic stands behind a disputed block. -/
def Crossed (notes : List Note) (p : Topic) : Prop :=
  ∃ d ∈ notesAt notes p, ∃ b ∈ notesAt notes p,
    d.kind = .declaration ∧ Merge.disputed (notesAt notes p) d ∧
    b.kind = .block ∧ Merge.disputed (notesAt notes p) b ∧
    compare b.position d.position = .lt

theorem conflicts_eq_disputed (he : (build notes).1.entries.get? p = some e) :
    e.conflicts = (Merge.disputedOf (notesAt notes p) .declaration
      ++ Merge.disputedOf (notesAt notes p) .block).map Merge.conflictOf := by
  rw [(conflicts_build he).2, Merge.trace_disagreements]

/-- The disputed notes of one kind are in order. -/
theorem pairwise_disputedOf (notes : List Note) (p : Topic) (kind : NoteKind) :
    (Merge.disputedOf (notesAt notes p) kind).Pairwise fun a b =>
      (compare a.position b.position).isLE :=
  (pairwise_notesAt notes p).sublist List.filter_sublist

/-- **When the conflicts are in the order of their places.** -/
theorem pairwise_conflicts_iff (he : (build notes).1.entries.get? p = some e) :
    (e.conflicts.Pairwise fun c d => (compare c.position d.position).isLE) ↔
      ¬ Crossed notes p := by
  rw [conflicts_eq_disputed he, List.pairwise_map, List.pairwise_append]
  constructor
  · rintro ⟨-, -, hacross⟩ ⟨d, hd, b, hb, hdkind, hddisputed, hbkind, hbdisputed, hlt⟩
    have hle : (compare d.position b.position).isLE :=
      hacross d (Merge.mem_disputedOf.2 ⟨hd, hdkind, hddisputed⟩) b
        (Merge.mem_disputedOf.2 ⟨hb, hbkind, hbdisputed⟩)
    exact absurd hle (Std.OrientedCmp.not_isLE_of_lt hlt)
  · intro huncrossed
    refine ⟨pairwise_disputedOf notes p _, pairwise_disputedOf notes p _, fun d hd b hb => ?_⟩
    obtain ⟨hd, hdkind, hddisputed⟩ := Merge.mem_disputedOf.1 hd
    obtain ⟨hb, hbkind, hbdisputed⟩ := Merge.mem_disputedOf.1 hb
    show (compare d.position b.position).isLE
    by_contra hnot
    refine huncrossed ⟨d, hd, b, hb, hdkind, hddisputed, hbkind, hbdisputed, ?_⟩
    rw [Ordering.isLE_iff_ne_gt, not_not] at hnot
    exact Std.OrientedCmp.lt_of_gt hnot

/-- Conflicts come kind by kind, and within a kind in the order of their places. -/
theorem pairwise_order_conflicts (he : (build notes).1.entries.get? p = some e) :
    e.conflicts.Pairwise fun c d => (Conflict.order c d).isLE := by
  have hkind : ∀ kind, (Merge.disputedOf (notesAt notes p) kind).Pairwise fun a b =>
      (Conflict.order (Merge.conflictOf a) (Merge.conflictOf b)).isLE := by
    intro kind
    refine (pairwise_disputedOf notes p kind).imp_of_mem fun {a b} ha hb hab => ?_
    have hsame : compare a.kind b.kind = .eq := by
      rw [(Merge.mem_disputedOf.1 ha).2.1, (Merge.mem_disputedOf.1 hb).2.1,
        Std.ReflOrd.compare_self]
    show ((compare a.kind b.kind).then (compare a.position b.position)).isLE
    rw [hsame]
    exact hab
  rw [conflicts_eq_disputed he, List.pairwise_map, List.pairwise_append]
  refine ⟨hkind .declaration, hkind .block, fun d hd b hb => ?_⟩
  show ((compare d.kind b.kind).then (compare d.position b.position)).isLE
  rw [(Merge.mem_disputedOf.1 hd).2.1, (Merge.mem_disputedOf.1 hb).2.1]
  rfl

/-- **The order of the conflicts of a topic.** They come kind by kind, each kind in the order of
places. So the whole list is in the order of places exactly if no disputed declaration stands
behind a disputed block. -/
theorem conflicts_inOrder_iff (he : entry? (build notes).1 p = some e) :
    (e.conflicts.Pairwise fun c d => (Conflict.order c d).isLE) ∧
    ((e.conflicts.Pairwise fun c d => (compare c.position d.position).isLE) ↔
      ¬ Crossed notes p) :=
  ⟨pairwise_order_conflicts he, pairwise_conflicts_iff he⟩

/-- Declarations around blocks. The second of each kind is disputed. -/
def crossedNotes : List Note :=
  [⟨.single "A", ⟨"a.go", 1, 1⟩, .declaration (some "x") (some "f") []⟩,
   ⟨.single "A", ⟨"a.go", 2, 1⟩, .block ⟨some "text", none, none, [], true⟩⟩,
   ⟨.single "A", ⟨"a.go", 3, 1⟩, .block ⟨some "more", none, none, [], true⟩⟩,
   ⟨.single "A", ⟨"a.go", 4, 1⟩, .declaration (some "y") (some "g") []⟩]

private theorem entry?_crossedNotes :
    ∃ e, entry? (build crossedNotes).1 (.single "A") = some e := by
  have htopic : Topic.single "A" ∈ topicsOf crossedNotes :=
    mem_topicsOf.2 ⟨_, List.mem_cons_self, rfl⟩
  exact Option.isSome_iff_exists.1
    ((isSome_get?_build crossedNotes _).2 (named_of_mem_topicsOf htopic))

theorem crossedNotes_inOrder_iff :
    ∃ e, entry? (build crossedNotes).1 (.single "A") = some e ∧
      (e.conflicts.Pairwise fun c d => (Conflict.order c d).isLE) ∧
      ((e.conflicts.Pairwise fun c d => (compare c.position d.position).isLE) ↔
        ¬ Crossed crossedNotes (.single "A")) := by
  obtain ⟨e, he⟩ := entry?_crossedNotes
  exact ⟨e, he, conflicts_inOrder_iff he⟩

/-- The declaration in the last line is listed ahead of the block above it. -/
theorem crossedNotes_conflicts :
    ∃ e, entry? (build crossedNotes).1 (.single "A") = some e ∧
      e.conflicts.map Conflict.position = [⟨"a.go", 4, 1⟩, ⟨"a.go", 3, 1⟩] ∧
      ¬ e.conflicts.Pairwise fun c d => (compare c.position d.position).isLE := by
  obtain ⟨e, he⟩ := entry?_crossedNotes
  -- the notes come in order already
  have hnotes : notesAt crossedNotes (.single "A") = crossedNotes := by
    have hsorted : inOrder crossedNotes = crossedNotes :=
      List.mergeSort_of_pairwise (by decide +kernel)
    rw [notesAt, hsorted]
    rfl
  have hpositions : e.conflicts.map Conflict.position = [⟨"a.go", 4, 1⟩, ⟨"a.go", 3, 1⟩] := by
    rw [conflicts_eq_disputed he, hnotes]
    decide +kernel
  refine ⟨e, he, hpositions, fun hsorted => ?_⟩
  have hpairs : (e.conflicts.map Conflict.position).Pairwise fun a b => (compare a b).isLE :=
    List.pairwise_map.2 hsorted
  rw [hpositions] at hpairs
  exact absurd hpairs (by decide)

end Outline

end Marginalia
