/-
The occurrences of a topic: every use, once and in order.

An entry keeps its places in four lists, and they were not made alike. Each note
about the topic leaves at most one place, so the sites and references are counted
note by note (`perm_placesOf`). Links are counted by place instead: a note that
links twice, or two notes in one place, make one mention. Putting links in order
and dropping each that ties with the one before it leaves one position for every
place (`represents_distinctPlaces`), because what ties stands together after
sorting.

Nothing is assumed of the notes. A note is in conflict if the entry of its topic
says so, and `inConflict_iff` says the same of the notes themselves.
-/
import Marginalia.Proofs.Outline.Conflicts
import Marginalia.Proofs.Outline.References

set_option autoImplicit false

namespace Marginalia

instance : Std.TransCmp Occurrence.order :=
  inferInstanceAs (Std.TransCmp (compareLex _ _))

/-! ## Places of links -/

namespace Position

/-- Positions that stand for others, one for each place. -/
structure Represents (places positions : List Position) : Prop where
  distinct : places.Pairwise fun a b => ¬ a.same b
  mem : ∀ x ∈ places, x ∈ positions
  exists_same : ∀ x ∈ positions, ∃ y ∈ places, y.same x

theorem same_iff {a b : Position} : a.same b ↔ compare a b = .eq := by
  rw [same, beq_iff_eq]

@[simp]
theorem same_self (a : Position) : a.same a := by
  rw [same_iff, Std.ReflOrd.compare_self]

end Position

namespace Outline

open Position (Represents same_iff same_self)

/-- What is kept lies strictly behind what was kept before it. -/
theorem pairwise_distinctAfter {last : Position} {positions : List Position}
    (h : (last :: positions).Pairwise fun a b => (compare a b).isLE) :
    (last :: distinctAfter last positions).Pairwise fun a b => compare a b = .lt := by
  induction positions generalizing last with
  | nil => exact List.pairwise_singleton _ _
  | cons p positions ih =>
    obtain ⟨hlast, hrest⟩ := List.pairwise_cons.1 h
    unfold distinctAfter
    split
    · apply ih
      exact h.sublist ((List.sublist_cons_self p positions).cons_cons last)
    · rename_i hsame
      have hlt : compare last p = .lt := by
        rw [same_iff] at hsame
        have hle := hlast p List.mem_cons_self
        rw [Ordering.isLE_iff_eq_lt_or_eq_eq] at hle
        exact hle.resolve_right hsame
      have hkept := ih hrest
      refine List.pairwise_cons.2 ⟨fun q hq => ?_, hkept⟩
      rcases List.mem_cons.1 hq with rfl | hq
      · exact hlt
      · exact Std.TransCmp.lt_trans hlt ((List.pairwise_cons.1 hkept).1 q hq)

/-- What is dropped ties with something kept. -/
theorem exists_same_distinctAfter {last x : Position} {positions : List Position}
    (hx : x ∈ last :: positions) : ∃ y ∈ last :: distinctAfter last positions, y.same x := by
  induction positions generalizing last with
  | nil => exact ⟨x, hx, same_self x⟩
  | cons p positions ih =>
    unfold distinctAfter
    split
    · rename_i hsame
      rcases List.mem_cons.1 hx with rfl | hx
      · exact ⟨x, List.mem_cons_self, same_self x⟩
      · rcases List.mem_cons.1 hx with rfl | hx
        · exact ⟨last, List.mem_cons_self, hsame⟩
        · exact ih (List.mem_cons_of_mem _ hx)
    · rcases List.mem_cons.1 hx with rfl | hx
      · exact ⟨x, List.mem_cons_self, same_self x⟩
      · obtain ⟨y, hy, hsame⟩ := ih hx
        exact ⟨y, List.mem_cons_of_mem _ hy, hsame⟩

/-- **Each place once**, and every place. -/
theorem represents_distinctPlaces (positions : List Position) :
    Represents (distinctPlaces positions) positions := by
  have hsorted : (positions.mergeSort fun a b => (compare a b).isLE).Pairwise
      fun a b => (compare a b).isLE :=
    Arranged.pairwise_sorted positions
  refine ⟨?_, fun x hx => mem_of_mem_distinctPlaces hx, fun x hx => ?_⟩
  · unfold distinctPlaces
    split
    · exact .nil
    · rename_i hpositions
      rw [hpositions] at hsorted
      refine (pairwise_distinctAfter hsorted).imp fun hlt hsame => ?_
      rw [same_iff.1 hsame] at hlt
      exact absurd hlt (by decide)
  · have hx : x ∈ positions.mergeSort fun a b => (compare a b).isLE := List.mem_mergeSort.2 hx
    unfold distinctPlaces
    split
    · rename_i hpositions
      rw [hpositions] at hx
      exact absurd hx List.not_mem_nil
    · rename_i hpositions
      rw [hpositions] at hx
      exact exists_same_distinctAfter hx

/-! ## Notes in conflict -/

/-- Whether the entry of its topic lists a note as a conflict. -/
def inConflict (outline : Outline) (n : Note) : Bool :=
  (outline.entry? n.topic).any fun e => Merge.conflictOf n ∈ e.conflicts

variable {notes : List Note} {n : Note} {p : Topic} {e : Entry}

/-- **A note is in conflict exactly if it is disputed.** -/
theorem inConflict_iff (hn : n ∈ notes) (hcollected : n.isCollected) :
    inConflict (build notes).1 n ↔ Merge.disputed (notesAt notes n.topic) n := by
  have hnamed := named_of_mem_topicsOf (mem_topicsOf.2 ⟨n, hn, rfl⟩)
  obtain ⟨e, he⟩ := Option.isSome_iff_exists.1 ((isSome_get?_build notes n.topic).2 hnamed)
  rw [inConflict, entry?, he, Option.any_some, decide_eq_true_eq, (conflicts_build he).2]
  exact Merge.conflictOf_mem_iff (mem_notesAt.2 ⟨hn, rfl⟩) hcollected

/-! ## Occurrences -/

/-- The use of a topic that a note about it is. A note in conflict is none, and neither is a block
that is not collected. -/
def use? (outline : Outline) (n : Note) : Option Occurrence :=
  match n.kind with
  | .declaration =>
    if outline.inConflict n then none else some ⟨.declaration, n.position, n.symbol⟩
  | .block =>
    if n.isCollected && !outline.inConflict n then some ⟨.block, n.position, none⟩ else none
  | .reference => some ⟨.reference, n.position, none⟩

/-- The uses of a topic, listed in order: one for each note about it that counts, and one for each
place where notes link to it. -/
structure ListsUses (notes : List Note) (p : Topic) (uses : List Occurrence) : Prop where
  inOrder : uses.Pairwise fun a b => (Occurrence.order a b).isLE
  complete : ∃ places,
    Represents places ((notes.filter fun n => p ∈ n.mentions).map Note.position) ∧
    uses.Perm ((notes.filter fun n => n.topic = p).filterMap (build notes).1.use?
      ++ places.map fun x => ⟨.mention, x, none⟩)

/-- Notes, kind by kind. -/
private theorem perm_kinds (group : List Note) :
    group.Perm ((group.filter fun n => n.kind = .declaration)
      ++ ((group.filter fun n => n.kind = .block)
        ++ group.filter fun n => n.kind = .reference)) := by
  have hblocks : ((group.filter fun n => !decide (n.kind = .declaration)).filter
      fun n => n.kind = .block) = group.filter fun n => n.kind = .block := by
    rw [List.filter_filter]
    refine List.filter_congr fun n _ => ?_
    cases n.kind <;> rfl
  have hreferences : ((group.filter fun n => !decide (n.kind = .declaration)).filter
      fun n => !decide (n.kind = .block)) = group.filter fun n => n.kind = .reference := by
    rw [List.filter_filter]
    refine List.filter_congr fun n _ => ?_
    cases n.kind <;> rfl
  rw [← hblocks, ← hreferences]
  have hothers := List.filter_append_perm (fun n : Note => decide (n.kind = .block))
    (group.filter fun n => !decide (n.kind = .declaration))
  have hall := List.filter_append_perm (fun n : Note => decide (n.kind = .declaration)) group
  exact hall.symm.trans (hothers.symm.append_left _)

/-- The uses that the notes of one kind are, where a condition decides. -/
private theorem filterMap_kind {group : List Note} {kind : NoteKind} {f : Note → Option Occurrence}
    {counts : Note → Bool} {g : Note → Occurrence}
    (h : ∀ n ∈ group, n.kind = kind → f n = if counts n then some (g n) else none) :
    (group.filter fun n => n.kind = kind).filterMap f
      = (group.filter fun n => n.kind = kind && counts n).map g := by
  induction group with
  | nil => rfl
  | cons n group ih =>
    have ih := ih fun m hm => h m (List.mem_cons_of_mem _ hm)
    by_cases hkind : n.kind = kind
    · have hn := h n List.mem_cons_self hkind
      cases hcounts : counts n <;> simp [hkind, hn, hcounts, ih]
    · simp [hkind, ih]

theorem use?_declaration (outline : Outline) (hkind : n.kind = .declaration) :
    outline.use? n
      = if !outline.inConflict n then some ⟨.declaration, n.position, n.symbol⟩ else none := by
  unfold use?
  rw [hkind]
  cases outline.inConflict n <;> rfl

/-- The declarations that are uses are those that left sites. -/
theorem filterMap_use?_declarations (he : (build notes).1.entries.get? p = some e) :
    ((notesAt notes p).filter fun n => n.kind = .declaration).filterMap (build notes).1.use?
      = e.declarationSites.map fun s => ⟨.declaration, s.position, s.symbol⟩ := by
  have hsites : e.declarationSites = (Merge.merge (notesAt notes p)).declarationSites := by
    rw [entry_build he]
    rfl
  have hagrees : ∀ n ∈ notesAt notes p, n.kind = .declaration →
      (!inConflict (build notes).1 n)
        = !(Merge.titledDeclaration (notesAt notes p)).any (Merge.declarationDiverges · n) := by
    intro n hn hkind
    obtain ⟨hmem, rfl⟩ := mem_notesAt.1 hn
    rw [← Merge.disputed_declaration hkind, Bool.not_inj_iff, Bool.eq_iff_iff]
    exact inConflict_iff hmem (Note.isCollected_of_ne_block (by simp [hkind]))
  rw [hsites, Merge.declarationSites_of_agrees hagrees, List.map_map]
  exact filterMap_kind fun n _ hkind => use?_declaration _ hkind

/-- The blocks that are uses are those that left sites. -/
theorem filterMap_use?_blocks (he : (build notes).1.entries.get? p = some e) :
    ((notesAt notes p).filter fun n => n.kind = .block).filterMap (build notes).1.use?
      = e.blockSites.map fun s => ⟨.block, s.position, s.symbol⟩ := by
  have hsites : e.blockSites = (Merge.merge (notesAt notes p)).blockSites := by
    rw [entry_build he]
    rfl
  rw [hsites, Merge.blockSites_eq, List.map_map]
  simp only [Bool.and_assoc]
  refine filterMap_kind fun n hn hkind => ?_
  -- that a block is in conflict decides only where it is collected
  have hcounts : (n.isCollected && !inConflict (build notes).1 n)
      = (n.isCollected && Merge.blockAgrees (notesAt notes p) n) := by
    obtain ⟨hmem, rfl⟩ := mem_notesAt.1 hn
    cases hcollected : n.isCollected with
    | false => rfl
    | true =>
      have h := inConflict_iff hmem hcollected
      rw [Merge.disputed_block hkind, hcollected, Bool.true_and, ← Bool.eq_iff_iff] at h
      rw [h, Bool.not_not]
  unfold use?
  rw [hkind]
  show (if n.isCollected && !inConflict (build notes).1 n then _ else none) = _
  rw [hcounts]
  rfl

/-- The references are uses. -/
theorem filterMap_use?_references (he : (build notes).1.entries.get? p = some e) :
    ((notesAt notes p).filter fun n => n.kind = .reference).filterMap (build notes).1.use?
      = e.referenceSites.map fun x => ⟨.reference, x, none⟩ := by
  rw [referenceSites_build he, List.map_map, ← List.filterMap_eq_map]
  refine List.filterMap_congr fun n hn => ?_
  have hkind : n.kind = .reference := by simpa using (List.mem_filter.1 hn).2
  unfold use?
  rw [hkind]
  rfl

/-- The places that an entry has from the notes about its topic. -/
def placesOf (e : Entry) : List Occurrence :=
  (e.declarationSites.map fun s => ⟨.declaration, s.position, s.symbol⟩)
    ++ (e.blockSites.map fun s => ⟨.block, s.position, s.symbol⟩)
    ++ e.referenceSites.map fun x => ⟨.reference, x, none⟩

/-- **The notes about a topic, use by use.** The sites and references of an entry are the uses that
the notes about its topic are. -/
theorem perm_placesOf (he : (build notes).1.entries.get? p = some e) :
    (placesOf e).Perm ((notes.filter fun n => n.topic = p).filterMap (build notes).1.use?) := by
  unfold placesOf
  rw [← filterMap_use?_declarations he, ← filterMap_use?_blocks he, ← filterMap_use?_references he,
    List.append_assoc, ← List.filterMap_append, ← List.filterMap_append]
  refine List.Perm.filterMap _ ((perm_kinds _).symm.trans ?_)
  exact (List.mergeSort_perm notes _).filter _

/-- The places kept of the links to a topic stand for those of the notes that mention it. -/
theorem represents_mentionSites (he : (build notes).1.entries.get? p = some e) :
    Represents e.mentionSites ((notes.filter fun n => p ∈ n.mentions).map Note.position) := by
  have hmem : ∀ x, x ∈ linksTo notes p ↔
      x ∈ (notes.filter fun n => p ∈ n.mentions).map Note.position := by
    intro x
    rw [mem_linksTo, List.mem_map]
    simp only [List.mem_filter, decide_eq_true_eq, and_assoc]
  have hsites : e.mentionSites = distinctPlaces (linksTo notes p) := by
    rw [entry_build he]
  rw [hsites]
  have h := represents_distinctPlaces (linksTo notes p)
  exact ⟨h.distinct, fun x hx => (hmem x).1 (h.mem x hx), fun x hx => h.exists_same x ((hmem x).2 hx)⟩

theorem occurrences?_eq_none_iff :
    occurrences? (build notes).1 p = none ↔
      ¬ ∃ n ∈ notes, ∃ t ∈ n.topic :: n.mentions, p.segments <+: t.segments := by
  rw [occurrences?, Option.map_eq_none_iff, ← Option.not_isSome_iff_eq_none, entry?,
    isSome_get?_build, named_spokenOf_iff]

theorem listsUses_occurrencesOf (he : (build notes).1.entries.get? p = some e) :
    ListsUses notes p (occurrencesOf e) := by
  refine ⟨Arranged.pairwise_sorted _, e.mentionSites, represents_mentionSites he, ?_⟩
  exact (List.mergeSort_perm _ _).trans ((perm_placesOf he).append_right _)

/-- A declaration that differs from the one before it. -/
def disputedNote : Note :=
  ⟨.single "A", ⟨"a.go", 2, 1⟩, .declaration (some "y") (some "g") []⟩

/-- Two declarations of a topic, the later one disputed, and in one place a reference to it and
three links from two notes. The place is spelled in two ways. -/
def usedNotes : List Note :=
  [⟨.single "B", ⟨"s//b.go", 3, 1⟩, .block ⟨some "see", none, none, [.single "A", .single "A"], true⟩⟩,
   ⟨.single "C", ⟨"s/b.go", 3, 1⟩, .declaration none (some "h") [.single "A"]⟩,
   ⟨.single "A", ⟨"s/b.go", 3, 1⟩, .reference⟩,
   disputedNote,
   ⟨.single "A", ⟨"a.go", 1, 1⟩, .declaration (some "x") (some "f") []⟩]

end Outline

end Marginalia
