/-
The shape of a finished outline.

Entries, lists of children and roots are three tables, and only `ensure` keeps
them in step. `Growth` has the invariant that ties them to the topics spoken
of; giving out nicknames does not touch it, so the finished outline has it,
too. From there on the tables are read the way a reader of the outline does:
the children of a topic and the roots come out as **parts of the walk**, picked
by what their topics' parents are, and in the order of their last segments.

The same order makes everything below a topic one run of keys right behind it.
That is what the search for content below a topic relies on. It passes over one
key unseen, which is the topic's own if the topic has an entry. If it has none,
the key passed over is of some other topic, and the search is exact all the
same: **nothing has an entry below a topic without one**.
-/
import Marginalia.Outline.Query
import Marginalia.Proofs.Outline.Nicknames
import Mathlib.Data.List.TakeWhile

set_option autoImplicit false

namespace Marginalia.Outline

open Arranged
open Topic (Named)

/-! ## The invariant of growth, at the end -/

/-- The finished outline has the shape of the topics that notes are about or link to. -/
theorem grown_build (notes : List Note) : Grown (build notes).1 (spokenOf notes) := by
  have h := grown_history notes
  -- settling links and taking nicknames away leaves the topic and the children of an entry
  have hget : ∀ {p e}, (build notes).1.entries.get? p = some e →
      ∃ e', (Outline.empty.grow (history notes)).entries.get? p = some e' ∧
        e.topic = e'.topic ∧ e.children = e'.children := by
    intro p e he
    rw [get?_build] at he
    obtain ⟨e', he', rfl⟩ := Option.map_eq_some_iff.1 he
    refine ⟨e', he', ?_, ?_⟩
    · split <;> rfl
    · split <;> rfl
  have hroots : (build notes).1.roots = (Outline.empty.grow (history notes)).roots := by
    rw [build_eq, bind_eq]
    rfl
  refine { isSome_iff := isSome_get?_build notes, topic_eq := fun he => ?_,
           child_iff := fun he => ?_, root_iff := fun s => ?_ }
  · obtain ⟨e', he', htopic, _⟩ := hget he
    rw [htopic, h.topic_eq he']
  · obtain ⟨e', he', _, hchildren⟩ := hget he
    rw [hchildren, h.child_iff he']
  · rw [hroots, h.root_iff]

/-! ## Parts of the walk -/

section Walk

variable {outline : Outline} {topics : List Topic}

theorem Linked.mem_walk (h : Linked outline.entries topics) {e : Entry} :
    e ∈ outline.walk ↔ outline.entry? e.topic = some e := by
  rw [walk, SortedMap.values, List.mem_map, entry?]
  constructor
  · rintro ⟨⟨p, e'⟩, hmem, rfl⟩
    have he := SortedMap.get?_eq_some_iff.2 hmem
    rw [h.topic_eq he, he]
  · intro he
    exact ⟨(e.topic, e), SortedMap.get?_eq_some_iff.1 he, rfl⟩

theorem Linked.pairwise_walk (h : Linked outline.entries topics) :
    outline.walk.Pairwise fun a b => compare a.topic b.topic = .lt := by
  rw [walk, SortedMap.values, List.pairwise_map]
  refine outline.entries.ordered.imp_of_mem fun {a b} ha hb hab => ?_
  have htopic : ∀ x ∈ outline.entries.toList, x.2.topic = x.1 := fun x hx =>
    h.topic_eq (SortedMap.get?_eq_some_iff.2 hx)
  rw [htopic a ha, htopic b hb]
  exact hab

/-- A family of topics, one for each segment and in the order of the segments. -/
structure Family (place : String → Topic) : Prop where
  compare_eq : ∀ s s', compare (place s) (place s') = compare s s'
  name_eq : ∀ s, (place s).name = s

theorem family_child (p : Topic) : Family p.child where
  compare_eq := Topic.compare_child p
  name_eq := Topic.name_child p

theorem family_single : Family Topic.single where
  compare_eq := Topic.compare_single
  name_eq _ := rfl

variable {place : String → Topic} {segments : SortedSet String}

/-- **Looking up a family is picking it from the walk**, if the segments are those of the members
that are named. -/
theorem Linked.filterMap_family (h : Linked outline.entries topics) (hplace : Family place)
    (hsegments : ∀ s, s ∈ SortedSet.elements segments ↔ Named topics (place s))
    {member : Topic → Bool} (hmember : ∀ t, member t ↔ ∃ s, t = place s) :
    (SortedSet.elements segments).filterMap (fun s => outline.entry? (place s))
      = outline.walk.filter fun e => member e.topic := by
  refine eq_of_pairwise_lt Entry.topic ?_ (h.pairwise_walk.filter _) fun e => ?_
  · rw [List.pairwise_filterMap]
    refine (SortedSet.pairwise_elements segments).imp fun {s s'} hlt e he e' he' => ?_
    rw [h.topic_eq he, h.topic_eq he', hplace.compare_eq]
    exact hlt
  · rw [List.mem_filterMap, List.mem_filter, h.mem_walk, hmember]
    constructor
    · rintro ⟨s, _, he⟩
      have htopic : e.topic = place s := h.topic_eq he
      exact ⟨htopic ▸ he, s, htopic⟩
    · rintro ⟨he, s, hs⟩
      rw [hs] at he
      exact ⟨s, (hsegments s).2 (h.named he), he⟩

/-- No segment is lost, and the entries come in the order of the segments. -/
theorem Linked.map_name_family (h : Linked outline.entries topics) (hplace : Family place)
    (hsegments : ∀ s, s ∈ SortedSet.elements segments ↔ Named topics (place s)) :
    ((SortedSet.elements segments).filterMap fun s => outline.entry? (place s)).map
      (fun e => e.topic.name) = SortedSet.elements segments := by
  rw [List.map_filterMap]
  have hfound : ∀ s ∈ SortedSet.elements segments,
      (outline.entry? (place s)).map (fun e => e.topic.name) = some s := by
    intro s hs
    obtain ⟨e, he⟩ := Option.isSome_iff_exists.1 ((h.isSome_iff _).2 ((hsegments s).1 hs))
    have hentry : outline.entry? (place s) = some e := he
    rw [hentry, Option.map_some, h.topic_eq he, hplace.name_eq]
  rw [List.filterMap_congr hfound, List.filterMap_some]

/-- The children of a topic are the entries with that parent. -/
theorem Linked.children_eq (h : Linked outline.entries topics) {p : Topic} {e : Entry}
    (he : outline.entry? p = some e) :
    (SortedSet.elements e.children).filterMap (fun s => outline.entry? (p.child s))
      = outline.walk.filter fun e => e.topic.parent? = some p := by
  have hmember : ∀ t : Topic, decide (t.parent? = some p) = true ↔ ∃ s, t = p.child s := by
    intro t
    rw [decide_eq_true_eq, Topic.parent?_eq_some_iff]
  exact h.filterMap_family (family_child p) (fun s => h.child_iff he) hmember

/-- The roots, looked up by their texts, are looked up by their segments. -/
theorem Grown.rootEntries_eq_filterMap (h : Grown outline topics)
    (hread : ∀ t ∈ topics, t.Readable) :
    outline.rootEntries
      = (SortedSet.elements outline.roots).filterMap fun s => outline.entry? (.single s) := by
  refine List.filterMap_congr fun s hs => ?_
  obtain ⟨t, ht, hfront⟩ := (h.root_iff s).1 hs
  rw [lookup?, Topic.parse_single ((hread t ht).above hfront)]
  rfl

/-- The roots are the entries without a parent. -/
theorem Grown.rootEntries_eq (h : Grown outline topics) (hread : ∀ t ∈ topics, t.Readable) :
    outline.rootEntries = outline.walk.filter fun e => e.topic.parent? = none := by
  have hmember : ∀ t : Topic, decide (t.parent? = none) = true ↔ ∃ s, t = .single s := by
    intro t
    rw [decide_eq_true_eq, Topic.parent?_eq_none_iff]
  rw [h.rootEntries_eq_filterMap hread]
  exact h.toLinked.filterMap_family family_single h.root_iff hmember

end Walk

/-! ## What a reader sees -/

/-- **The shape of an outline of some notes**, as a reader sees it. -/
structure Shape (notes : List Note) (outline : Outline) : Prop where
  /-- The keys are the topics that notes are about or link to, and those above them. -/
  keys : ∀ p, p ∈ outline.entries.keys ↔
    ∃ n ∈ notes, ∃ t ∈ n.topic :: n.mentions, p.segments <+: t.segments
  topic_eq : ∀ p e, outline.entry? p = some e → e.topic = p
  children : ∀ p e, outline.entry? p = some e →
    ∀ s, s ∈ SortedSet.elements e.children ↔ p.child s ∈ outline.entries.keys
  roots : ∀ s, s ∈ SortedSet.elements outline.roots ↔ Topic.single s ∈ outline.entries.keys
  /-- Asked for its children, a topic without an entry has no answer. -/
  children?_eq_none : ∀ p, p ∉ outline.entries.keys → outline.children? p = none
  /-- The children are the entries with this parent, none is lost, and their last segments
  increase. -/
  children?_eq_some : ∀ p e, outline.entry? p = some e →
    ∃ entries, outline.children? p = some entries ∧
      (∀ child, child ∈ entries ↔ child ∈ outline.walk ∧ child.topic.parent? = some p) ∧
      entries.map (·.topic.name) = SortedSet.elements e.children ∧
      entries.Pairwise fun a b => compare a.topic.name b.topic.name = .lt
  rootEntries : (∀ root, root ∈ outline.rootEntries ↔
      root ∈ outline.walk ∧ root.topic.parent? = none) ∧
    outline.rootEntries.map (·.topic.name) = SortedSet.elements outline.roots ∧
    outline.rootEntries.Pairwise fun a b => compare a.topic.name b.topic.name = .lt

theorem mem_keys_build_iff {notes : List Note} {p : Topic} :
    p ∈ (build notes).1.entries.keys ↔ Named (spokenOf notes) p := by
  rw [SortedMap.mem_keys_iff, isSome_get?_build]

theorem named_spokenOf_iff {notes : List Note} {p : Topic} :
    Named (spokenOf notes) p ↔
      ∃ n ∈ notes, ∃ t ∈ n.topic :: n.mentions, p.segments <+: t.segments := by
  simp only [Named, spokenOf, List.mem_flatMap]
  constructor
  · rintro ⟨t, ⟨n, hn, ht⟩, hp⟩
    exact ⟨n, hn, t, ht, hp⟩
  · rintro ⟨n, hn, t, ht, hp⟩
    exact ⟨t, ⟨n, hn, ht⟩, hp⟩

/-- Entries whose last segments are those of a set, in its order, have increasing last segments. -/
private theorem pairwise_name {entries : List Entry} {segments : SortedSet String}
    (h : entries.map (·.topic.name) = SortedSet.elements segments) :
    entries.Pairwise fun a b => compare a.topic.name b.topic.name = .lt := by
  have hsorted := SortedSet.pairwise_elements segments
  rw [← h] at hsorted
  exact List.pairwise_map.1 hsorted

/-- **The shape of the outline of any notes**, as long as their topics can be read. -/
theorem shape_build {notes : List Note} (hread : ∀ t ∈ spokenOf notes, t.Readable) :
    Shape notes (build notes).1 := by
  have h := grown_build notes
  have hlinked := h.toLinked
  refine
    { keys := fun p => by rw [mem_keys_build_iff, named_spokenOf_iff]
      topic_eq := fun p e he => h.topic_eq he
      children := fun p e he s => by rw [h.child_iff he, mem_keys_build_iff]
      roots := fun s => by rw [h.root_iff, mem_keys_build_iff]
      children?_eq_none := fun p hp => ?_
      children?_eq_some := fun p e he => ?_
      rootEntries := ?_ }
  · rw [SortedMap.mem_keys_iff, Option.not_isSome_iff_eq_none] at hp
    rw [children?, entry?, hp]
    rfl
  · have hsegments : ∀ s, s ∈ SortedSet.elements e.children ↔ Named (spokenOf notes) (p.child s) :=
      fun s => h.child_iff he
    have hnames := hlinked.map_name_family (family_child p) hsegments
    have hlookup : (build notes).1.children? p = some ((SortedSet.elements e.children).filterMap
        fun s => entry? (build notes).1 (p.child s)) := by
      rw [children?, he, Option.map_some]
    refine ⟨_, hlookup, fun child => ?_, hnames, pairwise_name hnames⟩
    rw [hlinked.children_eq he, List.mem_filter, decide_eq_true_eq]
  · have hnames := hlinked.map_name_family family_single h.root_iff
    rw [← h.rootEntries_eq_filterMap hread] at hnames
    refine ⟨fun root => ?_, hnames, pairwise_name hnames⟩
    rw [h.rootEntries_eq hread, List.mem_filter, decide_eq_true_eq]

/-- Notes about two topics, of which one is two segments deep, and a link that goes three deep. In
the order of texts `a-b` would stand between `a` and `a/b`. -/
def branchedNotes : List Note :=
  [⟨(Topic.single "a").child "b", ⟨"x.go", 4, 1⟩, .reference⟩,
   ⟨.single "a-b", ⟨"x.go", 2, 1⟩,
    .block ⟨some "text", none, none, [((Topic.single "c").child "d").child "e"], true⟩⟩]

theorem shape_branchedNotes :
    (∀ t ∈ spokenOf branchedNotes, t.Readable) ∧ Shape branchedNotes (build branchedNotes).1 := by
  have hread : ∀ t ∈ spokenOf branchedNotes, t.Readable := by decide
  exact ⟨hread, shape_build hread⟩

/-! ## What lies below a topic -/

section Below

variable {outline : Outline} {topics : List Topic} {p : Topic}

/-- Where a topic has an entry, the entries fall apart into those before it, its own and those
behind it. -/
private theorem split_at_key {e : Entry} (he : outline.entries.get? p = some e) :
    ∃ before behind, outline.entries.toList = before ++ (p, e) :: behind ∧
      (∀ x ∈ before, compare x.1 p = .lt) ∧ (∀ x ∈ behind, compare p x.1 = .lt) ∧
      behind.Pairwise fun a b => compare a.1 b.1 = .lt := by
  obtain ⟨before, behind, hsplit⟩ := List.append_of_mem (SortedMap.get?_eq_some_iff.1 he)
  have hordered := outline.entries.ordered
  rw [hsplit, List.pairwise_append, List.pairwise_cons] at hordered
  obtain ⟨_, ⟨hbehind, hrest⟩, hacross⟩ := hordered
  exact ⟨before, behind, hsplit, fun x hx => hacross x hx _ List.mem_cons_self, hbehind, hrest⟩

/-- **The search below a topic that has an entry is exact**: it goes through all entries below and
through no other. -/
theorem hasContentBelow_iff (h : Linked outline.entries topics) (hp : Named topics p) :
    outline.hasContentBelow p ↔
      ∃ q e, p.isAbove q ∧ outline.entries.get? q = some e ∧ e.content.isSome := by
  obtain ⟨own, hown⟩ := Option.isSome_iff_exists.1 ((h.isSome_iff p).2 hp)
  obtain ⟨before, behind, hsplit, hbefore, hbehind, hrest⟩ := split_at_key hown
  have hself : compare p p = .eq := Std.ReflOrd.compare_self
  -- the keys before the topic are passed over, and then the topic itself
  have hdropped : (outline.entries.toList.dropWhile fun x => compare x.1 p == .lt).drop 1
      = behind := by
    rw [hsplit, List.dropWhile_append_of_pos (by simpa using hbefore),
      List.dropWhile_cons_of_neg (by simp), List.drop_one, List.tail_cons]
  -- what lies below comes first behind it
  have hrun : behind.takeWhile (fun x => p.isAbove x.1) = behind.filter fun x => p.isAbove x.1 := by
    refine takeWhile_eq_filter (hrest.imp_of_mem fun {a b} ha _ hab hb => ?_)
    exact Topic.isAbove_of_between (hbehind a ha) (Ordering.isLE_of_eq_lt hab) hb
  simp only [hasContentBelow]
  rw [hdropped, hrun, List.any_eq_true]
  constructor
  · rintro ⟨⟨q, e⟩, hmem, hcontent⟩
    obtain ⟨hmem, habove⟩ := List.mem_filter.1 hmem
    refine ⟨q, e, habove, SortedMap.get?_eq_some_iff.2 ?_, hcontent⟩
    rw [hsplit]
    exact List.mem_append_right _ (List.mem_cons_of_mem _ hmem)
  · rintro ⟨q, e, habove, he, hcontent⟩
    refine ⟨(q, e), List.mem_filter.2 ⟨?_, habove⟩, hcontent⟩
    have hlt := Topic.lt_of_isAbove habove
    have hmem := SortedMap.get?_eq_some_iff.1 he
    rw [hsplit, List.mem_append, List.mem_cons] at hmem
    rcases hmem with hmem | hmem | hmem
    · exact absurd hlt (Std.OrientedCmp.not_lt_of_lt (hbefore _ hmem))
    · obtain ⟨rfl, _⟩ := Prod.mk.inj hmem
      rw [hself] at hlt
      exact absurd hlt (by decide)
    · exact hmem

/-- Whatever the search goes through is an entry below the topic, in any outline. -/
theorem exists_of_hasContentBelow (h : outline.hasContentBelow p) :
    ∃ q e, p.isAbove q ∧ outline.entries.get? q = some e ∧ e.content.isSome := by
  obtain ⟨⟨q, e⟩, hrun, hcontent⟩ := List.any_eq_true.1 h
  have habove := List.mem_takeWhile_imp hrun
  have hmem : (q, e) ∈ outline.entries.toList := by
    apply (List.dropWhile_sublist _).subset
    apply List.mem_of_mem_drop
    exact (List.takeWhile_sublist _).subset hrun
  exact ⟨q, e, habove, SortedMap.get?_eq_some_iff.2 hmem, hcontent⟩

/-- Where there is an entry, there is one for everything above it. -/
theorem Linked.named_of_isAbove (h : Linked outline.entries topics) {q : Topic} {e : Entry}
    (he : outline.entries.get? q = some e) (habove : p.isAbove q) : Named topics p :=
  (h.named he).above (Topic.isAbove_iff.1 habove).1

/-- **The search below any topic is exact**, whether or not the topic has an entry. -/
theorem content_below_build (notes : List Note) (p : Topic) :
    (build notes).1.hasContentBelow p ↔
      ∃ e ∈ (build notes).1.walk,
        p.segments <+: e.topic.segments ∧ p ≠ e.topic ∧ e.content.isSome := by
  have h := (grown_build notes).toLinked
  have hentries : (build notes).1.hasContentBelow p ↔
      ∃ q e, p.isAbove q ∧ (build notes).1.entries.get? q = some e ∧ e.content.isSome := by
    by_cases hp : Named (spokenOf notes) p
    · exact hasContentBelow_iff h hp
    · -- neither side can hold: each would put an entry below the topic
      constructor
      · exact exists_of_hasContentBelow
      · rintro ⟨q, e, habove, he, -⟩
        exact absurd (h.named_of_isAbove he habove) hp
  rw [hentries]
  constructor
  · rintro ⟨q, e, habove, he, hcontent⟩
    obtain rfl : e.topic = q := h.topic_eq he
    obtain ⟨hfront, hne⟩ := Topic.isAbove_iff.1 habove
    exact ⟨e, h.mem_walk.2 he, hfront, hne, hcontent⟩
  · rintro ⟨e, he, hfront, hne, hcontent⟩
    exact ⟨e.topic, e, Topic.isAbove_iff.2 ⟨hfront, hne⟩, h.mem_walk.1 he, hcontent⟩

/-- A topic is a leaf exactly if none of the topics lies below it. -/
theorem Linked.isLeaf_iff (h : Linked outline.entries topics) {e : Entry}
    (he : outline.entries.get? p = some e) : e.isLeaf ↔ ∀ t ∈ topics, ¬ p.isAbove t := by
  have hempty : e.isLeaf ↔ ∀ s, s ∉ SortedSet.elements e.children := by
    rw [Entry.isLeaf, List.isEmpty_iff, SortedSet.elements, SortedMap.keys,
      ← List.eq_nil_iff_forall_not_mem, List.map_eq_nil_iff]
  rw [hempty]
  constructor
  · intro hnone t ht habove
    obtain ⟨⟨rest, hrest⟩, hne⟩ := Topic.isAbove_iff.1 habove
    cases rest with
    | nil => exact hne (Topic.ext_segments (by simpa using hrest))
    -- the first segment further down is that of a child
    | cons s rest =>
      refine hnone s ((h.child_iff he).2 ⟨t, ht, rest, ?_⟩)
      rw [← hrest, Topic.segments_child, List.append_assoc]
      rfl
  · intro hnone s hs
    obtain ⟨t, ht, hfront⟩ := (h.child_iff he).1 hs
    refine hnone t ht (Topic.isAbove_iff.2 ⟨(List.prefix_append _ _).trans hfront, ?_⟩)
    rintro rfl
    have hlen := hfront.length_le
    rw [Topic.segments_child, List.length_append, List.length_singleton] at hlen
    omega

end Below

end Marginalia.Outline
