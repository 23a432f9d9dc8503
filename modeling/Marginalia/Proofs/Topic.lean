/-
Topics as paths that grow at the end.

A topic is either a single segment or a child of another topic, and its parent,
its name and its ancestors can be read off from that. This is the view under
which an outline is built (a topic is put in after everything above it), so
proofs about outlines go by induction along it and not over lists of segments.

`Named topics p` says that `p` is one of the topics or lies above one of them.
It is the set of keys an outline of these topics has.

In the order of topics everything below a topic follows it **without a gap**,
which is what lets an outline be searched by a run of its keys.
-/
import Marginalia.Proofs.Text.Cut
import Marginalia.Topic
import Mathlib.Data.List.Basic
import Mathlib.Data.List.Induction

set_option autoImplicit false

namespace Marginalia.Topic

/-! ## Single segments and children -/

/-- The topic of one segment. -/
def single (segment : String) : Topic :=
  ⟨[segment], by simp⟩

theorem ext_segments {a b : Topic} (h : a.segments = b.segments) : a = b := by
  cases a
  cases b
  simpa using h

@[simp]
theorem segments_single (s : String) : (single s).segments = [s] := rfl

@[simp]
theorem segments_child (p : Topic) (s : String) : (p.child s).segments = p.segments ++ [s] := rfl

/-- **Induction along a topic.** What holds of single segments and goes over from a topic to its
children holds of every topic. -/
theorem induction_child {motive : Topic → Prop} (single : ∀ s, motive (single s))
    (child : ∀ p s, motive p → motive (p.child s)) (t : Topic) : motive t := by
  obtain ⟨segments, hne⟩ := t
  induction segments using List.reverseRecOn with
  | nil => exact absurd rfl hne
  | append_singleton segments s ih =>
    by_cases h : segments = []
    · subst h
      exact single s
    · exact child ⟨segments, h⟩ s (ih h)

theorem child_inj {p q : Topic} {s s' : String} : p.child s = q.child s' ↔ p = q ∧ s = s' := by
  constructor
  · intro h
    have h := List.append_inj' (congrArg segments h) rfl
    exact ⟨ext_segments h.1, by simpa using h.2⟩
  · rintro ⟨rfl, rfl⟩
    rfl

theorem child_ne_self (p : Topic) (s : String) : p.child s ≠ p := by
  intro h
  have := congrArg (fun t => t.segments.length) h
  simp at this

@[simp]
theorem name_child (p : Topic) (s : String) : (p.child s).name = s := by
  simp [name]

@[simp]
theorem root_single (s : String) : (single s).root = s := rfl

@[simp]
theorem root_child (p : Topic) (s : String) : (p.child s).root = p.root := by
  simp [root, List.head_append_of_ne_nil p.nonempty]

@[simp]
theorem parent?_single (s : String) : (single s).parent? = none := by
  simp [parent?, upTo?]

@[simp]
theorem parent?_child (p : Topic) (s : String) : (p.child s).parent? = some p := by
  simp [parent?, upTo?, p.nonempty]

/-- Only a child has a parent, and only one. -/
theorem parent?_eq_some_iff {t p : Topic} : t.parent? = some p ↔ ∃ s, t = p.child s := by
  constructor
  · intro h
    induction t using induction_child with
    | single s => simp at h
    | child q s _ =>
      rw [parent?_child, Option.some_inj] at h
      exact ⟨s, by rw [h]⟩
  · rintro ⟨s, rfl⟩
    exact parent?_child p s

theorem parent?_eq_none_iff {t : Topic} : t.parent? = none ↔ ∃ s, t = single s := by
  constructor
  · intro h
    induction t using induction_child with
    | single s => exact ⟨s, rfl⟩
    | child q s _ => simp at h
  · rintro ⟨s, rfl⟩
    exact parent?_single s

/-- A topic with everything above it, outermost first. -/
def lineage (t : Topic) : List Topic :=
  t.ancestors ++ [t]

@[simp]
theorem lineage_single (s : String) : (single s).lineage = [single s] := rfl

/-- The ancestors of a child are its parent's and the parent. -/
theorem ancestors_child (p : Topic) (s : String) : (p.child s).ancestors = p.lineage := by
  have hpos : 0 < p.segments.length := List.length_pos_iff.2 p.nonempty
  have hlen : (p.child s).segments.length - 1 = (p.segments.length - 1) + 1 := by
    simp
    omega
  -- up to the parent, the child and the parent have the same initial segments
  have hbelow : ∀ k ∈ List.range (p.segments.length - 1),
      (p.child s).upTo? (k + 1) = p.upTo? (k + 1) := by
    intro k hk
    have hk := List.mem_range.1 hk
    have htake : (p.child s).segments.take (k + 1) = p.segments.take (k + 1) := by
      rw [segments_child, List.take_append_of_le_length (by omega)]
    simp only [upTo?, htake]
  have hself : (p.child s).upTo? (p.segments.length - 1 + 1) = some p := by
    have htake : (p.child s).segments.take (p.segments.length - 1 + 1) = p.segments := by
      rw [segments_child, Nat.sub_add_cancel hpos, List.take_left]
    simp only [upTo?, htake, p.nonempty, dite_false]
  rw [lineage, ancestors, ancestors, hlen, List.range_succ, List.filterMap_append,
    List.filterMap_congr hbelow]
  simp [hself]

@[simp]
theorem lineage_child (p : Topic) (s : String) :
    (p.child s).lineage = p.lineage ++ [p.child s] := by
  rw [lineage, ancestors_child]

/-! ## At or above -/

/-- Only a single segment itself is at or above it. -/
theorem prefix_single_iff {p : Topic} {s : String} :
    p.segments <+: (single s).segments ↔ p = single s := by
  constructor
  · intro h
    have hpos := List.length_pos_iff.2 p.nonempty
    have hlen : p.segments.length = (single s).segments.length := by
      have hle := h.length_le
      simp only [segments_single, List.length_singleton] at hle ⊢
      omega
    exact ext_segments (h.eq_of_length hlen)
  · rintro rfl
    exact List.prefix_refl _

/-- At or above a child is the child itself and what is at or above its parent. -/
theorem prefix_child_iff {p q : Topic} {s : String} :
    p.segments <+: (q.child s).segments ↔ p = q.child s ∨ p.segments <+: q.segments := by
  rw [segments_child, List.prefix_concat_iff]
  constructor
  · rintro (h | h)
    · exact .inl (ext_segments h)
    · exact .inr h
  · rintro (rfl | h)
    · exact .inl rfl
    · exact .inr h

/-- One of the topics, or above one of them. -/
def Named (topics : List Topic) (p : Topic) : Prop :=
  ∃ t ∈ topics, p.segments <+: t.segments

@[simp]
theorem named_cons {t : Topic} {topics : List Topic} {p : Topic} :
    Named (t :: topics) p ↔ p.segments <+: t.segments ∨ Named topics p := by
  simp [Named]

theorem not_named_nil (p : Topic) : ¬ Named [] p := by
  simp [Named]

/-- What is above a named topic is named. -/
theorem Named.above {topics : List Topic} {p q : Topic} (h : Named topics q)
    (hpq : p.segments <+: q.segments) : Named topics p := by
  obtain ⟨t, ht, hq⟩ := h
  exact ⟨t, ht, hpq.trans hq⟩

theorem Named.of_child {topics : List Topic} {p : Topic} {s : String}
    (h : Named topics (p.child s)) : Named topics p :=
  h.above (List.prefix_append _ _)

/-- Only which topics there are counts, not their order or number. -/
theorem named_congr {topics topics' : List Topic} (h : ∀ t, t ∈ topics ↔ t ∈ topics') (p : Topic) :
    Named topics p ↔ Named topics' p := by
  simp only [Named, h]

/-- The topics of one segment at or above a topic are that of its first segment. -/
theorem single_prefix_iff {t : Topic} {s : String} :
    (single s).segments <+: t.segments ↔ s = t.root := by
  induction t using induction_child with
  | single s' =>
    rw [prefix_single_iff, root_single]
    constructor
    · intro h
      simpa using congrArg segments h
    · rintro rfl
      rfl
  | child p s' ih =>
    rw [prefix_child_iff, ih, root_child]
    constructor
    · rintro (h | h)
      -- a child has at least two segments
      · have hlen : 1 = p.segments.length + 1 := by
          simpa using congrArg (fun t => t.segments.length) h
        have hpos := List.length_pos_iff.2 p.nonempty
        omega
      · exact h
    · exact .inr

/-! ## Order -/

/-- What two lists have in common at the front does not decide their order. -/
private theorem compare_append_left (front xs ys : List String) :
    compare (front ++ xs) (front ++ ys) = compare xs ys := by
  induction front with
  | nil => rfl
  | cons s front ih =>
    have hself : compare s s = .eq := Std.ReflOrd.compare_self
    have hcons : compare (s :: (front ++ xs)) (s :: (front ++ ys))
        = (compare s s).then (compare (front ++ xs) (front ++ ys)) := List.compareLex_cons_cons
    rw [List.cons_append, List.cons_append, hcons, hself, ih]
    rfl

/-- Siblings are in the order of their last segments. -/
theorem compare_child (p : Topic) (s s' : String) :
    compare (p.child s) (p.child s') = compare s s' := by
  have hlists : compare (p.child s) (p.child s') = compare [s] [s'] :=
    compare_append_left p.segments [s] [s']
  have hone : compare [s] [s'] = (compare s s').then .eq := List.compareLex_cons_cons
  rw [hlists, hone, Ordering.then_eq]

/-- Single segments are in the order of the segments. -/
theorem compare_single (s s' : String) : compare (single s) (single s') = compare s s' := by
  have hone : compare (single s) (single s') = (compare s s').then .eq := List.compareLex_cons_cons
  rw [hone, Ordering.then_eq]

theorem isAbove_iff {p q : Topic} : p.isAbove q ↔ p.segments <+: q.segments ∧ p ≠ q := by
  rw [isAbove, Bool.and_eq_true, decide_eq_true_eq, List.isPrefixOf_iff_prefix, and_comm]
  refine and_congr_right fun hfront => ?_
  constructor
  · rintro hlt rfl
    omega
  · intro hne
    have hle := hfront.length_le
    by_contra hlt
    exact hne (ext_segments (hfront.eq_of_length (by omega)))

/-- What lies between a list and one it is a front of has it as its front, too. -/
private theorem prefix_of_between {xs ys zs : List String} (hxy : (compare xs ys).isLE)
    (hyz : (compare ys zs).isLE) (h : xs <+: zs) : xs <+: ys := by
  induction xs generalizing ys zs with
  | nil => exact List.nil_prefix
  | cons x xs ih =>
    obtain ⟨rest, rfl⟩ := h
    cases ys with
    | nil =>
      have hgt : compare (x :: xs) [] = .gt := List.compareLex_cons_nil
      rw [hgt] at hxy
      exact absurd hxy (by decide)
    | cons y ys =>
      have hxy' : (compare (x :: xs) (y :: ys)) = (compare x y).then (compare xs ys) :=
        List.compareLex_cons_cons
      have hyz' : (compare (y :: ys) (x :: (xs ++ rest)))
          = (compare y x).then (compare ys (xs ++ rest)) := List.compareLex_cons_cons
      rw [hxy'] at hxy
      rw [List.cons_append, hyz'] at hyz
      -- each of the two first segments is at most the other
      have heq : compare x y = .eq := Std.OrientedCmp.isLE_antisymm
        (Ordering.isLE_left_of_isLE_then hxy) (Ordering.isLE_left_of_isLE_then hyz)
      obtain rfl : x = y := Std.LawfulEqCmp.eq_of_compare heq
      rw [heq] at hxy hyz
      rw [List.cons_prefix_cons]
      exact ⟨rfl, ih hxy hyz (List.prefix_append _ _)⟩

/-- A topic comes before everything below it. -/
theorem lt_of_isAbove {p q : Topic} (h : p.isAbove q) : compare p q = .lt := by
  obtain ⟨⟨rest, hrest⟩, hne⟩ := isAbove_iff.1 h
  have hcompare : compare p q = compare [] rest := by
    have hlists := compare_append_left p.segments [] rest
    rw [List.append_nil, hrest] at hlists
    exact hlists
  cases rest with
  | nil => exact absurd (ext_segments (by simpa using hrest)) hne
  | cons s rest => exact hcompare

/-- What lies below a topic follows it without a gap. -/
theorem isAbove_of_between {p q r : Topic} (hpq : compare p q = .lt) (hqr : (compare q r).isLE)
    (h : p.isAbove r) : p.isAbove q := by
  rw [isAbove_iff] at h ⊢
  refine ⟨prefix_of_between (Ordering.isLE_of_eq_lt hpq) hqr h.1, ?_⟩
  rintro rfl
  simp at hpq

/-! ## Topics that can be read -/

/-- A topic whose segments are not empty and hold neither white space nor slashes. -/
def Readable (t : Topic) : Prop :=
  ∀ s ∈ t.segments, s ≠ "" ∧ ∀ c ∈ s.toList, ¬ Text.isBlank c ∧ c ≠ '/'

-- decided over the characters of each segment, not over all characters there are
instance (t : Topic) : Decidable t.Readable :=
  decidable_of_iff
    (∀ s ∈ t.segments, s ≠ "" ∧ s.toList.all fun c => !Text.isBlank c && c ≠ '/')
    (by simp [Readable])

/-- What is above a readable topic is readable. -/
theorem Readable.above {p t : Topic} (h : t.Readable) (hp : p.segments <+: t.segments) :
    p.Readable :=
  fun s hs => h s (hp.subset hs)

/-- No segment is refused exactly if none is empty and none holds white space. -/
theorem firstFault_eq_none_iff {index : Nat} {segments : List String} :
    firstFault index segments = none ↔
      ∀ s ∈ segments, s ≠ "" ∧ ∀ c ∈ s.toList, ¬ Text.isBlank c := by
  fun_induction firstFault index segments with
  | case1 => simp
  | case2 index s segments hs => simp_all
  | case3 index s segments hs hblank =>
    simp only [reduceCtorEq, false_iff]
    intro h
    obtain ⟨c, hc, hcblank⟩ := List.any_eq_true.1 hblank
    exact (h s List.mem_cons_self).2 c hc hcblank
  | case4 index s segments hs hblank ih =>
    rw [ih, List.forall_mem_cons]
    simp_all

theorem ofSegments_eq_ok_iff {segments : List String} {t : Topic} :
    ofSegments segments = .ok t ↔ t.segments = segments ∧ firstFault 0 segments = none := by
  rw [ofSegments]
  constructor
  · intro h
    split at h
    · exact absurd h (by simp)
    split at h
    · exact absurd h (by simp)
    · rename_i hfault
      cases h
      exact ⟨rfl, hfault⟩
  · rintro ⟨rfl, hfault⟩
    rw [dif_neg t.nonempty, hfault]

/-- Reading a text is putting together what stands between its slashes. -/
theorem parse_eq_ok_iff_ofSegments {text : String} {t : Topic} :
    parse text = .ok t ↔
      text ≠ "" ∧ ofSegments ((Text.pieces '/' text.toList).map String.ofList) = .ok t := by
  rw [parse]
  by_cases hempty : text = ""
  · simp [hempty]
  · rw [if_neg (by simpa using hempty)]
    exact (and_iff_right hempty).symm

/-- What is read as a topic is cut at its slashes, and no segment is refused. -/
theorem segments_of_parse {text : String} {t : Topic} (h : parse text = .ok t) :
    t.segments = (Text.pieces '/' text.toList).map String.ofList
      ∧ firstFault 0 t.segments = none := by
  obtain ⟨hsegments, hfault⟩ := ofSegments_eq_ok_iff.1 (parse_eq_ok_iff_ofSegments.1 h).2
  exact ⟨hsegments, hsegments ▸ hfault⟩

/-- A topic is written as it was read. -/
theorem text_of_parse {text : String} {t : Topic} (h : parse text = .ok t) : t.text = text := by
  rw [Topic.text, (segments_of_parse h).1, List.map_map]
  have hsame : String.toList ∘ String.ofList = id := by
    funext piece
    exact String.toList_ofList
  rw [hsame, List.map_id, Text.joined_pieces, String.ofList_toList]

/-- The text of a topic holds no white space if no segment does. -/
theorem not_isBlank_of_mem_text {t : Topic} (h : ∀ s ∈ t.segments, ∀ c ∈ s.toList, ¬ Text.isBlank c)
    {c : Char} (hc : c ∈ t.text.toList) : ¬ Text.isBlank c := by
  rw [text, String.toList_ofList] at hc
  obtain rfl | ⟨piece, hpiece, hc⟩ := Text.mem_of_mem_joined hc
  · decide
  · obtain ⟨s, hs, rfl⟩ := List.mem_map.1 hpiece
    exact h s hs c hc

theorem not_isBlank_of_parse {text : String} {t : Topic} (h : parse text = .ok t) {c : Char}
    (hc : c ∈ text.toList) : ¬ Text.isBlank c := by
  rw [← text_of_parse h] at hc
  refine not_isBlank_of_mem_text (fun s hs => ?_) hc
  exact (firstFault_eq_none_iff.1 (segments_of_parse h).2 s hs).2

/-- **A readable topic is read as it is written**: it has no slash but those between its
segments. -/
theorem parse_text {t : Topic} (h : t.Readable) : parse t.text = .ok t := by
  have hpieces : (Text.pieces '/' t.text.toList).map String.ofList = t.segments := by
    have hslash : ∀ piece ∈ t.segments.map String.toList, '/' ∉ piece := by
      intro piece hpiece
      obtain ⟨s, hs, rfl⟩ := List.mem_map.1 hpiece
      exact fun hmem => ((h s hs).2 _ hmem).2 rfl
    have hne : t.segments.map String.toList ≠ [] := by simpa using t.nonempty
    rw [text, String.toList_ofList, Text.pieces_joined hne hslash, List.map_map]
    simp
  have hempty : ¬ t.text.isEmpty := by
    intro hempty
    have hnil : t.text = "" := by simpa using hempty
    rw [hnil] at hpieces
    have hsegment : "" ∈ t.segments := by
      rw [← hpieces]
      decide
    exact (h "" hsegment).1 rfl
  have hfault : firstFault 0 t.segments = none :=
    firstFault_eq_none_iff.2 fun s hs => ⟨(h s hs).1, fun c hc => ((h s hs).2 c hc).1⟩
  rw [parse, if_neg hempty, hpieces, ofSegments, dif_neg t.nonempty, hfault]

@[simp]
theorem text_single (s : String) : (single s).text = s :=
  String.ofList_toList

/-- A readable segment alone is read as the topic of that segment. -/
theorem parse_single {s : String} (h : (single s).Readable) : parse s = .ok (single s) := by
  have hread := parse_text h
  rwa [text_single] at hread

end Marginalia.Topic
