/-
Topics and their texts.

A topic comes about in two ways: it is read from a text, or it is put together
from segments. Both refuse an empty segment and one with white space in it,
but only reading cuts at the slashes. So a topic that was read has no slash
inside a segment, while one that was put together may have, and its text is
then cut elsewhere when it is read again.

What holds of both is stated of `Formed` topics. Reading and writing are
**inverse to each other** on the readable ones among them; a formed topic is
read back from its text exactly if it is readable, that is, if none of its
segments holds a slash. Its text belongs to it alone exactly if no slash in
that text has characters on both sides: where one has, the text can be cut
there or not, and each choice is a topic.
-/
import Marginalia.Proofs.Topic

set_option autoImplicit false

namespace Marginalia.Topic

/-! ## How topics come about -/

/-- No segment is empty or holds white space. This is all that either way of making a topic
insists on. -/
def Solid (segments : List String) : Prop :=
  ∀ s ∈ segments, s ≠ "" ∧ ∀ c ∈ s.toList, ¬ Text.isBlank c

/-- A topic that is read from a text or put together from segments. -/
inductive Formed (t : Topic) : Prop where
  | read (text : String) (h : parse text = .ok t)
  | assembled (segments : List String) (h : ofSegments segments = .ok t)

theorem formed_iff {t : Topic} : t.Formed ↔ Solid t.segments := by
  have hsolid : Solid t.segments ↔ firstFault 0 t.segments = none := firstFault_eq_none_iff.symm
  rw [hsolid]
  constructor
  · rintro (⟨text, h⟩ | ⟨segments, h⟩)
    · exact (segments_of_parse h).2
    · obtain ⟨rfl, hfault⟩ := ofSegments_eq_ok_iff.1 h
      exact hfault
  · intro hfault
    exact .assembled t.segments (ofSegments_eq_ok_iff.2 ⟨rfl, hfault⟩)

/-- A formed topic is readable exactly if no segment holds a slash. -/
theorem Formed.readable_iff {t : Topic} (h : t.Formed) :
    t.Readable ↔ ∀ s ∈ t.segments, '/' ∉ s.toList := by
  constructor
  · intro hreadable s hs hslash
    exact ((hreadable s hs).2 _ hslash).2 rfl
  · intro hslash s hs
    obtain ⟨hne, hblank⟩ := formed_iff.1 h s hs
    refine ⟨hne, fun c hc => ⟨hblank c hc, ?_⟩⟩
    rintro rfl
    exact hslash s hs hc

/-! ## Reading and writing -/

/-- **Reading and writing are inverse** on the readable topics, and nothing else is read. -/
theorem parse_eq_ok_iff {text : String} {t : Topic} :
    parse text = .ok t ↔ t.Readable ∧ t.text = text := by
  constructor
  · intro h
    refine ⟨(Formed.read text h).readable_iff.2 ?_, text_of_parse h⟩
    -- the segments are what stands between slashes
    intro s hs
    rw [(segments_of_parse h).1] at hs
    obtain ⟨piece, hpiece, rfl⟩ := List.mem_map.1 hs
    rw [String.toList_ofList]
    exact Text.notMem_of_mem_pieces hpiece
  · rintro ⟨hreadable, rfl⟩
    exact parse_text hreadable

/-- A formed topic is read back from its text exactly if no segment holds a slash. -/
theorem Formed.parse_text_iff {t : Topic} (h : t.Formed) :
    parse t.text = .ok t ↔ ∀ s ∈ t.segments, '/' ∉ s.toList := by
  rw [parse_eq_ok_iff, and_iff_left rfl, h.readable_iff]

/-- What is read are the texts with something but no white space between every two slashes, and
at either end. -/
theorem exists_parse_iff {text : String} :
    (∃ t, parse text = .ok t) ↔
      text ≠ "" ∧ ∀ piece ∈ text.toList.splitOn '/', piece ≠ [] ∧ ∀ c ∈ piece, ¬ Text.isBlank c := by
  have hfault : firstFault 0 ((Text.pieces '/' text.toList).map String.ofList) = none ↔
      ∀ piece ∈ text.toList.splitOn '/', piece ≠ [] ∧ ∀ c ∈ piece, ¬ Text.isBlank c := by
    rw [firstFault_eq_none_iff, Text.pieces_eq_splitOn]
    simp
  simp only [parse_eq_ok_iff_ofSegments, ofSegments_eq_ok_iff, exists_and_left, hfault]
  refine and_congr_right fun _ => ?_
  constructor
  · rintro ⟨t, -, h⟩
    exact h
  · intro h
    exact ⟨⟨_, by simpa using Text.pieces_ne_nil '/' text.toList⟩, rfl, h⟩

/-! ## Topics with the same text -/

/-- A slash with characters on both sides. -/
def Divided (text : String) : Prop :=
  ∃ front back : List Char, front ≠ [] ∧ back ≠ [] ∧ text.toList = front ++ '/' :: back

theorem Formed.not_isBlank {t : Topic} (h : t.Formed) {c : Char} (hc : c ∈ t.text.toList) :
    ¬ Text.isBlank c :=
  not_isBlank_of_mem_text (fun s hs => (formed_iff.1 h s hs).2) hc

/-- The text of a topic with more than one segment has a slash with characters on both sides. -/
theorem Formed.divided {t : Topic} (h : t.Formed) (hne : t ≠ single t.text) : Divided t.text := by
  obtain ⟨segments, hnonempty⟩ := t
  have hsolid := formed_iff.1 h
  match segments with
  | [] => exact absurd rfl hnonempty
  | [s] =>
    have hsame : single s = single (single s).text := by rw [text_single]
    exact absurd hsame hne
  | s :: s' :: rest =>
    refine ⟨s.toList, Text.joined '/' ((s' :: rest).map String.toList), ?_, ?_, ?_⟩
    · simpa using (hsolid s List.mem_cons_self).1
    · -- the second segment is in what is left
      have hs' : s'.toList ≠ [] := by simpa using (hsolid s' (by simp)).1
      obtain ⟨c, hc⟩ := List.exists_mem_of_ne_nil _ hs'
      exact List.ne_nil_of_mem (Text.mem_joined_of_mem (by simp) hc)
    · rw [text, String.toList_ofList]
      rfl

/-- **Topics that share a text.** A formed topic is the only one with its text exactly if no slash
in the text has characters on both sides. -/
theorem Formed.exists_namesake_iff {t : Topic} (h : t.Formed) :
    (∃ u : Topic, u.Formed ∧ u ≠ t ∧ u.text = t.text) ↔ Divided t.text := by
  constructor
  · rintro ⟨u, hu, hne, htext⟩
    by_cases ht : t = single t.text
    · -- the other one has more than one segment then
      rw [← htext]
      refine hu.divided fun hsingle => hne ?_
      rw [hsingle, htext, ← ht]
    · exact h.divided ht
  · rintro ⟨front, back, hfront, hback, htext⟩
    have hblank : ∀ c ∈ front ++ '/' :: back, ¬ Text.isBlank c := by
      intro c hc
      exact h.not_isBlank (htext ▸ hc)
    by_cases ht : t = single t.text
    · -- uncut, so there is the topic cut at this slash
      refine ⟨(single (String.ofList front)).child (String.ofList back), ?_, ?_, ?_⟩
      · rw [formed_iff]
        simp only [segments_child, segments_single, Solid, List.mem_append, List.mem_singleton]
        rintro s (rfl | rfl)
        · refine ⟨by simpa using hfront, fun c hc => hblank c ?_⟩
          rw [String.toList_ofList] at hc
          exact List.mem_append_left _ hc
        · refine ⟨by simpa using hback, fun c hc => hblank c ?_⟩
          rw [String.toList_ofList] at hc
          exact List.mem_append_right _ (List.mem_cons_of_mem _ hc)
      · intro heq
        have hlen := congrArg (fun u => u.segments.length) (heq.trans ht)
        simp at hlen
      · rw [← String.toList_inj, htext, text, String.toList_ofList]
        simp [Text.joined]
    · -- cut somewhere, so there is the topic that is not cut at all
      refine ⟨single t.text, ?_, Ne.symm ht, text_single _⟩
      rw [formed_iff]
      simp only [segments_single, Solid, List.mem_singleton, forall_eq]
      refine ⟨fun hempty => ?_, fun c hc => h.not_isBlank hc⟩
      rw [hempty] at htext
      exact absurd htext (by simp)

/-- Formed topics with the same text are equal, if no segment of either holds a slash. -/
theorem Formed.eq_of_text_eq {t u : Topic} (ht : t.Formed) (hu : u.Formed)
    (htslash : ∀ s ∈ t.segments, '/' ∉ s.toList) (huslash : ∀ s ∈ u.segments, '/' ∉ s.toList)
    (htext : u.text = t.text) : u = t := by
  have hread := hu.parse_text_iff.2 huslash
  rw [htext, ht.parse_text_iff.2 htslash] at hread
  exact (Except.ok.inj hread).symm

/-- **How faithful the text of a topic is.** Exactly the texts without empty pieces and white space
are read, and a topic that is read is written as it was and read back from there. A topic made in
either way is read back exactly if none of its segments holds a slash; it shares its text with no
other such topic then, and with no topic at all exactly if no slash in the text has characters on
both sides. -/
theorem text_faithful_iff (text : String) (t : Topic) :
    ((∃ u, parse text = .ok u) ↔
      text ≠ "" ∧ ∀ piece ∈ text.toList.splitOn '/', piece ≠ [] ∧ ∀ c ∈ piece, ¬ Text.isBlank c) ∧
    (parse text = .ok t → t.text = text ∧ parse t.text = .ok t) ∧
    (t.Formed →
      (parse t.text = .ok t ↔ ∀ s ∈ t.segments, '/' ∉ s.toList) ∧
      ((∀ s ∈ t.segments, '/' ∉ s.toList) →
        ∀ u : Topic, u.Formed → (∀ s ∈ u.segments, '/' ∉ s.toList) → u.text = t.text → u = t) ∧
      ((∃ u : Topic, u.Formed ∧ u ≠ t ∧ u.text = t.text) ↔ Divided t.text)) := by
  refine ⟨exists_parse_iff, fun h => ?_, fun h => ⟨h.parse_text_iff, ?_, h.exists_namesake_iff⟩⟩
  · have htext := text_of_parse h
    exact ⟨htext, htext.symm ▸ h⟩
  · intro hslash u hu huslash htext
    exact h.eq_of_text_eq hu hslash huslash htext

theorem text_faithful_domain :
    parse "Domain/Rules" = .ok ((single "Domain").child "Rules") ∧
    ((single "Domain").child "Rules").text = "Domain/Rules" ∧
    parse ((single "Domain").child "Rules").text = .ok ((single "Domain").child "Rules") ∧
    ∃ u : Topic, u.Formed ∧ u ≠ (single "Domain").child "Rules" ∧ u.text = "Domain/Rules" := by
  have hparse : parse "Domain/Rules" = .ok ((single "Domain").child "Rules") := rfl
  have hslash : ∀ s ∈ ((single "Domain").child "Rules").segments, '/' ∉ s.toList := by decide
  obtain ⟨-, hread, hformed⟩ :=
    text_faithful_iff "Domain/Rules" ((single "Domain").child "Rules")
  obtain ⟨hback, -, hshared⟩ := hformed (.read _ hparse)
  have htext := (hread hparse).1
  refine ⟨hparse, htext, hback.2 hslash, ?_⟩
  rw [← htext]
  exact hshared.2 ⟨"Domain".toList, "Rules".toList, by decide, by decide, by decide⟩

/-- A segment with a slash in it is accepted, and the topic is read back as another one. -/
theorem text_slashedSegment :
    ofSegments ["a/b"] = .ok (single "a/b") ∧ (single "a/b").text = "a/b" ∧
    parse "a/b" = .ok ((single "a").child "b") ∧ ((single "a").child "b").text = "a/b" ∧
    (single "a").child "b" ≠ single "a/b" := by
  refine ⟨rfl, ?_, rfl, ?_, ?_⟩
  all_goals decide +kernel

end Marginalia.Topic
