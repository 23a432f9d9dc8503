/-
The order of notes: when two notes tie, and what being in order says about the
parts of a note.

The order looks at topic, position, form and content. Topics, forms and
contents that tie are equal. Positions that tie are the same place, but their
files may be spelled differently. And the order sees neither what a
declaration marks, nor whether a block is collected, nor the links of a note,
nor the blank ends of its texts.
-/
import Marginalia.Outline.Build

set_option autoImplicit false

namespace Marginalia

instance : Std.LawfulEqOrd Content where
  compare_self {a} := by
    have : Std.ReflOrd Content := inferInstance
    exact this.compare_self
  eq_of_compare {a b} h := by
    obtain ⟨htitle, h⟩ := compareLex_eq_eq.1 h
    obtain ⟨hbody, hnickname⟩ := compareLex_eq_eq.1 h
    have htitle : a.title = b.title := Std.LawfulEqCmp.eq_of_compare htitle
    have hbody : a.body = b.body := Std.LawfulEqCmp.eq_of_compare hbody
    have hnickname : a.nickname = b.nickname := Std.LawfulEqCmp.eq_of_compare hnickname
    cases a
    cases b
    simp_all

instance : Std.LawfulEqOrd NoteKind where
  compare_self {a} := by
    have : Std.ReflOrd NoteKind := inferInstance
    exact this.compare_self
  eq_of_compare {a b} h := by
    have h : compare a.rank b.rank = .eq := h
    have h := Std.LawfulEqOrd.compare_eq_iff_eq.1 h
    cases a <;> cases b <;> simp_all [NoteKind.rank]

namespace Note

/-- Only declarations mark code. -/
theorem symbol_eq_none {n : Note} (h : n.kind ≠ .declaration) : n.symbol = none := by
  cases hform : n.form <;> simp_all [kind, symbol]

/-- Only blocks can be left uncollected. -/
theorem isCollected_of_ne_block {n : Note} (h : n.kind ≠ .block) : n.isCollected := by
  cases hform : n.form <;> simp_all [kind, isCollected]

/-- Two notes of the same form and content about the same topic at the same place. -/
def Ties (a b : Note) : Prop :=
  a.topic = b.topic ∧ a.position.same b.position ∧ a.kind = b.kind ∧ a.content = b.content

instance (a b : Note) : Decidable (Ties a b) :=
  inferInstanceAs (Decidable (_ ∧ _))

/-- The order cannot decide between two notes exactly if they tie. -/
theorem order_eq_iff {a b : Note} : Note.order a b = .eq ↔ Ties a b := by
  have htopic : compareOn Note.topic a b = .eq ↔ a.topic = b.topic :=
    Std.LawfulEqOrd.compare_eq_iff_eq
  have hposition : compareOn Note.position a b = .eq ↔ a.position.same b.position := by
    simp [Position.same, compareOn]
  have hkind : compareOn Note.kind a b = .eq ↔ a.kind = b.kind :=
    Std.LawfulEqOrd.compare_eq_iff_eq
  have hcontent : compareOn Note.content a b = .eq ↔ a.content = b.content :=
    Std.LawfulEqOrd.compare_eq_iff_eq
  rw [Note.order, compareLex_eq_eq, compareLex_eq_eq, compareLex_eq_eq, htopic, hposition, hkind,
    hcontent, Ties]

/-- Notes in order have their topics in order. -/
theorem topic_isLE {a b : Note} (h : (Note.order a b).isLE) :
    (compare a.topic b.topic).isLE :=
  Ordering.isLE_left_of_isLE_then h

/-- Notes in order about one topic have their positions in order. -/
theorem position_isLE {a b : Note} (h : (Note.order a b).isLE) (ht : a.topic = b.topic) :
    (compare a.position b.position).isLE := by
  have htopic : compare a.topic b.topic = .eq := by rw [ht, Std.ReflOrd.compare_self]
  have h : ((compare a.topic b.topic).then ((compare a.position b.position).then
      (compareLex (compareOn kind) (compareOn content) a b))).isLE := h
  rw [htopic] at h
  exact Ordering.isLE_left_of_isLE_then h

end Note

end Marginalia
