/-
Lists in order: how far a sort fixes its result, and how a list in order falls
apart into runs.

A sort by an incomplete key leaves the elements that tie in the order they
came in. So two arrangements of the same elements, both in order, need not be
equal. What is true is that they agree **place by place up to ties**, and that
this stays so under every filter, because a filtered list is again in order
and again has the same elements. Whatever is read off place by place and does
not tell ties apart is then the same for both. And an element more in the list
does not disturb the others: they are sorted as they are without it, ties
included (`sorted_around`). The same goes for a whole list that is spread over
another (`Interleaved.sorted`).

The second half is about a key that decides the order first. The elements with
one key stand next to each other, and cutting the list wherever the key changes
gives, for each key once and in increasing order, all elements that have it.
-/
import Mathlib.Data.List.Dedup
import Mathlib.Data.List.Forall2
import Mathlib.Data.List.Sort
import Mathlib.Data.List.SplitBy

set_option autoImplicit false

namespace Marginalia.Arranged

variable {α β γ : Type}

/-! ## Ties -/

section Ties

variable {cmp : α → α → Ordering}

/-- Two arrangements of the same elements, both in order. -/
structure Rearranged (cmp : α → α → Ordering) (l₁ l₂ : List α) : Prop where
  perm : l₁.Perm l₂
  left : l₁.Pairwise fun a b => (cmp a b).isLE
  right : l₂.Pairwise fun a b => (cmp a b).isLE

variable (cmp) in
theorem isLE_total [Std.OrientedCmp cmp] (a b : α) : ((cmp a b).isLE || (cmp b a).isLE) = true := by
  have hswap : cmp b a = (cmp a b).swap := Std.OrientedCmp.eq_swap
  rw [hswap]
  cases cmp a b <;> rfl

/-- A sorted list is in order. -/
theorem pairwise_sorted [Std.TransCmp cmp] (l : List α) :
    (l.mergeSort fun a b => (cmp a b).isLE).Pairwise fun a b => (cmp a b).isLE :=
  List.pairwise_mergeSort (fun _ _ _ => Std.TransCmp.isLE_trans) (isLE_total cmp) l

/-- Sorting makes rearrangements of permutations. -/
theorem rearranged_sorted [Std.TransCmp cmp] {l₁ l₂ : List α} (h : l₁.Perm l₂) :
    Rearranged cmp (l₁.mergeSort fun a b => (cmp a b).isLE)
      (l₂.mergeSort fun a b => (cmp a b).isLE) where
  perm := (List.mergeSort_perm l₁ _).trans (h.trans (List.mergeSort_perm l₂ _).symm)
  left := pairwise_sorted l₁
  right := pairwise_sorted l₂

theorem Rearranged.filter {l₁ l₂ : List α} (h : Rearranged cmp l₁ l₂) (p : α → Bool) :
    Rearranged cmp (l₁.filter p) (l₂.filter p) where
  perm := h.perm.filter p
  left := h.left.filter p
  right := h.right.filter p

/-- An order on elements, as one on pairs that looks at their first parts. -/
theorem transCmp_fst [Std.TransCmp cmp] : Std.TransCmp fun x y : α × β => cmp x.1 y.1 where
  eq_swap := Std.OrientedCmp.eq_swap
  isLE_trans := Std.TransCmp.isLE_trans

/-- Every element paired with each of the things `g` finds in it. The pairs are in order by their
first parts, and the pairs of one element tie. -/
theorem Rearranged.pairs [Std.ReflCmp cmp] {l₁ l₂ : List α} (h : Rearranged cmp l₁ l₂)
    (g : α → List β) :
    Rearranged (fun x y : α × β => cmp x.1 y.1) (l₁.flatMap fun a => (g a).map (a, ·))
      (l₂.flatMap fun a => (g a).map (a, ·)) := by
  have hpairs : ∀ l : List α, (l.Pairwise fun a b => (cmp a b).isLE) →
      (l.flatMap fun a => (g a).map (a, ·)).Pairwise fun x y => (cmp x.1 y.1).isLE := by
    intro l hl
    have hself : ∀ a, cmp a a = .eq := fun a => Std.ReflCmp.compare_self
    rw [List.pairwise_flatMap]
    refine ⟨fun a _ => ?_, hl.imp fun {a b} hab x hx y hy => ?_⟩
    · rw [List.pairwise_map]
      exact List.pairwise_of_forall fun _ _ => by simp [hself]
    · obtain ⟨_, _, rfl⟩ := List.mem_map.1 hx
      obtain ⟨_, _, rfl⟩ := List.mem_map.1 hy
      exact hab
  exact ⟨h.perm.flatMap_right _, hpairs l₁ h.left, hpairs l₂ h.right⟩

/-- Lists in order with equally many elements of every rank agree place by place up to ties. The
induction takes the two first elements off: each of them is at most the other, and what is left
has again equally many of every rank. A permutation would not do here, since the tails of two
permutations need not be permutations. -/
private theorem forall₂_of_countP_eq [Std.TransCmp cmp] {l₁ l₂ : List α}
    (h₁ : l₁.Pairwise fun a b => (cmp a b).isLE) (h₂ : l₂.Pairwise fun a b => (cmp a b).isLE)
    (h : ∀ c, l₁.countP (fun x => cmp x c == .eq) = l₂.countP fun x => cmp x c == .eq) :
    List.Forall₂ (fun a b => cmp a b = .eq) l₁ l₂ := by
  have hself : ∀ c, cmp c c = .eq := fun c => Std.ReflCmp.compare_self
  -- the first of a list in order is at most everything that some element ties with
  have hfirst : ∀ (c d : α) (t : List α), ((d :: t).Pairwise fun a b => (cmp a b).isLE) →
      0 < (d :: t).countP (fun x => cmp x c == .eq) → (cmp d c).isLE := by
    intro c d t ht hc
    obtain ⟨x, hx, hxc⟩ := List.countP_pos_iff.1 hc
    have hxc : cmp x c = .eq := by simpa using hxc
    have hdx : (cmp d x).isLE := by
      rcases List.mem_cons.1 hx with rfl | hx
      · simp [hself]
      · exact (List.pairwise_cons.1 ht).1 x hx
    exact Std.TransCmp.isLE_trans hdx (by simp [hxc])
  induction l₁ generalizing l₂ with
  | nil =>
    cases l₂ with
    | nil => exact .nil
    | cons b t₂ => simpa [List.countP_cons, hself] using h b
  | cons a t₁ ih =>
    cases l₂ with
    | nil => simpa [List.countP_cons, hself] using h a
    | cons b t₂ =>
      have hab : cmp a b = .eq := by
        refine Std.OrientedCmp.isLE_antisymm (hfirst b a t₁ h₁ ?_) (hfirst a b t₂ h₂ ?_)
        · simp [h b, hself]
        · simp [← h a, hself]
      -- `a` and `b` count for the same ranks, so the tails have equally many of each
      refine .cons hab (ih (List.pairwise_cons.1 h₁).2 (List.pairwise_cons.1 h₂).2 fun c => ?_)
      have hc := h c
      rw [List.countP_cons, List.countP_cons, Std.TransCmp.congr_left hab] at hc
      omega

/-- **Arrangements agree up to ties.** Two arrangements of the same elements, both in order, have
at every place elements that tie. -/
theorem Rearranged.forall₂ [Std.TransCmp cmp] {l₁ l₂ : List α} (h : Rearranged cmp l₁ l₂) :
    List.Forall₂ (fun a b => a ∈ l₁ ∧ b ∈ l₁ ∧ cmp a b = .eq) l₁ l₂ := by
  have hties := forall₂_of_countP_eq h.left h.right fun c => h.perm.countP_eq _
  rw [List.forall₂_iff_zip] at hties ⊢
  refine ⟨hties.1, fun {a b} hab => ?_⟩
  have hmem := List.of_mem_zip hab
  exact ⟨hmem.1, h.perm.mem_iff.2 hmem.2, hties.2 hab⟩

/-- What does not tell ties apart is read off alike from both arrangements. -/
theorem Rearranged.map_eq [Std.TransCmp cmp] {l₁ l₂ : List α} (h : Rearranged cmp l₁ l₂)
    {f : α → β} (hf : ∀ a ∈ l₁, ∀ b ∈ l₁, cmp a b = .eq → f a = f b) : l₁.map f = l₂.map f := by
  have hsame : List.Forall₂ (fun a b => f a = f b) l₁ l₂ :=
    h.forall₂.imp fun a b hab => hf a hab.1 b hab.2.1 hab.2.2
  rw [← List.forall₂_eq_eq_eq, List.forall₂_map_left_iff, List.forall₂_map_right_iff]
  exact hsame

/-- Where only equal elements tie, the order leaves no choice. -/
theorem Rearranged.eq [Std.TransCmp cmp] {l₁ l₂ : List α} (h : Rearranged cmp l₁ l₂)
    (hties : ∀ a ∈ l₁, ∀ b ∈ l₁, cmp a b = .eq → a = b) : l₁ = l₂ := by
  simpa using h.map_eq (f := id) hties

end Ties

/-! ## One element more -/

section Around

variable {cmp : α → α → Ordering}

private theorem orderedInsert_append (x : α) {front back : List α}
    (hfront : ∀ a ∈ front, ¬ (cmp x a).isLE) (hback : ∀ a ∈ back, (cmp x a).isLE) :
    (front ++ back).orderedInsert (fun a b => (cmp a b).isLE) x = front ++ x :: back := by
  induction front with
  | nil =>
    cases back with
    | nil => rfl
    | cons b back =>
      rw [List.nil_append, List.orderedInsert_cons, if_pos (hback b List.mem_cons_self),
        List.nil_append]
  | cons a front ih =>
    rw [List.cons_append, List.orderedInsert_cons, if_neg (hfront a List.mem_cons_self),
      ih fun b hb => hfront b (List.mem_cons_of_mem _ hb), List.cons_append]

variable [Std.TransCmp cmp]

variable (cmp) in
/-- An element is sorted in behind everything it is greater than. -/
private theorem sorted_cons_split (x : α) (l : List α) :
    ∃ front back,
      ((x :: l).mergeSort fun a b => (cmp a b).isLE) = front ++ x :: back ∧
        (l.mergeSort fun a b => (cmp a b).isLE) = front ++ back ∧
        ∀ a ∈ front, ¬ (cmp x a).isLE := by
  obtain ⟨front, back, hwith, hwithout, hfront⟩ :=
    @List.mergeSort_cons α (fun a b => (cmp a b).isLE) (fun _ _ _ => Std.TransCmp.isLE_trans)
      (isLE_total cmp) x l
  refine ⟨front, back, hwith, hwithout, fun a ha => ?_⟩
  simpa using hfront a ha

theorem sorted_cons (x : α) (l : List α) :
    ((x :: l).mergeSort fun a b => (cmp a b).isLE)
      = (l.mergeSort fun a b => (cmp a b).isLE).orderedInsert (fun a b => (cmp a b).isLE) x := by
  obtain ⟨front, back, hwith, hwithout, hfront⟩ := sorted_cons_split cmp x l
  have hsorted : ((x :: l).mergeSort fun a b => (cmp a b).isLE).Pairwise
      fun a b => (cmp a b).isLE := pairwise_sorted (x :: l)
  rw [hwith, List.pairwise_append, List.pairwise_cons] at hsorted
  rw [hwith, hwithout, orderedInsert_append x hfront hsorted.2.1.1]

/-- Inserting into a list in order does not move what stands there, so an element that is left out
of the list stays left out. -/
private theorem orderedInsert_around (a x : α) {front back : List α}
    (hsorted : (front ++ x :: back).Pairwise fun a b => (cmp a b).isLE) :
    ∃ front' back',
      (front ++ x :: back).orderedInsert (fun a b => (cmp a b).isLE) a = front' ++ x :: back' ∧
        (front ++ back).orderedInsert (fun a b => (cmp a b).isLE) a = front' ++ back' := by
  induction front with
  | nil =>
    by_cases hax : (cmp a x).isLE
    · -- right before `x`, which is before everything behind `x`
      have hback : ∀ b ∈ back, (cmp a b).isLE := by
        intro b hb
        exact Std.TransCmp.isLE_trans hax ((List.pairwise_cons.1 hsorted).1 b hb)
      refine ⟨[a], back, ?_, ?_⟩
      · rw [List.nil_append, List.orderedInsert_cons, if_pos hax]
        rfl
      · have hnone : ∀ b ∈ ([] : List α), ¬ (cmp a b).isLE := by simp
        exact orderedInsert_append a hnone hback
    · refine ⟨[], back.orderedInsert (fun a b => (cmp a b).isLE) a, ?_, rfl⟩
      rw [List.nil_append, List.orderedInsert_cons, if_neg hax, List.nil_append]
  | cons y front ih =>
    by_cases hay : (cmp a y).isLE
    · refine ⟨a :: y :: front, back, ?_, ?_⟩
      · rw [List.cons_append, List.orderedInsert_cons, if_pos hay]
        rfl
      · rw [List.cons_append, List.orderedInsert_cons, if_pos hay]
        rfl
    · obtain ⟨front', back', hwith, hwithout⟩ := ih (List.pairwise_cons.1 hsorted).2
      refine ⟨y :: front', back', ?_, ?_⟩
      · rw [List.cons_append, List.orderedInsert_cons, if_neg hay, hwith, List.cons_append]
      · rw [List.cons_append, List.orderedInsert_cons, if_neg hay, hwithout, List.cons_append]

variable (cmp) in
/-- **One element more.** Wherever an element is put into a list, sorting puts it somewhere between
the others and leaves their order alone, also among those that tie. -/
theorem sorted_around (x : α) (before after : List α) :
    ∃ front back,
      ((before ++ x :: after).mergeSort fun a b => (cmp a b).isLE) = front ++ x :: back ∧
        ((before ++ after).mergeSort fun a b => (cmp a b).isLE) = front ++ back := by
  induction before with
  | nil =>
    obtain ⟨front, back, hwith, hwithout, -⟩ := sorted_cons_split cmp x after
    exact ⟨front, back, hwith, hwithout⟩
  | cons a before ih =>
    obtain ⟨front, back, hwith, hwithout⟩ := ih
    have hsorted : (front ++ x :: back).Pairwise fun a b => (cmp a b).isLE := by
      rw [← hwith]
      exact pairwise_sorted _
    obtain ⟨front', back', hwith', hwithout'⟩ := orderedInsert_around a x hsorted
    refine ⟨front', back', ?_, ?_⟩
    · rw [List.cons_append, sorted_cons, hwith, hwith']
    · rw [List.cons_append, sorted_cons, hwithout, hwithout']

end Around

/-! ## Two lists in one -/

/-- The elements of two lists in one, those of each in the order they have there. -/
inductive Interleaved : List α → List α → List α → Prop
  | nil : Interleaved [] [] []
  | left {a : α} {l r m : List α} (h : Interleaved l r m) : Interleaved (a :: l) r (a :: m)
  | right {a : α} {l r m : List α} (h : Interleaved l r m) : Interleaved l (a :: r) (a :: m)

namespace Interleaved

variable {l r m : List α}

theorem swap (h : Interleaved l r m) : Interleaved r l m := by
  induction h with
  | nil => exact .nil
  | left _ ih => exact .right ih
  | right _ ih => exact .left ih

theorem perm (h : Interleaved l r m) : m.Perm (l ++ r) := by
  induction h with
  | nil => exact .refl []
  | left _ ih => exact ih.cons _
  | right _ ih => exact (ih.cons _).trans List.perm_middle.symm

theorem sublist (h : Interleaved l r m) : l.Sublist m := by
  induction h with
  | nil => exact List.Sublist.slnil
  | left _ ih => exact ih.cons_cons _
  | right _ ih => exact ih.cons _

theorem filter (h : Interleaved l r m) (p : α → Bool) :
    Interleaved (l.filter p) (r.filter p) (m.filter p) := by
  induction h with
  | nil => exact .nil
  | @left a _ _ _ _ ih =>
    cases hp : p a with
    | true =>
      rw [List.filter_cons_of_pos hp, List.filter_cons_of_pos hp]
      exact .left ih
    | false =>
      rw [List.filter_cons_of_neg (by simp [hp]), List.filter_cons_of_neg (by simp [hp])]
      exact ih
  | @right a _ _ _ _ ih =>
    cases hp : p a with
    | true =>
      rw [List.filter_cons_of_pos hp, List.filter_cons_of_pos hp]
      exact .right ih
    | false =>
      rw [List.filter_cons_of_neg (by simp [hp]), List.filter_cons_of_neg (by simp [hp])]
      exact ih

theorem map (h : Interleaved l r m) (f : α → β) : Interleaved (l.map f) (r.map f) (m.map f) := by
  induction h with
  | nil => exact .nil
  | left _ ih => exact .left ih
  | right _ ih => exact .right ih

/-- Elements that bring nothing can be left out. -/
theorem flatMap_eq (h : Interleaved l r m) {f : α → List β} (hf : ∀ a ∈ r, f a = []) :
    m.flatMap f = l.flatMap f := by
  induction h with
  | nil => rfl
  | left _ ih => rw [List.flatMap_cons, List.flatMap_cons, ih hf]
  | right _ ih =>
    rw [List.forall_mem_cons] at hf
    rw [List.flatMap_cons, hf.1, List.nil_append, ih hf.2]

/-- A filter that refuses all elements of one list leaves the other. -/
theorem filter_eq (h : Interleaved l r m) {p : α → Bool} (hp : ∀ a ∈ r, p a = false) :
    m.filter p = l.filter p := by
  have hnone : r.filter p = [] := List.filter_eq_nil_iff.2 fun a ha => by simp [hp a ha]
  have hkept := h.filter p
  rw [hnone] at hkept
  have hlength := hkept.perm.length_eq
  rw [List.append_nil] at hlength
  exact (hkept.sublist.eq_of_length hlength.symm).symm

section Sorted

variable {cmp : α → α → Ordering} [Std.TransCmp cmp]

/-- An element is put at the same place among its own list and among both. -/
theorem orderedInsert (h : Interleaved l r m) (a : α)
    (hsorted : m.Pairwise fun a b => (cmp a b).isLE) :
    Interleaved (l.orderedInsert (fun a b => (cmp a b).isLE) a) r
      (m.orderedInsert (fun a b => (cmp a b).isLE) a) := by
  induction h with
  | nil => exact .left .nil
  | @left x l r m h ih =>
    rw [List.orderedInsert_cons, List.orderedInsert_cons]
    by_cases hax : (cmp a x).isLE
    · rw [if_pos hax, if_pos hax]
      exact .left (.left h)
    · rw [if_neg hax, if_neg hax]
      exact .left (ih (List.pairwise_cons.1 hsorted).2)
  | @right x l r m h ih =>
    rw [List.orderedInsert_cons]
    by_cases hax : (cmp a x).isLE
    · -- in front of `x`, and so in front of everything that stands behind it
      have hfirst : l.orderedInsert (fun a b => (cmp a b).isLE) a = a :: l := by
        cases l with
        | nil => rfl
        | cons b l =>
          have hb : b ∈ m := h.sublist.subset List.mem_cons_self
          have hxb := (List.pairwise_cons.1 hsorted).1 b hb
          rw [List.orderedInsert_cons, if_pos (Std.TransCmp.isLE_trans hax hxb)]
      rw [if_pos hax, hfirst]
      exact .left (.right h)
    · rw [if_neg hax]
      exact .right (ih (List.pairwise_cons.1 hsorted).2)

/-- **Sorting two lists in one** sorts each of them. -/
theorem sorted (h : Interleaved l r m) :
    Interleaved (l.mergeSort fun a b => (cmp a b).isLE) (r.mergeSort fun a b => (cmp a b).isLE)
      (m.mergeSort fun a b => (cmp a b).isLE) := by
  induction h with
  | nil => simpa using Interleaved.nil
  | @left a l r m _ ih =>
    rw [sorted_cons, sorted_cons]
    exact ih.orderedInsert a (pairwise_sorted m)
  | @right a l r m _ ih =>
    rw [sorted_cons, sorted_cons]
    exact (ih.swap.orderedInsert a (pairwise_sorted m)).swap

end Sorted

end Interleaved

/-! ## Reading two lists place by place -/

section Pairing

variable {r : α → β → Prop} {l₁ : List α} {l₂ : List β}

/-- What is kept and what is read off agree if both agree at every place. -/
theorem map_filter_eq_of_forall₂ (h : List.Forall₂ r l₁ l₂) {p : α → Bool} {q : β → Bool}
    {f : α → γ} {g : β → γ} (hp : ∀ a b, r a b → p a = q b) (hf : ∀ a b, r a b → f a = g b) :
    (l₁.filter p).map f = (l₂.filter q).map g := by
  induction h with
  | nil => rfl
  | @cons a b _ _ hab _ ih =>
    rw [List.filter_cons, List.filter_cons, hp a b hab]
    cases q b with
    | true => simp [hf a b hab, ih]
    | false => simpa using ih

theorem findSome?_eq_of_forall₂ (h : List.Forall₂ r l₁ l₂) {f : α → Option γ} {g : β → Option γ}
    (hf : ∀ a b, r a b → f a = g b) : l₁.findSome? f = l₂.findSome? g := by
  induction h with
  | nil => rfl
  | @cons a b _ _ hab _ ih =>
    rw [List.findSome?_cons, List.findSome?_cons, hf a b hab, ih]

end Pairing

/-- Elements that bring nothing need not be kept. -/
theorem flatMap_filter_of_nil {l : List α} {f : α → List β} {p : α → Bool}
    (h : ∀ a ∈ l, p a = false → f a = []) : (l.filter p).flatMap f = l.flatMap f := by
  induction l with
  | nil => rfl
  | cons a l ih =>
    have ih := ih fun b hb => h b (List.mem_cons_of_mem _ hb)
    rw [List.flatMap_cons, ← ih]
    cases hp : p a with
    | true => rw [List.filter_cons_of_pos hp, List.flatMap_cons]
    | false =>
      rw [List.filter_cons_of_neg (by simp [hp]), h a List.mem_cons_self hp, List.nil_append]

/-! ## Runs -/

section Runs

/-- What may only stand in front can be taken off the front. -/
theorem filter_append_filter_not {l : List α} {p : α → Bool}
    (h : l.Pairwise fun a b => p b = true → p a = true) :
    l.filter p ++ l.filter (fun a => !p a) = l := by
  induction l with
  | nil => rfl
  | cons a l ih =>
    have hl := List.pairwise_cons.1 h
    cases ha : p a with
    | true => simp [ha, ih hl.2]
    | false =>
      -- behind an element that is not taken, none is
      have hnone : ∀ b ∈ l, p b = false := by
        intro b hb
        by_contra hpb
        rw [hl.1 b hb (by simpa using hpb)] at ha
        exact absurd ha (by decide)
      have hkept : l.filter (fun a => !p a) = l :=
        List.filter_eq_self.2 fun b hb => by simp [hnone b hb]
      rw [List.filter_cons_of_neg (by simp [ha]), List.filter_cons_of_pos (by simp [ha]), hkept,
        List.filter_eq_nil_iff.2 fun b hb => by simp [hnone b hb], List.nil_append]

/-- What may only stand in front is met before anything else. -/
theorem takeWhile_eq_filter {l : List α} {p : α → Bool}
    (h : l.Pairwise fun a b => p b = true → p a = true) : l.takeWhile p = l.filter p := by
  induction l with
  | nil => rfl
  | cons a l ih =>
    have hl := List.pairwise_cons.1 h
    cases ha : p a with
    | true => rw [List.takeWhile_cons_of_pos ha, List.filter_cons_of_pos ha, ih hl.2]
    | false =>
      have hnone : ∀ b ∈ a :: l, ¬ p b = true := by
        intro b hb hpb
        rcases List.mem_cons.1 hb with rfl | hb
        · rw [ha] at hpb
          exact absurd hpb (by decide)
        · rw [hl.1 b hb hpb] at ha
          exact absurd ha (by decide)
      rw [List.takeWhile_cons_of_neg (by simp [ha]), List.filter_eq_nil_iff.2 hnone]

variable {κ : Type} [Ord κ] [Std.TransOrd κ] [Std.LawfulEqOrd κ] [DecidableEq κ] {key : α → κ}

variable (key) in
omit [Std.LawfulEqOrd κ] [DecidableEq κ] in
/-- Lists with the same members, both in strictly increasing order by a key, are equal. -/
theorem eq_of_pairwise_lt {l₁ l₂ : List α}
    (h₁ : l₁.Pairwise fun a b => compare (key a) (key b) = .lt)
    (h₂ : l₂.Pairwise fun a b => compare (key a) (key b) = .lt) (hmem : ∀ a, a ∈ l₁ ↔ a ∈ l₂) :
    l₁ = l₂ := by
  have : Std.Irrefl fun a b : α => compare (key a) (key b) = .lt := ⟨fun a ha => by simp at ha⟩
  have : Std.Antisymm fun a b : α => compare (key a) (key b) = .lt :=
    ⟨fun a b ha hb => absurd ha (Std.OrientedCmp.not_lt_of_lt hb)⟩
  exact List.Pairwise.eq_of_mem_iff h₁ h₂ hmem

/-- A list in order by a key is, key by key, what has that key. -/
theorem flatMap_filter_key {keys : List κ} {l : List α}
    (hkeys : keys.Pairwise fun a b => compare a b = .lt)
    (hl : l.Pairwise fun a b => (compare (key a) (key b)).isLE) (hmem : ∀ a ∈ l, key a ∈ keys) :
    (keys.flatMap fun k => l.filter fun a => key a = k) = l := by
  induction keys generalizing l with
  | nil =>
    have : l = [] := List.eq_nil_iff_forall_not_mem.2 fun a ha => by simpa using hmem a ha
    simp [this]
  | cons k keys ih =>
    have hk := List.pairwise_cons.1 hkeys
    have hleast : ∀ a ∈ l, (compare k (key a)).isLE := by
      intro a ha
      rcases List.mem_cons.1 (hmem a ha) with h | h
      · simp [h]
      · simp [hk.1 _ h]
    -- the elements with the least key stand in front of all others
    have hfront : l.Pairwise fun a b => decide (key b = k) = true → decide (key a = k) = true := by
      refine hl.imp_of_mem fun {a b} ha _ hab hb => ?_
      have hb : key b = k := by simpa using hb
      rw [hb] at hab
      have := Std.LawfulEqCmp.eq_of_compare (Std.OrientedCmp.isLE_antisymm hab (hleast a ha))
      simpa using this
    have hrest := ih hk.2 (hl.filter fun a => !decide (key a = k)) fun a ha => by
      have ha := List.mem_filter.1 ha
      exact (List.mem_cons.1 (hmem a ha.1)).resolve_left (by simpa using ha.2)
    -- the other keys do not miss what has the least one
    have hsame : (keys.flatMap fun k' => (l.filter fun a => !decide (key a = k)).filter
        fun a => key a = k') = keys.flatMap fun k' => l.filter fun a => key a = k' := by
      refine List.flatMap_congr fun k' hk' => ?_
      rw [List.filter_filter]
      refine List.filter_congr fun a _ => ?_
      have hne : k' ≠ k := by
        rintro rfl
        simpa using hk.1 _ hk'
      by_cases ha : key a = k'
      · simp [ha, hne]
      · simp [ha]
    rw [List.flatMap_cons, ← hsame, hrest]
    exact filter_append_filter_not hfront

omit [Std.TransOrd κ] [DecidableEq κ] in
/-- Each key of a list in order once, in increasing order. -/
theorem pairwise_lt_of_nodup {keys : List κ} (hle : keys.Pairwise fun a b => (compare a b).isLE)
    (hnodup : keys.Nodup) : keys.Pairwise fun a b => compare a b = .lt := by
  refine (hle.and hnodup).imp fun {a b} h => ?_
  have hne : compare a b ≠ .eq := fun he => h.2 (Std.LawfulEqCmp.eq_of_compare he)
  have hle := h.1
  cases hc : compare a b with
  | lt => rfl
  | eq => exact absurd hc hne
  | gt => simp [hc] at hle

/-- **Runs.** A list in order by a key, cut wherever the key changes, is the list of what each key
has, for every key once and in increasing order. -/
theorem splitBy_key {l : List α} (hl : l.Pairwise fun a b => (compare (key a) (key b)).isLE) :
    l.splitBy (fun a b => key a = key b)
      = (l.map key).dedup.map fun k => l.filter fun a => key a = k := by
  have hkeys : (l.map key).dedup.Pairwise fun a b => compare a b = .lt :=
    pairwise_lt_of_nodup ((List.pairwise_map.2 hl).sublist (List.dedup_sublist _))
      (List.nodup_dedup _)
  have hall : ∀ {k : κ} {a : α}, (a ∈ l.filter fun a => key a = k) → key a = k := fun ha => by
    simpa using (List.mem_filter.1 ha).2
  refine List.splitBy_eq_iff.2 ⟨?_, ?_, ?_, ?_⟩
  -- the runs put the list together again
  · rw [← List.flatMap_def, flatMap_filter_key hkeys hl]
    intro a ha
    exact List.mem_dedup.2 (List.mem_map.2 ⟨a, ha, rfl⟩)
  -- no run is empty
  · intro h
    obtain ⟨k, hk, hnil⟩ := List.mem_map.1 h
    obtain ⟨a, ha, rfl⟩ := List.mem_map.1 (List.mem_dedup.1 hk)
    rw [List.filter_eq_nil_iff] at hnil
    exact hnil a ha (by simp)
  -- the key does not change within a run
  · intro run hrun
    obtain ⟨k, _, rfl⟩ := List.mem_map.1 hrun
    refine (List.Pairwise.isChain (R := fun a b => decide (key a = key b) = true) ?_)
    exact List.pairwise_of_forall_mem_list fun a ha b hb => by simp [hall ha, hall hb]
  -- and it does from one run to the next
  · rw [List.isChain_map]
    refine List.Pairwise.isChain (hkeys.imp_of_mem fun {k k'} hk hk' hlt => ?_)
    have hne : ∀ {k : κ}, k ∈ (l.map key).dedup → (l.filter fun a => key a = k) ≠ [] := by
      intro k hk hnil
      obtain ⟨a, ha, rfl⟩ := List.mem_map.1 (List.mem_dedup.1 hk)
      rw [List.filter_eq_nil_iff] at hnil
      exact hnil a ha (by simp)
    refine ⟨hne hk, hne hk', ?_⟩
    rw [hall (List.getLast_mem _), hall (List.head_mem _)]
    have : k ≠ k' := by
      rintro rfl
      simp at hlt
    simpa using this

end Runs

end Marginalia.Arranged
