import Mathlib.Data.List.Forall2

/-!
# Lists

Facts about lists that do not depend on what they hold: lists that are related
element by element, lists that are split at some of their elements, and places in
an increasing list.
-/

namespace Pom8

/-! ## Lists that are related element by element -/

section Related

variable {α β : Type} {R : α → β → Prop} {first : List α} {second : List β}

theorem exists_mem_left_of_forall₂
    (h : List.Forall₂ R first second) {b : β} (hb : b ∈ second) :
    ∃ a ∈ first, R a b := by
  induction h with
  | nil => cases hb
  | cons hab _ ih =>
      rcases List.mem_cons.mp hb with rfl | hb
      · exact ⟨_, List.mem_cons_self, hab⟩
      · obtain ⟨a, ha, hr⟩ := ih hb
        exact ⟨a, List.mem_cons_of_mem _ ha, hr⟩

theorem exists_mem_right_of_forall₂
    (h : List.Forall₂ R first second) {a : α} (ha : a ∈ first) :
    ∃ b ∈ second, R a b :=
  exists_mem_left_of_forall₂ h.flip ha

/-- Lists that are related element by element are related up to the last
element and at it. -/
theorem forall₂_concat_right_iff
    {b : β} :
    List.Forall₂ R first (second ++ [b]) ↔
      ∃ front a, first = front ++ [a] ∧ List.Forall₂ R front second ∧ R a b := by
  constructor
  · intro h
    have hfront := List.forall₂_take_append first second [b] h
    have hlast := List.forall₂_drop_append first second [b] h
    obtain ⟨a, rest, ha, hrest, hdrop⟩ := List.forall₂_cons_right_iff.mp hlast
    rw [List.forall₂_nil_right_iff.mp hrest] at hdrop
    refine ⟨first.take second.length, a, ?_, hfront, ha⟩
    rw [← hdrop, List.take_append_drop]
  · rintro ⟨front, a, rfl, hfront, ha⟩
    exact List.rel_append hfront (.cons ha .nil)

theorem forall₂_iff_of_forall_mem
    {S : α → β → Prop} (h : ∀ a ∈ first, ∀ b, R a b ↔ S a b) :
    List.Forall₂ R first second ↔ List.Forall₂ S first second := by
  induction first generalizing second with
  | nil => rw [List.forall₂_nil_left_iff, List.forall₂_nil_left_iff]
  | cons a rest ih =>
      rw [List.forall_mem_cons] at h
      simp only [List.forall₂_cons_left_iff, h.1, ih h.2]

theorem exists_forall₂_of_forall_mem
    (h : ∀ a ∈ first, ∃ b, R a b) : ∃ second, List.Forall₂ R first second := by
  induction first with
  | nil => exact ⟨[], .nil⟩
  | cons a rest ih =>
      rw [List.forall_mem_cons] at h
      obtain ⟨b, hb⟩ := h.1
      obtain ⟨second, hsecond⟩ := ih h.2
      exact ⟨b :: second, .cons hb hsecond⟩

theorem map_eq_map_of_forall₂
    {γ : Type} {f : α → γ} {g : β → γ}
    (h : List.Forall₂ (fun a b => f a = g b) first second) :
    first.map f = second.map g := by
  rw [← List.forall₂_eq_eq_eq, List.forall₂_map_left_iff,
    List.forall₂_map_right_iff]
  exact h

/-- What is related to a joined list splits where that list does. -/
theorem exists_split_of_forall₂
    {before after : List α} {a : α} {list : List β}
    (h : List.Forall₂ R (before ++ a :: after) list) :
    ∃ first b last, list = first ++ b :: last ∧
      List.Forall₂ R before first ∧ R a b ∧ List.Forall₂ R after last := by
  induction before generalizing list with
  | nil =>
      obtain ⟨b, last, hb, hlast, rfl⟩ := List.forall₂_cons_left_iff.mp h
      exact ⟨[], b, last, rfl, .nil, hb, hlast⟩
  | cons c before ih =>
      obtain ⟨d, list, hd, hlist, rfl⟩ := List.forall₂_cons_left_iff.mp h
      obtain ⟨first, b, last, rfl, hfirst, hb, hlast⟩ := ih hlist
      exact ⟨d :: first, b, last, rfl, .cons hd hfirst, hb, hlast⟩

end Related

/-! ## Lists that are split -/

section Split

variable {α : Type}

theorem length_splitOnP (p : α → Bool) (list : List α) :
    (list.splitOnP p).length = 1 + list.countP p := by
  induction list with
  | nil => rfl
  | cons a rest ih =>
      rw [List.splitOnP_cons_eq_if_modifyHead]
      by_cases ha : p a = true
      · rw [if_pos ha, List.length_cons, ih, List.countP_cons_of_pos ha]
        omega
      · rw [if_neg ha, List.length_modifyHead, ih, List.countP_cons_of_neg ha]

/-- Splitting follows a map when the map keeps the places to split at. -/
theorem splitOnP_map
    {p : α → Bool} {f : α → α} (hp : ∀ a, p (f a) = p a) (list : List α) :
    (list.map f).splitOnP p = (list.splitOnP p).map (List.map f) := by
  induction list with
  | nil => rfl
  | cons a rest ih =>
      rw [List.map_cons, List.splitOnP_cons_eq_if_modifyHead,
        List.splitOnP_cons_eq_if_modifyHead, hp, ih]
      by_cases ha : p a = true
      · rw [if_pos ha, if_pos ha]
        rfl
      · rw [if_neg ha, if_neg ha]
        cases rest.splitOnP p with
        | nil => rfl
        | cons segment segments => rfl

/-- No segment holds an element to split at. -/
theorem eq_false_of_mem_splitOnP
    {p : α → Bool} {list segment : List α} (h : segment ∈ list.splitOnP p)
    {a : α} (ha : a ∈ segment) : p a = false := by
  induction list generalizing segment with
  | nil =>
      rw [List.splitOnP_nil, List.mem_singleton] at h
      rw [h] at ha
      cases ha
  | cons first rest ih =>
      rw [List.splitOnP_cons_eq_if_modifyHead] at h
      by_cases hfirst : p first = true
      · rw [if_pos hfirst, List.mem_cons] at h
        rcases h with rfl | h
        · cases ha
        · exact ih h ha
      · rw [if_neg hfirst] at h
        obtain ⟨head, tail, hsplit⟩ :=
          List.exists_cons_of_ne_nil (List.splitOnP_ne_nil p rest)
        rw [hsplit, List.modifyHead_cons, List.mem_cons] at h
        rw [hsplit] at ih
        rcases h with rfl | h
        · rcases List.mem_cons.mp ha with rfl | ha
          · exact Bool.eq_false_iff.mpr hfirst
          · exact ih List.mem_cons_self ha
        · exact ih (List.mem_cons_of_mem _ h) ha

end Split

/-! ## The place that a count leads to -/

section Count

variable {α : Type} {f : α → Nat} {list : List α}

/-- In a strictly increasing list, the number of values below a bound is the
place of the least value that reaches it. -/
theorem least_of_getElem?_countP
    (hlist : list.Pairwise fun a b => f a < f b) {bound : Nat} {a : α}
    (ha : list[list.countP fun b => f b < bound]? = some a) :
    bound ≤ f a ∧ ∀ b ∈ list, bound ≤ f b → f a ≤ f b := by
  induction list with
  | nil => simp at ha
  | cons first rest ih =>
      obtain ⟨hfirst, hrest⟩ := List.pairwise_cons.mp hlist
      by_cases hbelow : f first < bound
      · rw [List.countP_cons_of_pos (by simpa using hbelow),
          List.getElem?_cons_succ] at ha
        obtain ⟨hreach, hleast⟩ := ih hrest ha
        refine ⟨hreach, ?_⟩
        intro b hb hbound
        rcases List.mem_cons.mp hb with rfl | hb
        · omega
        · exact hleast b hb hbound
      · -- Nothing stays below the bound, so the count leads to the first place.
        have hnone : (first :: rest).countP (fun b => f b < bound) = 0 := by
          rw [List.countP_eq_zero]
          intro b hb
          rcases List.mem_cons.mp hb with rfl | hb
          · simpa using hbelow
          · have := hfirst b hb
            simp only [decide_eq_true_eq]
            omega
        rw [hnone, List.getElem?_cons_zero] at ha
        obtain rfl := Option.some.inj ha
        refine ⟨by omega, ?_⟩
        intro b hb _
        rcases List.mem_cons.mp hb with rfl | hb
        · exact Nat.le_refl _
        · exact Nat.le_of_lt (hfirst b hb)

end Count

end Pom8
