import Mathlib.Data.List.Basic
import Mathlib.Data.List.Count
import Mathlib.Data.List.Perm.Basic
import Mathlib.Algebra.BigOperators.Group.List.Basic
import Mathlib.Algebra.Order.Ring.Nat

/- Slots that hold at most one item each.

   `l.filterMap f` is what the slots of `l` hold when `f` says what one slot holds.
   Overwriting a slot adds an item, takes one away, or leaves them as they are; the
   order of what is held does not matter, so the statements are up to permutation.

   Slots that count for several items are summed (`sum_map_set`) or put one after
   another (`flatMap_set`), and items without a slot are counted (`count_eraseIdx`). -/
namespace Sylar.Lib

section
variable {α β : Type} (f : α → Option β)

/-- Filling an empty slot. -/
theorem held_fill : ∀ (l : List α) (i : Nat) (a b : α) (x : β), l[i]? = some a → f a = none →
    f b = some x → ((l.set i b).filterMap f).Perm (x :: l.filterMap f) := by
  intro l
  induction l with
  | nil => intro i a b x h; cases h
  | cons c rest ih =>
    intro i a b x h ha hb
    cases i with
    | zero =>
      cases h
      rw [List.set_cons_zero, List.filterMap_cons_some hb, List.filterMap_cons_none ha]
    | succ i =>
      have hrest := ih i a b x h ha hb
      rw [List.set_cons_succ]
      cases hc : f c with
      | none =>
        rw [List.filterMap_cons_none hc, List.filterMap_cons_none hc]
        exact hrest
      | some y =>
        rw [List.filterMap_cons_some hc, List.filterMap_cons_some hc]
        exact (hrest.cons y).trans (List.Perm.swap x y _)

/-- Emptying a full slot. -/
theorem held_empty (l : List α) (i : Nat) (a b : α) (x : β) (h : l[i]? = some a) (ha : f a = some x)
    (hb : f b = none) : (l.filterMap f).Perm (x :: (l.set i b).filterMap f) := by
  obtain ⟨hi, rfl⟩ := List.getElem?_eq_some_iff.mp h
  have hback := held_fill f (l.set i b) i b l[i] x (List.getElem?_set_self hi) hb ha
  rw [List.set_set, List.set_getElem_self] at hback
  exact hback

/-- Overwriting a slot by one that holds the same. -/
theorem held_keep : ∀ (l : List α) (i : Nat) (a b : α), l[i]? = some a → f a = f b →
    (l.set i b).filterMap f = l.filterMap f := by
  intro l
  induction l with
  | nil => intro i a b h; cases h
  | cons c rest ih =>
    intro i a b h hab
    cases i with
    | zero =>
      cases h
      rw [List.set_cons_zero, List.filterMap_cons, List.filterMap_cons, hab]
    | succ i =>
      rw [List.set_cons_succ, List.filterMap_cons, List.filterMap_cons, ih i a b h hab]

end

section
variable {α : Type} {l : List α} {i : Nat} {a : α}

/-- Overwriting a slot takes what it counted for and gives what it counts for. -/
theorem sum_map_set (g : α → Nat) (h : l[i]? = some a) (b : α) :
    ((l.set i b).map g).sum + g a = (l.map g).sum + g b := by
  induction l generalizing i with
  | nil => cases h
  | cons c rest ih =>
    cases i with
    | zero =>
      cases h
      simp only [List.set_cons_zero, List.map_cons, List.sum_cons]
      omega
    | succ i =>
      have hrest := ih h
      simp only [List.set_cons_succ, List.map_cons, List.sum_cons]
      omega

/-- A slot with a property stays when the one that is overwritten keeps it. -/
theorem exists_mem_set {P Q : α → Prop} (h : l[i]? = some a) {b : α} (hkeep : P a → Q b) (hother : ∀ v, P v → Q v)
    (hex : ∃ v ∈ l, P v) : ∃ v ∈ l.set i b, Q v := by
  obtain ⟨v, hv, hp⟩ := hex
  obtain ⟨j, hj⟩ := List.mem_iff_getElem?.mp hv
  obtain ⟨hi, -⟩ := List.getElem?_eq_some_iff.mp h
  by_cases hij : i = j
  · subst hij
    cases h.symm.trans hj
    exact ⟨b, List.mem_set hi b, hkeep hp⟩
  · exact ⟨v, List.mem_iff_getElem?.mpr ⟨j, by rw [List.getElem?_set_ne hij, hj]⟩, hother v hp⟩

theorem forall_mem_set {P : α → Prop} {b : α} (hall : ∀ v ∈ l, P v) (hb : P b) : ∀ v ∈ l.set i b, P v := by
  intro v hv
  rcases List.mem_or_eq_of_mem_set hv with hold | rfl
  · exact hall v hold
  · exact hb

theorem count_head [BEq α] (a : α) (l : List α) (x : α) : (a :: l).count x = [a].count x + l.count x := by
  rw [← List.singleton_append, List.count_append]

/-- What is erased was there once more. -/
theorem count_eraseIdx [BEq α] [LawfulBEq α] {k : Nat} {a : α} (h : l[k]? = some a) (x : α) :
    l.count x = (l.eraseIdx k).count x + [a].count x := by
  obtain ⟨hk, rfl⟩ := List.getElem?_eq_some_iff.mp h
  rw [← (List.getElem_cons_eraseIdx_perm hk).count_eq x, count_head]
  exact Nat.add_comm _ _

/-- What the slots hold, with one of them in front. -/
theorem flatMap_slot {β : Type} (g : α → List β) (h : l[i]? = some a) :
    (l.flatMap g).Perm (g a ++ (l.eraseIdx i).flatMap g) := by
  obtain ⟨hi, rfl⟩ := List.getElem?_eq_some_iff.mp h
  exact ((List.getElem_cons_eraseIdx_perm hi).flatMap_right g).symm

theorem flatMap_set {β : Type} (g : α → List β) (h : l[i]? = some a) (b : α) :
    ((l.set i b).flatMap g).Perm (g b ++ (l.eraseIdx i).flatMap g) := by
  obtain ⟨hi, -⟩ := List.getElem?_eq_some_iff.mp h
  have hslot := flatMap_slot g (List.getElem?_set_self (a := b) hi)
  rwa [List.eraseIdx_set_eq] at hslot

end

end Sylar.Lib
