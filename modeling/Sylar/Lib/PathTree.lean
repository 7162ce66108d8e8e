import Mathlib.Data.List.Basic
import Mathlib.Data.List.Infix
import Mathlib.Data.List.Nodup

/- Finite trees given by the paths to their nodes.

   A path is the names on the way from the root; above every node stand inner nodes only
   (`node_above`). `without` takes a node away with all that is below it. A sequence of such
   steps below one path is described by what it leaves (`Cut`): nothing outside is
   touched, and every node is as it was or gone. -/
namespace Sylar.Lib

variable {ν α : Type} [DecidableEq ν] {inner : α → Prop}

structure PathTree (ν α : Type) (inner : α → Prop) where
  entries : List (List ν × α)
  unique : (entries.map Prod.fst).Nodup
  parents : ∀ l n a, (l ++ [n], a) ∈ entries → ∃ b, (l, b) ∈ entries ∧ inner b

namespace PathTree

variable (t : PathTree ν α inner) {l m : List ν}

def node (l : List ν) : Option α := (t.entries.find? fun e => e.1 = l).map Prod.snd

/-- Without the node at `l` and all below it. -/
def without (l : List ν) : PathTree ν α inner where
  entries := t.entries.filter fun e => ¬ l <+: e.1
  unique := t.unique.sublist (List.filter_sublist.map _)
  parents := by
    intro m n a h
    obtain ⟨hmem, hout⟩ := List.mem_filter.mp h
    obtain ⟨b, hb, hinner⟩ := t.parents m n a hmem
    refine ⟨b, List.mem_filter.mpr ⟨hb, ?_⟩, hinner⟩
    simp only [decide_eq_true_eq] at hout ⊢
    exact fun hle => hout (hle.trans (List.prefix_append m [n]))

/-- A length that no path exceeds. -/
def height : Nat := (t.entries.map fun e => e.1.length).foldr max 0

variable {t}

omit [DecidableEq ν] in
theorem ext_entries {t u : PathTree ν α inner} (h : t.entries = u.entries) : t = u := by
  cases t
  cases u
  cases h
  rfl

theorem node_eq_some_iff {a : α} : t.node l = some a ↔ (l, a) ∈ t.entries := by
  constructor
  · intro h
    obtain ⟨e, he, rfl⟩ := Option.map_eq_some_iff.mp h
    have hl : e.1 = l := by simpa using List.find?_some he
    have hmem := List.mem_of_find?_eq_some he
    rwa [← hl]
  · intro h
    obtain ⟨e, he⟩ := Option.isSome_iff_exists.mp (List.find?_isSome.mpr ⟨(l, a), h, by simp⟩ :
      (t.entries.find? fun e => e.1 = l).isSome = true)
    have hl : e.1 = l := by simpa using List.find?_some he
    have hsame := List.inj_on_of_nodup_map t.unique (List.mem_of_find?_eq_some he) h hl
    rw [node, he, hsame]
    rfl

theorem node_above {a : α} (h : t.node (l ++ m) = some a) (hm : m ≠ []) : ∃ b, t.node l = some b ∧ inner b := by
  induction m using List.reverseRecOn generalizing a with
  | nil => exact absurd rfl hm
  | append_singleton m n ih =>
    rw [← List.append_assoc, node_eq_some_iff] at h
    obtain ⟨b, hb, hinner⟩ := t.parents _ _ _ h
    by_cases hnil : m = []
    · subst hnil
      rw [List.append_nil] at hb
      exact ⟨b, node_eq_some_iff.mpr hb, hinner⟩
    · exact ih (node_eq_some_iff.mpr hb) hnil

/-- Below what is not there nothing is. -/
theorem node_below_none (h : t.node l = none) (hle : l <+: m) : t.node m = none := by
  obtain ⟨rest, rfl⟩ := hle
  by_cases hrest : rest = []
  · rw [hrest, List.append_nil, h]
  · apply Option.eq_none_iff_forall_ne_some.mpr
    intro a ha
    obtain ⟨b, hb, -⟩ := node_above ha hrest
    rw [h] at hb
    cases hb

theorem node_without : (t.without l).node m = if l <+: m then none else t.node m := by
  apply Option.ext
  intro a
  rw [node_eq_some_iff, without, List.mem_filter, ← node_eq_some_iff]
  by_cases hle : l <+: m
  · simp [hle]
  · simp [hle]

theorem without_of_none (h : t.node l = none) : t.without l = t := by
  apply ext_entries
  apply List.filter_eq_self.mpr
  intro e he
  simp only [decide_eq_true_eq]
  intro hle
  have hnone := node_below_none h hle
  rw [(node_eq_some_iff (a := e.2)).mpr he] at hnone
  cases hnone

/-- What goes with all below `l` need not go before. -/
theorem without_without (hle : l <+: m) : (t.without m).without l = t.without l := by
  apply ext_entries
  show (t.entries.filter _).filter _ = t.entries.filter _
  rw [List.filter_filter]
  apply List.filter_congr
  intro e _
  by_cases hl : l <+: e.1
  · simp [hl]
  · have hm : ¬ m <+: e.1 := fun h => hl (hle.trans h)
    simp [hl, hm]

theorem length_le_height {a : α} (h : t.node l = some a) : l.length ≤ t.height := by
  have hmem := node_eq_some_iff.mp h
  rw [height]
  generalize t.entries = entries at hmem ⊢
  induction entries with
  | nil => cases hmem
  | cons e entries ih =>
    rw [List.map_cons, List.foldr_cons]
    rcases List.mem_cons.mp hmem with rfl | hmem
    · exact Nat.le_max_left _ _
    · exact (ih hmem).trans (Nat.le_max_right _ _)

/-! ## Cuts -/

/-- `u` is `t` after nodes were taken away at or below `l`, none of them one that is `kept`. -/
structure Cut (kept : α → Prop) (l : List ν) (t u : PathTree ν α inner) : Prop where
  left : ∀ m, u.node m = t.node m ∨ u.node m = none
  outside : ∀ m, ¬ l <+: m → u.node m = t.node m
  stays : ∀ m a, t.node m = some a → kept a → u.node m = some a

section
variable {kept : α → Prop} {u w : PathTree ν α inner}

theorem Cut.refl (kept : α → Prop) (l : List ν) (t : PathTree ν α inner) : Cut kept l t t where
  left _ := Or.inl rfl
  outside _ _ := rfl
  stays _ _ h _ := h

theorem Cut.trans (h : Cut kept l t u) (h' : Cut kept l u w) : Cut kept l t w where
  left m := by
    rcases h'.left m with heq | hnone
    · rw [heq]
      exact h.left m
    · exact Or.inr hnone
  outside m hm := (h'.outside m hm).trans (h.outside m hm)
  stays m a ha hkept := h'.stays m a (h.stays m a ha hkept) hkept

theorem Cut.up (h : Cut kept m t u) (hle : l <+: m) : Cut kept l t u where
  left := h.left
  outside k hk := h.outside k fun hm => hk (hle.trans hm)
  stays := h.stays

theorem Cut.none (h : Cut kept l t u) (hnone : t.node m = none) : u.node m = none := by
  rcases h.left m with heq | hgone
  · rw [heq, hnone]
  · exact hgone

theorem Cut.some (h : Cut kept l t u) {a : α} (ha : u.node m = some a) : t.node m = some a := by
  rcases h.left m with heq | hgone
  · rw [← heq, ha]
  · rw [hgone] at ha
    cases ha

/-- Taking a node away with all below it, none of which is kept. -/
theorem cut_without (h : ∀ m a, l <+: m → t.node m = some a → ¬ kept a) : Cut kept l t (t.without l) where
  left m := by
    rw [node_without]
    by_cases hle : l <+: m
    · exact Or.inr (if_pos hle)
    · exact Or.inl (if_neg hle)
  outside m hm := by rw [node_without, if_neg hm]
  stays m a ha hkept := by
    rw [node_without, if_neg fun hle => h m a hle ha hkept, ha]

end

end PathTree

end Sylar.Lib
