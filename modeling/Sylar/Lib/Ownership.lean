import Mathlib.Data.List.Basic
import Mathlib.Data.List.Nodup
import Mathlib.Data.List.Perm.Basic
import Mathlib.Logic.Function.Basic

/- Objects on a heap, each with one owner.

   A list of entries says who owns which address and what the owner relies on
   (`Ok p o`: the object `o` meets the demand `p`). `Owned` says that no address has
   two owners, that every owned object is there and meets its owner's demand, and that
   nothing on the heap is without an owner. An object is made (`Owned.new`), written
   (`Owned.write`), passed on (`Owned.pass`) and deleted (`Owned.free`) by its one
   owner; the order of the entries does not matter (`Owned.perm`). -/
namespace Sylar.Lib

section
variable {A O P : Type} {Ok : P → O → Prop}

structure Owned (Ok : P → O → Prop) (heap : A → Option O) (l : List (A × P)) : Prop where
  nodup : (l.map Prod.fst).Nodup
  ok : ∀ a p, (a, p) ∈ l → ∃ o, heap a = some o ∧ Ok p o
  live : ∀ a o, heap a = some o → a ∈ l.map Prod.fst

theorem owned_nil : Owned Ok (fun _ : A => none) [] where
  nodup := List.nodup_nil
  ok a p h := by cases h
  live a o h := by cases h

theorem Owned.perm {heap : A → Option O} {l l' : List (A × P)} (h : Owned Ok heap l) (hp : l.Perm l') :
    Owned Ok heap l' where
  nodup := (hp.map Prod.fst).nodup_iff.mp h.nodup
  ok a p hmem := h.ok a p (hp.mem_iff.mpr hmem)
  live a o ha := (hp.map Prod.fst).mem_iff.mp (h.live a o ha)

/-- The first entry's object. -/
theorem Owned.head {heap : A → Option O} {a : A} {p : P} {l : List (A × P)} (h : Owned Ok heap ((a, p) :: l)) :
    ∃ o, heap a = some o ∧ Ok p o :=
  h.ok a p List.mem_cons_self

variable [DecidableEq A]

omit [DecidableEq A] in
theorem Owned.ne_head {heap : A → Option O} {a b : A} {p q : P} {l : List (A × P)}
    (h : Owned Ok heap ((a, p) :: l)) (hb : (b, q) ∈ l) : b ≠ a := by
  have hnodup := h.nodup
  rw [List.map_cons, List.nodup_cons] at hnodup
  intro hba
  rw [← hba] at hnodup
  exact hnodup.1 (List.mem_map.mpr ⟨(b, q), hb, rfl⟩)

theorem Owned.write {heap : A → Option O} {a : A} {p q : P} {o : O} {l : List (A × P)}
    (h : Owned Ok heap ((a, p) :: l)) (ho : Ok q o) : Owned Ok (Function.update heap a (some o)) ((a, q) :: l) where
  nodup := h.nodup
  ok b r hb := by
    rcases List.mem_cons.mp hb with heq | hb
    · cases heq
      exact ⟨o, Function.update_self a _ heap, ho⟩
    · obtain ⟨o', hheap, ho'⟩ := h.ok b r (List.mem_cons_of_mem _ hb)
      exact ⟨o', by rw [Function.update_of_ne (h.ne_head hb), hheap], ho'⟩
  live b o' hb := by
    by_cases hba : b = a
    · simp [hba]
    · rw [Function.update_of_ne hba] at hb
      exact h.live b o' hb

theorem Owned.pass {heap : A → Option O} {a : A} {p q : P} {l : List (A × P)} (h : Owned Ok heap ((a, p) :: l))
    (hpq : ∀ o, heap a = some o → Ok p o → Ok q o) : Owned Ok heap ((a, q) :: l) := by
  obtain ⟨o, hheap, ho⟩ := h.head
  have hwrite := h.write (hpq o hheap ho)
  rwa [Function.update_eq_self_iff.mpr hheap.symm] at hwrite

theorem Owned.new {heap : A → Option O} {a : A} {q : P} {o : O} {l : List (A × P)} (h : Owned Ok heap l)
    (ha : heap a = none) (ho : Ok q o) : Owned Ok (Function.update heap a (some o)) ((a, q) :: l) := by
  have hfresh : ∀ b r, (b, r) ∈ l → b ≠ a := by
    rintro b r hb rfl
    obtain ⟨o', hheap, -⟩ := h.ok b r hb
    rw [ha] at hheap
    cases hheap
  refine ⟨?_, ?_, ?_⟩
  · rw [List.map_cons, List.nodup_cons]
    refine ⟨?_, h.nodup⟩
    intro hmem
    obtain ⟨⟨b, r⟩, hb, heq⟩ := List.mem_map.mp hmem
    exact hfresh b r hb heq
  · intro b r hb
    rcases List.mem_cons.mp hb with heq | hb
    · cases heq
      exact ⟨o, Function.update_self a _ heap, ho⟩
    · obtain ⟨o', hheap, ho'⟩ := h.ok b r hb
      exact ⟨o', by rw [Function.update_of_ne (hfresh b r hb), hheap], ho'⟩
  · intro b o' hb
    by_cases hba : b = a
    · simp [hba]
    · rw [Function.update_of_ne hba] at hb
      exact List.mem_cons_of_mem _ (h.live b o' hb)

theorem Owned.free {heap : A → Option O} {a : A} {p : P} {l : List (A × P)} (h : Owned Ok heap ((a, p) :: l)) :
    Owned Ok (Function.update heap a none) l where
  nodup := (List.nodup_cons.mp h.nodup).2
  ok b r hb := by
    obtain ⟨o', hheap, ho'⟩ := h.ok b r (List.mem_cons_of_mem _ hb)
    exact ⟨o', by rw [Function.update_of_ne (h.ne_head hb), hheap], ho'⟩
  live b o' hb := by
    by_cases hba : b = a
    · rw [hba, Function.update_self] at hb
      cases hb
    · rw [Function.update_of_ne hba] at hb
      rcases List.mem_cons.mp (h.live b o' hb) with heq | hmem
      · exact absurd heq hba
      · exact hmem

end

end Sylar.Lib
