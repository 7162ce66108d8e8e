import Mathlib.Data.List.Basic
import Mathlib.Data.List.Induction
import Mathlib.Data.List.Nodup

/- What keyed containers hold after a history of writes.

   An event puts a value under a key, removes a key, or (`none`) does neither. An
   index of a history holds the latest write of a key when it puts a value there and
   no later event touches the key (`Latest`). `readMap_iff` says that a map holds
   exactly these values, `ordered_readList` that a list whose writes erase the old
   entry and append the new one holds each key once, in the order of the latest
   writes. -/
namespace Sylar.Lib

/-- One event: the key it touches, and the value it leaves there. -/
abbrev Event (κ β : Type) := Option (κ × Option β)

section
variable {κ β : Type}

/-- Event `i` puts `b` under `k`, and no later one touches `k`. -/
def Latest (h : List (Event κ β)) (i : Nat) (k : κ) (b : β) : Prop :=
  h[i]? = some (some (k, some b)) ∧ ∀ j x, i < j → h[j]? ≠ some (some (k, x))

theorem Latest.lt {h : List (Event κ β)} {i : Nat} {k : κ} {b : β} (hl : Latest h i k b) : i < h.length :=
  (List.getElem?_eq_some_iff.mp hl.1).1

theorem not_latest_nil (i : Nat) (k : κ) (b : β) : ¬ Latest [] i k b := by
  intro hl
  cases hl.1

/-- One more event is the latest write of its key and leaves the other keys as they are. -/
theorem latest_concat (h : List (Event κ β)) (e : Event κ β) (i : Nat) (k : κ) (b : β) :
    Latest (h ++ [e]) i k b ↔
      (i = h.length ∧ e = some (k, some b)) ∨ (Latest h i k b ∧ ∀ x, e ≠ some (k, x)) := by
  constructor
  · intro hl
    have hlt := hl.lt
    rw [List.length_append, List.length_singleton] at hlt
    by_cases hi : i = h.length
    · refine Or.inl ⟨hi, ?_⟩
      have hat := hl.1
      rw [hi, List.getElem?_concat_length] at hat
      exact Option.some.inj hat
    · have hin : i < h.length := by omega
      refine Or.inr ⟨⟨?_, ?_⟩, ?_⟩
      · rw [← hl.1, List.getElem?_append_left hin]
      · intro j x hj heq
        have hjlt := (List.getElem?_eq_some_iff.mp heq).1
        exact hl.2 j x hj (by rw [List.getElem?_append_left hjlt, heq])
      · intro x hx
        exact hl.2 h.length x hin (by rw [List.getElem?_concat_length, hx])
  · rintro (⟨rfl, rfl⟩ | ⟨hl, hother⟩)
    · refine ⟨List.getElem?_concat_length, ?_⟩
      intro j x hj heq
      have hjlt := (List.getElem?_eq_some_iff.mp heq).1
      rw [List.length_append, List.length_singleton] at hjlt
      omega
    · refine ⟨by rw [List.getElem?_append_left hl.lt, hl.1], ?_⟩
      intro j x hj heq
      have hjlt := (List.getElem?_eq_some_iff.mp heq).1
      rw [List.length_append, List.length_singleton] at hjlt
      by_cases hin : j < h.length
      · rw [List.getElem?_append_left hin] at heq
        exact hl.2 j x hj heq
      · have hjlast : j = h.length := by omega
        rw [hjlast, List.getElem?_concat_length] at heq
        exact hother x (Option.some.inj heq)

theorem latest_concat_none (h : List (Event κ β)) (i : Nat) (k : κ) (b : β) :
    Latest (h ++ [none]) i k b ↔ Latest h i k b := by
  rw [latest_concat]
  simp

theorem latest_concat_self (h : List (Event κ β)) (i : Nat) (k : κ) (v : Option β) (b : β) :
    Latest (h ++ [some (k, v)]) i k b ↔ i = h.length ∧ v = some b := by
  rw [latest_concat]
  simp

theorem latest_concat_ne (h : List (Event κ β)) (i : Nat) {k k' : κ} (hne : k' ≠ k) (v : Option β) (b : β) :
    Latest (h ++ [some (k, v)]) i k' b ↔ Latest h i k' b := by
  rw [latest_concat]
  simp [hne.symm]

end

/-! ## Containers -/

section
variable {κ β : Type} [DecidableEq κ]

/-- `m[k] = v` or `m.erase(k)`. -/
def writeMap (m : κ → Option β) : Event κ β → κ → Option β
  | none => m
  | some (k, v) => fun k' => if k' = k then v else m k'

/-- The first entry under `k` erased. -/
def eraseKey (k : κ) (l : List (κ × β)) : List (κ × β) := l.eraseP fun e => decide (e.1 = k)

/-- The old entry erased, the new one appended. -/
def writeList (l : List (κ × β)) : Event κ β → List (κ × β)
  | none => l
  | some (k, none) => eraseKey k l
  | some (k, some b) => eraseKey k l ++ [(k, b)]

/-- The map a history leaves. -/
def readMap (h : List (Event κ β)) : κ → Option β := h.foldl writeMap fun _ => none

/-- The list a history leaves. -/
def readList (h : List (Event κ β)) : List (κ × β) := h.foldl writeList []

theorem readMap_iff (h : List (Event κ β)) (k : κ) (b : β) : readMap h k = some b ↔ ∃ i, Latest h i k b := by
  induction h using List.reverseRecOn with
  | nil => simp [readMap, not_latest_nil]
  | append_singleton h e ih =>
    have hstep : readMap (h ++ [e]) = writeMap (readMap h) e := by simp [readMap]
    rw [hstep]
    match e with
    | none => simpa only [writeMap, latest_concat_none] using ih
    | some (k', v) =>
      by_cases hk : k = k'
      · subst hk
        simp [writeMap, latest_concat_self]
      · simpa [writeMap, latest_concat_ne _ _ hk, hk] using ih

theorem readMap_eq_none_iff (h : List (Event κ β)) (k : κ) :
    readMap h k = none ↔ ¬ ∃ i b, Latest h i k b := by
  cases hm : readMap h k with
  | none =>
    simp only [true_iff]
    intro hlatest
    obtain ⟨i, b, hl⟩ := hlatest
    rw [(readMap_iff h k b).mpr ⟨i, hl⟩] at hm
    cases hm
  | some b =>
    obtain ⟨i, hl⟩ := (readMap_iff h k b).mp hm
    simp only [reduceCtorEq, false_iff, not_not]
    exact ⟨i, b, hl⟩

/-- A list that holds the latest write of each key, once, in the order they were made. -/
structure Ordered (h : List (Event κ β)) (l : List (κ × β)) : Prop where
  nodup : (l.map Prod.fst).Nodup
  mem : ∀ k b, (k, b) ∈ l ↔ ∃ i, Latest h i k b
  order : l.Pairwise fun x y => ∀ i j, Latest h i x.1 x.2 → Latest h j y.1 y.2 → i < j

omit [DecidableEq κ] in
theorem ordered_nil : Ordered ([] : List (Event κ β)) [] :=
  ⟨List.nodup_nil, fun k b => by simp [not_latest_nil], List.Pairwise.nil⟩

/-- Under distinct keys nothing is left under an erased one. -/
theorem mem_eraseKey {l : List (κ × β)} (hnodup : (l.map Prod.fst).Nodup) (k : κ) (x : κ × β) :
    x ∈ eraseKey k l ↔ x ∈ l ∧ x.1 ≠ k := by
  induction l with
  | nil => simp [eraseKey]
  | cons y l ih =>
    simp only [List.map_cons, List.nodup_cons] at hnodup
    by_cases hy : y.1 = k
    · rw [eraseKey, List.eraseP_cons_of_pos (by simpa using hy), List.mem_cons]
      constructor
      · intro hx
        refine ⟨Or.inr hx, fun hxk => hnodup.1 ?_⟩
        rw [hy, ← hxk]
        exact List.mem_map_of_mem hx
      · rintro ⟨rfl | hx, hne⟩
        · exact absurd hy hne
        · exact hx
    · have hrest := ih hnodup.2
      rw [eraseKey] at hrest ⊢
      rw [List.eraseP_cons_of_neg (by simpa using hy), List.mem_cons, List.mem_cons, hrest]
      constructor
      · rintro (rfl | ⟨hx, hne⟩)
        · exact ⟨Or.inl rfl, hy⟩
        · exact ⟨Or.inr hx, hne⟩
      · rintro ⟨rfl | hx, hne⟩
        · exact Or.inl rfl
        · exact Or.inr ⟨hx, hne⟩

theorem eraseKey_nodup {l : List (κ × β)} (hnodup : (l.map Prod.fst).Nodup) (k : κ) :
    ((eraseKey k l).map Prod.fst).Nodup :=
  hnodup.sublist (List.eraseP_sublist.map Prod.fst)

/-- The entries an erased key leaves are still the latest writes of theirs, in order. -/
theorem Ordered.eraseKey_order {h : List (Event κ β)} {l : List (κ × β)} (ho : Ordered h l) (k : κ)
    (v : Option β) :
    (eraseKey k l).Pairwise fun x y => ∀ i j, Latest (h ++ [some (k, v)]) i x.1 x.2 →
      Latest (h ++ [some (k, v)]) j y.1 y.2 → i < j := by
  apply (ho.order.sublist List.eraseP_sublist).imp_of_mem
  intro x y hx hy hxy i j hi hj
  rw [latest_concat_ne _ _ ((mem_eraseKey ho.nodup k x).mp hx).2] at hi
  rw [latest_concat_ne _ _ ((mem_eraseKey ho.nodup k y).mp hy).2] at hj
  exact hxy i j hi hj

theorem Ordered.erase {h : List (Event κ β)} {l : List (κ × β)} (ho : Ordered h l) (k : κ) :
    Ordered (h ++ [some (k, none)]) (eraseKey k l) where
  nodup := eraseKey_nodup ho.nodup k
  mem k' b := by
    rw [mem_eraseKey ho.nodup, ho.mem]
    by_cases hk : k' = k
    · subst hk
      simp [latest_concat_self]
    · simp [latest_concat_ne _ _ hk, hk]
  order := ho.eraseKey_order k none

/-- A write: the entry it replaces is gone, and its own is the youngest. -/
theorem Ordered.append {h : List (Event κ β)} {l : List (κ × β)} (ho : Ordered h l) (k : κ) (b : β) :
    Ordered (h ++ [some (k, some b)]) (eraseKey k l ++ [(k, b)]) where
  nodup := by
    rw [List.map_append, List.map_singleton, List.nodup_append]
    refine ⟨eraseKey_nodup ho.nodup k, List.nodup_singleton _, ?_⟩
    intro k' hk' k'' hk''
    obtain ⟨x, hx, rfl⟩ := List.mem_map.mp hk'
    rw [List.mem_singleton.mp hk'']
    exact ((mem_eraseKey ho.nodup k x).mp hx).2
  mem k' b' := by
    rw [List.mem_append, mem_eraseKey ho.nodup, ho.mem, List.mem_singleton]
    by_cases hk : k' = k
    · subst hk
      simp [latest_concat_self, eq_comm]
    · simp [latest_concat_ne _ _ hk, hk]
  order := by
    rw [List.pairwise_append]
    refine ⟨ho.eraseKey_order k (some b), List.pairwise_singleton _ _, ?_⟩
    intro x hx y hy i j hi hj
    rw [List.mem_singleton.mp hy, latest_concat_self] at hj
    rw [latest_concat_ne _ _ ((mem_eraseKey ho.nodup k x).mp hx).2] at hi
    rw [hj.1]
    exact hi.lt

theorem ordered_readList (h : List (Event κ β)) : Ordered h (readList h) := by
  induction h using List.reverseRecOn with
  | nil => exact ordered_nil
  | append_singleton h e ih =>
    have hstep : readList (h ++ [e]) = writeList (readList h) e := by simp [readList]
    rw [hstep]
    match e with
    | none =>
      refine ⟨ih.nodup, ?_, ?_⟩
      · simpa only [writeList, latest_concat_none] using ih.mem
      · simpa only [writeList, latest_concat_none] using ih.order
    | some (k, none) => exact ih.erase k
    | some (k, some b) => exact ih.append k b

end

end Sylar.Lib
