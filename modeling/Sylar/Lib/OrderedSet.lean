import Mathlib.Data.List.Basic

/- A set kept in order by a comparison, as a list in that order.

   The comparison is a parameter of each operation, as it is of an ordered set in a
   program; an element is present when neither it nor the one found is less. A
   position in the set is its index. When the comparison is a strict total order
   (`Strict`) the operations keep the list in order (`Sorted`), `insert` adds exactly
   its element and `find` finds exactly the elements there are. -/
namespace Sylar.Lib.OrderedSet

section
variable {α : Type} (less : α → α → Bool)

/-- Puts `x` before the first element it is less than, unless an equivalent one is there. -/
def insert (x : α) : List α → List α
  | [] => [x]
  | y :: rest =>
    if less x y then x :: y :: rest
    else if less y x then y :: insert x rest
    else y :: rest

/-- The position of the first element that is not less than `x`. -/
def lowerBound (x : α) (l : List α) : Nat := (l.takeWhile fun y => less y x).length

/-- The position of the element equivalent to `x`. -/
def find (x : α) (l : List α) : Option Nat :=
  match l[lowerBound less x l]? with
  | some y => if less x y then none else some (lowerBound less x l)
  | none => none

/-- The comparison is a strict total order. -/
structure Strict : Prop where
  irrefl : ∀ a, less a a = false
  trans : ∀ a b c, less a b = true → less b c = true → less a c = true
  total : ∀ a b, less a b = false → less b a = false → a = b

/-- In order, and so without repetition. -/
def Sorted (l : List α) : Prop := l.Pairwise fun a b => less a b = true

end

section
variable {α : Type} {less : α → α → Bool}

theorem mem_insert (hless : Strict less) (x : α) : ∀ (l : List α) (a : α),
    a ∈ insert less x l ↔ a = x ∨ a ∈ l := by
  intro l
  induction l with
  | nil => intro a; simp [insert]
  | cons y rest ih =>
    intro a
    unfold insert
    split
    · simp
    · rename_i hxy
      split
      · rw [List.mem_cons, ih, List.mem_cons]
        exact or_left_comm
      · rename_i hyx
        have heq : x = y := hless.total x y (by simpa using hxy) (by simpa using hyx)
        subst heq
        constructor
        · exact Or.inr
        · rintro (rfl | h)
          · exact List.mem_cons_self
          · exact h

theorem sorted_insert (hless : Strict less) (x : α) : ∀ l : List α, Sorted less l →
    Sorted less (insert less x l) := by
  intro l
  induction l with
  | nil => intro _; exact List.pairwise_singleton _ _
  | cons y rest ih =>
    intro hs
    obtain ⟨hy, hrest⟩ := List.pairwise_cons.mp hs
    unfold insert
    split
    · rename_i hxy
      refine List.pairwise_cons.mpr ⟨?_, hs⟩
      intro a ha
      rcases List.mem_cons.mp ha with rfl | ha
      · exact hxy
      · exact hless.trans x y a hxy (hy a ha)
    · split
      · rename_i hyx
        refine List.pairwise_cons.mpr ⟨?_, ih hrest⟩
        intro a ha
        rcases (mem_insert hless x rest a).mp ha with rfl | ha
        · exact hyx
        · exact hy a ha
      · exact hs

theorem sorted_of_sublist {l l' : List α} (hs : Sorted less l) (hsub : l'.Sublist l) : Sorted less l' :=
  hs.sublist hsub

/-- The first element is the least. -/
theorem head_le (hs : Sorted less l) {a b : α} (ha : l.head? = some a) (hb : b ∈ l) :
    b = a ∨ less a b = true := by
  cases l with
  | nil => cases hb
  | cons y rest =>
    cases ha
    rcases List.mem_cons.mp hb with rfl | hb
    · exact Or.inl rfl
    · exact Or.inr ((List.pairwise_cons.mp hs).1 b hb)

/-- What is there is found. -/
theorem find_of_mem (hless : Strict less) (x : α) : ∀ l : List α, Sorted less l → x ∈ l →
    ∃ i, find less x l = some i ∧ l[i]? = some x := by
  intro l
  induction l with
  | nil => intro _ hx; cases hx
  | cons y rest ih =>
    intro hs hx
    obtain ⟨hy, hrest⟩ := List.pairwise_cons.mp hs
    rcases List.mem_cons.mp hx with rfl | hx
    · refine ⟨0, ?_, rfl⟩
      have hlb : lowerBound less x (x :: rest) = 0 := by
        unfold lowerBound
        rw [List.takeWhile_cons_of_neg (by rw [hless.irrefl]; decide)]
        rfl
      unfold find
      rw [hlb]
      show (if less x x then none else some 0) = _
      rw [hless.irrefl]
      rfl
    · obtain ⟨i, hi, hget⟩ := ih hrest hx
      refine ⟨i + 1, ?_, hget⟩
      have hlb : lowerBound less x (y :: rest) = lowerBound less x rest + 1 := by
        unfold lowerBound
        rw [List.takeWhile_cons_of_pos (p := fun y => less y x) (hy x hx)]
        rfl
      unfold find at hi ⊢
      rw [hlb, List.getElem?_cons_succ]
      cases hlow : rest[lowerBound less x rest]? with
      | none => rw [hlow] at hi; cases hi
      | some z =>
        rw [hlow] at hi
        dsimp only at hi ⊢
        split at hi
        · cases hi
        · rename_i hno
          rw [if_neg hno]
          cases hi
          rfl

/-- The element at the lower bound is the first that is not less. -/
theorem not_less_at_lowerBound (x y : α) : ∀ l : List α, l[lowerBound less x l]? = some y →
    less y x = false := by
  intro l
  induction l with
  | nil => intro h; simp at h
  | cons z rest ih =>
    intro h
    unfold lowerBound at h ih
    cases hz : less z x with
    | false =>
      simp only [List.takeWhile_cons, hz, Bool.false_eq_true, if_false, List.length_nil,
        List.getElem?_cons_zero, Option.some.injEq] at h
      rw [← h]
      exact hz
    | true =>
      simp only [List.takeWhile_cons, hz, if_true, List.length_cons, List.getElem?_cons_succ] at h
      exact ih h

/-- What is found is there. -/
theorem getElem?_of_find (hless : Strict less) {x : α} {l : List α} {i : Nat}
    (h : find less x l = some i) : l[i]? = some x := by
  unfold find at h
  split at h
  · rename_i y hy
    split at h
    · cases h
    · rename_i hxy
      have hyx := not_less_at_lowerBound x y l hy
      have heq : x = y := hless.total x y (by simpa using hxy) hyx
      cases h
      rw [hy, heq]
  · cases h

/-- Nothing is found exactly when it is not there. -/
theorem find_eq_none_iff (hless : Strict less) {x : α} {l : List α} (hs : Sorted less l) :
    find less x l = none ↔ x ∉ l := by
  constructor
  · intro h hx
    obtain ⟨i, hi, -⟩ := find_of_mem hless x l hs hx
    rw [h] at hi
    cases hi
  · intro hx
    cases hfind : find less x l with
    | none => rfl
    | some i => exact absurd (List.mem_of_getElem? (getElem?_of_find hless hfind)) hx

theorem nodup_of_irrefl (hirrefl : ∀ a, less a a = false) {l : List α} (hs : Sorted less l) : l.Nodup := by
  apply List.Pairwise.imp _ hs
  intro a b hab heq
  rw [heq, hirrefl] at hab
  cases hab

theorem nodup_of_sorted (hless : Strict less) {l : List α} (hs : Sorted less l) : l.Nodup :=
  nodup_of_irrefl hless.irrefl hs

/-- Erasing what was found takes out that element and no other. -/
theorem mem_erase_found (hless : Strict less) {x : α} {l : List α} {i : Nat} (hs : Sorted less l)
    (h : find less x l = some i) (b : α) : b ∈ l.eraseIdx i ↔ b ∈ l ∧ b ≠ x := by
  have hx := getElem?_of_find hless h
  have hnodup := nodup_of_sorted hless hs
  rw [List.mem_eraseIdx_iff_getElem?]
  constructor
  · rintro ⟨j, hji, hj⟩
    refine ⟨List.mem_of_getElem? hj, ?_⟩
    intro hbx
    subst hbx
    obtain ⟨hlt, -⟩ := List.getElem?_eq_some_iff.mp hj
    exact hji ((List.getElem?_inj hlt hnodup).mp (hj.trans hx.symm))
  · rintro ⟨hb, hbx⟩
    obtain ⟨j, hj⟩ := List.mem_iff_getElem?.mp hb
    refine ⟨j, ?_, hj⟩
    intro hji
    subst hji
    rw [hj] at hx
    exact hbx (Option.some.inj hx)

/-- A set in order is given by its elements, also where the comparison does not tell all of them
apart. -/
theorem sorted_ext (hirrefl : ∀ a, less a a = false)
    (htrans : ∀ a b c, less a b = true → less b c = true → less a c = true) {l l' : List α}
    (hs : Sorted less l) (hs' : Sorted less l') (h : ∀ b, b ∈ l ↔ b ∈ l') : l = l' := by
  have hperm : l.Perm l' := (List.perm_ext_iff_of_nodup (nodup_of_irrefl hirrefl hs)
    (nodup_of_irrefl hirrefl hs')).mpr h
  apply hperm.eq_of_pairwise _ hs hs'
  intro a b _ _ hab hba
  have haa := htrans a b a hab hba
  rw [hirrefl] at haa
  cases haa

theorem eq_of_mem_iff (hless : Strict less) {l l' : List α} (hs : Sorted less l) (hs' : Sorted less l')
    (h : ∀ b, b ∈ l ↔ b ∈ l') : l = l' := sorted_ext hless.irrefl hless.trans hs hs' h

/-- Erasing what was found and inserting it again gives the set back. -/
theorem insert_erase_found (hless : Strict less) {x : α} {l : List α} {i : Nat} (hs : Sorted less l)
    (h : find less x l = some i) : insert less x (l.eraseIdx i) = l := by
  have hx := List.mem_of_getElem? (getElem?_of_find hless h)
  apply eq_of_mem_iff hless (sorted_insert hless x _ (sorted_of_sublist hs (List.eraseIdx_sublist _ _))) hs
  intro b
  rw [mem_insert hless, mem_erase_found hless hs h]
  by_cases hbx : b = x
  · simp [hbx, hx]
  · simp [hbx]

/-- The elements with `p` in a row from the start: those up to which every element has `p`. -/
theorem mem_takeWhile (hless : Strict less) {p : α → Bool} {a : α} : ∀ l : List α, Sorted less l →
    (a ∈ l.takeWhile p ↔ a ∈ l ∧ ∀ b ∈ l, less a b = false → p b = true) := by
  intro l
  induction l with
  | nil => intro _; simp
  | cons y rest ih =>
    intro hs
    obtain ⟨hy, hrest⟩ := List.pairwise_cons.mp hs
    -- no element is less than the first one
    have hfirst : ∀ b ∈ y :: rest, less b y = false := by
      intro b hb
      rcases List.mem_cons.mp hb with rfl | hb
      · exact hless.irrefl b
      · cases hby : less b y with
        | false => rfl
        | true =>
          have hyy := hless.trans y b y (hy b hb) hby
          rw [hless.irrefl] at hyy
          cases hyy
    cases hpy : p y with
    | false =>
      rw [List.takeWhile_cons_of_neg (by simp [hpy])]
      constructor
      · intro ha
        cases ha
      · intro h
        have hp := h.2 y List.mem_cons_self (hfirst a h.1)
        rw [hpy] at hp
        cases hp
    | true =>
      rw [List.takeWhile_cons_of_pos hpy, List.mem_cons, List.mem_cons, ih hrest]
      constructor
      · intro h
        rcases h with rfl | ⟨ha, hall⟩
        · refine ⟨Or.inl rfl, ?_⟩
          intro b hb hle
          rcases List.mem_cons.mp hb with rfl | hb
          · exact hpy
          · rw [hy b hb] at hle
            cases hle
        · refine ⟨Or.inr ha, ?_⟩
          intro b hb hle
          rcases List.mem_cons.mp hb with rfl | hb
          · exact hpy
          · exact hall b hb hle
      · intro h
        rcases h with ⟨rfl | ha, hall⟩
        · exact Or.inl rfl
        · exact Or.inr ⟨ha, fun b hb hle => hall b (List.mem_cons_of_mem y hb) hle⟩

/-- Before the lower bound of `x` are the elements less than `x`. -/
theorem mem_take_lowerBound (hless : Strict less) {x a : α} {l : List α} (hs : Sorted less l) :
    a ∈ l.take (lowerBound less x l) ↔ a ∈ l ∧ less a x = true := by
  have htake : l.take (lowerBound less x l) = l.takeWhile fun y => less y x :=
    (List.prefix_iff_eq_take.mp (List.takeWhile_prefix _)).symm
  rw [htake, mem_takeWhile hless l hs]
  constructor
  · intro h
    exact ⟨h.1, h.2 a h.1 (hless.irrefl a)⟩
  · intro h
    refine ⟨h.1, ?_⟩
    intro b _ hle
    cases hba : less b a with
    | true => exact hless.trans b a x hba h.2
    | false =>
      rw [hless.total b a hba hle]
      exact h.2

/-- From the lower bound of `x` on are the others. -/
theorem mem_drop_lowerBound (hless : Strict less) {x a : α} {l : List α} (hs : Sorted less l) :
    a ∈ l.drop (lowerBound less x l) ↔ a ∈ l ∧ less a x = false := by
  have hnodup := nodup_of_sorted hless hs
  rw [← List.take_append_drop (lowerBound less x l) l] at hnodup
  have hdisj := (List.nodup_append.mp hnodup).2.2
  have hmem : a ∈ l ↔ a ∈ l.take (lowerBound less x l) ∨ a ∈ l.drop (lowerBound less x l) := by
    rw [← List.mem_append, List.take_append_drop]
  constructor
  · intro ha
    refine ⟨List.mem_of_mem_drop ha, ?_⟩
    cases hax : less a x with
    | false => rfl
    | true =>
      have hbefore := (mem_take_lowerBound hless hs).mpr ⟨List.mem_of_mem_drop ha, hax⟩
      exact absurd rfl (hdisj a hbefore a ha)
  · intro h
    rcases hmem.mp h.1 with hbefore | hafter
    · rw [((mem_take_lowerBound hless hs).mp hbefore).2] at h
      cases h.2
    · exact hafter

end

end Sylar.Lib.OrderedSet
