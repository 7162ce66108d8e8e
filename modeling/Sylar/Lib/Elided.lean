import Mathlib.Data.List.Basic
import Mathlib.Data.List.Chain
import Mathlib.Data.List.TakeWhile
import Sylar.Lib.Splitter

/- Texts of entries joined by a mark, with one run of entries left out.

   A list of known length may be written without one run of its default entry, where two
   marks in a row take its place (`elided`). Reading puts back as many of them as are
   missing (`readElided_elided`), so that no two lists of one length are written alike; and
   the two marks stand in the text at most once (`occurrences_elided_le`). What is asked of
   the entries is that their own texts are not empty, have no mark and read back. -/
namespace Sylar.Lib

variable {α β : Type}

/-! ## Two marks in a row -/

/-- At how many places of `s` the word begins. -/
def occurrences [DecidableEq α] (word s : List α) : Nat := s.tails.countP word.isPrefixOf

/-- No two marks stand in a row. -/
def NoDouble (mark : α) (s : List α) : Prop := s.IsChain fun c d => ¬ (c = mark ∧ d = mark)

/-- The parts before and after the first two marks in a row. -/
def cutDouble [DecidableEq α] (mark : α) : List α → Option (List α × List α)
  | c :: d :: rest =>
    if c = mark ∧ d = mark then some ([], rest)
    else (cutDouble mark (d :: rest)).map fun kv => (c :: kv.1, kv.2)
  | _ => none

theorem NoDouble.append {mark : α} {l r : List α} (hl : NoDouble mark l) (hr : NoDouble mark r)
    (h : l.getLast? ≠ some mark ∨ r.head? ≠ some mark) : NoDouble mark (l ++ r) := by
  apply List.isChain_append.mpr
  refine ⟨hl, hr, ?_⟩
  rintro c hc d hd ⟨rfl, rfl⟩
  rcases h with h | h
  · exact h hc
  · exact h hd

theorem noDouble_of_not_mem {mark : α} {s : List α} (h : mark ∉ s) : NoDouble mark s := by
  apply List.Pairwise.isChain
  apply List.pairwise_of_forall_mem_list
  intro c hc d _ hcd
  exact h (hcd.1 ▸ hc)

section
variable [DecidableEq α] {mark : α}

theorem occurrences_double_cons_cons (c d : α) (s : List α) :
    occurrences [mark, mark] (c :: d :: s) =
      occurrences [mark, mark] (d :: s) + if c = mark ∧ d = mark then 1 else 0 := by
  have hprefix : [mark, mark].isPrefixOf (c :: d :: s) = decide (c = mark ∧ d = mark) := by
    rw [Bool.eq_iff_iff, List.isPrefixOf_iff_prefix, decide_eq_true_eq, List.cons_prefix_cons, List.cons_prefix_cons,
      eq_comm, eq_comm (a := mark) (b := d)]
    simp
  rw [occurrences, List.tails, List.countP_cons, hprefix]
  simp only [decide_eq_true_eq]
  rfl

theorem occurrences_of_noDouble {s : List α} (h : NoDouble mark s) : occurrences [mark, mark] s = 0 := by
  induction s with
  | nil => rfl
  | cons c s ih =>
    cases s with
    | nil => simp [occurrences, List.isPrefixOf]
    | cons d s =>
      obtain ⟨hcd, hrest⟩ := List.isChain_cons_cons.mp h
      rw [occurrences_double_cons_cons, ih hrest, if_neg hcd]

/-- In front of a mark only its own side counts. -/
theorem occurrences_append_mark {l : List α} (h : NoDouble mark (l ++ [mark])) (r : List α) :
    occurrences [mark, mark] (l ++ mark :: r) = occurrences [mark, mark] (mark :: r) := by
  induction l with
  | nil => rfl
  | cons c l ih =>
    cases l with
    | nil =>
      obtain ⟨hc, -⟩ := List.isChain_cons_cons.mp h
      rw [List.cons_append, List.nil_append, occurrences_double_cons_cons, if_neg hc, Nat.add_zero]
    | cons d l =>
      obtain ⟨hcd, hrest⟩ := List.isChain_cons_cons.mp h
      rw [List.cons_append, List.cons_append, occurrences_double_cons_cons, if_neg hcd]
      exact ih hrest

theorem occurrences_two_marks {l r : List α} (hl : NoDouble mark (l ++ [mark])) (hr : NoDouble mark (mark :: r)) :
    occurrences [mark, mark] (l ++ mark :: mark :: r) = 1 := by
  rw [occurrences_append_mark hl, occurrences_double_cons_cons, occurrences_of_noDouble hr, if_pos ⟨rfl, rfl⟩]

theorem cutDouble_of_noDouble {s : List α} (h : NoDouble mark s) : cutDouble mark s = none := by
  induction s with
  | nil => rfl
  | cons c s ih =>
    cases s with
    | nil => rfl
    | cons d s =>
      obtain ⟨hcd, hrest⟩ := List.isChain_cons_cons.mp h
      rw [cutDouble, if_neg hcd, ih hrest]
      rfl

theorem cutDouble_append {l : List α} (h : NoDouble mark (l ++ [mark])) (r : List α) :
    cutDouble mark (l ++ mark :: mark :: r) = some (l, r) := by
  induction l with
  | nil => rw [List.nil_append, cutDouble, if_pos ⟨rfl, rfl⟩]
  | cons c l ih =>
    cases l with
    | nil =>
      obtain ⟨hc, -⟩ := List.isChain_cons_cons.mp h
      rw [List.cons_append, List.nil_append, cutDouble, if_neg hc, cutDouble, if_pos ⟨rfl, rfl⟩]
      rfl
    | cons d l =>
      obtain ⟨hcd, hrest⟩ := List.isChain_cons_cons.mp h
      have hcut : cutDouble mark (d :: (l ++ mark :: mark :: r)) = some (d :: l, r) := ih hrest
      rw [List.cons_append, List.cons_append, cutDouble, if_neg hcd, hcut]
      rfl

end

/-! ## Writing and reading -/

/-- The texts of the entries with a mark between any two. -/
def joined (mark : α) (enc : β → List α) (xs : List β) : List α := [mark].intercalate (xs.map enc)

theorem joined_cons_cons (mark : α) (enc : β → List α) (x y : β) (ys : List β) :
    joined mark enc (x :: y :: ys) = enc x ++ mark :: joined mark enc (y :: ys) := by
  simp [joined]

theorem joined_cons (mark : α) (enc : β → List α) (x : β) (xs : List β) :
    joined mark enc (x :: xs) = enc x ++ xs.flatMap fun y => mark :: enc y := by
  induction xs generalizing x with
  | nil => simp [joined]
  | cons y ys ih =>
    rw [joined_cons_cons, ih, List.flatMap_cons, List.cons_append]

/-- Without the first run of `zero`, which two marks stand for. -/
def elided [DecidableEq β] (mark : α) (enc : β → List α) (zero : β) (xs : List β) : List α :=
  if zero ∈ xs then
    joined mark enc (xs.takeWhile (· ≠ zero)) ++ mark :: mark ::
      joined mark enc ((xs.dropWhile (· ≠ zero)).dropWhile (· = zero))
  else joined mark enc xs

def readJoined [DecidableEq α] (mark : α) (dec : List α → Option β) (s : List α) : Option (List β) :=
  if s = [] then some [] else (s.splitOn mark).mapM dec

/-- Two marks stand for as many `zero`s, one at least, as make the list `n` long. -/
def readElided [DecidableEq α] (mark : α) (dec : List α → Option β) (zero : β) (n : Nat) (s : List α) : Option (List β) :=
  match cutDouble mark s with
  | none => (readJoined mark dec s).filter fun xs => xs.length = n
  | some (l, r) =>
    (readJoined mark dec l).bind fun xs =>
      (readJoined mark dec r).bind fun ys =>
        if xs.length + ys.length < n then
          some (xs ++ List.replicate (n - xs.length - ys.length) zero ++ ys)
        else none

/-- A list is what stands before its first run of `zero`, the run, and the rest. -/
theorem exists_first_run [DecidableEq β] {zero : β} {xs : List β} (hzero : zero ∈ xs) :
    ∃ k, 0 < k ∧ xs = xs.takeWhile (· ≠ zero) ++ List.replicate k zero ++
      (xs.dropWhile (· ≠ zero)).dropWhile (· = zero) := by
  obtain ⟨pre, post, rfl, hpre⟩ := List.eq_append_cons_of_mem hzero
  rw [takeWhile_mark hpre, dropWhile_mark hpre]
  refine ⟨((zero :: post).takeWhile (· = zero)).length, ?_, ?_⟩
  · simp
  · have hrun : (zero :: post).takeWhile (· = zero) =
        List.replicate ((zero :: post).takeWhile (· = zero)).length zero := by
      apply List.eq_replicate_of_mem
      intro x hx
      simpa using List.mem_takeWhile_imp hx
    rw [← hrun, List.append_assoc, List.takeWhile_append_dropWhile]

/-- The texts of single entries can be told from one another and from the mark. -/
structure Entries (mark : α) (enc : β → List α) (dec : List α → Option β) : Prop where
  ne_nil : ∀ x, enc x ≠ []
  not_mem : ∀ x, mark ∉ enc x
  dec_enc : ∀ x, dec (enc x) = some x

section
variable {mark : α} {enc : β → List α} {dec : List α → Option β} (h : Entries mark enc dec)
include h

theorem Entries.joined_ne_nil {xs : List β} (hxs : xs ≠ []) : joined mark enc xs ≠ [] := by
  cases xs with
  | nil => exact absurd rfl hxs
  | cons x xs =>
    intro hnil
    have hx := h.ne_nil x
    cases xs <;> simp_all [joined]

theorem Entries.head?_joined (xs : List β) : (joined mark enc xs).head? ≠ some mark := by
  intro hhead
  cases xs with
  | nil => cases hhead
  | cons x xs =>
    obtain ⟨c, s, hc⟩ := List.exists_cons_of_ne_nil (h.ne_nil x)
    have hmark := h.not_mem x
    cases xs <;> simp_all [joined]

theorem Entries.getLast?_joined (xs : List β) : (joined mark enc xs).getLast? ≠ some mark := by
  induction xs with
  | nil =>
    intro hlast
    cases hlast
  | cons x xs ih =>
    cases xs with
    | nil =>
      intro hlast
      apply h.not_mem x
      apply List.mem_of_getLast?
      simpa [joined] using hlast
    | cons y ys =>
      have hne := h.joined_ne_nil (List.cons_ne_nil y ys)
      rw [joined_cons_cons, List.append_cons, List.getLast?_append_of_ne_nil _ hne]
      exact ih

theorem Entries.noDouble_joined (xs : List β) : NoDouble mark (joined mark enc xs) := by
  induction xs with
  | nil => exact List.isChain_nil
  | cons x xs ih =>
    cases xs with
    | nil => simpa [joined] using noDouble_of_not_mem (h.not_mem x)
    | cons y ys =>
      rw [joined_cons_cons]
      apply List.isChain_append.mpr
      refine ⟨noDouble_of_not_mem (h.not_mem x), List.isChain_cons.mpr ⟨?_, ih⟩, ?_⟩
      · rintro d hd ⟨-, rfl⟩
        exact h.head?_joined _ hd
      · rintro c hc d _ ⟨rfl, -⟩
        exact h.not_mem x (List.mem_of_getLast? hc)

theorem Entries.readJoined_joined [DecidableEq α] (xs : List β) : readJoined mark dec (joined mark enc xs) = some xs := by
  by_cases hxs : xs = []
  · subst hxs
    rfl
  · have hmarks : ∀ l ∈ xs.map enc, mark ∉ l := by
      intro l hl
      obtain ⟨x, -, rfl⟩ := List.mem_map.mp hl
      exact h.not_mem x
    have hdec : (xs.map enc).map dec = xs.map some := by
      rw [List.map_map]
      apply List.map_congr_left
      intro x _
      exact h.dec_enc x
    rw [readJoined, if_neg (h.joined_ne_nil hxs), joined, List.splitOn_intercalate mark hmarks (by simpa using hxs),
      mapM_eq_some_iff, hdec]

/-- Up to the first of the two marks. -/
theorem Entries.noDouble_before (xs : List β) {left : List α} (hleft : NoDouble mark left)
    (hlast : left.getLast? ≠ some mark) : NoDouble mark (left ++ joined mark enc xs ++ [mark]) := by
  apply NoDouble.append (hleft.append (h.noDouble_joined xs) (Or.inl hlast)) (List.isChain_singleton _)
  left
  by_cases hxs : xs = []
  · subst hxs
    simpa [joined] using hlast
  · rw [List.getLast?_append_of_ne_nil _ (h.joined_ne_nil hxs)]
    exact h.getLast?_joined xs

/-- From the second of the two marks on. -/
theorem Entries.noDouble_after (xs : List β) {right : List α} (hright : NoDouble mark right)
    (hhead : right.head? ≠ some mark) : NoDouble mark (mark :: (joined mark enc xs ++ right)) := by
  apply NoDouble.append (l := [mark]) (List.isChain_singleton _)
    ((h.noDouble_joined xs).append hright (Or.inr hhead))
  right
  by_cases hxs : xs = []
  · subst hxs
    simpa [joined] using hhead
  · rw [List.head?_append_of_ne_nil _ (h.joined_ne_nil hxs)]
    exact h.head?_joined xs

variable [DecidableEq α] [DecidableEq β]

/-- The two marks are in the text once at most, whatever stands around it. -/
theorem Entries.occurrences_elided_le (zero : β) (xs : List β) {left right : List α} (hleft : NoDouble mark left)
    (hlast : left.getLast? ≠ some mark) (hright : NoDouble mark right) (hhead : right.head? ≠ some mark) :
    occurrences [mark, mark] (left ++ elided mark enc zero xs ++ right) ≤ 1 := by
  unfold elided
  by_cases hzero : zero ∈ xs
  · rw [if_pos hzero]
    have htwo := occurrences_two_marks (h.noDouble_before (xs.takeWhile (· ≠ zero)) hleft hlast)
      (h.noDouble_after ((xs.dropWhile (· ≠ zero)).dropWhile (· = zero)) hright hhead)
    simpa using htwo.le
  · rw [if_neg hzero]
    have hnone := (hleft.append (h.noDouble_joined xs) (Or.inl hlast)).append hright (Or.inr hhead)
    rw [occurrences_of_noDouble hnone]
    exact Nat.zero_le 1

/-- **Reading back**: the run that is left out comes back. -/
theorem Entries.readElided_elided (zero : β) (xs : List β) :
    readElided mark dec zero xs.length (elided mark enc zero xs) = some xs := by
  unfold elided readElided
  by_cases hzero : zero ∈ xs
  · obtain ⟨k, hk, hxs⟩ := exists_first_run hzero
    have hbefore : NoDouble mark (joined mark enc (xs.takeWhile (· ≠ zero)) ++ [mark]) :=
      h.noDouble_before (xs.takeWhile (· ≠ zero)) List.isChain_nil (Option.some_ne_none mark).symm
    rw [if_pos hzero, cutDouble_append hbefore]
    generalize xs.takeWhile (· ≠ zero) = pre at hxs
    generalize (xs.dropWhile (· ≠ zero)).dropWhile (· = zero) = post at hxs
    subst hxs
    simp only [h.readJoined_joined, Option.bind_some, List.length_append, List.length_replicate]
    rw [if_pos (by omega), show pre.length + k + post.length - pre.length - post.length = k by omega]
  · rw [if_neg hzero, cutDouble_of_noDouble (h.noDouble_joined xs)]
    simp [h.readJoined_joined]

end

end Sylar.Lib
