import Mathlib.Data.List.DropRight

/- Cutting the symbols of a class off the ends of a text.

   `dropWhile` cuts in front and `rdropWhile` behind. A symbol outside the class keeps
   the two apart (`dropWhile_append_cons`, `rdropWhile_append_cons`), so the ends may be
   cut in either order (`rdropWhile_dropWhile_comm`). What stays is the longest suffix that
   starts with no symbol of the class (`longestSuffix_iff`) and the longest prefix that ends
   with none (`longestPrefix_iff`). -/
namespace Sylar.Lib

variable {α : Type} {p : α → Bool} {P : List α → Prop} {s r t : List α}

/-! ## Around a symbol outside the class -/

/-- A text is all of the class, or has a first symbol outside of it. -/
theorem all_or_first_not (p : α → Bool) (s : List α) : (∀ c ∈ s, p c = true) ∨
    ∃ w c t, s = w ++ c :: t ∧ (∀ a ∈ w, p a = true) ∧ p c = false := by
  cases h : s.find? fun c => !p c with
  | none => exact Or.inl (by simpa using h)
  | some c =>
    obtain ⟨hc, w, t, heq, hw⟩ := List.find?_eq_some_iff_append.mp h
    exact Or.inr ⟨w, c, t, heq, by simpa using hw, by simpa using hc⟩

/-- From the other end: a last one. -/
theorem all_or_last_not (p : α → Bool) (s : List α) : (∀ c ∈ s, p c = true) ∨
    ∃ t c w, s = t ++ c :: w ∧ (∀ a ∈ w, p a = true) ∧ p c = false := by
  rcases all_or_first_not p s.reverse with hall | ⟨w, c, t, heq, hw, hc⟩
  · exact Or.inl (by simpa using hall)
  · refine Or.inr ⟨t.reverse, c, w.reverse, ?_, by simpa using hw, hc⟩
    have hrev := congrArg List.reverse heq
    simpa using hrev

theorem findIdx?_append_cons {w : List α} (hw : ∀ a ∈ w, p a = false) {c : α} (hc : p c = true) (t : List α) :
    (w ++ c :: t).findIdx? p = some w.length := by
  have hnone : w.findIdx? p = none := List.findIdx?_eq_none_iff.mpr hw
  simp [List.findIdx?_append, hnone, List.findIdx?_cons, hc]

theorem dropWhile_append_cons (w : List α) {c : α} (hc : p c = false) (t : List α) :
    (w ++ c :: t).dropWhile p = w.dropWhile p ++ c :: t := by
  induction w with
  | nil => simp [hc]
  | cons a w ih =>
    rw [List.cons_append, List.dropWhile_cons, List.dropWhile_cons]
    cases p a with
    | true => simpa using ih
    | false => simp

theorem rdropWhile_append_cons (w : List α) {c : α} (hc : p c = false) (t : List α) :
    (w ++ c :: t).rdropWhile p = w ++ c :: t.rdropWhile p := by
  simp only [List.rdropWhile, List.reverse_append, List.reverse_cons, List.append_assoc, List.singleton_append]
  rw [dropWhile_append_cons _ hc]
  simp

/-- The two ends may be cut in either order. -/
theorem rdropWhile_dropWhile_comm (p : α → Bool) (s : List α) :
    (s.dropWhile p).rdropWhile p = (s.rdropWhile p).dropWhile p := by
  rcases all_or_first_not p s with hall | ⟨w, c, t, rfl, -, hc⟩
  · have hleft : s.dropWhile p = [] := List.dropWhile_eq_nil_iff.mpr hall
    have hright : s.rdropWhile p = [] := List.rdropWhile_eq_nil_iff.mpr hall
    simp [hleft, hright]
  · rw [dropWhile_append_cons _ hc, rdropWhile_append_cons _ hc, rdropWhile_append_cons _ hc,
      dropWhile_append_cons _ hc]

/-- Cutting in front and taking the last symbol away do not disturb each other. -/
theorem dropWhile_dropLast (p : α → Bool) (s : List α) :
    s.dropLast.dropWhile p = (s.dropWhile p).dropLast := by
  induction s with
  | nil => rfl
  | cons c s ih =>
    cases s with
    | nil => cases hc : p c <;> simp [hc]
    | cons d s =>
      rw [List.dropLast_cons_of_ne_nil (List.cons_ne_nil d s), List.dropWhile_cons, List.dropWhile_cons (x := c)]
      cases p c with
      | true => simpa using ih
      | false => simp

/-- Only an empty text has no last symbol to take away. -/
theorem dropLast_eq_self_iff : s.dropLast = s ↔ s = [] := by
  constructor
  · intro h
    have hlen := congrArg List.length h
    rw [List.length_dropLast] at hlen
    exact List.length_eq_zero_iff.mp (by omega)
  · rintro rfl
    exact List.dropLast_nil

/-! ## The longest part with a property -/

/-- Of the suffixes of `s` with the property, the longest. -/
structure LongestSuffix (P : List α → Prop) (s r : List α) : Prop where
  suffix : r <:+ s
  holds : P r
  longest : ∀ t, t <:+ s → P t → t.length ≤ r.length

/-- Of the prefixes of `s` with the property, the longest. -/
structure LongestPrefix (P : List α → Prop) (s r : List α) : Prop where
  front : r <+: s
  holds : P r
  longest : ∀ t, t <+: s → P t → t.length ≤ r.length

theorem LongestSuffix.unique (hr : LongestSuffix P s r) (ht : LongestSuffix P s t) : r = t := by
  have hle : t.length ≤ r.length := hr.longest t ht.suffix ht.holds
  have hge : r.length ≤ t.length := ht.longest r hr.suffix hr.holds
  have hsuffix : r <:+ t := List.suffix_of_suffix_length_le hr.suffix ht.suffix hge
  exact hsuffix.eq_of_length_le hle

theorem LongestPrefix.unique (hr : LongestPrefix P s r) (ht : LongestPrefix P s t) : r = t := by
  have hle : t.length ≤ r.length := hr.longest t ht.front ht.holds
  have hge : r.length ≤ t.length := ht.longest r hr.front hr.holds
  have hprefix : r <+: t := List.prefix_of_prefix_length_le hr.front ht.front hge
  exact hprefix.eq_of_length_le hle

/-- Read backwards, a longest suffix is a longest prefix. -/
theorem LongestSuffix.reverse (h : LongestSuffix P s r) :
    LongestPrefix (fun t => P t.reverse) s.reverse r.reverse where
  front := List.reverse_prefix.mpr h.suffix
  holds := by simpa using h.holds
  longest t ht hP := by
    have hsuffix : t.reverse <:+ s := by
      rw [← List.reverse_prefix, List.reverse_reverse]
      exact ht
    simpa using h.longest t.reverse hsuffix hP

/-! ## What is left at an end -/

/-- Does not start with a symbol of the class. -/
def StartsNot (p : α → Bool) (s : List α) : Prop := ∀ c ∈ s.head?, p c = false

/-- Does not end with a symbol of the class. -/
def EndsNot (p : α → Bool) (s : List α) : Prop := ∀ c ∈ s.getLast?, p c = false

theorem startsNot_dropWhile (p : α → Bool) (s : List α) : StartsNot p (s.dropWhile p) := by
  intro c hc
  have hhead := List.head?_dropWhile_not p s
  rw [Option.mem_def.mp hc] at hhead
  simpa using hhead

/-- A suffix that reaches further starts with one of the symbols that were cut. -/
theorem dropWhile_longest (p : α → Bool) (s : List α) : LongestSuffix (StartsNot p) s (s.dropWhile p) where
  suffix := List.dropWhile_suffix p
  holds := startsNot_dropWhile p s
  longest t ht hstart := by
    induction s with
    | nil => simp [List.suffix_nil.mp ht]
    | cons c s ih =>
      cases hc : p c with
      | false =>
        rw [List.dropWhile_cons_of_neg (by simp [hc])]
        exact ht.length_le
      | true =>
        rw [List.dropWhile_cons_of_pos hc]
        rcases List.suffix_cons_iff.mp ht with rfl | hs
        · have hout : p c = false := hstart c rfl
          rw [hout] at hc
          cases hc
        · exact ih hs

theorem rdropWhile_longest (p : α → Bool) (s : List α) : LongestPrefix (EndsNot p) s (s.rdropWhile p) := by
  have h := (dropWhile_longest p s.reverse).reverse
  rw [List.reverse_reverse] at h
  have hends : (fun t => StartsNot p t.reverse) = EndsNot p := by
    funext t
    rw [StartsNot, EndsNot, List.head?_reverse]
  rw [hends] at h
  exact h

/-- Cutting in front is known by what it leaves. -/
theorem longestSuffix_iff : LongestSuffix (StartsNot p) s r ↔ r = s.dropWhile p := by
  constructor
  · intro h
    exact h.unique (dropWhile_longest p s)
  · rintro rfl
    exact dropWhile_longest p s

theorem longestPrefix_iff : LongestPrefix (EndsNot p) s r ↔ r = s.rdropWhile p := by
  constructor
  · intro h
    exact h.unique (rdropWhile_longest p s)
  · rintro rfl
    exact rdropWhile_longest p s

end Sylar.Lib
