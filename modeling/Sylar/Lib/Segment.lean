import Mathlib.Data.List.Basic

/- Segments of a list: `slice xs p n` reads `n` elements from offset `p`,
   `splice xs p ys` overwrites the elements from offset `p` on with `ys`.

   The two laws the buffers rest on are `slice_splice_same` (what was written
   is read back) and `splice_splice_next` (two adjacent writes are one write of
   the concatenation); the rest says how both act on an appended list, which is
   what a walk over a chain of blocks needs. -/
namespace Sylar.Lib

variable {α : Type}

/-- `n` elements of `xs` from offset `p`. -/
def slice (xs : List α) (p n : Nat) : List α := (xs.drop p).take n

/-- `xs` with the elements from offset `p` on replaced by `ys`. -/
def splice (xs : List α) (p : Nat) (ys : List α) : List α :=
  xs.take p ++ ys ++ xs.drop (p + ys.length)

theorem slice_length {xs : List α} {p n : Nat} (h : p + n ≤ xs.length) :
    (slice xs p n).length = n := by
  simp only [slice, List.length_take, List.length_drop]; omega

/-- A slice that runs over the end is shorter than one that does not. -/
theorem slice_ne_of_beyond {l : List α} {a b n : Nat} (ha : a + n ≤ l.length) (hb : l.length < b + n) (hn : 0 < n) :
    slice l b n ≠ slice l a n := by
  intro heq
  have hlen := congrArg List.length heq
  rw [slice_length ha] at hlen
  simp only [slice, List.length_take, List.length_drop] at hlen
  omega

@[simp] theorem slice_zero (xs : List α) (p : Nat) : slice xs p 0 = [] := by simp [slice]

/-- A slice is the slice of its first `m` elements followed by the rest. -/
theorem slice_add (xs : List α) (p m n : Nat) :
    slice xs p (m + n) = slice xs p m ++ slice xs (p + m) n := by
  simp only [slice, List.take_add, List.drop_drop]

theorem slice_append_left {xs ys : List α} {p n : Nat} (h : p + n ≤ xs.length) :
    slice (xs ++ ys) p n = slice xs p n := by
  simp only [slice]
  rw [List.drop_append_of_le_length (by omega), List.take_append_of_le_length]
  rw [List.length_drop]; omega

theorem slice_append_right (xs ys : List α) (p n : Nat) :
    slice (xs ++ ys) (xs.length + p) n = slice ys p n := by
  simp only [slice, List.drop_length_add_append]

theorem slice_append_at {xs : List α} {k : Nat} (ys : List α) (p n : Nat) (h : xs.length = k) :
    slice (xs ++ ys) (k + p) n = slice ys p n := by
  subst h; exact slice_append_right xs ys p n

/-- A slice that runs over the end of `xs` into `ys`. -/
theorem slice_append_cross {xs ys : List α} {p n : Nat} (hp : p ≤ xs.length)
    (hn : xs.length - p ≤ n) :
    slice (xs ++ ys) p n = slice xs p (xs.length - p) ++ slice ys 0 (n - (xs.length - p)) := by
  obtain ⟨m, rfl⟩ := Nat.exists_eq_add_of_le hn
  rw [slice_add, slice_append_left (by omega)]
  have hend : p + (xs.length - p) = xs.length + 0 := by omega
  rw [hend, slice_append_right]
  congr 2; omega

theorem splice_length {xs ys : List α} {p : Nat} (h : p + ys.length ≤ xs.length) :
    (splice xs p ys).length = xs.length := by
  simp only [splice, List.length_append, List.length_take, List.length_drop]; omega

theorem splice_append_left {xs zs ys : List α} {p : Nat} (h : p + ys.length ≤ xs.length) :
    splice (xs ++ zs) p ys = splice xs p ys ++ zs := by
  simp only [splice]
  rw [List.take_append_of_le_length (by omega), List.drop_append_of_le_length h]
  simp [List.append_assoc]

theorem splice_append_at {xs : List α} {k : Nat} (zs ys : List α) (p : Nat) (h : xs.length = k) :
    splice (xs ++ zs) (k + p) ys = xs ++ splice zs p ys := by
  subst h
  simp only [splice, List.take_length_add_append, Nat.add_assoc, List.drop_length_add_append,
    List.append_assoc]

/-- A write behind another one continues it, also over the end. -/
theorem splice_splice_append {xs : List α} (ys zs : List α) {p : Nat} (h : p ≤ xs.length) :
    splice (splice xs p ys) (p + ys.length) zs = splice xs p (ys ++ zs) := by
  have hlen : (xs.take p ++ ys).length = p + ys.length := by
    rw [List.length_append, List.length_take]; omega
  have hat := splice_append_at (xs.drop (p + ys.length)) zs 0 hlen
  rw [Nat.add_zero] at hat
  rw [show splice xs p ys = xs.take p ++ ys ++ xs.drop (p + ys.length) from rfl, hat]
  simp [splice, List.drop_drop, Nat.add_assoc]

/-- Two adjacent writes are one write of the concatenation. -/
theorem splice_splice_next {xs ys zs : List α} {p : Nat}
    (h : p + ys.length + zs.length ≤ xs.length) :
    splice (splice xs p ys) (p + ys.length) zs = splice xs p (ys ++ zs) :=
  splice_splice_append _ _ (by omega)

/-- What was written is read back. -/
theorem slice_splice_same {xs ys : List α} {p : Nat} (h : p + ys.length ≤ xs.length) :
    slice (splice xs p ys) p ys.length = ys := by
  have hp : (xs.take p).length = p := by rw [List.length_take]; omega
  have hat := slice_append_at (ys ++ xs.drop (p + ys.length)) 0 ys.length hp
  rw [Nat.add_zero, ← List.append_assoc] at hat
  rw [splice, hat, slice_append_left (by omega)]
  simp [slice]

/-- A write leaves what lies before it. -/
theorem slice_splice_before {xs ys : List α} {p n q : Nat} (h : p + n ≤ q) (hq : q ≤ xs.length) :
    slice (splice xs q ys) p n = slice xs p n := by
  have hlen : (xs.take q).length = q := by rw [List.length_take]; omega
  calc slice (splice xs q ys) p n
      = slice (xs.take q ++ (ys ++ xs.drop (q + ys.length))) p n := by
        rw [splice, List.append_assoc]
    _ = slice (xs.take q) p n := slice_append_left (by omega)
    _ = slice (xs.take q ++ xs.drop q) p n := (slice_append_left (by omega)).symm
    _ = slice xs p n := by rw [List.take_append_drop]

/-- A write that crosses from `xs` into `zs`. -/
theorem splice_append_cross {xs zs ys : List α} {p k : Nat} (hk : p + k = xs.length)
    (hky : k ≤ ys.length) (hz : ys.length - k ≤ zs.length) :
    splice (xs ++ zs) p ys = splice xs p (ys.take k) ++ splice zs 0 (ys.drop k) := by
  have htake : (ys.take k).length = k := by rw [List.length_take]; omega
  have hdrop : (ys.drop k).length = ys.length - k := List.length_drop
  have h1 : splice (xs ++ zs) p (ys.take k) = splice xs p (ys.take k) ++ zs :=
    splice_append_left (by omega)
  have hlen : (splice xs p (ys.take k)).length = p + k := by rw [splice_length (by omega)]; omega
  calc splice (xs ++ zs) p ys
      = splice (xs ++ zs) p (ys.take k ++ ys.drop k) := by rw [List.take_append_drop]
    _ = splice (splice (xs ++ zs) p (ys.take k)) (p + (ys.take k).length) (ys.drop k) := by
        rw [splice_splice_next]
        rw [htake, hdrop, List.length_append]; omega
    _ = splice (splice xs p (ys.take k) ++ zs) (p + k + 0) (ys.drop k) := by
        rw [h1, htake, Nat.add_zero]
    _ = _ := splice_append_at _ _ 0 hlen

@[simp] theorem splice_nil (xs : List α) (p : Nat) : splice xs p [] = xs := by simp [splice]

/-- Up to what was written or was there, a write does not see what lies behind. -/
theorem take_splice_append {xs zs ys : List α} {p n : Nat} (hp : p ≤ xs.length) (hn : p + ys.length ≤ n)
    (hle : n = p + ys.length ∨ n ≤ xs.length) :
    (splice (xs ++ zs) p ys).take n = (splice xs p ys).take n := by
  obtain ⟨m, rfl⟩ := Nat.exists_eq_add_of_le hn
  have hlen : (xs.take p ++ ys).length = p + ys.length := by
    rw [List.length_append, List.length_take]; omega
  have hbehind : slice (xs ++ zs) (p + ys.length) m = slice xs (p + ys.length) m := by
    rcases hle with hz | hle
    · have hm : m = 0 := by omega
      rw [hm, slice_zero, slice_zero]
    · exact slice_append_left (by omega)
  have htake : ∀ ws : List α, ((xs.take p ++ ys) ++ ws).take (p + ys.length + m) = xs.take p ++ ys ++ ws.take m := by
    intro ws
    rw [← hlen, List.take_length_add_append]
  calc (splice (xs ++ zs) p ys).take (p + ys.length + m)
      = xs.take p ++ ys ++ slice (xs ++ zs) (p + ys.length) m := by
        rw [splice, List.take_append_of_le_length hp, htake, slice]
    _ = xs.take p ++ ys ++ slice xs (p + ys.length) m := by rw [hbehind]
    _ = (splice xs p ys).take (p + ys.length + m) := by rw [splice, htake, slice]

end Sylar.Lib
