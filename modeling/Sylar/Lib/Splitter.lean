import Mathlib.Data.List.Basic

/- Texts of segments between separators, each a key and a value around a mark.

   The plain reading of such a text cuts each segment at its first mark and drops the
   segments without one. `glue` is the reading of a scanner that looks for the mark
   first and for the separator only behind it: a segment without a mark is not
   dropped but stands, with its separator, in front of the next key. `glue_splitOn_mark`
   is the equation of one round of such a scanner, and `glue_map_eq_iff` says that the
   two readings agree exactly on the texts in which no segment without a mark stands
   before one with a mark (`Gapless`). -/
namespace Sylar.Lib

variable {α : Type} [DecidableEq α]

/-- The parts before and after the first mark. -/
def cut (mark : α) (s : List α) : Option (List α × List α) :=
  if mark ∈ s then some (s.takeWhile (· ≠ mark), (s.dropWhile (· ≠ mark)).tail) else none

theorem cut_of_not_mem {mark : α} {s : List α} (h : mark ∉ s) : cut mark s = none := if_neg h

theorem takeWhile_mark {mark : α} {k : List α} (hk : mark ∉ k) (v : List α) :
    (k ++ mark :: v).takeWhile (· ≠ mark) = k := by
  rw [List.takeWhile_append_of_pos]
  · simp
  · intro c hc
    simpa using fun heq : c = mark => hk (heq ▸ hc)

theorem dropWhile_mark {mark : α} {k : List α} (hk : mark ∉ k) (v : List α) :
    (k ++ mark :: v).dropWhile (· ≠ mark) = mark :: v := by
  rw [List.dropWhile_append_of_pos]
  · simp
  · intro c hc
    simpa using fun heq : c = mark => hk (heq ▸ hc)

theorem cut_append {mark : α} {k : List α} (hk : mark ∉ k) (v : List α) :
    cut mark (k ++ mark :: v) = some (k, v) := by
  rw [cut, if_pos (by simp), takeWhile_mark hk, dropWhile_mark hk]
  simp

/-- A byte that is no mark goes to the part before it. -/
theorem cut_cons {mark c : α} (hc : c ≠ mark) (s : List α) :
    cut mark (c :: s) = (cut mark s).map fun kv => (c :: kv.1, kv.2) := by
  by_cases hs : mark ∈ s
  · obtain ⟨k, v, rfl, hk⟩ := List.eq_append_cons_of_mem hs
    have hck : mark ∉ c :: k := by simpa [hk] using fun heq : mark = c => hc heq.symm
    rw [cut_append hk, ← List.cons_append, cut_append hck]
    simp
  · have hcs : mark ∉ c :: s := by simpa [hs] using fun heq : mark = c => hc heq.symm
    rw [cut_of_not_mem hs, cut_of_not_mem hcs]
    simp

theorem mem_of_cut {mark c : α} {s : List α} {kv : List α × List α} (h : cut mark s = some kv) (hc : c ∈ kv.1) :
    c ∈ s := by
  by_cases hs : mark ∈ s
  · obtain ⟨k, v, rfl, hk⟩ := List.eq_append_cons_of_mem hs
    rw [cut_append hk, Option.some.injEq] at h
    rw [← h] at hc
    exact List.mem_append_left _ hc
  · rw [cut_of_not_mem hs] at h
    cases h

theorem cut_eq_some {mark : α} {s k v : List α} (h : cut mark s = some (k, v)) :
    s = k ++ mark :: v ∧ mark ∉ k := by
  by_cases hs : mark ∈ s
  · obtain ⟨k', v', rfl, hk⟩ := List.eq_append_cons_of_mem hs
    rw [cut_append hk] at h
    cases h
    exact ⟨rfl, hk⟩
  · rw [cut_of_not_mem hs] at h
    cases h

theorem cut_eq_none {mark : α} {s : List α} (h : cut mark s = none) : mark ∉ s := by
  intro hs
  unfold cut at h
  rw [if_pos hs] at h
  cases h

/-- A segment has the bytes of the text, but no separator. -/
theorem mem_splitOn {sep c : α} {text s : List α} (hs : s ∈ text.splitOn sep) (hc : c ∈ s) :
    c ∈ text ∧ c ≠ sep := by
  induction text generalizing s with
  | nil =>
    obtain rfl : s = [] := by simpa using hs
    cases hc
  | cons x text ih =>
    rw [List.splitOn_cons_eq_if_modifyHead] at hs
    by_cases hsep : x = sep
    · simp only [hsep, beq_self_eq_true, if_true, List.mem_cons] at hs
      rcases hs with rfl | hs
      · cases hc
      · exact (ih hs hc).imp_left (List.mem_cons_of_mem x)
    · obtain ⟨t, rest, hsegs⟩ := List.exists_cons_of_ne_nil (List.splitOn_ne_nil sep text)
      rw [hsegs] at ih
      simp only [beq_iff_eq, hsep, if_false, hsegs, List.modifyHead_cons, List.mem_cons] at hs
      rcases hs with rfl | hs
      · rcases List.mem_cons.mp hc with rfl | hc
        · exact ⟨List.mem_cons_self, hsep⟩
        · exact (ih List.mem_cons_self hc).imp_left (List.mem_cons_of_mem x)
      · exact (ih (List.mem_cons_of_mem t hs) hc).imp_left (List.mem_cons_of_mem x)

/-! ## Parts read one by one -/

omit [DecidableEq α] in
theorem mapM_eq_some_iff {β : Type} (f : α → Option β) (l : List α) (r : List β) :
    l.mapM f = some r ↔ l.map f = r.map some := by
  induction l generalizing r with
  | nil => cases r <;> simp
  | cons a l ih =>
    cases r with
    | nil => simp [List.mapM_cons, Option.bind_eq_some_iff]
    | cons b r => simp [List.mapM_cons, Option.bind_eq_some_iff, ih]

omit [DecidableEq α] in
theorem exists_map_some_iff {β : Type} (f : α → Option β) (l : List α) :
    (∃ r : List β, l.map f = r.map some) ↔ ∀ a ∈ l, f a ≠ none := by
  constructor
  · rintro ⟨r, hr⟩ a ha hnone
    have hmem := List.mem_map_of_mem (f := f) ha
    rw [hr, hnone] at hmem
    obtain ⟨b, -, hb⟩ := List.mem_map.mp hmem
    cases hb
  · intro h
    induction l with
    | nil => exact ⟨[], rfl⟩
    | cons a l ih =>
      obtain ⟨ha, hl⟩ := List.forall_mem_cons.mp h
      obtain ⟨r, hr⟩ := ih hl
      obtain ⟨b, hb⟩ := Option.ne_none_iff_exists'.mp ha
      exact ⟨b :: r, by rw [List.map_cons, List.map_cons, hb, hr]⟩

/-! ## The glued reading -/

/-- `pending` are the segments without a mark since the last key, with their separators. -/
def glue (mark sep : α) (pending : List α) : List (List α) → List (List α × List α)
  | [] => []
  | s :: rest =>
    match cut mark s with
    | some kv => (pending ++ kv.1, kv.2) :: glue mark sep [] rest
    | none => glue mark sep (pending ++ s ++ [sep]) rest

/-- Without a mark there is nothing to read. -/
theorem glue_of_not_mem {mark sep : α} {segs : List (List α)} (h : ∀ s ∈ segs, mark ∉ s) (pending : List α) :
    glue mark sep pending segs = [] := by
  induction segs generalizing pending with
  | nil => simp [glue]
  | cons s rest ih =>
    obtain ⟨hs, hrest⟩ := List.forall_mem_cons.mp h
    simp only [glue, cut_of_not_mem hs]
    exact ih hrest _

/-- A byte in front of the first segment may as well be pending. -/
theorem glue_modifyHead {mark sep c : α} (hc : c ≠ mark) (pending s : List α) (rest : List (List α)) :
    glue mark sep pending ((c :: s) :: rest) = glue mark sep (pending ++ [c]) (s :: rest) := by
  simp only [glue, cut_cons hc]
  cases cut mark s with
  | none => simp
  | some kv => simp

/-- One more byte of a text, in front: a separator closes an empty segment, any other byte but the mark pends. -/
theorem glue_splitOn_cons {mark sep c : α} (hc : c ≠ mark) (pending text : List α) :
    glue mark sep pending ((c :: text).splitOn sep) = glue mark sep (pending ++ [c]) (text.splitOn sep) := by
  rw [List.splitOn_cons_eq_if_modifyHead]
  by_cases hsep : c = sep
  · subst hsep
    simp [glue, cut]
  · obtain ⟨s, rest, hsegs⟩ := List.exists_cons_of_ne_nil (List.splitOn_ne_nil sep text)
    simp only [beq_iff_eq, hsep, if_false, hsegs, List.modifyHead_cons]
    exact glue_modifyHead hc pending s rest

/-- A text without a mark has no pairs. -/
theorem glue_splitOn_of_not_mem {mark sep : α} {text : List α} (h : mark ∉ text) (pending : List α) :
    glue mark sep pending (text.splitOn sep) = [] := by
  induction text generalizing pending with
  | nil => simp [glue, cut]
  | cons c text ih =>
    rw [List.mem_cons, not_or] at h
    rw [glue_splitOn_cons (fun heq => h.1 heq.symm)]
    exact ih h.2 _

/-- One round: the key is all that stands before the mark, the value ends where the next segment starts. -/
theorem glue_splitOn_mark {mark sep : α} (hne : mark ≠ sep) {k : List α} (hk : mark ∉ k) {text v : List α}
    {rest : List (List α)} (htext : text.splitOn sep = v :: rest) (pending : List α) :
    glue mark sep pending ((k ++ mark :: text).splitOn sep) = (pending ++ k, v) :: glue mark sep [] rest := by
  induction k generalizing pending with
  | nil =>
    have hcut : cut mark (mark :: v) = some ([], v) := by
      simpa using cut_append (List.not_mem_nil (a := mark)) v
    rw [List.nil_append, List.splitOn_cons_eq_if_modifyHead, htext]
    simp only [beq_iff_eq, hne, if_false, List.modifyHead_cons, glue, hcut]
  | cons c k ih =>
    rw [List.mem_cons, not_or] at hk
    rw [List.cons_append, glue_splitOn_cons (fun heq => hk.1 heq.symm), ih hk.2]
    simp

/-- The bytes of a key pended or are of a segment, but for separators. -/
theorem mem_glue_key {mark sep c : α} {segs : List (List α)} {pending : List α} {kv : List α × List α}
    (h : kv ∈ glue mark sep pending segs) (hc : c ∈ kv.1) : c ∈ pending ∨ c = sep ∨ ∃ s ∈ segs, c ∈ s := by
  induction segs generalizing pending with
  | nil => simp [glue] at h
  | cons s rest ih =>
    rw [glue] at h
    cases hcut : cut mark s with
    | some p =>
      simp only [hcut, List.mem_cons] at h
      rcases h with rfl | h
      · rcases List.mem_append.mp hc with hc | hc
        · exact Or.inl hc
        · exact Or.inr (Or.inr ⟨s, List.mem_cons_self, mem_of_cut hcut hc⟩)
      · rcases ih h with hc | hc | ⟨t, ht, hc⟩
        · cases hc
        · exact Or.inr (Or.inl hc)
        · exact Or.inr (Or.inr ⟨t, List.mem_cons_of_mem s ht, hc⟩)
    | none =>
      simp only [hcut] at h
      rcases ih h with hc | hc | ⟨t, ht, hc⟩
      · simp only [List.mem_append, List.mem_singleton] at hc
        rcases hc with (hc | hc) | hc
        · exact Or.inl hc
        · exact Or.inr (Or.inr ⟨s, List.mem_cons_self, hc⟩)
        · exact Or.inr (Or.inl hc)
      · exact Or.inr (Or.inl hc)
      · exact Or.inr (Or.inr ⟨t, List.mem_cons_of_mem s ht, hc⟩)

/-! ## Against the plain reading -/

/-- No segment without a mark stands before one with a mark. -/
def Gapless (mark : α) (segs : List (List α)) : Prop := segs.Pairwise fun s t => mark ∈ t → mark ∈ s

instance (mark : α) (segs : List (List α)) : Decidable (Gapless mark segs) :=
  inferInstanceAs (Decidable (segs.Pairwise fun s t => mark ∈ t → mark ∈ s))

section
variable {β : Type} {mark sep : α} {f : List α × List α → β}

omit [DecidableEq α] in
theorem gapless_cons_of_mem {s : List α} (hs : mark ∈ s) (rest : List (List α)) :
    Gapless mark (s :: rest) ↔ Gapless mark rest := by
  simp [Gapless, List.pairwise_cons, hs]

omit [DecidableEq α] in
/-- Behind a segment without a mark nothing may follow that has one. -/
theorem gapless_cons_of_not_mem {s : List α} (hs : mark ∉ s) (rest : List (List α)) :
    Gapless mark (s :: rest) ↔ ∀ t ∈ rest, mark ∉ t := by
  rw [Gapless, List.pairwise_cons]
  constructor
  · intro h t ht hmark
    exact hs (h.1 t ht hmark)
  · intro h
    refine ⟨fun t ht hmark => absurd hmark (h t ht), ?_⟩
    apply List.pairwise_of_forall_mem_list
    intro t _ u hu hmark
    exact absurd hmark (h u hu)

/-- What pends changes the next key. -/
theorem glue_pending_ne (hf : ∀ pre k v, f (pre ++ sep :: k, v) ≠ f (k, v)) {segs : List (List α)}
    (h : ∃ s ∈ segs, mark ∈ s) (pre : List α) :
    (glue mark sep (pre ++ [sep]) segs).map f ≠ (segs.filterMap (cut mark)).map f := by
  induction segs generalizing pre with
  | nil => simp at h
  | cons s rest ih =>
    by_cases hs : mark ∈ s
    · obtain ⟨k, v, rfl, hk⟩ := List.eq_append_cons_of_mem hs
      simp only [glue, cut_append hk, List.filterMap_cons, List.map_cons]
      intro heq
      apply hf pre k v
      simpa using (List.cons.inj heq).1
    · have hrest : ∃ s ∈ rest, mark ∈ s := by simpa [hs] using h
      have hpre : pre ++ [sep] ++ s ++ [sep] = (pre ++ sep :: s) ++ [sep] := by simp
      simp only [glue, cut_of_not_mem hs, List.filterMap_cons]
      rw [hpre]
      exact ih hrest _

/-- What pends stands, behind its separator, in the next key. -/
theorem mem_glue_pending {segs : List (List α)} (h : ∃ s ∈ segs, mark ∈ s) (pre : List α) :
    ∃ x k v, (x ++ sep :: k, v) ∈ glue mark sep (pre ++ [sep]) segs := by
  induction segs generalizing pre with
  | nil => simp at h
  | cons s rest ih =>
    by_cases hs : mark ∈ s
    · obtain ⟨k, v, rfl, hk⟩ := List.eq_append_cons_of_mem hs
      refine ⟨pre, k, v, ?_⟩
      simp [glue, cut_append hk]
    · have hrest : ∃ s ∈ rest, mark ∈ s := by simpa [hs] using h
      have hpre : pre ++ [sep] ++ s ++ [sep] = (pre ++ sep :: s) ++ [sep] := by simp
      simp only [glue, cut_of_not_mem hs]
      rw [hpre]
      exact ih hrest _

/-- With a gap there is a key with a separator in it. -/
theorem mem_glue_of_gap (sep : α) {segs : List (List α)} (h : ¬ Gapless mark segs) :
    ∃ x k v, (x ++ sep :: k, v) ∈ glue mark sep [] segs := by
  induction segs with
  | nil => simp [Gapless] at h
  | cons s rest ih =>
    by_cases hs : mark ∈ s
    · rw [gapless_cons_of_mem hs] at h
      obtain ⟨k, v, rfl, hk⟩ := List.eq_append_cons_of_mem hs
      obtain ⟨x, k', v', hmem⟩ := ih h
      refine ⟨x, k', v', ?_⟩
      simp only [glue, cut_append hk]
      exact List.mem_cons_of_mem _ hmem
    · rw [gapless_cons_of_not_mem hs] at h
      have hlater : ∃ t ∈ rest, mark ∈ t := by simpa using h
      simp only [glue, cut_of_not_mem hs, List.nil_append]
      exact mem_glue_pending hlater s

/-- The two readings agree exactly on the gapless texts, also through a map that keeps longer keys apart. -/
theorem glue_map_eq_iff (hf : ∀ pre k v, f (pre ++ sep :: k, v) ≠ f (k, v)) (segs : List (List α)) :
    (glue mark sep [] segs).map f = (segs.filterMap (cut mark)).map f ↔ Gapless mark segs := by
  induction segs with
  | nil => simp [glue, Gapless]
  | cons s rest ih =>
    by_cases hs : mark ∈ s
    · rw [gapless_cons_of_mem hs, ← ih]
      obtain ⟨k, v, rfl, hk⟩ := List.eq_append_cons_of_mem hs
      simp only [glue, cut_append hk, List.filterMap_cons, List.map_cons, List.nil_append, List.cons.injEq,
        true_and]
    · rw [gapless_cons_of_not_mem hs]
      simp only [glue, cut_of_not_mem hs, List.filterMap_cons, List.nil_append]
      constructor
      · intro heq t ht hmark
        exact glue_pending_ne hf ⟨t, ht, hmark⟩ s heq
      · intro h
        have hcuts : rest.filterMap (cut mark) = [] := by
          apply List.filterMap_eq_nil_iff.mpr
          intro t ht
          exact cut_of_not_mem (h t ht)
        rw [glue_of_not_mem h, hcuts]

end

end Sylar.Lib
