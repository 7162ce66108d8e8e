import Mathlib.Data.List.Basic
import Mathlib.Data.List.Perm.Subperm

/- A map kept in order by a comparison of its keys.

   A comparison (`WeakOrder`) need not be total: two keys are the same key when
   neither is less, and the key that is in the map keeps its spelling. The entries
   of an `OrderedMap` are in strict order by construction, so that no two have the same
   key. Each operation has one equation: `find_insert`, `get_set` and `get_erase` say
   what is found under any key afterwards, and `find_fill` and `mem_fill` what many
   insertions leave, where an entry that is there is kept. `fill_eq_iff` says which
   insertions make a given map. -/
namespace Sylar.Lib

/-- A strict order in which being incomparable is an equivalence. -/
structure WeakOrder (κ : Type) where
  less : κ → κ → Bool
  irrefl : ∀ a, less a a = false
  trans : ∀ a b c, less a b = true → less b c = true → less a c = true
  cotrans : ∀ a b c, less a c = true → less a b = true ∨ less b c = true

namespace WeakOrder
variable {κ : Type} (o : WeakOrder κ) {a b c : κ}

/-- Neither is less. -/
def same (a b : κ) : Bool := !o.less a b && !o.less b a

theorem same_iff : o.same a b = true ↔ o.less a b = false ∧ o.less b a = false := by
  simp [same]

@[simp] theorem same_refl (a : κ) : o.same a a = true := by
  simp [same, o.irrefl]

theorem same_comm (a b : κ) : o.same a b = o.same b a := by
  simp [same, Bool.and_comm]

/-- The same key is on the same side of every other. -/
theorem less_congr_left (h : o.same a b = true) (c : κ) : o.less a c = o.less b c := by
  obtain ⟨hab, hba⟩ := o.same_iff.mp h
  apply Bool.eq_iff_iff.mpr
  constructor
  · intro hac
    exact (o.cotrans a b c hac).resolve_left (by simp [hab])
  · intro hbc
    exact (o.cotrans b a c hbc).resolve_left (by simp [hba])

theorem less_congr_right (h : o.same a b = true) (c : κ) : o.less c a = o.less c b := by
  obtain ⟨hab, hba⟩ := o.same_iff.mp h
  apply Bool.eq_iff_iff.mpr
  constructor
  · intro hca
    exact (o.cotrans c b a hca).resolve_right (by simp [hba])
  · intro hcb
    exact (o.cotrans c a b hcb).resolve_right (by simp [hab])

theorem same_congr (h : o.same a b = true) (c : κ) : o.same c a = o.same c b := by
  simp [same, o.less_congr_left h, o.less_congr_right h]

theorem not_same_of_less (h : o.less a b = true) : o.same a b = false := by
  simp [same, h]

end WeakOrder

namespace OrderedMap

section
variable {κ ν : Type} (o : WeakOrder κ)

/-- The entry under `key`. -/
def lookup (key : κ) (l : List (κ × ν)) : Option (κ × ν) := l.find? fun kv => o.same key kv.1

/-- Puts an entry at its place; under a key that is there only the value changes, to `merge` of the old one. -/
def upsert (merge : ν → ν) (key : κ) (val : ν) : List (κ × ν) → List (κ × ν)
  | [] => [(key, val)]
  | kv :: rest =>
    if o.less kv.1 key then kv :: upsert merge key val rest
    else if o.less key kv.1 then (key, val) :: kv :: rest
    else (kv.1, merge kv.2) :: rest

/-- The entries are in strict order of their keys. -/
def InOrder (l : List (κ × ν)) : Prop := l.Pairwise fun x y => o.less x.1 y.1 = true

variable {o}

@[simp] theorem lookup_nil (key : κ) : lookup o key ([] : List (κ × ν)) = none := rfl

theorem lookup_cons (key : κ) (kv : κ × ν) (l : List (κ × ν)) :
    lookup o key (kv :: l) = if o.same key kv.1 then some kv else lookup o key l := by
  rw [lookup, List.find?_cons]
  cases o.same key kv.1 with
  | true => simp
  | false => simp [lookup]

/-- The same key finds the same entry. -/
theorem lookup_congr {a b : κ} (h : o.same a b = true) (l : List (κ × ν)) : lookup o a l = lookup o b l := by
  unfold lookup
  congr 1
  funext kv
  rw [o.same_comm a, o.same_comm b, o.same_congr h]

/-- A key before all of the entries is under none of them. -/
theorem lookup_of_less {key : κ} {l : List (κ × ν)} (h : ∀ kv ∈ l, o.less key kv.1 = true) :
    lookup o key l = none := by
  apply List.find?_eq_none.mpr
  intro kv hkv
  simp [o.not_same_of_less (h kv hkv)]

theorem mem_upsert {merge : ν → ν} {key : κ} {val : ν} {l : List (κ × ν)} {kv : κ × ν}
    (h : kv ∈ upsert o merge key val l) : o.same key kv.1 = true ∨ kv ∈ l := by
  induction l with
  | nil =>
    rw [upsert, List.mem_singleton] at h
    exact Or.inl (by simp [h])
  | cons x rest ih =>
    rw [upsert] at h
    split at h
    · rcases List.mem_cons.mp h with heq | h
      · exact Or.inr (by simp [heq])
      · exact (ih h).imp_right (List.mem_cons_of_mem x)
    · rename_i hxk
      split at h
      · rcases List.mem_cons.mp h with heq | h
        · exact Or.inl (by simp [heq])
        · exact Or.inr h
      · rename_i hkx
        rcases List.mem_cons.mp h with heq | h
        · exact Or.inl (by simp [WeakOrder.same, heq, hxk, hkx])
        · exact Or.inr (List.mem_cons_of_mem x h)

theorem inOrder_upsert (merge : ν → ν) (key : κ) (val : ν) {l : List (κ × ν)} (h : InOrder o l) :
    InOrder o (upsert o merge key val l) := by
  induction l with
  | nil => exact List.pairwise_singleton _ _
  | cons x rest ih =>
    obtain ⟨hx, hrest⟩ := List.pairwise_cons.mp h
    rw [upsert]
    split
    · rename_i hxk
      refine List.pairwise_cons.mpr ⟨?_, ih hrest⟩
      intro kv hkv
      rcases mem_upsert hkv with hsame | hmem
      · rw [← o.less_congr_right hsame]
        exact hxk
      · exact hx kv hmem
    · split
      · rename_i hkx
        refine List.pairwise_cons.mpr ⟨?_, h⟩
        intro kv hkv
        rcases List.mem_cons.mp hkv with heq | hmem
        · rw [heq]; exact hkx
        · exact o.trans key x.1 kv.1 hkx (hx kv hmem)
      · exact List.pairwise_cons.mpr ⟨hx, hrest⟩

/-- What is found after an entry was put: under its own key the merged or the new one, elsewhere what was there. -/
theorem lookup_upsert (merge : ν → ν) (key : κ) (val : ν) {l : List (κ × ν)} (h : InOrder o l) (k : κ) :
    lookup o k (upsert o merge key val l) =
      if o.same k key then some (((lookup o k l).map fun kv => (kv.1, merge kv.2)).getD (key, val))
      else lookup o k l := by
  induction l with
  | nil => simp [upsert, lookup_cons]
  | cons x rest ih =>
    obtain ⟨hx, hrest⟩ := List.pairwise_cons.mp h
    rw [upsert]
    split
    · rename_i hxk
      rw [lookup_cons, lookup_cons, ih hrest]
      cases hkx : o.same k x.1 with
      | false => simp
      | true =>
        have hne : o.same k key = false := by
          rw [o.same_comm, o.same_congr hkx, o.same_comm]
          exact o.not_same_of_less hxk
        simp [hne]
    · rename_i hxk
      split
      · rename_i hkx
        -- the new key stands before every entry, so nothing was found under it
        rw [lookup_cons]
        cases hk : o.same k key with
        | false => simp
        | true =>
          have hnone : lookup o k (x :: rest) = none := by
            apply lookup_of_less
            intro kv hkv
            rw [o.less_congr_left hk]
            rcases List.mem_cons.mp hkv with heq | hmem
            · rw [heq]; exact hkx
            · exact o.trans key x.1 kv.1 hkx (hx kv hmem)
          simp [hnone]
      · rename_i hkx
        have hsame : o.same x.1 key = true := by simp [WeakOrder.same, hxk, hkx]
        rw [lookup_cons, lookup_cons, o.same_congr hsame]
        cases o.same k key with
        | false => simp
        | true => simp

/-- Where no two entries have the same key, under the key of an entry that entry is found. -/
theorem mem_iff_lookup {l : List (κ × ν)} (h : l.Pairwise fun x y => o.same x.1 y.1 = false) (kv : κ × ν) :
    kv ∈ l ↔ lookup o kv.1 l = some kv := by
  constructor
  · intro hkv
    induction l with
    | nil => cases hkv
    | cons x rest ih =>
      obtain ⟨hx, hrest⟩ := List.pairwise_cons.mp h
      rw [lookup_cons]
      rcases List.mem_cons.mp hkv with heq | hmem
      · simp [heq]
      · rw [o.same_comm, hx kv hmem]
        exact ih hrest hmem
  · exact List.mem_of_find?_eq_some

/-- Entries in order have different keys. -/
theorem InOrder.distinct {l : List (κ × ν)} (h : InOrder o l) : l.Pairwise fun x y => o.same x.1 y.1 = false := by
  apply h.imp
  intro x y hxy
  exact o.not_same_of_less hxy

end

end OrderedMap

/-! ## Maps -/

/-- A map whose entries are in the order of `o`. -/
structure OrderedMap {κ : Type} (o : WeakOrder κ) (ν : Type) where
  entries : List (κ × ν)
  inOrder : OrderedMap.InOrder o entries

namespace OrderedMap
variable {κ ν : Type} {o : WeakOrder κ}

def empty : OrderedMap o ν := ⟨[], List.Pairwise.nil⟩

/-- The entry under `key`. -/
def find (m : OrderedMap o ν) (key : κ) : Option (κ × ν) := lookup o key m.entries

/-- The value under `key`. -/
def get (m : OrderedMap o ν) (key : κ) : Option ν := (m.find key).map Prod.snd

/-- Adds an entry, unless one is there. -/
def insert (m : OrderedMap o ν) (kv : κ × ν) : OrderedMap o ν :=
  ⟨upsert o id kv.1 kv.2 m.entries, inOrder_upsert _ _ _ m.inOrder⟩

/-- Adds an entry or overwrites the value that is there. -/
def set (m : OrderedMap o ν) (key : κ) (val : ν) : OrderedMap o ν :=
  ⟨upsert o (fun _ => val) key val m.entries, inOrder_upsert _ _ _ m.inOrder⟩

def erase (m : OrderedMap o ν) (key : κ) : OrderedMap o ν :=
  ⟨m.entries.filter fun kv => !o.same key kv.1, m.inOrder.filter _⟩

/-- Adds entries one after another. -/
def fill (m : OrderedMap o ν) (kvs : List (κ × ν)) : OrderedMap o ν := kvs.foldl insert m

@[simp] theorem find_empty (key : κ) : (empty : OrderedMap o ν).find key = none := rfl

@[simp] theorem get_empty (key : κ) : (empty : OrderedMap o ν).get key = none := rfl

theorem find_insert (m : OrderedMap o ν) (kv : κ × ν) (k : κ) :
    (m.insert kv).find k = (m.find k).or (if o.same k kv.1 then some kv else none) := by
  simp only [find, insert]
  rw [lookup_upsert _ _ _ m.inOrder]
  cases o.same k kv.1 with
  | false => simp
  | true => cases lookup o k m.entries with
    | none => simp
    | some x => simp

theorem get_set (m : OrderedMap o ν) (key : κ) (val : ν) (k : κ) :
    (m.set key val).get k = if o.same k key then some val else m.get k := by
  simp only [get, find, set]
  rw [lookup_upsert _ _ _ m.inOrder]
  cases o.same k key with
  | false => simp
  | true => cases lookup o k m.entries with
    | none => simp
    | some x => simp

theorem get_erase (m : OrderedMap o ν) (key : κ) (k : κ) :
    (m.erase key).get k = if o.same k key then none else m.get k := by
  simp only [get, find, erase, lookup]
  rw [List.find?_filter]
  cases h : o.same k key with
  | true =>
    have hnone : (m.entries.find? fun kv => !o.same key kv.1 && o.same k kv.1) = none := by
      apply List.find?_eq_none.mpr
      intro kv _
      rw [o.same_comm key, o.same_comm k, o.same_congr h]
      simp
    simp [hnone]
  | false =>
    have hkeep : (fun kv : κ × ν => !o.same key kv.1 && o.same k kv.1) = fun kv => o.same k kv.1 := by
      funext kv
      cases hkv : o.same k kv.1 with
      | false => simp
      | true =>
        rw [← o.same_congr hkv, o.same_comm, h]
        simp
    simp [hkeep]

/-- Many insertions: an entry that is there is kept, else the first of the list is taken. -/
theorem find_fill (kvs : List (κ × ν)) (m : OrderedMap o ν) (k : κ) :
    (m.fill kvs).find k = (m.find k).or (lookup o k kvs) := by
  induction kvs generalizing m with
  | nil => simp [fill]
  | cons kv rest ih =>
    calc (m.fill (kv :: rest)).find k
        = ((m.insert kv).fill rest).find k := rfl
      _ = ((m.find k).or (if o.same k kv.1 then some kv else none)).or (lookup o k rest) := by
        rw [ih, find_insert]
      _ = (m.find k).or (lookup o k (kv :: rest)) := by
        rw [Option.or_assoc, lookup_cons]
        cases o.same k kv.1 with
        | false => simp
        | true => simp

theorem get_fill (kvs : List (κ × ν)) (m : OrderedMap o ν) (k : κ) :
    (m.fill kvs).get k = (m.get k).or ((lookup o k kvs).map Prod.snd) := by
  simp only [get, find_fill, Option.map_or]

/-- Filled from nothing, a map holds the first entry of each key. -/
theorem mem_fill (kvs : List (κ × ν)) (kv : κ × ν) :
    kv ∈ ((empty : OrderedMap o ν).fill kvs).entries ↔ lookup o kv.1 kvs = some kv := by
  rw [mem_iff_lookup (fill empty kvs).inOrder.distinct]
  have hfind := find_fill kvs (empty : OrderedMap o ν) kv.1
  rw [find_empty, Option.none_or] at hfind
  rw [← hfind]
  rfl

theorem fill_append (m : OrderedMap o ν) (kvs more : List (κ × ν)) :
    m.fill (kvs ++ more) = (m.fill kvs).fill more := List.foldl_append

theorem nodup_keys (m : OrderedMap o ν) : (m.entries.map Prod.fst).Nodup := by
  apply List.pairwise_map.mpr
  apply m.inOrder.imp
  intro x y hxy heq
  rw [heq, o.irrefl] at hxy
  cases hxy

theorem nodup_entries (m : OrderedMap o ν) : m.entries.Nodup := by
  apply (List.pairwise_map.mp m.nodup_keys).imp
  intro x y hne heq
  exact hne (congrArg Prod.fst heq)

/-- Two maps of the same entries. -/
theorem ext_mem {m m' : OrderedMap o ν} (h : ∀ kv, kv ∈ m.entries ↔ kv ∈ m'.entries) : m = m' := by
  have hperm : m.entries.Perm m'.entries :=
    (List.perm_ext_iff_of_nodup m.nodup_entries m'.nodup_entries).mpr h
  have heq : m.entries = m'.entries := by
    apply hperm.eq_of_pairwise _ m.inOrder m'.inOrder
    intro x y _ _ hxy hyx
    have hxx := o.trans x.1 y.1 x.1 hxy hyx
    rw [o.irrefl] at hxx
    cases hxx
  cases m
  cases m'
  cases heq
  rfl

/-- As many insertions as a map has entries make that map if and only if they are its entries, in any order. -/
theorem fill_eq_iff (m : OrderedMap o ν) {kvs : List (κ × ν)} (hlength : kvs.length = m.entries.length) :
    (empty : OrderedMap o ν).fill kvs = m ↔ kvs.Perm m.entries := by
  constructor
  · intro h
    have hsubset : m.entries ⊆ kvs := by
      intro kv hkv
      rw [← h, mem_fill] at hkv
      exact List.mem_of_find?_eq_some hkv
    have hsub := List.subperm_of_subset m.nodup_entries hsubset
    exact (hsub.perm_of_length_le (Nat.le_of_eq hlength)).symm
  · intro h
    have hdistinct : kvs.Pairwise fun x y => o.same x.1 y.1 = false :=
      h.symm.pairwise m.inOrder.distinct fun hxy => (o.same_comm _ _).trans hxy
    apply ext_mem
    intro kv
    rw [mem_fill, ← mem_iff_lookup hdistinct, h.mem_iff]

/-- Under the keys of a map, insertions make that map if and only if they are its entries. -/
theorem fill_eq_iff_of_keys (m : OrderedMap o ν) {kvs : List (κ × ν)}
    (hkeys : kvs.map Prod.fst = m.entries.map Prod.fst) :
    (empty : OrderedMap o ν).fill kvs = m ↔ kvs = m.entries := by
  have horder : InOrder o kvs := by
    have hm : (m.entries.map Prod.fst).Pairwise fun a b => o.less a b = true :=
      List.pairwise_map.mpr m.inOrder
    rw [← hkeys] at hm
    exact List.pairwise_map.mp hm
  have hfill : (empty : OrderedMap o ν).fill kvs = ⟨kvs, horder⟩ :=
    (fill_eq_iff ⟨kvs, horder⟩ rfl).mpr (List.Perm.refl _)
  rw [hfill]
  constructor
  · intro h
    rw [← h]
  · intro h
    cases m
    cases h
    rfl

end OrderedMap

end Sylar.Lib
