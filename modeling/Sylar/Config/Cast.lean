import Mathlib.Data.List.Basic
import Sylar.Lib.OrderedMap
import Sylar.Config.Yaml
import Sylar.Log.Codec
import Sylar.Http.HostHeader

/- The `LexicalCast` templates of `sylar/config.h` between containers and `std::string`.

   The encoder of a container casts each item to text, loads that text as YAML and puts the
   node into a tree; the decoder streams each node of the tree and casts the text back. So
   an item is not read from the text it was written as, but from what yaml-cpp streams for
   what it has loaded from that text: the string `a: b` is a map on the way, and the empty
   string is null. `Returns` is that way there and back for one item.

   `cast_round_trip_iff` says for containers in containers, to any depth, that a value
   comes back from its own text if and only if all of its leaves return, where those of a
   set may change places. What yaml-cpp loads and streams is a parameter; of it only that
   a container's tree is loaded from its own text is used, and only for the trees at hand
   (`Loads`). A cast that throws has no result. The unordered containers are left out: they
   have the loops of the ordered ones and an order of their own. -/
namespace Sylar.Config
open Sylar.Lib
open Sylar.Log (put items text)
open Sylar.Http (stringOrder)

/-! ## Casts -/

/-- `LexicalCast<T, std::string>` and `LexicalCast<std::string, T>`. -/
structure Cast (α : Type) where
  toString : α → Option Text
  fromString : Text → Option α

section
variable (load : Text → Option Node) (emit : Node → Text)

/-- `YAML::Load(LexicalCast<T, std::string>()(i))`. -/
def Cast.write {α : Type} (c : Cast α) (i : α) : Option Node := (c.toString i).bind load

/-- `LexicalCast<std::string, T>()(ss.str())` behind `ss << node`. -/
def Cast.read {α : Type} (c : Cast α) (node : Node) : Option α := c.fromString (emit node)

/-- The loop of an encoder over the items. -/
def Cast.writeAll {α : Type} (c : Cast α) : List α → Option (List Node)
  | [] => some []
  | i :: rest => (c.write load i).bind fun node => (writeAll c rest).map (node :: ·)

/-- The loop of a decoder over the items of a node. -/
def Cast.readAll {α : Type} (c : Cast α) : List Node → Option (List α)
  | [] => some []
  | node :: rest => (c.read emit node).bind fun i => (readAll c rest).map (i :: ·)

/-- `std::vector<T>`. -/
def vectorCast {α : Type} (c : Cast α) : Cast (List α) where
  toString v := (c.writeAll load v).map fun nodes => emit (.sequence nodes)
  fromString v := (load v).bind fun node => c.readAll emit (items node)

/-- `std::list<T>`. -/
def listCast {α : Type} (c : Cast α) : Cast (List α) where
  toString v := (c.writeAll load v).map fun nodes => emit (.sequence nodes)
  fromString v := (load v).bind fun node => c.readAll emit (items node)

/-- A `std::set<T>`: its items are the keys. -/
abbrev StdSet {α : Type} (order : WeakOrder α) : Type := OrderedMap order Unit

/-- `std::set<T>`. -/
def setCast {α : Type} (order : WeakOrder α) (c : Cast α) : Cast (StdSet order) where
  toString v := (c.writeAll load (v.entries.map Prod.fst)).map fun nodes => emit (.sequence nodes)
  fromString v := (load v).bind fun node =>
    (c.readAll emit (items node)).map fun vec => OrderedMap.empty.fill (vec.map fun i => (i, ()))

/-- The loop of the encoder over the pairs of a map. -/
def Cast.writePairs {α : Type} (c : Cast α) : List (Text × α) → Entries → Option Entries
  | [], node => some node
  | i :: rest, node => (c.write load i.2).bind fun n => writePairs c rest (put i.1 n node)

/-- The loop of the decoder. -/
def Cast.readPairs {α : Type} (c : Cast α) : Entries → Option (List (Text × α))
  | .nil => some []
  | .cons key value rest => (c.read emit value).bind fun i => (readPairs c rest).map ((key, i) :: ·)

/-- The pairs that `begin()` to `end()` goes through. `Scalar()` throws for an item of a sequence, and a
scalar has none. -/
def pairsOf : Node → Option Entries
  | .map entries => some entries
  | .sequence [] => some .nil
  | .sequence _ => none
  | .scalar _ => some .nil

/-- `std::map<std::string, T>`. -/
def mapCast {α : Type} (c : Cast α) : Cast (OrderedMap stringOrder α) where
  toString v := (c.writePairs load v.entries .nil).map fun node => emit (.map node)
  fromString v := (load v).bind fun node => (pairsOf node).bind fun entries =>
    (c.readPairs emit entries).map fun pairs => OrderedMap.empty.fill pairs

end

/-! ## Types -/

/-- A type with a cast of its own, such as `boost::lexical_cast` has, and its `operator<`. -/
structure BaseType where
  Value : Type
  order : WeakOrder Value
  cast : Cast Value

/-- The types of configuration variables. -/
inductive Shape where
  | base (t : BaseType)
  | vector (s : Shape)
  | list (s : Shape)
  | set (t : BaseType)
  | map (s : Shape)

def Shape.Value : Shape → Type
  | .base t => t.Value
  | .vector s => List s.Value
  | .list s => List s.Value
  | .set t => StdSet t.order
  | .map s => OrderedMap stringOrder s.Value

def Shape.isBase : Shape → Bool
  | .base _ => true
  | _ => false

section
variable (load : Text → Option Node) (emit : Node → Text)

def Shape.cast : (s : Shape) → Cast s.Value
  | .base t => t.cast
  | .vector s => vectorCast load emit s.cast
  | .list s => listCast load emit s.cast
  | .set t => setCast load emit t.order t.cast
  | .map s => mapCast load emit s.cast

/-- What an item comes back as from a container. -/
def Cast.back {α : Type} (c : Cast α) (x : α) : Option α := (c.write load x).bind (c.read emit)

/-- The item comes back from a container. -/
def Returns {α : Type} (c : Cast α) (x : α) : Prop := c.back load emit x = some x

/-- The items come back, in any order. -/
def Permuted {α : Type} (c : Cast α) (v : List α) : Prop :=
  ∃ l, v.mapM (c.back load emit) = some l ∧ l.Perm v

/-- All leaves return; those of a set may change places. -/
def Shape.LeavesReturn : (s : Shape) → s.Value → Prop
  | .base t, v => Returns load emit t.cast v
  | .vector s, (v : List s.Value) => ∀ x ∈ v, s.LeavesReturn x
  | .list s, (v : List s.Value) => ∀ x ∈ v, s.LeavesReturn x
  | .set t, (v : StdSet t.order) => Permuted load emit t.cast (v.entries.map Prod.fst)
  | .map s, (v : OrderedMap stringOrder s.Value) => ∀ x ∈ v.entries, s.LeavesReturn x.2

/-- The tree that is written for the items is loaded from its own text. -/
def SequenceLoads {α : Type} (c : Cast α) (v : List α) : Prop :=
  ∀ nodes, c.writeAll load v = some nodes → load (emit (.sequence nodes)) = some (.sequence nodes)

def MapLoads {α : Type} (c : Cast α) (v : List (Text × α)) : Prop :=
  ∀ node, c.writePairs load v .nil = some node → load (emit (.map node)) = some (.map node)

/-- So are those of all containers in the value. -/
def Shape.Loads : (s : Shape) → s.Value → Prop
  | .base _, _ => True
  | .vector s, (v : List s.Value) => (∀ x ∈ v, s.Loads x) ∧ SequenceLoads load emit (s.cast load emit) v
  | .list s, (v : List s.Value) => (∀ x ∈ v, s.Loads x) ∧ SequenceLoads load emit (s.cast load emit) v
  | .set t, (v : StdSet t.order) => SequenceLoads load emit t.cast (v.entries.map Prod.fst)
  | .map s, (v : OrderedMap stringOrder s.Value) =>
    (∀ x ∈ v.entries, s.Loads x.2) ∧ MapLoads load emit (s.cast load emit) v.entries

end

/-! ## Lists through text -/

section
variable {α β : Type} {f : α → Option β} {g : β → Option α}

theorem mapM_cons (f : α → Option β) (x : α) (rest : List α) :
    (x :: rest).mapM f = (f x).bind fun y => (rest.mapM f).map (y :: ·) := by
  rw [List.mapM_cons]
  cases f x with
  | none => rfl
  | some y => cases rest.mapM f <;> rfl

/-- All items go there, then all come back. -/
theorem mapM_bind_mapM (f : α → Option β) (g : β → Option α) (v : List α) :
    (v.mapM f).bind (List.mapM g) = v.mapM fun x => (f x).bind g := by
  induction v with
  | nil => rfl
  | cons x rest ih =>
    rw [mapM_cons, mapM_cons, ← ih]
    cases hx : f x with
    | none => rfl
    | some y =>
      cases hrest : rest.mapM f with
      | none => cases hy : g y <;> simp [hy]
      | some ys => simp only [Option.bind_some, Option.map_some, mapM_cons]

theorem mapM_eq_self_iff {f : α → Option α} {v : List α} : v.mapM f = some v ↔ ∀ x ∈ v, f x = some x := by
  induction v with
  | nil => simp
  | cons x rest ih =>
    rw [mapM_cons, List.forall_mem_cons, ← ih]
    cases hx : f x with
    | none => simp
    | some y =>
      cases hrest : rest.mapM f with
      | none => simp
      | some ys => simp

theorem length_mapM {v : List α} {l : List β} (h : v.mapM f = some l) : l.length = v.length := by
  induction v generalizing l with
  | nil =>
    cases h
    rfl
  | cons x rest ih =>
    rw [mapM_cons] at h
    obtain ⟨y, _, h⟩ := Option.bind_eq_some_iff.mp h
    obtain ⟨ys, hrest, heq⟩ := Option.map_eq_some_iff.mp h
    rw [← heq, List.length_cons, List.length_cons, ih hrest]

/-- Keys that stay. -/
theorem keys_mapM {κ : Type} {f : α → Option β} {v : List (κ × α)} {l : List (κ × β)}
    (h : (v.mapM fun i => (f i.2).map fun x => (i.1, x)) = some l) : l.map Prod.fst = v.map Prod.fst := by
  induction v generalizing l with
  | nil =>
    cases h
    rfl
  | cons i rest ih =>
    rw [mapM_cons] at h
    obtain ⟨y, hy, h⟩ := Option.bind_eq_some_iff.mp h
    obtain ⟨ys, hrest, heq⟩ := Option.map_eq_some_iff.mp h
    obtain ⟨x, _, hx⟩ := Option.map_eq_some_iff.mp hy
    rw [← heq, List.map_cons, List.map_cons, ih hrest, ← hx]

end

/-! ## The loops -/

section
variable {α : Type} {load : Text → Option Node} {emit : Node → Text} (c : Cast α)

theorem writeAll_eq (v : List α) : c.writeAll load v = v.mapM (c.write load) := by
  induction v with
  | nil => rfl
  | cons i rest ih =>
    rw [mapM_cons, Cast.writeAll, ih]

theorem readAll_eq (nodes : List Node) : c.readAll emit nodes = nodes.mapM (c.read emit) := by
  induction nodes with
  | nil => rfl
  | cons node rest ih =>
    rw [mapM_cons, Cast.readAll, ih]

theorem all_back (v : List α) :
    (c.writeAll load v).bind (c.readAll emit) = v.mapM (c.back load emit) := by
  have hread : c.readAll emit = List.mapM (c.read emit) := funext (readAll_eq c)
  rw [hread, writeAll_eq, mapM_bind_mapM]
  rfl

/-- The pairs of a tree. -/
def pairs : List (Text × Node) → Entries
  | [] => .nil
  | p :: rest => .cons p.1 p.2 (pairs rest)

/-- A key that is not there comes to the end. -/
theorem put_pairs {key : Text} (v : Node) : ∀ {l : List (Text × Node)}, key ∉ l.map Prod.fst →
    put key v (pairs l) = pairs (l ++ [(key, v)])
  | [], _ => rfl
  | p :: rest, h => by
    rw [List.map_cons, List.mem_cons, not_or] at h
    rw [pairs, put, if_neg (Ne.symm h.1), put_pairs v h.2]
    rfl

theorem writePairs_eq (v : List (Text × α)) : ∀ l : List (Text × Node),
    (l.map Prod.fst ++ v.map Prod.fst).Nodup →
    c.writePairs load v (pairs l) =
      (v.mapM fun i => (c.write load i.2).map fun n => (i.1, n)).map fun r => pairs (l ++ r) := by
  induction v with
  | nil =>
    intro l _
    simp [Cast.writePairs]
  | cons i rest ih =>
    intro l hl
    rw [mapM_cons, Cast.writePairs]
    cases hi : c.write load i.2 with
    | none => rfl
    | some n =>
      have hfresh : i.1 ∉ l.map Prod.fst := by
        intro hmem
        exact (List.nodup_append.mp hl).2.2 i.1 hmem i.1 (by simp) rfl
      have hnext : ((l ++ [(i.1, n)]).map Prod.fst ++ rest.map Prod.fst).Nodup := by
        simpa using hl
      rw [Option.bind_some, put_pairs n hfresh, ih _ hnext]
      cases hrest : rest.mapM fun i => (c.write load i.2).map fun n => (i.1, n) with
      | none => simp
      | some r => simp

theorem readPairs_eq : ∀ l : List (Text × Node),
    c.readPairs emit (pairs l) = l.mapM fun p => (c.read emit p.2).map fun i => (p.1, i)
  | [] => rfl
  | p :: rest => by
    rw [mapM_cons, pairs, Cast.readPairs, readPairs_eq rest, Option.bind_map]
    rfl

/-- Pairs of different keys, to a tree and back. -/
theorem pairs_back {v : List (Text × α)} (h : (v.map Prod.fst).Nodup) :
    (c.writePairs load v .nil).bind (c.readPairs emit) =
      v.mapM fun i => (c.back load emit i.2).map fun x => (i.1, x) := by
  have hwrite : c.writePairs load v .nil =
      (v.mapM fun i => (c.write load i.2).map fun n => (i.1, n)).map fun r => pairs r :=
    writePairs_eq c v [] (by simpa using h)
  have hread : (fun l => c.readPairs emit (pairs l)) =
      List.mapM fun p => (c.read emit p.2).map fun i => (p.1, i) := funext (readPairs_eq c)
  have hitem : (fun i : Text × α => (c.back load emit i.2).map fun x => (i.1, x)) = fun i =>
      ((c.write load i.2).map fun n => (i.1, n)).bind fun p => (c.read emit p.2).map fun x => (p.1, x) := by
    funext i
    cases hi : c.write load i.2 <;> simp [Cast.back, hi]
  rw [hitem, ← mapM_bind_mapM, ← hread]
  rw [hwrite, Option.bind_map]
  rfl

end

/-! ## Containers -/

section
variable {load : Text → Option Node} {emit : Node → Text}

/-- Where the text of a value is what is streamed for the tree loaded from it, to come back from a
container is to come back from the text. -/
theorem returns_iff_text {α : Type} {c : Cast α} {x : α}
    (h : ∀ t, c.toString x = some t → ∃ node, load t = some node ∧ emit node = t) :
    Returns load emit c x ↔ (c.toString x).bind c.fromString = some x := by
  rw [Returns, Cast.back, Cast.write]
  cases hx : c.toString x with
  | none => rfl
  | some t =>
    obtain ⟨node, hload, hemit⟩ := h t hx
    simp [hload, Cast.read, hemit]

theorem sequence_streamed {α : Type} {c : Cast α} {v : List α} (h : SequenceLoads load emit c v) {t : Text}
    (ht : (c.writeAll load v).map (fun nodes => emit (.sequence nodes)) = some t) :
    ∃ node, load t = some node ∧ emit node = t := by
  obtain ⟨nodes, hnodes, heq⟩ := Option.map_eq_some_iff.mp ht
  exact ⟨.sequence nodes, by rw [← heq]; exact h nodes hnodes, heq⟩

theorem map_streamed {α : Type} {c : Cast α} {v : List (Text × α)} (h : MapLoads load emit c v) {t : Text}
    (ht : (c.writePairs load v .nil).map (fun node => emit (.map node)) = some t) :
    ∃ node, load t = some node ∧ emit node = t := by
  obtain ⟨node, hnode, heq⟩ := Option.map_eq_some_iff.mp ht
  exact ⟨.map node, by rw [← heq]; exact h node hnode, heq⟩

/-- The text of a sequence holds its items. -/
theorem sequence_text {α β : Type} {c : Cast α} {v : List α} (h : SequenceLoads load emit c v) (k : List α → β) :
    (((c.writeAll load v).map fun nodes => emit (.sequence nodes)).bind fun t =>
      (load t).bind fun node => (c.readAll emit (items node)).map k) = (v.mapM (c.back load emit)).map k := by
  rw [← all_back]
  cases hv : c.writeAll load v with
  | none => rfl
  | some nodes => simp [h nodes hv, items]

theorem map_text {α β : Type} {c : Cast α} {v : List (Text × α)} (h : MapLoads load emit c v)
    (hkeys : (v.map Prod.fst).Nodup) (k : List (Text × α) → β) :
    (((c.writePairs load v .nil).map fun node => emit (.map node)).bind fun t =>
      (load t).bind fun node => (pairsOf node).bind fun entries => (c.readPairs emit entries).map k) =
      (v.mapM fun i => (c.back load emit i.2).map fun x => (i.1, x)).map k := by
  rw [← pairs_back c hkeys]
  cases hv : c.writePairs load v .nil with
  | none => rfl
  | some node => simp [h node hv, pairsOf]

theorem vector_text_iff {α : Type} {c : Cast α} {v : List α} (h : SequenceLoads load emit c v) :
    ((vectorCast load emit c).toString v).bind (vectorCast load emit c).fromString = some v ↔
      ∀ x ∈ v, Returns load emit c x := by
  have htext := sequence_text h id
  simp only [Option.map_id_fun, id_eq] at htext
  simp only [vectorCast]
  rw [htext]
  exact mapM_eq_self_iff

/-- A set comes back where its items do, in any order. -/
theorem set_text_iff {α : Type} {order : WeakOrder α} {c : Cast α} {v : StdSet order}
    (h : SequenceLoads load emit c (v.entries.map Prod.fst)) :
    ((setCast load emit order c).toString v).bind (setCast load emit order c).fromString = some v ↔
      Permuted load emit c (v.entries.map Prod.fst) := by
  simp only [setCast]
  rw [sequence_text h, Option.map_eq_some_iff]
  apply exists_congr
  intro l
  apply and_congr_right
  intro hl
  have hlength : (l.map fun i => (i, ())).length = v.entries.length := by
    rw [List.length_map, length_mapM hl, List.length_map]
  rw [OrderedMap.fill_eq_iff v hlength]
  have hentries : (v.entries.map Prod.fst).map (fun i => (i, ())) = v.entries := by
    rw [List.map_map]
    exact List.map_id _
  constructor
  · intro hperm
    have hfst := hperm.map Prod.fst
    rw [List.map_map] at hfst
    exact List.map_id l ▸ hfst
  · intro hperm
    rw [← hentries]
    exact hperm.map _

/-- The keys of a map are written as they are, so its values come back to their places. -/
theorem map_text_iff {α : Type} {c : Cast α} {v : OrderedMap stringOrder α}
    (h : MapLoads load emit c v.entries) :
    ((mapCast load emit c).toString v).bind (mapCast load emit c).fromString = some v ↔
      ∀ x ∈ v.entries, Returns load emit c x.2 := by
  simp only [mapCast]
  rw [map_text h v.nodup_keys, Option.map_eq_some_iff]
  have hreturns : (v.entries.mapM fun i => (c.back load emit i.2).map fun x => (i.1, x)) = some v.entries ↔
      ∀ x ∈ v.entries, Returns load emit c x.2 := by
    rw [mapM_eq_self_iff]
    apply forall₂_congr
    intro i _
    simp [Returns, Prod.ext_iff]
  rw [← hreturns]
  constructor
  · intro hback
    obtain ⟨l, hl, hfill⟩ := hback
    rw [hl, (v.fill_eq_iff_of_keys (keys_mapM hl)).mp hfill]
  · intro hv
    exact ⟨v.entries, hv, (v.fill_eq_iff_of_keys rfl).mpr rfl⟩

/-! ## Nesting -/

/-- A value comes back from a container, and from its own text where it is one, with its leaves. -/
theorem leaves_return (s : Shape) : ∀ v : s.Value, s.Loads load emit v →
    (Returns load emit (s.cast load emit) v ↔ s.LeavesReturn load emit v) ∧
    (s.isBase = false → (((s.cast load emit).toString v).bind (s.cast load emit).fromString = some v ↔
      s.LeavesReturn load emit v)) := by
  induction s with
  | base t =>
    intro v _
    exact ⟨Iff.rfl, fun h => by cases h⟩
  | vector s ih =>
    intro v h
    have htext := (vector_text_iff h.2).trans (forall₂_congr fun x hx => (ih x (h.1 x hx)).1)
    exact ⟨(returns_iff_text fun t ht => sequence_streamed h.2 ht).trans htext, fun _ => htext⟩
  | list s ih =>
    intro v h
    have htext := (vector_text_iff h.2).trans (forall₂_congr fun x hx => (ih x (h.1 x hx)).1)
    exact ⟨(returns_iff_text fun t ht => sequence_streamed h.2 ht).trans htext, fun _ => htext⟩
  | set t =>
    intro v h
    have htext := set_text_iff  h
    exact ⟨(returns_iff_text fun t ht => sequence_streamed h ht).trans htext, fun _ => htext⟩
  | map s ih =>
    intro v h
    have htext := (map_text_iff h.2).trans (forall₂_congr fun x hx => (ih x.2 (h.1 x hx)).1)
    exact ⟨(returns_iff_text fun t ht => map_streamed h.2 ht).trans htext, fun _ => htext⟩

/-- A container comes back from its text if and only if its leaves do. -/
theorem cast_round_trip_iff {s : Shape} (hs : s.isBase = false) {v : s.Value} (h : s.Loads load emit v) :
    ((s.cast load emit).toString v).bind (s.cast load emit).fromString = some v ↔ s.LeavesReturn load emit v :=
  (leaves_return s v h).2 hs

end

/-! ## An instance -/

/-- `std::string`. -/
def stringType : BaseType where
  Value := Text
  order := stringOrder
  cast := { toString := some, fromString := some }

/-- What yaml-cpp loads from some texts. A null node is streamed as `~`. -/
def loaded : List (Text × Node) :=
  [(text "80", .scalar (text "80")), (text "443", .scalar (text "443")), ([], .scalar (text "~")),
    (text "- 80\n- 443", .sequence [.scalar (text "80"), .scalar (text "443")]),
    (text "- 80\n- ~", .sequence [.scalar (text "80"), .scalar (text "~")]),
    (text "a:\n  - 80\n  - 443",
      .map (.cons (text "a") (.sequence [.scalar (text "80"), .scalar (text "443")]) .nil)),
    (text "a:\n  - 80\n  - ~",
      .map (.cons (text "a") (.sequence [.scalar (text "80"), .scalar (text "~")]) .nil))]

def sampleLoad (t : Text) : Option Node := (loaded.find? fun p => p.1 == t).map Prod.snd

/-- What it streams for them. -/
def sampleEmit : Node → Text
  | .scalar s => s
  | .sequence [.scalar a, .scalar b] => text "- " ++ a ++ text "\n- " ++ b
  | .map (.cons key (.sequence [.scalar a, .scalar b]) .nil) =>
    key ++ text ":\n  - " ++ a ++ text "\n  - " ++ b
  | _ => []

/-- `std::map<std::string, std::vector<std::string>>`. -/
def portsShape : Shape := .map (.vector (.base stringType))

/-- One key with two items. -/
def ports (a b : Text) : portsShape.Value :=
  (OrderedMap.empty : OrderedMap stringOrder (List Text)).set (text "a") [a, b]

theorem ports_loads {b : Text} (hb : b = text "443" ∨ b = []) :
    portsShape.Loads sampleLoad sampleEmit (ports (text "80") b) := by
  have hvector : SequenceLoads sampleLoad sampleEmit stringType.cast [text "80", b] := by
    intro nodes h
    rcases hb with rfl | rfl
    · cases h
      rfl
    · cases h
      rfl
  constructor
  · intro x hx
    obtain rfl := List.mem_singleton.mp hx
    exact ⟨fun _ _ => trivial, hvector⟩
  · intro node h
    rcases hb with rfl | rfl
    · cases h
      rfl
    · cases h
      rfl

/-- Two ports come back; an empty string is null on the way and does not. -/
theorem cast_round_trip_iff_ports :
    let c := portsShape.cast sampleLoad sampleEmit
    (c.toString (ports (text "80") (text "443"))).bind c.fromString = some (ports (text "80") (text "443")) ∧
    (c.toString (ports (text "80") [])).bind c.fromString ≠ some (ports (text "80") []) := by
  constructor
  · apply (cast_round_trip_iff rfl (ports_loads (.inl rfl))).mpr
    intro x hx
    obtain rfl := List.mem_singleton.mp hx
    intro port hport
    rcases List.mem_pair.mp hport with rfl | rfl
    · rfl
    · rfl
  · intro hback
    have hleaves := (cast_round_trip_iff rfl (ports_loads (.inr rfl))).mp hback
    have hnull : sampleEmit (.scalar (text "~")) = [] :=
      Option.some.inj (hleaves (text "a", [text "80", []]) (List.mem_singleton.mpr rfl) []
        (List.mem_pair.mpr (.inr rfl)))
    exact absurd hnull (by decide)

end Sylar.Config
