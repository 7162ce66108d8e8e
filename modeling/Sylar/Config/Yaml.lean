import Mathlib.Data.List.Basic
import Mathlib.Logic.Function.Basic
import Sylar.Lib.Bytes

/- `Config::Lookup`, `ListAllMember` and `Config::LoadFromYaml` of `sylar/config.h` and
   `sylar/config.cc`.

   Names are documented to be of `[0-9a-z_.]`; the alphabet the code checks against,
   written out twice, has no `9`. `ListAllMember` checks a name before `LoadFromYaml`
   folds its case, so a key with an upper-case letter is dropped with all below it, and
   takes an empty name for the root's, so leading empty keys vanish from the names below.
   `load_reaches_iff` says for which names, registries and trees none of this shows.

   Correspondence (C++ ↔ Lean):
     `find_first_not_of("abc…") != npos`   ↔ `invalid`
     `Config::GetDatas()`                  ↔ `Datas`, by name
     `Config::Lookup(name, default)`       ↔ `lookup`
     `ListAllMember`                       ↔ `Node.listAllMember`
     the loop of `Config::LoadFromYaml`    ↔ `Load.step`
   A variable is whatever `fromString` makes of it, and `emit` is the text yaml-cpp
   streams for a node that is no scalar. -/
namespace Sylar.Config
open Sylar.Lib

abbrev Text := List UInt8

mutual

/-- A YAML tree. -/
inductive Node where
  | scalar (s : Text)
  | sequence (items : List Node)
  | map (entries : Entries)

/-- The pairs of a map, in document order. -/
inductive Entries where
  | nil
  | cons (key : Text) (value : Node) (rest : Entries)

end

/-- `"abcdefghikjlmnopqrstuvwxyz._012345678"`. -/
def alphabet : Text :=
  [0x61, 0x62, 0x63, 0x64, 0x65, 0x66, 0x67, 0x68, 0x69, 0x6b, 0x6a, 0x6c, 0x6d, 0x6e, 0x6f, 0x70, 0x71, 0x72,
    0x73, 0x74, 0x75, 0x76, 0x77, 0x78, 0x79, 0x7a, 0x2e, 0x5f, 0x30, 0x31, 0x32, 0x33, 0x34, 0x35, 0x36, 0x37, 0x38]

def invalid (name : Text) : Bool := name.any fun c => !alphabet.contains c

def isUpper (c : UInt8) : Bool := decide (0x41 ≤ c ∧ c ≤ 0x5a)

def tolower (c : UInt8) : UInt8 := if isUpper c then c + 0x20 else c

/-! ## The registry -/

/-- The variables by name; `V` is a variable. -/
abbrev Datas (V : Type) := Text → Option V

structure InvalidArgument where
  name : Text
  deriving DecidableEq, Repr

section
variable {V : Type} (fromString : V → Text → V) (emit : Node → Text)

/-- `Lookup<T>`: `isType` says whether a variable is a `ConfigVar<T>`, `var` is the one made of the
default. The result is null for a variable of another type. -/
def lookup (datas : Datas V) (isType : V → Bool) (name : Text) (var : V) :
    Except InvalidArgument (Datas V × Option V) :=
  match datas name with
  | some v => .ok (datas, if isType v then some v else none)
  | none =>
    if invalid name then .error ⟨name⟩
    else .ok (Function.update datas name (some var), some var)

/-! ## Loading -/

/-- An entry of `output`. The code keeps the name and the node; `keys` are the keys on the way there. -/
structure Member where
  keys : List Text
  name : Text
  node : Node

mutual

def Node.listAllMember (keys : List Text) (name : Text) (node : Node) : List Member :=
  if invalid name then []
  else
    { keys := keys, name := name, node := node } ::
      match node with
      | .scalar _ => []
      | .sequence _ => []
      | .map entries => entries.listAllMember keys name

def Entries.listAllMember (keys : List Text) (name : Text) : Entries → List Member
  | .nil => []
  | .cons key value rest =>
    value.listAllMember (keys ++ [key]) (if name = [] then key else name ++ [0x2e] ++ key) ++
      rest.listAllMember keys name

end

def Node.text : Node → Text
  | .scalar s => s
  | node => emit node

/-- A call of `fromString`: the keys on the way to the node, the variable, the node's text. -/
structure Call where
  keys : List Text
  name : Text
  text : Text
  deriving DecidableEq, Repr

structure Load (V : Type) where
  datas : Datas V
  calls : List Call

def Load.step (s : Load V) (m : Member) : Load V :=
  if m.name = [] then s
  else
    let key := m.name.map tolower
    match s.datas key with
    | some var =>
      { datas := Function.update s.datas key (some (fromString var (m.node.text emit)))
        calls := s.calls ++ [{ keys := m.keys, name := key, text := m.node.text emit }] }
    | none => s

def loadFromYaml (datas : Datas V) (root : Node) : Load V :=
  (root.listAllMember [] []).foldl (Load.step fromString emit) { datas := datas, calls := [] }

/-- The registries of a process: each name comes from a `Lookup`. -/
inductive Built : Datas V → Prop
  | empty : Built fun _ => none
  | lookup {datas datas' : Datas V} {isType : V → Bool} {name : Text} {var : V} {r : Option V} :
      Built datas → lookup datas isType name var = .ok (datas', r) → Built datas'
  | load {datas : Datas V} (root : Node) : Built datas → Built (loadFromYaml fromString emit datas root).datas

end

/-! ## What should be called -/

/-- The documented `[0-9a-z_.]`. -/
def documented (c : UInt8) : Bool :=
  decide (0x30 ≤ c ∧ c ≤ 0x39) || decide (0x61 ≤ c ∧ c ≤ 0x7a) || c == 0x5f || c == 0x2e

mutual

/-- The nodes that keys lead to, in document pre-order. -/
def Node.members (keys : List Text) (node : Node) : List (List Text × Node) :=
  (keys, node) ::
    match node with
    | .scalar _ => []
    | .sequence _ => []
    | .map entries => entries.members keys

def Entries.members (keys : List Text) : Entries → List (List Text × Node)
  | .nil => []
  | .cons key value rest => value.members (keys ++ [key]) ++ rest.members keys

end

def dotted (keys : List Text) : Text := [0x2e].intercalate keys

/-- The keys joined with dots and lower-cased. -/
def spelled (keys : List Text) : Text := (dotted keys).map tolower

/-- The call at a node, where its keys spell a variable's name. -/
def wantedAt {V : Type} (emit : Node → Text) (datas : Datas V) (m : List Text × Node) : Option Call :=
  if (datas (spelled m.1)).isSome then
    some { keys := m.1, name := spelled m.1, text := m.2.text emit }
  else none

def wanted {V : Type} (emit : Node → Text) (datas : Datas V) (root : Node) : List Call :=
  (root.members []).filterMap (wantedAt emit datas)

/-! ## Names -/

theorem invalid_append (a b : Text) : invalid (a ++ b) = (invalid a || invalid b) := List.any_append

theorem dotted_cons_cons (a b : Text) (rest : List Text) :
    dotted (a :: b :: rest) = a ++ 0x2e :: dotted (b :: rest) := by
  simp [dotted, List.intercalate, List.intersperse]

theorem dotted_snoc : ∀ (keys : List Text) (key : Text), keys ≠ [] →
    dotted (keys ++ [key]) = dotted keys ++ [0x2e] ++ key := by
  intro keys
  induction keys with
  | nil => intro key h; exact absurd rfl h
  | cons a rest ih =>
    intro key _
    cases rest with
    | nil => simp [dotted, List.intercalate, List.intersperse]
    | cons b rest =>
      rw [List.cons_append, List.cons_append, dotted_cons_cons, dotted_cons_cons, ← List.cons_append,
        ih key (List.cons_ne_nil _ _)]
      simp

theorem dotted_cons_ne_nil {key : Text} (h : key ≠ []) (rest : List Text) : dotted (key :: rest) ≠ [] := by
  cases rest with
  | nil => simpa [dotted, List.intercalate] using h
  | cons b rest =>
    rw [dotted_cons_cons]
    simp

/-- The keys as `ListAllMember` joins them: without the leading empty ones. -/
def joined (keys : List Text) : Text := dotted (keys.dropWhile List.isEmpty)

theorem dropWhile_isEmpty_cons (keys : List Text) :
    keys.dropWhile List.isEmpty = [] ∨ ∃ key rest, key ≠ [] ∧ keys.dropWhile List.isEmpty = key :: rest := by
  induction keys with
  | nil => exact Or.inl rfl
  | cons a rest ih =>
    cases a with
    | nil => simpa using ih
    | cons c cs => exact Or.inr ⟨c :: cs, rest, List.cons_ne_nil _ _, rfl⟩

/-- The name of a child, as the code makes it. -/
theorem joined_snoc (keys : List Text) (key : Text) :
    (if joined keys = [] then key else joined keys ++ [0x2e] ++ key) = joined (keys ++ [key]) := by
  unfold joined
  rw [List.dropWhile_append]
  rcases dropWhile_isEmpty_cons keys with hnil | ⟨first, rest, hfirst, hcons⟩
  · rw [hnil]
    cases key with
    | nil => rfl
    | cons c cs => simp [dotted, List.intercalate]
  · rw [hcons, if_neg (dotted_cons_ne_nil hfirst rest), if_neg (by simp), dotted_snoc _ _ (List.cons_ne_nil _ _)]

/-- A name that is not valid stays so further down. -/
theorem invalid_joined_snoc {keys : List Text} (h : invalid (joined keys) = true) (key : Text) :
    invalid (joined (keys ++ [key])) = true := by
  rw [← joined_snoc]
  have hne : joined keys ≠ [] := by
    intro hnil
    rw [hnil] at h
    cases h
  rw [if_neg hne, invalid_append, invalid_append, h]
  rfl

/-! ## The walk over the tree -/

/-- What `ListAllMember` makes of a node that keys lead to. -/
def listed (m : List Text × Node) : Option Member :=
  if invalid (joined m.1) then none else some { keys := m.1, name := joined m.1, node := m.2 }

mutual

theorem filterMap_members_invalid (keys : List Text) (h : invalid (joined keys) = true) :
    ∀ node : Node, (node.members keys).filterMap listed = []
  | .scalar s => by simp [Node.members, listed, h]
  | .sequence items => by simp [Node.members, listed, h]
  | .map entries => by
    have hnone : listed (keys, .map entries) = none := if_pos h
    rw [Node.members, List.filterMap_cons_none hnone]
    exact filterMap_entries_invalid keys h entries

theorem filterMap_entries_invalid (keys : List Text) (h : invalid (joined keys) = true) :
    ∀ entries : Entries, (entries.members keys).filterMap listed = []
  | .nil => rfl
  | .cons key value rest => by
    rw [Entries.members, List.filterMap_append,
      filterMap_members_invalid (keys ++ [key]) (invalid_joined_snoc h key) value,
      filterMap_entries_invalid keys h rest]
    rfl

end

mutual

/-- `ListAllMember` lists the nodes in document pre-order, less those whose name is not valid. -/
theorem listAllMember_eq (keys : List Text) : ∀ node : Node,
    node.listAllMember keys (joined keys) = (node.members keys).filterMap listed
  | .scalar s => by
    rw [Node.listAllMember, Node.members]
    by_cases h : invalid (joined keys) = true
    · simp [listed, h]
    · simp [listed, h]
  | .sequence items => by
    rw [Node.listAllMember, Node.members]
    by_cases h : invalid (joined keys) = true
    · simp [listed, h]
    · simp [listed, h]
  | .map entries => by
    by_cases h : invalid (joined keys) = true
    · rw [filterMap_members_invalid keys h, Node.listAllMember, if_pos h]
    · have hsome : listed (keys, .map entries) = some ⟨keys, joined keys, .map entries⟩ := if_neg h
      rw [Node.listAllMember, if_neg h, Node.members, List.filterMap_cons_some hsome]
      exact congrArg _ (entriesListAllMember_eq keys entries)

theorem entriesListAllMember_eq (keys : List Text) : ∀ entries : Entries,
    entries.listAllMember keys (joined keys) = (entries.members keys).filterMap listed
  | .nil => rfl
  | .cons key value rest => by
    rw [Entries.listAllMember, Entries.members, List.filterMap_append, joined_snoc,
      listAllMember_eq (keys ++ [key]) value, entriesListAllMember_eq keys rest]

end

/-! ## The loop over the members -/

section
variable {V : Type} (fromString : V → Text → V) (emit : Node → Text)

/-- The call a member leads to. -/
def called (datas : Datas V) (m : Member) : Option Call :=
  if m.name ≠ [] ∧ (datas (m.name.map tolower)).isSome then
    some { keys := m.keys, name := m.name.map tolower, text := m.node.text emit }
  else none

/-- One member: a call of `fromString` on the variable of its name, or nothing. -/
theorem Load.step_cases (s : Load V) (m : Member) :
    (called emit s.datas m = none ∧ s.step fromString emit m = s) ∨
    ∃ call var, called emit s.datas m = some call ∧ s.datas call.name = some var ∧
      s.step fromString emit m =
        { datas := Function.update s.datas call.name (some (fromString var call.text))
          calls := s.calls ++ [call] } := by
  unfold called Load.step
  by_cases hempty : m.name = []
  · exact Or.inl ⟨by simp [hempty], by simp [hempty]⟩
  · cases hvar : s.datas (m.name.map tolower) with
    | none => exact Or.inl ⟨by simp, by simp [hempty, hvar]⟩
    | some var => exact Or.inr ⟨_, var, by simp [hempty]; rfl, hvar, by simp [hempty, hvar]⟩

theorem called_congr {datas datas' : Datas V} (h : ∀ x, (datas' x).isSome = (datas x).isSome) (m : Member) :
    called emit datas' m = called emit datas m := by
  unfold called
  rw [h]

/-- No step adds or removes a variable. -/
theorem Load.isSome_step (s : Load V) (m : Member) (x : Text) :
    ((s.step fromString emit m).datas x).isSome = (s.datas x).isSome := by
  rcases Load.step_cases fromString emit s m with ⟨-, heq⟩ | ⟨call, var, -, hvar, heq⟩
  · rw [heq]
  · rw [heq]
    by_cases hx : x = call.name
    · rw [hx, hvar]
      simp
    · simp [Function.update_of_ne hx]

theorem Load.run (ms : List Member) : ∀ s : Load V,
    (ms.foldl (Load.step fromString emit) s).calls = s.calls ++ ms.filterMap (called emit s.datas) ∧
    (∀ x, ((ms.foldl (Load.step fromString emit) s).datas x).isSome = (s.datas x).isSome) ∧
    ∀ x, (∀ call ∈ ms.filterMap (called emit s.datas), call.name ≠ x) →
      (ms.foldl (Load.step fromString emit) s).datas x = s.datas x := by
  induction ms with
  | nil => intro s; exact ⟨(List.append_nil _).symm, fun _ => rfl, fun _ _ => rfl⟩
  | cons m rest ih =>
    intro s
    have hsome := Load.isSome_step fromString emit s m
    have hcalled : called emit (s.step fromString emit m).datas = called emit s.datas :=
      funext (called_congr emit hsome)
    obtain ⟨hcalls, hdom, hkeep⟩ := ih (s.step fromString emit m)
    rw [hcalled] at hcalls hkeep
    rw [List.foldl_cons]
    rcases Load.step_cases fromString emit s m with ⟨hnone, heq⟩ | ⟨call, var, hcall, -, heq⟩
    · rw [List.filterMap_cons_none hnone]
      rw [heq] at hcalls hdom hkeep ⊢
      exact ⟨hcalls, hdom, hkeep⟩
    · rw [List.filterMap_cons_some hcall]
      refine ⟨?_, fun x => (hdom x).trans (hsome x), ?_⟩
      · rw [hcalls, heq, List.append_assoc]
        rfl
      · intro x hx
        obtain ⟨hfirst, hrest⟩ := List.forall_mem_cons.mp hx
        rw [hkeep x hrest, heq]
        exact Function.update_of_ne (Ne.symm hfirst) _ _

/-- The call at a node that keys lead to. -/
def callAt (datas : Datas V) (m : List Text × Node) : Option Call := (listed m).bind (called emit datas)

theorem loadFromYaml_calls (datas : Datas V) (root : Node) :
    (loadFromYaml fromString emit datas root).calls = (root.members []).filterMap (callAt emit datas) := by
  unfold loadFromYaml
  rw [(Load.run fromString emit _ _).1, List.nil_append]
  have hwalk := listAllMember_eq [] root
  have hroot : joined [] = [] := rfl
  rw [hroot] at hwalk
  rw [hwalk, List.filterMap_filterMap]
  rfl

/-- A variable without a call keeps its value. -/
theorem loadFromYaml_datas (datas : Datas V) (root : Node) (x : Text)
    (h : ∀ call ∈ (loadFromYaml fromString emit datas root).calls, call.name ≠ x) :
    (loadFromYaml fromString emit datas root).datas x = datas x := by
  unfold loadFromYaml at h ⊢
  obtain ⟨hcalls, -, hkeep⟩ := Load.run fromString emit (root.listAllMember [] []) { datas := datas, calls := [] }
  rw [hcalls, List.nil_append] at h
  exact hkeep x h

theorem loadFromYaml_isSome (datas : Datas V) (root : Node) (x : Text) :
    ((loadFromYaml fromString emit datas root).datas x).isSome = (datas x).isSome :=
  (Load.run fromString emit (root.listAllMember [] []) { datas := datas, calls := [] }).2.1 x

/-- Every variable's name is one `Lookup` lets through. -/
theorem Built.valid {datas : Datas V} (h : Built fromString emit datas) :
    ∀ x, (datas x).isSome = true → invalid x = false := by
  induction h with
  | empty => intro x hx; cases hx
  | @lookup datas datas' isType name var r _ heq ih =>
    intro x hx
    unfold Config.lookup at heq
    cases hname : datas name with
    | some v =>
      rw [hname] at heq
      obtain ⟨rfl, -⟩ := Prod.mk.inj (Except.ok.inj heq)
      exact ih x hx
    | none =>
      rw [hname] at heq
      by_cases hinvalid : invalid name = true
      · simp [hinvalid] at heq
      · simp only [hinvalid, Bool.false_eq_true, if_false] at heq
        obtain ⟨rfl, -⟩ := Prod.mk.inj (Except.ok.inj heq)
        by_cases hx' : x = name
        · rw [hx']
          simpa using hinvalid
        · rw [Function.update_of_ne hx'] at hx
          exact ih x hx
  | load root _ ih =>
    intro x hx
    rw [loadFromYaml_isSome] at hx
    exact ih x hx

end

/-! ## Characters -/

theorem not_isUpper_of_alphabet (c : UInt8) (h : alphabet.contains c = true) : isUpper c = false := by
  revert h
  exact forall_byte (p := fun c => alphabet.contains c = true → isUpper c = false) (by decide +kernel) c

theorem map_tolower_eq {name : Text} (h : ∀ c ∈ name, isUpper c = false) : name.map tolower = name := by
  conv_rhs => rw [← List.map_id name]
  refine List.map_congr_left ?_
  intro c hc
  simp [tolower, h c hc]

theorem invalid_eq_false_iff (name : Text) : invalid name = false ↔ ∀ c ∈ name, alphabet.contains c = true := by
  simp [invalid]

theorem not_isUpper_of_valid {name : Text} (h : invalid name = false) : ∀ c ∈ name, isUpper c = false := by
  intro c hc
  exact not_isUpper_of_alphabet c ((invalid_eq_false_iff name).mp h c hc)

/-- The characters of the joined keys are those of the keys, and dots. -/
theorem mem_dotted_iff {c : UInt8} (hdot : c ≠ 0x2e) : ∀ keys : List Text,
    c ∈ dotted keys ↔ ∃ key ∈ keys, c ∈ key := by
  intro keys
  induction keys with
  | nil => simp [dotted, List.intercalate]
  | cons a rest ih =>
    cases rest with
    | nil => simp [dotted, List.intercalate]
    | cons b rest =>
      rw [dotted_cons_cons, List.mem_append, List.mem_cons, ih]
      simp [hdot]

theorem not_isUpper_dotted {keys : List Text} :
    (∀ c ∈ dotted keys, isUpper c = false) ↔ ∀ key ∈ keys, ∀ c ∈ key, isUpper c = false := by
  constructor
  · intro h key hkey c hc
    by_cases hdot : c = 0x2e
    · rw [hdot]
      rfl
    · exact h c ((mem_dotted_iff hdot keys).mpr ⟨key, hkey, hc⟩)
  · intro h c hc
    by_cases hdot : c = 0x2e
    · rw [hdot]
      rfl
    · obtain ⟨key, hkey, hmem⟩ := (mem_dotted_iff hdot keys).mp hc
      exact h key hkey c hmem

theorem length_joined_le (keys : List Text) : (joined keys).length ≤ (dotted keys).length := by
  unfold joined
  induction keys with
  | nil => exact Nat.le_refl _
  | cons a rest ih =>
    cases a with
    | nil =>
      refine Nat.le_trans ih ?_
      cases rest with
      | nil => exact Nat.le_refl _
      | cons b rest =>
        rw [dotted_cons_cons]
        simp
    | cons c cs => exact Nat.le_refl _

/-! ## One node -/

/-- The way to a node shows nothing of the filter, of the folding or of an empty name: keys that
spell a variable have no upper-case letter and do not start with an empty one, and keys that do start
with an empty one do not, without the leading ones, spell a variable either. -/
structure Plain {V : Type} (datas : Datas V) (keys : List Text) : Prop where
  lower : (datas (spelled keys)).isSome = true → ∀ key ∈ keys, ∀ c ∈ key, isUpper c = false
  rooted : (datas (spelled keys)).isSome = true → ∃ key rest, keys = key :: rest ∧ key ≠ []
  leading : keys.head? = some [] → joined keys ≠ [] → datas (joined keys) = none

section
variable {V : Type} {datas : Datas V} (emit : Node → Text)

theorem callAt_eq_none (hvalid : ∀ x, (datas x).isSome = true → invalid x = false) (m : List Text × Node) :
    callAt emit datas m = none ↔ (joined m.1 ≠ [] → datas (joined m.1) = none) := by
  unfold callAt listed
  by_cases hinvalid : invalid (joined m.1) = true
  · rw [if_pos hinvalid]
    refine iff_of_true rfl ?_
    intro _
    cases hdata : datas (joined m.1) with
    | none => rfl
    | some v =>
      rw [hvalid _ (by rw [hdata]; rfl)] at hinvalid
      cases hinvalid
  · rw [if_neg hinvalid]
    have hlower := map_tolower_eq (not_isUpper_of_valid (by simpa using hinvalid))
    simp only [Option.bind_some, called, hlower]
    simp [Option.isSome_iff_ne_none]

/-- Behind a first key that is not empty. -/
theorem callAt_rooted (hvalid : ∀ x, (datas x).isSome = true → invalid x = false) {key : Text} (hkey : key ≠ [])
    (rest : List Text) (node : Node) :
    callAt emit datas (key :: rest, node) = wantedAt emit datas (key :: rest, node) ↔ Plain datas (key :: rest) := by
  have hjoined : joined (key :: rest) = dotted (key :: rest) := by
    cases key with
    | nil => exact absurd rfl hkey
    | cons c cs => rfl
  have hne := dotted_cons_ne_nil hkey rest
  have hplain : Plain datas (key :: rest) ↔
      ((datas (spelled (key :: rest))).isSome = true → invalid (dotted (key :: rest)) = false) := by
    constructor
    · intro h hsome
      have hlower := h.lower hsome
      have hspelled := map_tolower_eq (not_isUpper_dotted.mpr hlower)
      rw [← hspelled]
      exact hvalid _ hsome
    · intro h
      refine ⟨?_, fun _ => ⟨key, rest, rfl, hkey⟩, ?_⟩
      · intro hsome
        exact not_isUpper_dotted.mp (not_isUpper_of_valid (h hsome))
      · intro hhead
        exact absurd (Option.some.inj hhead) hkey
  rw [hplain]
  unfold callAt listed wantedAt
  simp only [hjoined]
  by_cases hsome : (datas (spelled (key :: rest))).isSome = true
  · rw [if_pos hsome]
    by_cases hinvalid : invalid (dotted (key :: rest)) = true
    · simp [hinvalid, hsome]
    · have hspell : (datas ((dotted (key :: rest)).map tolower)).isSome = true := hsome
      rw [if_neg hinvalid]
      refine iff_of_true ?_ (fun _ => by simpa using hinvalid)
      simp only [Option.bind_some, called]
      rw [if_pos ⟨hne, hspell⟩]
      rfl
  · rw [if_neg hsome]
    refine iff_of_true ?_ (fun h => absurd h hsome)
    have hspell : ¬ (datas ((dotted (key :: rest)).map tolower)).isSome = true := hsome
    by_cases hinvalid : invalid (dotted (key :: rest)) = true
    · rw [if_pos hinvalid]
      rfl
    · rw [if_neg hinvalid]
      simp only [Option.bind_some, called]
      rw [if_neg (fun h => hspell h.2)]

theorem callAt_some {m : List Text × Node} {call : Call} (h : callAt emit datas m = some call) :
    call.keys = m.1 ∧ call.name = (joined m.1).map tolower ∧ joined m.1 ≠ [] := by
  unfold callAt listed at h
  by_cases hinvalid : invalid (joined m.1) = true
  · simp [hinvalid] at h
  · simp only [hinvalid, Bool.false_eq_true, if_false, Option.bind_some, called,
      Option.ite_none_right_eq_some, Option.some.injEq] at h
    obtain ⟨⟨hne, -⟩, rfl⟩ := h
    exact ⟨rfl, rfl, hne⟩

theorem wantedAt_some {m : List Text × Node} {call : Call} (h : wantedAt emit datas m = some call) :
    call.keys = m.1 ∧ call.name = spelled m.1 := by
  simp only [wantedAt, Option.ite_none_right_eq_some, Option.some.injEq] at h
  obtain ⟨-, rfl⟩ := h
  exact ⟨rfl, rfl⟩

/-- At the root, and behind a first key that is empty: no call is the one the keys ask for. -/
theorem callAt_unrooted (hvalid : ∀ x, (datas x).isSome = true → invalid x = false) {keys : List Text}
    (hkeys : keys = [] ∨ ∃ rest, keys = [] :: rest) (node : Node) :
    callAt emit datas (keys, node) = wantedAt emit datas (keys, node) ↔ Plain datas keys := by
  have hdiffer : ∀ call, callAt emit datas (keys, node) = some call →
      wantedAt emit datas (keys, node) ≠ some call := by
    intro call hcall hwant
    obtain ⟨-, hname, hne⟩ := callAt_some emit hcall
    obtain ⟨-, hspelled⟩ := wantedAt_some emit hwant
    rcases hkeys with rfl | ⟨rest, rfl⟩
    · exact hne rfl
    · -- the dot behind the empty key is missing in the code's name
      cases rest with
      | nil => exact hne rfl
      | cons b rest =>
        have hlen := congrArg List.length (hname.symm.trans hspelled)
        have hle := length_joined_le (b :: rest)
        have hjoined : joined ([] :: b :: rest) = joined (b :: rest) := rfl
        have hdotted : dotted ([] :: b :: rest) = 0x2e :: dotted (b :: rest) := dotted_cons_cons _ _ _
        simp only [spelled, List.length_map, hjoined, hdotted, List.length_cons] at hlen
        omega
  have hwant : wantedAt emit datas (keys, node) = none ↔ ¬ (datas (spelled keys)).isSome = true := by
    simp [wantedAt]
  have hplain : Plain datas keys ↔
      ¬ (datas (spelled keys)).isSome = true ∧ (joined keys ≠ [] → datas (joined keys) = none) := by
    constructor
    · intro h
      refine ⟨?_, ?_⟩
      · intro hsome
        obtain ⟨key, rest, hcons, hkey⟩ := h.rooted hsome
        rcases hkeys with rfl | ⟨rest', rfl⟩
        · cases hcons
        · exact hkey (List.cons.inj hcons).1.symm
      · intro hne
        rcases hkeys with rfl | ⟨rest', rfl⟩
        · exact absurd rfl hne
        · exact h.leading rfl hne
    · rintro ⟨hnone, hjoined⟩
      exact ⟨fun h => absurd h hnone, fun h => absurd h hnone, fun _ => hjoined⟩
  rw [hplain, ← hwant, ← callAt_eq_none emit hvalid (keys, node)]
  constructor
  · intro heq
    cases hcall : callAt emit datas (keys, node) with
    | none => exact ⟨by rw [← heq, hcall], rfl⟩
    | some call => exact absurd (heq ▸ hcall) (hdiffer call hcall)
  · rintro ⟨hnone, hcall⟩
    rw [hnone, hcall]

theorem callAt_eq_iff (hvalid : ∀ x, (datas x).isSome = true → invalid x = false) (m : List Text × Node) :
    callAt emit datas m = wantedAt emit datas m ↔ Plain datas m.1 := by
  obtain ⟨keys, node⟩ := m
  match keys with
  | [] => exact callAt_unrooted emit hvalid (Or.inl rfl) node
  | [] :: rest => exact callAt_unrooted emit hvalid (Or.inr ⟨rest, rfl⟩) node
  | (c :: cs) :: rest => exact callAt_rooted emit hvalid (List.cons_ne_nil c cs) rest node

end

/-! ## All nodes -/

section
variable {α β γ : Type} {f g : α → Option β}

theorem filterMap_eq_of_isSome : ∀ l : List α, (∀ a ∈ l, (f a).isSome = true) → (∀ a ∈ l, (g a).isSome = true) →
    l.filterMap f = l.filterMap g → ∀ a ∈ l, f a = g a := by
  intro l
  induction l with
  | nil => intro _ _ _ a ha; cases ha
  | cons x rest ih =>
    intro hf hg heq a ha
    obtain ⟨hfx, hf⟩ := List.forall_mem_cons.mp hf
    obtain ⟨hgx, hg⟩ := List.forall_mem_cons.mp hg
    obtain ⟨b, hb⟩ := Option.isSome_iff_exists.mp hfx
    obtain ⟨c, hc⟩ := Option.isSome_iff_exists.mp hgx
    rw [List.filterMap_cons_some hb, List.filterMap_cons_some hc] at heq
    obtain ⟨rfl, htail⟩ := List.cons.inj heq
    rcases List.mem_cons.mp ha with rfl | ha
    · rw [hb, hc]
    · exact ih hf hg htail a ha

theorem filter_filterMap_label [DecidableEq γ] {key : α → γ} {label : β → γ}
    (hf : ∀ a b, f a = some b → label b = key a) (k : γ) : ∀ l : List α,
    (l.filterMap f).filter (fun b => decide (label b = k)) =
      (l.filter fun a => decide (key a = k)).filterMap f := by
  intro l
  induction l with
  | nil => rfl
  | cons x rest ih =>
    cases hx : f x with
    | none =>
      rw [List.filterMap_cons_none hx, ih]
      by_cases hk : key x = k
      · rw [List.filter_cons_of_pos (by simpa using hk), List.filterMap_cons_none hx]
      · rw [List.filter_cons_of_neg (by simpa using hk)]
    | some b =>
      have hlabel := hf x b hx
      rw [List.filterMap_cons_some hx]
      by_cases hk : key x = k
      · rw [List.filter_cons_of_pos (by simpa [hlabel] using hk), List.filter_cons_of_pos (by simpa using hk),
          List.filterMap_cons_some hx, ih]
      · rw [List.filter_cons_of_neg (by simpa [hlabel] using hk), List.filter_cons_of_neg (by simpa using hk), ih]

/-- Two selections from one list are the same exactly when they agree on every element, if what they
select tells its element's key and elements of one key are selected together. -/
theorem filterMap_eq_iff [DecidableEq γ] {key : α → γ} {label : β → γ}
    (hf : ∀ a b, f a = some b → label b = key a) (hg : ∀ a b, g a = some b → label b = key a)
    (hf' : ∀ a a', key a = key a' → (f a = none ↔ f a' = none))
    (hg' : ∀ a a', key a = key a' → (g a = none ↔ g a' = none)) (l : List α) :
    l.filterMap f = l.filterMap g ↔ ∀ a ∈ l, f a = g a := by
  constructor
  · intro heq a ha
    have hsub := filter_filterMap_label hf (key a) l
    rw [heq, filter_filterMap_label hg (key a) l] at hsub
    have hmem : a ∈ l.filter fun x => decide (key x = key a) := List.mem_filter.mpr ⟨ha, by simp⟩
    have hkey : ∀ x ∈ l.filter (fun x => decide (key x = key a)), key x = key a := by
      intro x hx
      simpa using (List.mem_filter.mp hx).2
    by_cases hfa : f a = none
    · have hnil := List.filterMap_eq_nil_iff.mpr fun x hx => (hf' x a (hkey x hx)).mpr hfa
      rw [hnil] at hsub
      rw [hfa, List.filterMap_eq_nil_iff.mp hsub a hmem]
    · by_cases hga : g a = none
      · have hnil := List.filterMap_eq_nil_iff.mpr fun x hx => (hg' x a (hkey x hx)).mpr hga
        rw [hnil] at hsub
        exact absurd (List.filterMap_eq_nil_iff.mp hsub.symm a hmem) hfa
      · refine filterMap_eq_of_isSome _ ?_ ?_ hsub.symm a hmem
        · intro x hx
          exact Option.isSome_iff_ne_none.mpr fun h => hfa ((hf' x a (hkey x hx)).mp h)
        · intro x hx
          exact Option.isSome_iff_ne_none.mpr fun h => hga ((hg' x a (hkey x hx)).mp h)
  · intro h
    exact List.filterMap_congr h

end

section
variable {V : Type} (fromString : V → Text → V) (emit : Node → Text) {datas : Datas V}

theorem calls_eq_wanted_iff (hvalid : ∀ x, (datas x).isSome = true → invalid x = false) (root : Node) :
    (loadFromYaml fromString emit datas root).calls = wanted emit datas root ↔
      ∀ m ∈ root.members [], Plain datas m.1 := by
  rw [loadFromYaml_calls]
  unfold wanted
  rw [filterMap_eq_iff (fun m call h => (callAt_some emit h).1) (fun m call h => (wantedAt_some emit h).1)]
  · exact forall₂_congr fun m _ => callAt_eq_iff emit hvalid m
  · intro m m' hkeys
    rw [callAt_eq_none emit hvalid, callAt_eq_none emit hvalid, hkeys]
  · intro m m' hkeys
    simp [wantedAt, hkeys]

theorem alphabet_contains (c : UInt8) : alphabet.contains c = (documented c && c != 0x39) :=
  forall_byte (p := fun c => alphabet.contains c = (documented c && c != 0x39)) (by decide +kernel) c

theorem invalid_iff (name : Text) : invalid name = true ↔ 0x39 ∈ name ∨ ∃ c ∈ name, documented c = false := by
  simp only [invalid, List.any_eq_true, alphabet_contains]
  constructor
  · rintro ⟨c, hc, h⟩
    by_cases hnine : c = 0x39
    · exact Or.inl (hnine ▸ hc)
    · exact Or.inr ⟨c, hc, by simpa [hnine] using h⟩
  · rintro (hnine | ⟨c, hc, h⟩)
    · exact ⟨0x39, hnine, rfl⟩
    · exact ⟨c, hc, by simp [h]⟩

/-- `Lookup` of a name that is not there. -/
theorem lookup_error_iff (isType : V → Bool) {name : Text} (var : V) (hnew : datas name = none) :
    lookup datas isType name var = .error ⟨name⟩ ↔ 0x39 ∈ name ∨ ∃ c ∈ name, documented c = false := by
  rw [← invalid_iff]
  unfold lookup
  rw [hnew]
  by_cases h : invalid name = true
  · simp [h]
  · simp [h]

/-- **Loading reaches exactly the named variables, and `Lookup` refuses exactly the names outside the
documented set, as long as neither the missing `9` nor the order of filter and folding shows**: a name
with a `9` has an undocumented character too, and on the way to every node the keys that spell a
variable are in lower case and do not start with an empty one. -/
theorem load_reaches_iff (hbuilt : Built fromString emit datas) (isType : V → Bool) (name : Text) (var : V)
    (hnew : datas name = none) (root : Node) :
    ((lookup datas isType name var = .error ⟨name⟩ ↔ ∃ c ∈ name, documented c = false) ↔
      (0x39 ∈ name → ∃ c ∈ name, documented c = false)) ∧
    (((loadFromYaml fromString emit datas root).calls = wanted emit datas root ∧
        ∀ x, (∀ call ∈ wanted emit datas root, call.name ≠ x) →
          (loadFromYaml fromString emit datas root).datas x = datas x) ↔
      ∀ m ∈ root.members [], Plain datas m.1) := by
  refine ⟨?_, ?_⟩
  · rw [lookup_error_iff isType var hnew]
    exact or_iff_right_iff_imp
  · rw [← calls_eq_wanted_iff fromString emit (hbuilt.valid fromString emit) root]
    constructor
    · exact And.left
    · intro hcalls
      refine ⟨hcalls, ?_⟩
      intro x hx
      rw [← hcalls] at hx
      exact loadFromYaml_datas fromString emit datas root x hx

end

/-- A variable that keeps the last text it was given. -/
def keepText (_ t : Text) : Text := t

def noText (_ : Node) : Text := []

/-- The registry after `Lookup("a.b", …)`. -/
def oneVar : Datas Text := Function.update (fun _ => none) [0x61, 0x2e, 0x62] (some [])

theorem oneVar_built : Built keepText noText oneVar := by
  have h : lookup (fun _ => none) (fun _ => true) [0x61, 0x2e, 0x62] ([] : Text) = .ok (oneVar, some []) := rfl
  exact Built.lookup Built.empty h

/-- `x: {b: 1}`. -/
def nested (key : Text) : Node := .map (.cons key (.map (.cons [0x62] (.scalar [0x31]) .nil)) .nil)

theorem load_reaches_nested :
    (lookup oneVar (fun _ => true) [0x63] [] = .error ⟨[0x63]⟩ ↔ ∃ c ∈ ([0x63] : Text), documented c = false) ∧
      (loadFromYaml keepText noText oneVar (nested [0x61])).calls = wanted noText oneVar (nested [0x61]) := by
  have h := load_reaches_iff keepText noText oneVar_built (fun _ => true) [0x63] [] (by decide) (nested [0x61])
  refine ⟨h.1.mpr (fun hnine => absurd hnine (by decide)), (h.2.mpr ?_).1⟩
  intro m hm
  have hkeys : m.1 = [] ∨ m.1 = [[0x61]] ∨ m.1 = [[0x61], [0x62]] := by
    simp only [nested, Node.members, Entries.members, List.nil_append, List.append_nil, List.mem_cons,
      List.cons_append, List.not_mem_nil, or_false] at hm
    rcases hm with rfl | rfl | rfl
    · exact Or.inl rfl
    · exact Or.inr (Or.inl rfl)
    · exact Or.inr (Or.inr rfl)
  rcases hkeys with hkeys | hkeys | hkeys
  · rw [hkeys]
    exact ⟨fun h => absurd h (by decide), fun h => absurd h (by decide), fun h => absurd h (by decide)⟩
  · rw [hkeys]
    exact ⟨fun h => absurd h (by decide), fun h => absurd h (by decide), fun h => absurd h (by decide)⟩
  · rw [hkeys]
    have hlower : ∀ key ∈ [[0x61], [0x62]], ∀ c ∈ (key : Text), isUpper c = false := by simp [isUpper]
    exact ⟨fun _ => hlower, fun _ => ⟨_, _, rfl, by decide⟩, fun h => absurd h (by decide)⟩

/-- `Lookup("p9", …)` throws, and `A: {b: 1}` does not reach `a.b`. -/
theorem load_misses :
    (lookup oneVar (fun _ => true) [0x70, 0x39] [] = .error ⟨[0x70, 0x39]⟩ ∧
        ∀ c ∈ ([0x70, 0x39] : Text), documented c = true) ∧
      Built keepText noText oneVar ∧
      (loadFromYaml keepText noText oneVar (nested [0x41])).calls = [] ∧
      wanted noText oneVar (nested [0x41]) = [⟨[[0x41], [0x62]], [0x61, 0x2e, 0x62], [0x31]⟩] := by
  exact ⟨⟨by rfl, List.all_eq_true.mp (by decide)⟩, oneVar_built, by decide, by decide⟩

end Sylar.Config
