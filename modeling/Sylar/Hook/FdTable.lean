import Sylar.Hook.Fd
import Sylar.IOManager.Coupling
import Sylar.Lib.Machine

/- `FdManager::get` and `FdManager::del` of `sylar/fdmanager.cc`, called by any threads at any time.

   `get` looks under the read lock and creates under the write lock; between the two it
   holds no lock, and the creation does not look again. The objects are kept by the order
   in which they were made, and a shared pointer to one is its index there, so that two
   results of `get` can be told apart. `results` is what `get(fd)` returned since the last
   `del(fd)`.

   Two threads that both find the place empty both create: the second one replaces a
   context that was already given out. The table is also measured as an `int`, so one of
   2^31 places or more is taken for empty. Runs without these (`Alone`) have one context
   for each descriptor (`one_context`), and then `get` is the function that `Process.get`
   describes in one step (`get_refines`). -/
namespace Sylar.Hook

open Sylar.IOManager (toInt toInt_of_lt)

/-! ## Model -/

/-- Where a thread is in `get`. -/
inductive GetPc where
  | idle
  /-- Between the two locks. -/
  | create (fd : Nat)
  deriving DecidableEq, Repr

structure FdManager where
  datas : List (Option Nat)
  objects : List FdCtx
  threads : Nat → GetPc
  results : Nat → List Nat

def FdManager.init : FdManager where
  datas := List.replicate 64 none
  objects := []
  threads := fun _ => .idle
  results := fun _ => []

/-- `m_datas[fd]`, null outside the table. -/
def FdManager.slot (s : FdManager) (fd : Nat) : Option Nat := (s.datas[fd]?).getD none

/-- `m_datas.resize(size)`. -/
def resizeDatas (size : Nat) (datas : List (Option Nat)) : List (Option Nat) :=
  datas.take size ++ List.replicate (size - datas.length) none

/-- The table a creation writes to. -/
def FdManager.roomFor (s : FdManager) (fd : Nat) : List (Option Nat) :=
  if (fd : Int) ≥ toInt s.datas.length then resizeDatas (fd * 3 / 2) s.datas else s.datas

/-- The table a removal leaves. -/
def FdManager.without (s : FdManager) (fd : Nat) : List (Option Nat) :=
  if toInt s.datas.length ≤ fd then s.datas else s.datas.set fd none

inductive FdAct where
  /-- The read-locked half of `get`. -/
  | get (t fd : Nat) (auto_create : Bool)
  /-- The write-locked half; `new FdCtx(fd)` asks the kernel. -/
  | create (t : Nat) (kernel : Process)
  | del (fd : Nat)
  | setUserNonblock (ctx : Nat) (v : Bool)
  | setTimeout (ctx : Nat) (type : TimeoutType) (v : UInt64)

/-- `get` returns `ctx`. -/
def FdManager.returns (s : FdManager) (fd ctx : Nat) : FdManager :=
  { s with results := Function.update s.results fd (ctx :: s.results fd) }

def FdManager.step (s : FdManager) : FdAct → Option FdManager
  | .get t fd auto_create =>
    match s.threads t with
    | .create _ => none
    | .idle =>
      if toInt s.datas.length ≤ fd then
        if auto_create = false then some s
        else some { s with threads := Function.update s.threads t (.create fd) }
      else
        match s.slot fd with
        | some ctx => some (s.returns fd ctx)
        | none =>
          if auto_create = false then some s
          else some { s with threads := Function.update s.threads t (.create fd) }
  | .create t kernel =>
    match s.threads t with
    | .idle => none
    | .create fd =>
      some (FdManager.returns { s with
        datas := (s.roomFor fd).set fd (some s.objects.length)
        objects := s.objects ++ [(FdCtx.new fd kernel).1]
        threads := Function.update s.threads t .idle } fd s.objects.length)
  | .del fd => some { s with
      datas := s.without fd
      results := Function.update s.results fd [] }
  | .setUserNonblock ctx v =>
    (s.objects[ctx]?).map fun c => { s with objects := s.objects.set ctx { c with userNonblock := v } }
  | .setTimeout ctx type v =>
    (s.objects[ctx]?).map fun c => { s with objects := s.objects.set ctx (c.setTimeout type v) }

/-! ## The law -/

/-- The context `get(fd)` finds. -/
def FdManager.found (s : FdManager) (fd : Nat) : Option FdCtx :=
  if toInt s.datas.length ≤ fd then none else (s.slot fd).bind fun ctx => s.objects[ctx]?

/-- One object for each descriptor, and every `get` finds it as it was last set. -/
structure OneContext (s : FdManager) : Prop where
  same : ∀ fd a b, a ∈ s.results fd → b ∈ s.results fd → a = b
  seen : ∀ fd a, a ∈ s.results fd → ∃ c, s.objects[a]? = some c ∧ s.found fd = some c

/-- A creation finds its place still empty, and the table it leaves can be measured. -/
def FdManager.CreatesAlone (s : FdManager) : GetPc → Prop
  | .idle => True
  | .create fd => s.slot fd = none ∧ (s.datas.length ≤ fd → fd * 3 / 2 < 2 ^ 31)

instance (s : FdManager) : ∀ pc : GetPc, Decidable (s.CreatesAlone pc)
  | .idle => inferInstanceAs (Decidable True)
  | .create fd => inferInstanceAs (Decidable (s.slot fd = none ∧ (s.datas.length ≤ fd → fd * 3 / 2 < 2 ^ 31)))

def Alone (s : FdManager) : FdAct → Prop
  | .create t _ => s.CreatesAlone (s.threads t)
  | _ => True

instance (s : FdManager) : ∀ act : FdAct, Decidable (Alone s act)
  | .create t _ => inferInstanceAs (Decidable (s.CreatesAlone (s.threads t)))
  | .get _ _ _ | .del _ | .setUserNonblock _ _ | .setTimeout _ _ _ => inferInstanceAs (Decidable True)

theorem length_emptyTable : 64 ≤ (List.replicate 64 (none : Option FdCtx)).length :=
  Nat.le_of_eq List.length_replicate.symm

/-- A kernel in which every descriptor is a socket. -/
def socketKernel : Process := ⟨fun _ => some true, fun _ => 0#32, List.replicate 64 none, length_emptyTable⟩

/-- Two threads ask for descriptor 3 at once. The first one's `O_NONBLOCK` is set on a
context that no later `get` finds. -/
def twoCreators : List FdAct :=
  [.get 1 3 true, .get 2 3 true, .create 1 socketKernel, .setUserNonblock 0 true, .create 2 socketKernel]

theorem two_contexts : ¬ ∀ s, Lib.Reached FdManager.step (fun _ _ => True) FdManager.init s → OneContext s := by
  intro h
  have hend : (Lib.after FdManager.step twoCreators FdManager.init).map (fun s => s.results 3) = some [1, 0] := by
    decide +kernel
  obtain ⟨s, hs, hresults⟩ := Option.map_eq_some_iff.mp hend
  have hlaw := h s (Lib.Reached.start.after (fun _ _ => trivial) twoCreators hs)
  have hsame := hlaw.same 3 1 0 (by simp [hresults]) (by simp [hresults])
  cases hsame

/-! ## Runs with one creator at a time -/

structure FdManager.Inv (s : FdManager) : Prop where
  enough : 64 ≤ s.datas.length
  small : s.datas.length < 2 ^ 31
  made : ∀ fd ctx, s.slot fd = some ctx → ctx < s.objects.length
  given : ∀ fd ctx, ctx ∈ s.results fd → s.slot fd = some ctx

theorem inv_init : FdManager.init.Inv where
  enough := by simp [FdManager.init]
  small := by simp [FdManager.init]
  made fd ctx h := by
    have hnone : FdManager.init.slot fd = none := by
      simp only [FdManager.slot, FdManager.init, List.getElem?_replicate]
      split
      · rfl
      · rfl
    rw [hnone] at h
    cases h
  given fd ctx h := by cases h

section
variable {s : FdManager}

theorem FdManager.Inv.toInt_le_iff (h : s.Inv) (fd : Nat) : toInt s.datas.length ≤ fd ↔ s.datas.length ≤ fd := by
  rw [toInt_of_lt h.small]
  exact Int.ofNat_le

/-- A place of the table after a write. -/
theorem getD_set {l : List (Option Nat)} {fd : Nat} (hfd : fd < l.length) (v : Option Nat) (fd' : Nat) :
    ((l.set fd v)[fd']?).getD none = if fd' = fd then v else (l[fd']?).getD none := by
  by_cases heq : fd' = fd
  · subst heq
    rw [List.getElem?_set_self hfd, if_pos rfl, Option.getD_some]
  · rw [List.getElem?_set_ne (fun h => heq h.symm), if_neg heq]

theorem getD_resizeDatas {l : List (Option Nat)} {size : Nat} (hsize : l.length ≤ size) (fd : Nat) :
    ((resizeDatas size l)[fd]?).getD none = (l[fd]?).getD none := by
  rw [resizeDatas, List.take_of_length_le hsize]
  by_cases hfd : fd < l.length
  · rw [List.getElem?_append_left hfd]
  · have hnone : l[fd]? = none := List.getElem?_eq_none (by omega)
    rw [List.getElem?_append_right (by omega), List.getElem?_replicate, hnone]
    split
    · rfl
    · rfl

/-- The table a creation writes to has the place, and is otherwise as before. -/
theorem FdManager.Inv.roomFor (h : s.Inv) {fd : Nat} (hfd : s.datas.length ≤ fd → fd * 3 / 2 < 2 ^ 31) :
    fd < (s.roomFor fd).length ∧ 64 ≤ (s.roomFor fd).length ∧ (s.roomFor fd).length < 2 ^ 31 ∧
      ∀ fd', ((s.roomFor fd)[fd']?).getD none = s.slot fd' := by
  have henough := h.enough
  by_cases hlen : s.datas.length ≤ fd
  · have hroom : s.roomFor fd = resizeDatas (fd * 3 / 2) s.datas := if_pos ((h.toInt_le_iff fd).mpr hlen)
    have hsize : (resizeDatas (fd * 3 / 2) s.datas).length = fd * 3 / 2 := by
      simp only [resizeDatas, List.length_append, List.length_take, List.length_replicate]
      omega
    have hfits := hfd hlen
    rw [hroom, hsize]
    refine ⟨by omega, by omega, hfits, ?_⟩
    intro fd'
    exact getD_resizeDatas (by omega) fd'
  · have hroom : s.roomFor fd = s.datas := if_neg (fun hle => hlen ((h.toInt_le_iff fd).mp hle))
    rw [hroom]
    exact ⟨by omega, henough, h.small, fun _ => rfl⟩

theorem FdManager.Inv.returns {fd ctx : Nat} (h : s.Inv) (hslot : s.slot fd = some ctx) :
    (s.returns fd ctx).Inv where
  enough := h.enough
  small := h.small
  made := h.made
  given fd' ctx' hmem := by
    by_cases heq : fd' = fd
    · subst heq
      simp only [FdManager.returns, Function.update_self, List.mem_cons] at hmem
      rcases hmem with rfl | hmem
      · exact hslot
      · exact h.given _ _ hmem
    · simp only [FdManager.returns, Function.update_of_ne heq] at hmem
      exact h.given _ _ hmem

/-- The program counters take no part. -/
theorem FdManager.Inv.threads (h : s.Inv) (threads : Nat → GetPc) : FdManager.Inv { s with threads := threads } :=
  ⟨h.enough, h.small, h.made, h.given⟩

theorem get_keeps {t fd : Nat} {auto_create : Bool} {s' : FdManager} (h : s.Inv)
    (hstep : s.step (.get t fd auto_create) = some s') : s'.Inv := by
  simp only [FdManager.step] at hstep
  split at hstep
  · cases hstep
  · split at hstep
    · split at hstep
      · cases hstep; exact h
      · cases hstep; exact h.threads _
    · split at hstep
      · next ctx hslot => cases hstep; exact h.returns hslot
      · split at hstep
        · cases hstep; exact h
        · cases hstep; exact h.threads _

theorem create_keeps {t : Nat} {kernel : Process} {s' : FdManager} (h : s.Inv) (hok : Alone s (.create t kernel))
    (hstep : s.step (.create t kernel) = some s') : s'.Inv := by
  simp only [FdManager.step] at hstep
  split at hstep
  · cases hstep
  · next fd hpc =>
    cases hstep
    rw [Alone, hpc] at hok
    obtain ⟨hempty, hfits⟩ := hok
    obtain ⟨hroom, henough, hsmall, hslots⟩ := h.roomFor hfits
    -- The place was empty, so nothing was given out for this descriptor.
    have hnone : ∀ ctx, ctx ∉ s.results fd := by
      intro ctx hmem
      have hslot := h.given fd ctx hmem
      rw [hempty] at hslot
      cases hslot
    refine ⟨?_, ?_, ?_, ?_⟩
    · simpa [FdManager.returns] using henough
    · simpa [FdManager.returns] using hsmall
    · intro fd' ctx hslot
      simp only [FdManager.returns, FdManager.slot, getD_set hroom, hslots] at hslot
      simp only [FdManager.returns, List.length_append, List.length_singleton]
      split at hslot
      · cases hslot; omega
      · have := h.made fd' ctx hslot; omega
    · intro fd' ctx hmem
      simp only [FdManager.returns, FdManager.slot, getD_set hroom, hslots]
      by_cases heq : fd' = fd
      · subst heq
        simp only [FdManager.returns, Function.update_self, List.mem_cons] at hmem
        rcases hmem with rfl | hmem
        · simp
        · exact absurd hmem (hnone ctx)
      · simp only [FdManager.returns, Function.update_of_ne heq] at hmem
        rw [if_neg heq]
        exact h.given fd' ctx hmem

theorem FdManager.Inv.without (h : s.Inv) (fd : Nat) : (s.without fd).length = s.datas.length ∧
    ∀ fd', ((s.without fd)[fd']?).getD none = if fd' = fd then none else s.slot fd' := by
  by_cases hle : toInt s.datas.length ≤ fd
  · rw [FdManager.without, if_pos hle]
    refine ⟨rfl, ?_⟩
    intro fd'
    by_cases heq : fd' = fd
    · rw [if_pos heq, heq, List.getElem?_eq_none ((h.toInt_le_iff fd).mp hle)]
      rfl
    · rw [if_neg heq]
      rfl
  · have hfd : fd < s.datas.length := by
      rw [h.toInt_le_iff] at hle
      omega
    rw [FdManager.without, if_neg hle]
    exact ⟨List.length_set, getD_set hfd none⟩

theorem del_keeps {fd : Nat} {s' : FdManager} (h : s.Inv) (hstep : s.step (.del fd) = some s') : s'.Inv := by
  cases hstep
  obtain ⟨hlen, hslots⟩ := h.without fd
  refine ⟨?_, ?_, ?_, ?_⟩
  · simpa only [hlen] using h.enough
  · simpa only [hlen] using h.small
  · intro fd' ctx hslot
    simp only [FdManager.slot, hslots] at hslot
    split at hslot
    · cases hslot
    · exact h.made fd' ctx hslot
  · intro fd' ctx hmem
    simp only [FdManager.slot, hslots]
    by_cases heq : fd' = fd
    · subst heq
      simp only [Function.update_self] at hmem
      cases hmem
    · simp only [Function.update_of_ne heq] at hmem
      rw [if_neg heq]
      exact h.given fd' ctx hmem

theorem set_keeps {objects : List FdCtx} (h : s.Inv) (hlen : objects.length = s.objects.length) :
    FdManager.Inv { s with objects := objects } where
  enough := h.enough
  small := h.small
  made fd ctx hslot := by
    simp only [hlen]
    exact h.made fd ctx hslot
  given := h.given

theorem step_keeps_alone {act : FdAct} {s' : FdManager} (h : s.Inv) (hok : Alone s act)
    (hstep : s.step act = some s') : s'.Inv := by
  cases act with
  | get t fd auto_create => exact get_keeps h hstep
  | create t kernel => exact create_keeps h hok hstep
  | del fd => exact del_keeps h hstep
  | setUserNonblock ctx v =>
    obtain ⟨c, -, rfl⟩ := Option.map_eq_some_iff.mp hstep
    exact set_keeps h (List.length_set)
  | setTimeout ctx type v =>
    obtain ⟨c, -, rfl⟩ := Option.map_eq_some_iff.mp hstep
    exact set_keeps h (List.length_set)

/-- What was given out is what a `get` finds. -/
theorem FdManager.Inv.oneContext (h : s.Inv) : OneContext s where
  same fd a b ha hb := by
    have hslot := (h.given fd a ha).symm.trans (h.given fd b hb)
    exact Option.some.inj hslot
  seen fd a ha := by
    have hslot := h.given fd a ha
    have hlt := h.made fd a hslot
    refine ⟨s.objects[a], List.getElem?_eq_getElem hlt, ?_⟩
    have hfd : fd < s.datas.length := by
      apply Decidable.byContradiction
      intro hge
      rw [FdManager.slot, List.getElem?_eq_none (by omega)] at hslot
      cases hslot
    have hin : ¬ toInt s.datas.length ≤ fd := by
      rw [h.toInt_le_iff]
      omega
    rw [FdManager.found, if_neg hin, hslot, Option.bind_some, List.getElem?_eq_getElem hlt]

end

/-- In every run in which each creation finds its place empty and a table that can be
measured, each descriptor has one context between two removals. -/
theorem one_context (s : FdManager) (r : Lib.Reached FdManager.step Alone FdManager.init s) : OneContext s :=
  (r.inv inv_init fun _ _ _ h hok hstep => step_keeps_alone h hok hstep).oneContext

/-- A context is made, removed, and made again and found. -/
def renewed : List FdAct :=
  [.get 1 100 true, .create 1 socketKernel, .del 100, .get 1 100 false, .get 2 100 true, .create 2 socketKernel,
    .get 1 100 true]

theorem one_context_renewed : ∃ s, s.results 100 = [1, 1] ∧ OneContext s := by
  have hend : (Lib.after (fun s act => if Alone s act then s.step act else none) renewed FdManager.init).map
      (fun s => s.results 100) = some [1, 1] := by decide +kernel
  obtain ⟨s, hs, hresults⟩ := Option.map_eq_some_iff.mp hend
  exact ⟨s, hresults, one_context s (Lib.Reached.start.checked renewed hs)⟩

/-! ## One call alone -/

/-- The table with the contexts themselves in it. -/
def FdManager.view (s : FdManager) : List (Option FdCtx) := s.datas.map fun o => o.bind fun ctx => s.objects[ctx]?

theorem new_datas (fd : Nat) (p : Process) : (FdCtx.new fd p).2.datas = p.datas := by
  unfold FdCtx.new
  cases p.stat fd with
  | none => rfl
  | some isSocket =>
    cases isSocket with
    | false => rfl
    | true =>
      simp only [if_true]
      split
      · rfl
      · rfl

section
variable {s : FdManager} {t fd : Nat}

/-- A new object is not yet in the table. -/
theorem FdManager.Inv.view_append (h : s.Inv) (c : FdCtx) (o : Option Nat) (ho : o ∈ s.datas) :
    (o.bind fun ctx => (s.objects ++ [c])[ctx]?) = o.bind fun ctx => s.objects[ctx]? := by
  cases o with
  | none => rfl
  | some ctx =>
    obtain ⟨fd, hfd, heq⟩ := List.getElem_of_mem ho
    have hslot : s.slot fd = some ctx := by
      rw [FdManager.slot, List.getElem?_eq_getElem hfd, heq, Option.getD_some]
    exact List.getElem?_append_left (h.made fd ctx hslot)

theorem FdManager.Inv.map_roomFor (h : s.Inv) (c : FdCtx) :
    (s.roomFor fd).map (fun o => o.bind fun ctx => (s.objects ++ [c])[ctx]?)
      = if fd ≥ s.view.length then s.view ++ List.replicate (fd * 3 / 2 - s.view.length) none else s.view := by
  have hview : s.datas.map (fun o => o.bind fun ctx => (s.objects ++ [c])[ctx]?) = s.view :=
    List.map_congr_left (h.view_append c)
  have hlen : s.view.length = s.datas.length := List.length_map _
  have henough := h.enough
  by_cases hle : s.datas.length ≤ fd
  · have hroom : s.roomFor fd = resizeDatas (fd * 3 / 2) s.datas := if_pos ((h.toInt_le_iff fd).mpr hle)
    rw [hroom, hlen, if_pos hle, resizeDatas, List.take_of_length_le (by omega), List.map_append, hview,
      List.map_replicate]
    rfl
  · have hroom : s.roomFor fd = s.datas := if_neg (fun hge => hle ((h.toInt_le_iff fd).mp hge))
    rw [hroom, hview, hlen, if_neg hle]

/-- The write-locked half is `Process.create`. -/
theorem create_refines (h : s.Inv) (hpc : s.threads t = .create fd) (p : Process) (hp : p.datas = s.view) :
    ∃ s', s.step (.create t p) = some s' ∧ s'.threads t = .idle ∧ s'.view = (p.create fd).2.datas := by
  simp only [FdManager.step, hpc]
  refine ⟨_, rfl, by simp [FdManager.returns], ?_⟩
  have hnew := new_datas fd p
  have hset : FdManager.view (FdManager.returns { s with
      datas := (s.roomFor fd).set fd (some s.objects.length)
      objects := s.objects ++ [(FdCtx.new fd p).1]
      threads := Function.update s.threads t .idle } fd s.objects.length)
        = ((s.roomFor fd).map fun o => o.bind fun ctx => (s.objects ++ [(FdCtx.new fd p).1])[ctx]?).set fd
          (some (FdCtx.new fd p).1) := by
    simp [FdManager.view, FdManager.returns, List.map_set]
  rw [hset, h.map_roomFor]
  simp only [Process.create, Process.put, hnew, hp]
  split
  · next hge => simp only [Process.resize, hnew, hp]
  · next hlt => rw [hnew, hp]

/-- What `Process.get` finds. -/
theorem FdManager.Inv.ctx_eq (h : s.Inv) {p : Process} (hp : p.datas = s.view) (fd : Nat) :
    (p.ctx fd).isSome = (s.slot fd).isSome := by
  rw [Process.ctx, hp, FdManager.view, List.getElem?_map, FdManager.slot]
  cases hat : s.datas[fd]? with
  | none => rfl
  | some o =>
    cases o with
    | none => rfl
    | some ctx =>
      have hmade := h.made fd ctx (by rw [FdManager.slot, hat, Option.getD_some])
      simp [List.getElem?_eq_getElem hmade]

/-- A lookup followed at once by its creation is the one step of `Process.get`. -/
theorem get_refines (h : s.Inv) (ht : s.threads t = .idle) (auto_create : Bool) (p : Process)
    (hp : p.datas = s.view) :
    ∃ s₁ s₂, s.step (.get t fd auto_create) = some s₁ ∧ (s₂ = s₁ ∨ s₁.step (.create t p) = some s₂) ∧
      s₂.threads t = .idle ∧ s₂.view = (p.get fd auto_create).2.datas := by
  have hlen : p.datas.length = s.datas.length := by rw [hp, FdManager.view, List.length_map]
  -- The lookup ends the call, or leaves the thread before its creation.
  have hcreate : s.step (.get t fd auto_create) = some { s with threads := Function.update s.threads t (.create fd) } →
      p.get fd auto_create = p.create fd →
      ∃ s₁ s₂, s.step (.get t fd auto_create) = some s₁ ∧ (s₂ = s₁ ∨ s₁.step (.create t p) = some s₂) ∧
        s₂.threads t = .idle ∧ s₂.view = (p.get fd auto_create).2.datas := by
    intro hstep hget
    obtain ⟨s₂, hs₂, hidle, hview⟩ := create_refines (h.threads (Function.update s.threads t (.create fd)))
      (Function.update_self t _ _) p hp
    exact ⟨_, s₂, hstep, Or.inr hs₂, hidle, by rw [hget, hview]⟩
  have hctx := h.ctx_eq hp fd
  by_cases hle : s.datas.length ≤ fd
  · have hcast := (h.toInt_le_iff fd).mpr hle
    cases auto_create with
    | false =>
      refine ⟨s, s, by simp [FdManager.step, ht, hcast], Or.inl rfl, ht, ?_⟩
      rw [Process.get, hlen, if_pos hle, if_pos rfl, hp]
    | true =>
      apply hcreate
      · simp [FdManager.step, ht, hcast]
      · rw [Process.get, hlen, if_pos hle]
        simp
  · have hcast : ¬ toInt s.datas.length ≤ fd := fun hc => hle ((h.toInt_le_iff fd).mp hc)
    cases hslot : s.slot fd with
    | some ctx =>
      refine ⟨s.returns fd ctx, s.returns fd ctx, by simp [FdManager.step, ht, hcast, hslot], Or.inl rfl, ht, ?_⟩
      rw [hslot, Option.isSome_some] at hctx
      rw [Process.get, hlen, if_neg hle, if_pos (Or.inl hctx), hp]
      rfl
    | none =>
      rw [hslot, Option.isSome_none] at hctx
      cases auto_create with
      | false =>
        refine ⟨s, s, by simp [FdManager.step, ht, hcast, hslot], Or.inl rfl, ht, ?_⟩
        rw [Process.get, hlen, if_neg hle, if_pos (Or.inr rfl), hp]
      | true =>
        apply hcreate
        · simp [FdManager.step, ht, hcast, hslot]
        · rw [Process.get, hlen, if_neg hle, hctx]
          simp

end

end Sylar.Hook
