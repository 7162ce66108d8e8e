import Mathlib.Data.List.Induction
import Sylar.IOManager.Runs
import Sylar.Lib.Machine

/- The table of contexts under `IOManager::addEvent`, called by any threads at any time.

   `addEvent` tests the size under the read lock and grows the table under the write lock;
   between the two it holds no lock, and the growth does not test again. Its steps are the
   lookup (`findContext`), the growth (`growContexts`) and the part under the context's own
   mutex (`addLocked`), each at once.

   The growth is to `fd * 1.5`, whatever the table has become: a thread that saw a small
   table may make a larger one smaller. `table_law_iff` says which runs have a table that
   never loses an entry: exactly those in which every growth finds a table no larger than
   what it asks for, and asks for no more than 2^31 places (the number of a context is an
   `int`). -/
namespace Sylar.IOManager

/-! ## Model -/

/-- Where a thread is in `addEvent`. -/
inductive AddPc where
  | idle
  /-- The table was too short for `fd`. -/
  | grow (fd : Nat)
  /-- With the context for `fd`. -/
  | locked (p fd : Nat)
  /-- The program ended here. -/
  | fault (f : Fault)
  deriving DecidableEq, Repr

structure AddSys where
  io : State
  threads : Nat → AddPc

def AddSys.init : AddSys where
  io := IOManager.init
  threads := fun _ => .idle

inductive AddAct where
  | find (t fd : Nat)
  | grow (t : Nat)
  | add (t : Nat) (event : Event) (cb : Option Nat) (caller : Caller) (fails : Bool)

/-- The context a thread goes on with. -/
def AddSys.goesOn (s : AddSys) (t fd : Nat) : Except Fault Nat → AddSys
  | .ok p => { s with threads := Function.update s.threads t (.locked p fd) }
  | .error f => { s with threads := Function.update s.threads t (.fault f) }

def AddSys.step (s : AddSys) : AddAct → Option AddSys
  | .find t fd =>
    match s.threads t with
    | .idle =>
      match findContext fd s.io with
      | .ok none => some { s with threads := Function.update s.threads t (.grow fd) }
      | .ok (some p) => some (s.goesOn t fd (.ok p))
      | .error f => some (s.goesOn t fd (.error f))
    | _ => none
  | .grow t =>
    match s.threads t with
    | .grow fd =>
      -- The table is resized before it is read, also where the read is outside of it.
      let io := contextResize (fd * 3 / 2) s.io
      some (AddSys.goesOn { s with io := io } t fd (entry fd io))
    | _ => none
  | .add t event cb caller fails =>
    match s.threads t with
    | .locked p fd =>
      match addLocked p fd event cb caller fails s.io with
      | .ok (_, io) => some { io := io, threads := Function.update s.threads t .idle }
      | .error f => some { s with threads := Function.update s.threads t (.fault f) }
    | _ => none

/-! ## The law -/

/-- What a run leaves of the table: entries stay at their places to its end, at each index
is the context of that descriptor, and a growth makes room for the descriptor it is for. -/
structure TableLaw (acts : List AddAct) : Prop where
  stays : ∀ before between rest s s', acts = before ++ between ++ rest →
    Lib.after AddSys.step before AddSys.init = some s → Lib.after AddSys.step between s = some s' →
      s.io.fdContexts <+: s'.io.fdContexts
  fd_eq : ∀ before rest s, acts = before ++ rest → Lib.after AddSys.step before AddSys.init = some s →
    ∀ i p : Nat, s.io.fdContexts[i]? = some p → (s.io.context p).fd = i
  room : ∀ before t rest s s' fd, acts = before ++ .grow t :: rest →
    Lib.after AddSys.step before AddSys.init = some s → s.threads t = .grow fd → s.step (.grow t) = some s' →
      fd < s'.io.fdContexts.length

/-- A growth that asks for no fewer places than there are, and for no more than 2^31. -/
def AddSys.Grows (s : AddSys) : AddAct → Prop
  | .grow t => ∀ fd, s.threads t = .grow fd → s.io.fdContexts.length ≤ fd * 3 / 2 ∧ fd * 3 / 2 ≤ 2 ^ 31
  | _ => True

/-- Every growth of a run does. -/
def TableGrows (acts : List AddAct) : Prop :=
  ∀ before act rest s, acts = before ++ act :: rest → Lib.after AddSys.step before AddSys.init = some s →
    s.Grows act

/-! ## Steps -/

/-- One context per index, each with its number. -/
structure Table (s : State) : Prop where
  table : s.fdContexts = List.range s.heap.length
  enough : 32 ≤ s.heap.length
  fd_eq : ∀ p, p < s.heap.length → (s.context p).fd = p

/-- `s'` has the table of `s`, with the same numbers. -/
structure SameTable (s s' : State) : Prop where
  table : s'.fdContexts = s.fdContexts
  length : s'.heap.length = s.heap.length
  fd_eq : ∀ p, (s'.context p).fd = (s.context p).fd

theorem Table.same {s s' : State} (h : Table s) (hs : SameTable s s') : Table s' where
  table := by rw [hs.table, hs.length, h.table]
  enough := by rw [hs.length]; exact h.enough
  fd_eq p hp := by rw [hs.fd_eq, h.fd_eq p (by rw [← hs.length]; exact hp)]

theorem table_init : Table IOManager.init := ⟨inv_init.table, inv_init.enough, inv_init.fd_eq⟩

theorem sameTable_epollCtl {op : CtlOp} {fd : Int} {ev : EpollEvent} {fails : Bool} {s s' : State}
    (h : epollCtl op fd ev fails s = some s') : SameTable s s' := by
  unfold epollCtl at h
  split at h
  · cases h; exact ⟨rfl, rfl, fun _ => rfl⟩
  · cases h; exact ⟨rfl, rfl, fun _ => rfl⟩
  · cases h; exact ⟨rfl, rfl, fun _ => rfl⟩
  · cases h

/-- The part under the context's mutex writes one context and keeps its number. -/
theorem sameTable_addLocked {p : Nat} {fd : Int} {event : Event} {cb : Option Nat} {caller : Caller} {fails : Bool}
    {s s' : State} {r : Int} (h : addLocked p fd event cb caller fails s = .ok (r, s')) : SameTable s s' := by
  simp only [addLocked] at h
  split at h
  · cases h
  · split at h
    · cases h; exact ⟨rfl, rfl, fun _ => rfl⟩
    · next s₁ hctl =>
      have hs₁ := sameTable_epollCtl hctl
      split at h
      · cases h
      · cases h
        refine ⟨hs₁.table, by simpa [State.setContext, State.incPending] using hs₁.length, ?_⟩
        intro q
        by_cases hq : q = p ∧ p < s₁.incPending.heap.length
        · obtain ⟨rfl, hlt⟩ := hq
          rw [(wrote_incPending s₁ q _).context_same hlt, arm_fd]
        · have hctx : ∀ c, (s₁.incPending.setContext p c).context q = s₁.context q := by
            intro c
            simp only [State.setContext, State.context, List.getElem?_set]
            split
            · next hqp =>
              have hge : ¬ p < s₁.incPending.heap.length := fun hlt => hq ⟨hqp.symm, hlt⟩
              have hge' : s₁.heap.length ≤ q := by rw [← hqp]; exact Nat.not_lt.mp hge
              rw [if_neg hge, List.getElem?_eq_none hge']
            · rfl
          rw [hctx, hs₁.fd_eq]

theorem contextResize_length (n : Nat) (s : State) : (contextResize n s).fdContexts.length = n := by
  simp only [contextResize, List.length_append, List.length_take, List.length_range']
  omega

theorem Table.grown {s : State} (h : Table s) {n : Nat} (hn : s.fdContexts.length ≤ n) (hsmall : n ≤ 2 ^ 31) :
    Table (contextResize n s) ∧ s.fdContexts <+: (contextResize n s).fdContexts := by
  have hlen : s.heap.length ≤ n := by
    rw [h.table, List.length_range] at hn
    exact hn
  have henough := h.enough
  have heq := contextResize_of_table h.table hlen
  have hheap : (contextResize n s).heap.length = n := by
    rw [heq, List.length_append, newContexts_length]
    omega
  refine ⟨⟨?_, by omega, ?_⟩, ?_⟩
  · rw [hheap, heq]
  · intro p hp
    rw [context_of_table h.table hlen]
    split
    · exact toInt_of_lt (by omega)
    · exact h.fd_eq p (by omega)
  · rw [contextResize, List.take_of_length_le hn]
    exact List.prefix_append _ _

theorem SameTable.refl (s : State) : SameTable s s := ⟨rfl, rfl, fun _ => rfl⟩

/-- The table that a step leaves: a growth resizes it, whatever it finds there, and nothing else does. -/
theorem step_io {s s' : AddSys} {act : AddAct} (hstep : s.step act = some s') :
    (∃ t fd, act = .grow t ∧ s.threads t = .grow fd ∧ s'.io = contextResize (fd * 3 / 2) s.io) ∨
      SameTable s.io s'.io := by
  cases act with
  | find t fd =>
    simp only [AddSys.step] at hstep
    split at hstep
    · split at hstep
      all_goals
        cases hstep
        exact Or.inr (SameTable.refl s.io)
    · cases hstep
  | grow t =>
    simp only [AddSys.step] at hstep
    split at hstep
    · next fd hpc =>
      cases hstep
      left
      cases entry fd (contextResize (fd * 3 / 2) s.io) with
      | ok p => exact ⟨t, fd, rfl, hpc, rfl⟩
      | error f => exact ⟨t, fd, rfl, hpc, rfl⟩
    · cases hstep
  | add t event cb caller fails =>
    simp only [AddSys.step] at hstep
    split at hstep
    · split at hstep
      · next hadd =>
        cases hstep
        exact Or.inr (sameTable_addLocked hadd)
      · cases hstep
        exact Or.inr (SameTable.refl s.io)
    · cases hstep

/-- A step that meets the condition keeps the table. -/
theorem step_table {s s' : AddSys} {act : AddAct} (h : Table s.io) (hok : s.Grows act)
    (hstep : s.step act = some s') : Table s'.io ∧ s.io.fdContexts <+: s'.io.fdContexts := by
  rcases step_io hstep with ⟨t, fd, rfl, hpc, hio⟩ | hsame
  · obtain ⟨hsize, hsmall⟩ := hok fd hpc
    rw [hio]
    exact h.grown hsize hsmall
  · exact ⟨h.same hsame, hsame.table ▸ List.prefix_rfl⟩

/-- The table after a growth. -/
theorem grow_length {s s' : AddSys} {t fd : Nat} (hpc : s.threads t = .grow fd)
    (hstep : s.step (.grow t) = some s') : s'.io.fdContexts.length = fd * 3 / 2 := by
  simp only [AddSys.step, hpc] at hstep
  cases hstep
  cases entry fd (contextResize (fd * 3 / 2) s.io) with
  | ok p => exact contextResize_length _ _
  | error f => exact contextResize_length _ _

/-! ## Runs -/

/-- The states of a run that meets the condition. -/
theorem TableGrows.table {acts : List AddAct} (hg : TableGrows acts) :
    ∀ before rest s, acts = before ++ rest → Lib.after AddSys.step before AddSys.init = some s → Table s.io := by
  intro before
  induction before using List.reverseRecOn with
  | nil =>
    intro rest s _ hs
    cases hs
    exact table_init
  | append_singleton before act ih =>
    intro rest s hacts hs
    obtain ⟨s₁, hs₁, hstep⟩ := Lib.after_concat.mp hs
    rw [List.append_assoc, List.singleton_append] at hacts
    exact (step_table (ih _ s₁ hacts hs₁) (hg before act rest s₁ hacts hs₁) hstep).1

theorem TableGrows.stays {acts : List AddAct} (hg : TableGrows acts) (before : List AddAct) (s : AddSys)
    (hs : Lib.after AddSys.step before AddSys.init = some s) :
    ∀ between rest s', acts = before ++ between ++ rest → Lib.after AddSys.step between s = some s' →
      s.io.fdContexts <+: s'.io.fdContexts := by
  intro between
  induction between using List.reverseRecOn with
  | nil =>
    intro rest s' _ hs'
    cases hs'
    exact List.prefix_rfl
  | append_singleton between act ih =>
    intro rest s' hacts hs'
    obtain ⟨s₁, hs₁, hstep⟩ := Lib.after_concat.mp hs'
    have hacts' : acts = before ++ between ++ act :: rest := by rw [hacts]; simp
    have hreach : Lib.after AddSys.step (before ++ between) AddSys.init = some s₁ := by
      rw [Lib.after_append, hs, Option.bind_some, hs₁]
    have htable := hg.table (before ++ between) (act :: rest) s₁ hacts' hreach
    have hlast := (step_table htable (hg (before ++ between) act rest s₁ hacts' hreach) hstep).2
    exact (ih (act :: rest) s₁ hacts' hs₁).trans hlast

theorem TableGrows.law {acts : List AddAct} (hg : TableGrows acts) : TableLaw acts where
  stays before between rest s s' hacts hs hs' := hg.stays before s hs between rest s' hacts hs'
  fd_eq before rest s hacts hs i p hp := by
    have h := hg.table before rest s hacts hs
    rw [h.table] at hp
    obtain ⟨hlt, heq⟩ := List.getElem?_eq_some_iff.mp hp
    rw [List.getElem_range] at heq
    rw [List.length_range] at hlt
    rw [← heq, h.fd_eq i hlt]
  room before t rest s s' fd hacts hs hpc hstep := by
    have h := hg.table before _ s hacts hs
    have henough := h.enough
    have hsize := (hg before (.grow t) rest s hacts hs fd hpc).1
    rw [h.table, List.length_range] at hsize
    rw [grow_length hpc hstep]
    omega

/-! ## Runs that break the law -/

/-- No context has a number that is not an `int`. -/
def Low (s : State) : Prop := ∀ p, (s.context p).fd < 2 ^ 31

/-- The size as an `int` is never more than the size. -/
theorem toInt_le (n : Nat) : toInt n ≤ n := by
  unfold toInt
  rw [BitVec.toInt_eq_toNat_cond, BitVec.toNat_ofNat]
  have hmod := Nat.mod_le n (2 ^ 32)
  split <;> omega

theorem toInt_lt (n : Nat) : toInt n < 2 ^ 31 := by
  have h := BitVec.two_mul_toInt_lt (x := BitVec.ofNat 32 n)
  rw [toInt]
  omega

theorem Low.resized {s : State} (h : Low s) (n : Nat) : Low (contextResize n s) := by
  intro p
  by_cases hp : p < s.heap.length
  · have hctx : (contextResize n s).context p = s.context p := by
      rw [State.context, contextResize, List.getElem?_append_left hp, State.context]
    rw [hctx]
    exact h p
  · rw [State.context, contextResize, List.getElem?_append_right (by omega), newContexts_getElem?]
    split
    · exact toInt_lt _
    · decide

theorem step_low {s s' : AddSys} {act : AddAct} (h : Low s.io) (hstep : s.step act = some s') : Low s'.io := by
  rcases step_io hstep with ⟨t, fd, -, -, hio⟩ | hsame
  · rw [hio]
    exact h.resized _
  · intro p
    rw [hsame.fd_eq]
    exact h p

theorem after_low (acts : List AddAct) (s : AddSys) (hs : Lib.after AddSys.step acts AddSys.init = some s) :
    Low s.io := by
  have hinit : Low AddSys.init.io := by
    intro p
    by_cases hp : p < IOManager.init.heap.length
    · have hlen : IOManager.init.heap.length = 32 := rfl
      rw [AddSys.init, table_init.fd_eq p hp]
      omega
    · rw [AddSys.init, context_of_ge (Nat.not_lt.mp hp)]
      decide
  have hreached : Lib.Reached AddSys.step (fun _ _ => True) AddSys.init s :=
    Lib.Reached.start.after (fun _ _ => trivial) acts hs
  exact hreached.inv (P := fun s => Low s.io) hinit (fun _ _ _ h _ hstep => step_low h hstep)

theorem TableLaw.grows {acts : List AddAct} (hlaw : TableLaw acts) : TableGrows acts := by
  intro before act rest s hacts hs
  cases act with
  | find t fd => trivial
  | add t event cb caller fails => trivial
  | grow t =>
    intro fd hpc
    -- The growth is possible, so the law speaks of the table after it.
    obtain ⟨s', hstep⟩ : ∃ s', s.step (.grow t) = some s' := by
      simp only [AddSys.step, hpc]
      exact ⟨_, rfl⟩
    have hlen := grow_length hpc hstep
    have hacts' : acts = before ++ [.grow t] ++ rest := by rw [hacts]; simp
    have hone : Lib.after AddSys.step [.grow t] s = some s' := by simp [Lib.after, hstep]
    refine ⟨?_, ?_⟩
    · have hprefix := hlaw.stays before [.grow t] rest s s' hacts' hs hone
      rw [← hlen]
      exact hprefix.length_le
    · apply Decidable.byContradiction
      intro hbig
      have hs' := Lib.after_concat.mpr ⟨s, hs, hstep⟩
      have hin : 2 ^ 31 < s'.io.fdContexts.length := by omega
      have hfd := hlaw.fd_eq (before ++ [.grow t]) rest s' hacts' hs' (2 ^ 31) _ (List.getElem?_eq_getElem hin)
      have hlow := after_low (before ++ [.grow t]) s' hs' s'.io.fdContexts[2 ^ 31]
      rw [hfd] at hlow
      omega

/-- The table never loses an entry in exactly the runs in which every growth asks for no fewer
places than there are, and for no more than 2^31. -/
theorem table_law_iff (acts : List AddAct) : TableLaw acts ↔ TableGrows acts :=
  ⟨TableLaw.grows, TableGrows.law⟩

/-- Both threads see a table of 32 places. Thread 2 grows it for descriptor 100; if thread 1
now grows it for descriptor 40, it makes it smaller. -/
def slowerThread : List AddAct := [.find 1 40, .find 2 100, .grow 2]

theorem table_shrinks : ¬ TableLaw (slowerThread ++ [.grow 1]) := by
  intro hlaw
  have hbefore : (Lib.after AddSys.step slowerThread AddSys.init).map
      (fun s => (s.io.fdContexts.length, s.threads 1)) = some (150, .grow 40) := by decide +kernel
  obtain ⟨s, hs, heq⟩ := Option.map_eq_some_iff.mp hbefore
  simp only [Prod.mk.injEq] at heq
  have hgrows := hlaw.grows slowerThread (.grow 1) [] s rfl hs 40 heq.2
  omega

end Sylar.IOManager
