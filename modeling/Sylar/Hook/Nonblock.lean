import Mathlib.Data.List.Basic
import Mathlib.Logic.Function.Basic
import Sylar.Hook.Fd

/- The two views of `O_NONBLOCK`.

   The framework needs the flag set in the kernel; the user is told what the user asked
   for. `fcntl(F_SETFL)` keeps the two apart. `ioctl(FIONBIO)` notes the request and then
   forwards the user's value, so a request for a blocking socket clears the flag in the
   kernel. `nonblock_view_iff` says that this is the only way the view breaks, over any
   calls on any descriptors. -/
namespace Sylar.Hook

/-! ## Requests -/

inductive Request where
  | setfl (arg : BitVec 32)
  | getfl
  | fionbio (v : BitVec 32)
  deriving DecidableEq, Repr

/-- One hooked call, its result dropped. -/
def Process.call (p : Process) (fd : Nat) : Request → Process
  | .setfl arg => p.fcntlSetfl fd arg
  | .getfl => p
  | .fionbio v => p.ioctlFionbio fd v

def Process.calls (p : Process) (cs : List (Nat × Request)) : Process :=
  cs.foldl (fun p c => p.call c.1 c.2) p

/-- What the user of a descriptor has asked for. -/
structure View where
  nonblock : Bool
  others : BitVec 32

def View.call (v : View) : Request → View
  | .setfl arg => { nonblock := arg &&& O_NONBLOCK ≠ 0, others := arg &&& ~~~O_NONBLOCK }
  | .getfl => v
  | .fionbio n => { v with nonblock := n ≠ 0 }

/-- The view after the calls on `fd`. -/
def View.calls (v : View) (fd : Nat) (cs : List (Nat × Request)) : View :=
  cs.foldl (fun v c => if c.1 = fd then v.call c.2 else v) v

def View.word (v : View) : BitVec 32 := if v.nonblock then v.others ||| O_NONBLOCK else v.others

/-- The kernel's flag is set as long as `getSysNonblock()` is true, and `F_GETFL` reports what the
user asked for. -/
structure Transparent (p : Process) (fd : Nat) (v : View) : Prop where
  kernel : ∀ ctx, p.ctx fd = some ctx → ctx.sysNonblock = true → p.flags fd &&& O_NONBLOCK ≠ 0
  report : p.fcntlGetfl fd = v.word

/-! ## Flags -/

section
variable (m k : BitVec 32)

theorem or_and_not : (m ||| k) &&& ~~~k = m &&& ~~~k := by
  ext i
  simp
  grind

theorem and_not_or : (m &&& ~~~k) ||| k = m ||| k := by
  ext i
  simp
  grind

theorem and_not_and : (m &&& ~~~k) &&& k = 0 := by
  ext i
  simp

theorem and_not_and_not : (m &&& ~~~k) &&& ~~~k = m &&& ~~~k := by
  ext i
  simp

theorem or_and_self : (m ||| k) &&& k = k := by
  ext i
  simp
  grind

end

theorem nonblock_set (m : BitVec 32) : (m ||| O_NONBLOCK) &&& O_NONBLOCK ≠ 0 := by
  rw [or_and_self]
  decide

/-! ## One call -/

section
variable {p : Process} {fd : Nat} {v : View}

@[simp] theorem ctx_setFlags (p : Process) (n fd : Nat) (w : BitVec 32) : (p.setFlags n w).ctx fd = p.ctx fd := rfl

@[simp] theorem flags_put (p : Process) (n : Nat) (ctx : Option FdCtx) : (p.put n ctx).flags = p.flags := rfl

@[simp] theorem flags_setFlags_self (p : Process) (fd : Nat) (w : BitVec 32) : (p.setFlags fd w).flags fd = w := by
  simp [Process.setFlags]

theorem flags_setFlags_of_ne {n : Nat} (hn : n ≠ fd) (w : BitVec 32) : (p.setFlags n w).flags fd = p.flags fd := by
  simp [Process.setFlags, Function.update_of_ne (Ne.symm hn)]

theorem lt_of_ctx {ctx : FdCtx} (h : p.ctx fd = some ctx) : fd < p.datas.length := by
  by_contra hge
  simp [Process.ctx, List.getElem?_eq_none (Nat.le_of_not_lt hge)] at h

theorem ctx_put_self (ctx : Option FdCtx) (hfd : fd < p.datas.length) : (p.put fd ctx).ctx fd = ctx := by
  simp [Process.ctx, Process.put, List.getElem?_set_self hfd]

theorem ctx_put_of_ne {n : Nat} (hn : n ≠ fd) (ctx : Option FdCtx) : (p.put n ctx).ctx fd = p.ctx fd := by
  simp [Process.ctx, Process.put, List.getElem?_set_ne hn]

@[simp] theorem ctx_ioctlF (p : Process) (n fd : Nat) (w : BitVec 32) : (p.ioctlF n w).ctx fd = p.ctx fd := by
  unfold Process.ioctlF
  split <;> rfl

theorem flags_ioctlF_of_ne {n : Nat} (hn : n ≠ fd) (w : BitVec 32) : (p.ioctlF n w).flags fd = p.flags fd := by
  unfold Process.ioctlF
  split <;> exact flags_setFlags_of_ne hn _

/-- A call on another descriptor is not noticed. -/
theorem call_of_ne {n : Nat} (hn : n ≠ fd) (r : Request) :
    (p.call n r).ctx fd = p.ctx fd ∧ (p.call n r).flags fd = p.flags fd := by
  cases r with
  | getfl => exact ⟨rfl, rfl⟩
  | setfl arg =>
    simp only [Process.call, Process.fcntlSetfl]
    split
    · exact ⟨rfl, flags_setFlags_of_ne hn _⟩
    · split
      · exact ⟨rfl, flags_setFlags_of_ne hn _⟩
      · split
        · exact ⟨ctx_put_of_ne hn _, flags_setFlags_of_ne hn _⟩
        · exact ⟨ctx_put_of_ne hn _, flags_setFlags_of_ne hn _⟩
  | fionbio w =>
    simp only [Process.call, Process.ioctlFionbio]
    split
    · exact ⟨ctx_ioctlF p n fd w, flags_ioctlF_of_ne hn w⟩
    · split
      · exact ⟨ctx_ioctlF p n fd w, flags_ioctlF_of_ne hn w⟩
      · rw [ctx_ioctlF, flags_ioctlF_of_ne hn]
        exact ⟨ctx_put_of_ne hn _, rfl⟩

/-- The descriptor is a managed socket, and the user's view of it is `v`. -/
structure Managed (p : Process) (fd : Nat) (v : View) : Prop where
  ctx : ∃ ctx, p.ctx fd = some ctx ∧ ctx.isSocket = true ∧ ctx.isClosed = false ∧
    ctx.sysNonblock = true ∧ ctx.userNonblock = v.nonblock
  others : p.flags fd &&& ~~~O_NONBLOCK = v.others

theorem Managed.report (h : Managed p fd v) : p.fcntlGetfl fd = v.word := by
  obtain ⟨ctx, hctx, hsock, hopen, -, huser⟩ := h.ctx
  simp only [Process.fcntlGetfl, hctx, unmanaged, hsock, hopen, huser, View.word, ← h.others, and_not_or]
  simp

theorem Managed.transparent_iff (h : Managed p fd v) :
    Transparent p fd v ↔ p.flags fd &&& O_NONBLOCK ≠ 0 := by
  obtain ⟨ctx, hctx, -, -, hsys, -⟩ := h.ctx
  constructor
  · intro ht
    exact ht.kernel ctx hctx hsys
  · intro hset
    exact ⟨fun _ _ _ => hset, h.report⟩

/-- What a call on the descriptor does. -/
theorem Managed.call_eq (h : Managed p fd v) (r : Request) : ∃ ctx, (p.call fd r).ctx fd = some ctx ∧
    ctx.isSocket = true ∧ ctx.isClosed = false ∧ ctx.sysNonblock = true ∧
    ctx.userNonblock = (v.call r).nonblock ∧
    (p.call fd r).flags fd = match r with
      | .setfl arg => arg ||| O_NONBLOCK
      | .getfl => p.flags fd
      | .fionbio n => if n ≠ 0 then p.flags fd ||| O_NONBLOCK else p.flags fd &&& ~~~O_NONBLOCK := by
  obtain ⟨ctx, hctx, hsock, hopen, hsys, huser⟩ := h.ctx
  have hlt := lt_of_ctx hctx
  have hmanaged : unmanaged (some ctx) = false := by simp [unmanaged, hsock, hopen]
  cases r with
  | getfl => exact ⟨ctx, hctx, hsock, hopen, hsys, huser, rfl⟩
  | setfl arg =>
    refine ⟨{ ctx with userNonblock := arg &&& O_NONBLOCK ≠ 0 }, ?_, hsock, hopen, hsys, rfl, ?_⟩
    · simp [Process.call, Process.fcntlSetfl, hctx, hmanaged, hsys, ctx_put_self _ hlt]
    · simp [Process.call, Process.fcntlSetfl, hctx, hmanaged, hsys]
  | fionbio n =>
    refine ⟨{ ctx with userNonblock := n ≠ 0 }, ?_, hsock, hopen, hsys, rfl, ?_⟩
    · simp [Process.call, Process.ioctlFionbio, hctx, hmanaged, ctx_put_self _ hlt]
    · simp only [Process.call, Process.ioctlFionbio, hctx, hmanaged, Process.ioctlF, flags_put,
        Bool.false_eq_true, if_false]
      split <;> exact flags_setFlags_self _ _ _

theorem Managed.call (h : Managed p fd v) (r : Request) : Managed (p.call fd r) fd (v.call r) := by
  obtain ⟨ctx, hctx, hsock, hopen, hsys, huser, hflags⟩ := h.call_eq r
  refine ⟨⟨ctx, hctx, hsock, hopen, hsys, huser⟩, ?_⟩
  rw [hflags]
  cases r with
  | getfl => exact h.others
  | setfl arg => exact or_and_not arg O_NONBLOCK
  | fionbio n =>
    show (if n ≠ 0 then p.flags fd ||| O_NONBLOCK else p.flags fd &&& ~~~O_NONBLOCK) &&& ~~~O_NONBLOCK = v.others
    split
    · rw [or_and_not]; exact h.others
    · rw [and_not_and_not]; exact h.others

/-- The kernel's flag after a call that found it set. -/
theorem Managed.kernel_call (h : Managed p fd v) (hset : p.flags fd &&& O_NONBLOCK ≠ 0) (r : Request) :
    (p.call fd r).flags fd &&& O_NONBLOCK ≠ 0 ↔ r ≠ .fionbio 0 := by
  obtain ⟨-, -, -, -, -, -, hflags⟩ := h.call_eq r
  rw [hflags]
  cases r with
  | getfl => exact iff_of_true hset (by simp)
  | setfl arg => exact iff_of_true (nonblock_set arg) (by simp)
  | fionbio n =>
    by_cases hn : n = 0
    · subst hn
      exact iff_of_false (not_not_intro (and_not_and _ _)) (by simp)
    · dsimp only
      rw [if_pos hn]
      exact iff_of_true (nonblock_set _) (fun heq => hn (Request.fionbio.inj heq))

end

/-! ## Sequences of calls -/

section
variable {fd : Nat}

/-- A call on any descriptor keeps the socket managed. -/
theorem Managed.step {p : Process} {v : View} (h : Managed p fd v) (c : Nat × Request) :
    Managed (p.call c.1 c.2) fd (if c.1 = fd then v.call c.2 else v) := by
  by_cases hc : c.1 = fd
  · rw [if_pos hc, hc]
    exact h.call c.2
  · rw [if_neg hc]
    obtain ⟨hctx, hflags⟩ := call_of_ne (p := p) hc c.2
    refine ⟨?_, by rw [hflags]; exact h.others⟩
    rw [hctx]
    exact h.ctx

theorem Managed.kernel_step {p : Process} {v : View} (h : Managed p fd v)
    (hset : p.flags fd &&& O_NONBLOCK ≠ 0) (c : Nat × Request) :
    (p.call c.1 c.2).flags fd &&& O_NONBLOCK ≠ 0 ↔ (c.1 = fd → c.2 ≠ .fionbio 0) := by
  by_cases hc : c.1 = fd
  · rw [hc]
    simpa using h.kernel_call hset c.2
  · rw [(call_of_ne (p := p) hc c.2).2]
    exact iff_of_true hset (fun heq => absurd heq hc)

/-- The view holds after every beginning of the calls exactly when none of them asks `ioctl` for a
blocking socket. -/
theorem Managed.transparent_calls : ∀ (cs : List (Nat × Request)) {p : Process} {v : View},
    Managed p fd v → p.flags fd &&& O_NONBLOCK ≠ 0 →
    ((∀ before after, cs = before ++ after → Transparent (p.calls before) fd (v.calls fd before)) ↔
      ∀ c ∈ cs, c.1 = fd → c.2 ≠ .fionbio 0) := by
  intro cs
  induction cs with
  | nil =>
    intro p v h hset
    refine ⟨fun _ c hc => absurd hc List.not_mem_nil, fun _ before after heq => ?_⟩
    obtain ⟨rfl, rfl⟩ := List.append_eq_nil_iff.mp heq.symm
    exact h.transparent_iff.mpr hset
  | cons c rest ih =>
    intro p v h hset
    have hnext := h.step c
    have hkernel := h.kernel_step hset c
    constructor
    · intro hall
      have hfirst : c.1 = fd → c.2 ≠ .fionbio 0 := by
        rw [← hkernel, ← hnext.transparent_iff]
        exact hall [c] rest rfl
      have hrest := (ih hnext (hkernel.mpr hfirst)).mp
        (fun before after heq => hall (c :: before) after (by rw [heq]; rfl))
      intro d hd
      rcases List.mem_cons.mp hd with rfl | hd
      · exact hfirst
      · exact hrest d hd
    · intro hno before after heq
      have hset' := hkernel.mpr (hno c List.mem_cons_self)
      cases before with
      | nil => exact h.transparent_iff.mpr hset
      | cons d before =>
        obtain ⟨rfl, hrest⟩ := List.cons.inj heq
        exact (ih hnext hset').mpr (fun d hd => hno d (List.mem_cons_of_mem c hd)) before after hrest

end

/-! ## A new socket -/

section
variable {p : Process} {fd : Nat}

/-- `init` sets the flag of a socket in the kernel and leaves its other flags. -/
theorem new_socket (hsock : p.stat fd = some true) :
    (FdCtx.new fd p).1 = { isInit := true, isSocket := true, sysNonblock := true, fd := fd } ∧
      (FdCtx.new fd p).2.datas = p.datas ∧
      (FdCtx.new fd p).2.flags fd &&& O_NONBLOCK ≠ 0 ∧
      (FdCtx.new fd p).2.flags fd &&& ~~~O_NONBLOCK = p.flags fd &&& ~~~O_NONBLOCK := by
  unfold FdCtx.new
  rw [hsock]
  dsimp only
  rw [if_pos rfl]
  dsimp only
  split
  · rw [flags_setFlags_self]
    exact ⟨rfl, rfl, nonblock_set _, or_and_not _ _⟩
  · rename_i hset
    exact ⟨rfl, rfl, hset, rfl⟩

theorem length_resize (p : Process) {n : Nat} (hn : p.datas.length ≤ n) : (p.resize n).datas.length = n := by
  simp only [Process.resize, List.length_append, List.length_replicate]
  omega

/-- `get` makes a context for a socket that had none. -/
theorem create_ctx (hsock : p.stat fd = some true) :
    (p.create fd).2.ctx fd = some { isInit := true, isSocket := true, sysNonblock := true, fd := fd } ∧
      (p.create fd).2.flags fd &&& O_NONBLOCK ≠ 0 ∧
      (p.create fd).2.flags fd &&& ~~~O_NONBLOCK = p.flags fd &&& ~~~O_NONBLOCK := by
  obtain ⟨hctx, hdatas, hset, hothers⟩ := new_socket hsock
  have henough := p.enough
  unfold Process.create
  dsimp only
  rw [hdatas, hctx]
  by_cases hfd : fd ≥ p.datas.length
  · rw [if_pos hfd]
    have hgrow : (FdCtx.new fd p).2.datas.length ≤ fd * 3 / 2 := by rw [hdatas]; omega
    refine ⟨ctx_put_self _ ?_, hset, hothers⟩
    rw [length_resize _ hgrow]
    omega
  · rw [if_neg hfd]
    refine ⟨ctx_put_self _ ?_, hset, hothers⟩
    rw [hdatas]
    omega

theorem get_new (hnew : p.ctx fd = none) : p.get fd true = p.create fd := by
  unfold Process.get
  split
  · rw [if_neg (by decide)]
  · rw [if_neg (by simp [hnew])]

/-- The user's view of a new socket: its flags, without `O_NONBLOCK`. -/
def View.new (p : Process) (fd : Nat) : View :=
  { nonblock := false, others := p.flags fd &&& ~~~O_NONBLOCK }

theorem managed_new (hsock : p.stat fd = some true) (hnew : p.ctx fd = none) :
    Managed (p.get fd true).2 fd (View.new p fd) ∧ (p.get fd true).2.flags fd &&& O_NONBLOCK ≠ 0 := by
  obtain ⟨hctx, hset, hothers⟩ := create_ctx hsock
  rw [get_new hnew]
  exact ⟨⟨⟨_, hctx, rfl, rfl, rfl, rfl⟩, hothers⟩, hset⟩

end

/-- **The non-blocking view of a managed socket**: for a socket that `get` takes under management, and
any calls on any descriptors after that, the view holds after every call exactly when none of the calls
is `ioctl(FIONBIO)` with 0 on this socket. -/
theorem nonblock_view_iff (p : Process) (fd : Nat) (hsock : p.stat fd = some true) (hnew : p.ctx fd = none)
    (cs : List (Nat × Request)) :
    (∀ before after, cs = before ++ after →
        Transparent ((p.get fd true).2.calls before) fd ((View.new p fd).calls fd before)) ↔
      ∀ c ∈ cs, c.1 = fd → c.2 ≠ .fionbio 0 := by
  obtain ⟨hmanaged, hset⟩ := managed_new hsock hnew
  exact hmanaged.transparent_calls cs hset

/-- A process whose descriptors are sockets, at the start. -/
def sockets : Process where
  stat := fun _ => some true
  flags := fun _ => 0x2
  datas := List.replicate 64 none
  enough := by decide

/-- `F_SETFL` with and without the flag. -/
theorem nonblock_view_setfl :
    sockets.stat 7 = some true ∧ sockets.ctx 7 = none ∧
      Transparent ((sockets.get 7 true).2.calls [(7, .setfl 0x802), (7, .setfl 0x2)]) 7
        ((View.new sockets 7).calls 7 [(7, .setfl 0x802), (7, .setfl 0x2)]) := by
  have hnew : sockets.ctx 7 = none := by decide
  have hcalls : ∀ c ∈ [(7, Request.setfl 0x802), (7, .setfl 0x2)], c.1 = 7 → c.2 ≠ .fionbio 0 := by decide
  refine ⟨rfl, hnew, ?_⟩
  exact (nonblock_view_iff sockets 7 rfl hnew _).mpr hcalls _ [] (List.append_nil _).symm

/-- After `ioctl(FIONBIO)` with 0 the kernel's flag is clear, though the framework counts on it. -/
theorem nonblock_view_lost :
    ((sockets.get 7 true).2.calls [(7, .fionbio 0)]).flags 7 &&& O_NONBLOCK = 0 ∧
      (((sockets.get 7 true).2.calls [(7, .fionbio 0)]).ctx 7).map FdCtx.sysNonblock = some true ∧
      ¬ Transparent ((sockets.get 7 true).2.calls [(7, .fionbio 0)]) 7
        ((View.new sockets 7).calls 7 [(7, .fionbio 0)]) := by
  refine ⟨by decide, by decide, ?_⟩
  intro ht
  exact ht.kernel { isInit := true, isSocket := true, sysNonblock := true, fd := 7 } (by decide) rfl
    (by decide)

end Sylar.Hook
