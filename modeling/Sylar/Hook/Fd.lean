import Mathlib.Data.List.Basic
import Mathlib.Logic.Function.Basic

/- The descriptors of `sylar/fdmanager.cc`, and `fcntl` and `ioctl` of `sylar/hook.cc`.

   The kernel is a word of flags for each descriptor, with what `fstat` says of it:
   nothing, or whether it is a socket. `fcntl_f` and `ioctl_f` succeed. Descriptors are
   natural numbers: `get(-1)` is null, and no other negative number is passed.

   Only the commands that have to do with `O_NONBLOCK` are here; the others of `fcntl`
   are forwarded and touch neither an `FdCtx` nor the flags. -/
namespace Sylar.Hook

def O_NONBLOCK : BitVec 32 := 0x800

structure FdCtx where
  isInit : Bool := false
  isSocket : Bool := false
  sysNonblock : Bool := false
  userNonblock : Bool := false
  isClosed : Bool := false
  fd : Nat
  recvTimeout : UInt64 := -1
  sendTimeout : UInt64 := -1
  deriving DecidableEq, Repr

/-- The kernel, and `m_datas` of the `FdManager`, which starts with 64 places and never shrinks. -/
structure Process where
  /-- `fstat`: `none` when it fails, else `S_ISSOCK`. -/
  stat : Nat → Option Bool
  flags : Nat → BitVec 32
  datas : List (Option FdCtx)
  enough : 64 ≤ datas.length

def Process.setFlags (p : Process) (fd : Nat) (flags : BitVec 32) : Process :=
  { p with flags := Function.update p.flags fd flags }

/-- `FdCtx::FdCtx`, which calls `init`. -/
def FdCtx.new (fd : Nat) (p : Process) : FdCtx × Process :=
  let ctx : FdCtx := { fd := fd }
  let ctx := match p.stat fd with
    | none => { ctx with isInit := false, isSocket := false }
    | some isSocket => { ctx with isInit := true, isSocket := isSocket }
  if ctx.isSocket then
    let flags := p.flags fd
    let p := if flags &&& O_NONBLOCK = 0 then p.setFlags fd (flags ||| O_NONBLOCK) else p
    ({ ctx with sysNonblock := true, userNonblock := false, isClosed := false }, p)
  else ({ ctx with sysNonblock := false, userNonblock := false, isClosed := false }, p)

inductive TimeoutType where
  | SO_RCVTIMEO
  | SO_SNDTIMEO
  deriving DecidableEq, Repr

def FdCtx.setTimeout (ctx : FdCtx) (type : TimeoutType) (v : UInt64) : FdCtx :=
  match type with
  | .SO_RCVTIMEO => { ctx with recvTimeout := v }
  | .SO_SNDTIMEO => { ctx with sendTimeout := v }

def FdCtx.getTimeout (ctx : FdCtx) (type : TimeoutType) : UInt64 :=
  match type with
  | .SO_RCVTIMEO => ctx.recvTimeout
  | .SO_SNDTIMEO => ctx.sendTimeout

/-! ## FdManager -/

/-- `m_datas[fd]`, null outside the table. -/
def Process.ctx (p : Process) (fd : Nat) : Option FdCtx := (p.datas[fd]?).getD none

def Process.put (p : Process) (fd : Nat) (ctx : Option FdCtx) : Process :=
  { p with datas := p.datas.set fd ctx, enough := by rw [List.length_set]; exact p.enough }

/-- `m_datas.resize(size)` for a larger size. -/
def Process.resize (p : Process) (size : Nat) : Process :=
  { p with
    datas := p.datas ++ List.replicate (size - p.datas.length) none
    enough := by rw [List.length_append]; exact Nat.le_add_right_of_le p.enough }

/-- The write-locked half of `get`. -/
def Process.create (p : Process) (fd : Nat) : Option FdCtx × Process :=
  let (ctx, p) := FdCtx.new fd p
  let p := if fd ≥ p.datas.length then p.resize (fd * 3 / 2) else p
  (some ctx, p.put fd (some ctx))

def Process.get (p : Process) (fd : Nat) (auto_create : Bool) : Option FdCtx × Process :=
  if p.datas.length ≤ fd then
    if auto_create = false then (none, p) else p.create fd
  else if (p.ctx fd).isSome ∨ auto_create = false then (p.ctx fd, p)
  else p.create fd

def Process.del (p : Process) (fd : Nat) : Process :=
  if p.datas.length ≤ fd then p else p.put fd none

/-! ## fcntl and ioctl -/

/-- `!ctx || ctx->isClose() || !ctx->isSocket()`. -/
def unmanaged (ctx : Option FdCtx) : Bool :=
  match ctx with
  | none => true
  | some ctx => ctx.isClosed || !ctx.isSocket

/-- `fcntl(fd, F_SETFL, arg)`. -/
def Process.fcntlSetfl (p : Process) (fd : Nat) (arg : BitVec 32) : Process :=
  match p.ctx fd with
  | none => p.setFlags fd arg
  | some ctx =>
    if unmanaged (some ctx) then p.setFlags fd arg
    else
      let p := p.put fd (some { ctx with userNonblock := arg &&& O_NONBLOCK ≠ 0 })
      if ctx.sysNonblock then p.setFlags fd (arg ||| O_NONBLOCK)
      else p.setFlags fd (arg &&& ~~~O_NONBLOCK)

/-- `fcntl(fd, F_GETFL)`. -/
def Process.fcntlGetfl (p : Process) (fd : Nat) : BitVec 32 :=
  let arg := p.flags fd
  match p.ctx fd with
  | none => arg
  | some ctx =>
    if unmanaged (some ctx) then arg
    else if ctx.userNonblock then arg ||| O_NONBLOCK
    else arg &&& ~~~O_NONBLOCK

/-- The kernel's `ioctl(fd, FIONBIO, &v)`. -/
def Process.ioctlF (p : Process) (fd : Nat) (v : BitVec 32) : Process :=
  if v ≠ 0 then p.setFlags fd (p.flags fd ||| O_NONBLOCK)
  else p.setFlags fd (p.flags fd &&& ~~~O_NONBLOCK)

/-- `ioctl(fd, FIONBIO, &v)`. -/
def Process.ioctlFionbio (p : Process) (fd : Nat) (v : BitVec 32) : Process :=
  let user_nonblock : Bool := v ≠ 0
  match p.ctx fd with
  | none => p.ioctlF fd v
  | some ctx =>
    if unmanaged (some ctx) then p.ioctlF fd v
    else (p.put fd (some { ctx with userNonblock := user_nonblock })).ioctlF fd v

end Sylar.Hook
