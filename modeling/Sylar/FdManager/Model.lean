import Mathlib.Data.BitVec

/-!
# Contexts of file descriptors

`FdCtx` and `FdManager` of `fd_manager.cpp`, and the hooked calls of `hook.cpp`
that change the mode of a descriptor. The kernel keeps the status flags of an open
file as the manual of `fcntl` says; whether it carries a call out is an argument.
-/

namespace Sylar

/-- File status flags, an `int`. -/
abbrev Flags := BitVec 32

namespace Flags

def oNonblock : Flags := 0x800

/-- The flags that `F_SETFL` can change: `O_APPEND`, `O_NONBLOCK`, `O_ASYNC`, `O_DIRECT` and
`O_NOATIME`. -/
def settable : Flags := 0x46c00

/-- `flags & O_NONBLOCK`, as a condition. -/
def nonblock (flags : Flags) : Bool := flags &&& oNonblock != 0

/-- `flags | O_NONBLOCK` or `flags & ~O_NONBLOCK`. -/
def setNonblock (flags : Flags) (v : Bool) : Flags :=
  if v then flags ||| oNonblock else flags &&& ~~~oNonblock

/-- What `F_SETFL` makes of the flags. -/
def setStatus (flags arg : Flags) : Flags := (flags &&& ~~~settable) ||| (arg &&& settable)

end Flags

/-- `fcntl_f(fd, F_SETFL, arg)`, with the flags of the file after it. -/
def fcntlF (flags arg : Flags) (success : Bool) : Int × Flags :=
  if success then (0, flags.setStatus arg) else (-1, flags)

/-- `ioctl_f(fd, FIONBIO, &value)`, with the flags of the file after it. -/
def ioctlF (flags : Flags) (value : BitVec 32) (success : Bool) : Int × Flags :=
  if success then (0, flags.setNonblock (value != 0)) else (-1, flags)

structure FdCtx where
  isInit : Bool
  isSocket : Bool
  sysNonblock : Bool
  userNonblock : Bool
  isClosed : Bool
  recvTimeout : UInt64
  sendTimeout : UInt64
deriving DecidableEq, Repr

/-- The options `SO_RCVTIMEO` and `SO_SNDTIMEO`. -/
inductive TimeoutType where
  | recv | send
deriving DecidableEq, Repr

namespace FdCtx

/-- `setTimeout` of the option. -/
def setTimeout (ctx : FdCtx) (type : TimeoutType) (v : UInt64) : FdCtx :=
  match type with
  | .recv => { ctx with recvTimeout := v }
  | .send => { ctx with sendTimeout := v }

/-- `getTimeout` of the option. -/
def getTimeout (ctx : FdCtx) : TimeoutType → UInt64
  | .recv => ctx.recvTimeout
  | .send => ctx.sendTimeout

def setUserNonblock (ctx : FdCtx) (v : Bool) : FdCtx := { ctx with userNonblock := v }

end FdCtx

/-- What `FdMgr::get` returns for a descriptor, and the flags of its file. -/
structure Descriptor where
  ctx : Option FdCtx
  flags : Flags
deriving DecidableEq, Repr

namespace Descriptor

/-- The hooked `fcntl(fd, F_SETFL, arg)`. -/
def setfl (d : Descriptor) (arg : Flags) (success : Bool) : Int × Descriptor :=
  match d.ctx with
  | none =>
      let (result, flags) := fcntlF d.flags arg success
      (result, { d with flags })
  | some ctx =>
      if ctx.isClosed || !ctx.isSocket then
        let (result, flags) := fcntlF d.flags arg success
        (result, { d with flags })
      else
        let ctx := ctx.setUserNonblock arg.nonblock
        let arg := arg.setNonblock ctx.sysNonblock
        let (result, flags) := fcntlF d.flags arg success
        (result, ⟨some ctx, flags⟩)

/-- The hooked `fcntl(fd, F_GETFL)`. -/
def getfl (d : Descriptor) : Flags :=
  let arg := d.flags
  match d.ctx with
  | none => arg
  | some ctx =>
      if ctx.isClosed || !ctx.isSocket then arg
      else arg.setNonblock ctx.userNonblock

/-- The hooked `ioctl(d, FIONBIO, &value)`. -/
def fionbio (d : Descriptor) (value : BitVec 32) (success : Bool) : Int × Descriptor :=
  let userNonblock := value != 0
  match d.ctx with
  | none =>
      let (result, flags) := ioctlF d.flags value success
      (result, { d with flags })
  | some ctx =>
      if ctx.isClosed || !ctx.isSocket then
        let (result, flags) := ioctlF d.flags value success
        (result, { d with flags })
      else
        let ctx := ctx.setUserNonblock userNonblock
        let (result, flags) := ioctlF d.flags value success
        (result, ⟨some ctx, flags⟩)

end Descriptor

/-- The context that `FdCtx::FdCtx` makes, and the flags of the file after it. `stat` is what
`fstat` tells, `none` when it fails, and whether the file is a socket. While the context is made
the manager does not have it yet, so that the hooked `fcntl` finds none. -/
def FdCtx.init (stat : Option Bool) (flags : Flags) (success : Bool) : FdCtx × Flags :=
  let isInit := stat.isSome
  let isSocket := stat.getD false
  let flags :=
    if isSocket && !flags.nonblock then
      ((⟨none, flags⟩ : Descriptor).setfl (flags.setNonblock true) success).2.flags
    else flags
  (⟨isInit, isSocket, isSocket, false, false, -1, -1⟩, flags)

/-- The contexts that were made, and for each descriptor which of them it has. -/
structure FdManager where
  contexts : List FdCtx
  datas : List (Option Nat)
deriving DecidableEq, Repr

namespace FdManager

/-- The constructor. -/
def new : FdManager := ⟨[], List.replicate 64 none⟩

/-- The context at an address. -/
def context (manager : FdManager) (address : Option Nat) : Option FdCtx :=
  address.bind (manager.contexts[·]?)

/-- The section of `get` under the read lock: what it returns, or `none` when it goes on. -/
def lookup (manager : FdManager) (fd : Nat) (autoCreate : Bool) : Option (Option Nat) :=
  match manager.datas[fd]? with
  | none => if autoCreate then none else some none
  | some data => if data.isSome || !autoCreate then some data else none

/-- The section of `get` under the write lock. -/
def create (manager : FdManager) (fd : Nat) (ctx : FdCtx) : FdManager :=
  let datas :=
    if manager.datas.length ≤ fd then
      manager.datas ++ List.replicate (fd * 3 / 2 - manager.datas.length) none
    else manager.datas
  ⟨manager.contexts ++ [ctx], datas.set fd (some manager.contexts.length)⟩

/-- `del`. -/
def del (manager : FdManager) (fd : Nat) : FdManager :=
  if manager.datas.length ≤ fd then manager
  else { manager with datas := manager.datas.set fd none }

end FdManager

end Sylar
