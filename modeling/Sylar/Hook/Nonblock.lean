import Mathlib.Tactic.Common
import Sylar.FdManager.Model
import Sylar.Library.Transition

/-!
# The mode of a socket, for the kernel and for the user

Every managed socket is non-blocking for the kernel, and the hooked calls keep what
the user asked for in its context. `asked` is what an ordinary file would show the
user. The hooked `fcntl` keeps the two apart; the hooked `ioctl` hands the value of
the user on to the kernel.
-/

namespace Sylar

namespace Flags

theorem getLsbD_oNonblock (i : Nat) : oNonblock.getLsbD i = decide (i = 11) := by
  have power : oNonblock = BitVec.twoPow 32 11 := by decide
  rw [power, BitVec.getLsbD_twoPow]
  by_cases here : i = 11 <;> simp [here, eq_comm]

theorem nonblock_eq (flags : Flags) : flags.nonblock = flags.getLsbD 11 := by
  have masked : flags &&& oNonblock = if flags.getLsbD 11 then oNonblock else 0 := by
    ext i inside
    simp only [← BitVec.getLsbD_eq_getElem, BitVec.getLsbD_and, getLsbD_oNonblock]
    by_cases here : i = 11
    · subst here
      cases flags.getLsbD 11 <;> decide
    · cases flags.getLsbD 11 <;> simp [here, getLsbD_oNonblock]
  unfold nonblock
  rw [masked]
  cases flags.getLsbD 11 <;> decide

theorem getLsbD_setNonblock (flags : Flags) (v : Bool) {i : Nat} (inside : i < 32) :
    (flags.setNonblock v).getLsbD i = if i = 11 then v else flags.getLsbD i := by
  cases v with
  | false =>
      simp only [setNonblock, Bool.false_eq_true, if_false, BitVec.getLsbD_and, BitVec.getLsbD_not,
        getLsbD_oNonblock, inside, decide_true, Bool.true_and]
      by_cases here : i = 11 <;> simp [here]
  | true =>
      simp only [setNonblock, if_true, BitVec.getLsbD_or, getLsbD_oNonblock]
      by_cases here : i = 11 <;> simp [here]

theorem getLsbD_setStatus (flags arg : Flags) {i : Nat} (inside : i < 32) :
    (flags.setStatus arg).getLsbD i =
      if settable.getLsbD i then arg.getLsbD i else flags.getLsbD i := by
  simp only [setStatus, BitVec.getLsbD_or, BitVec.getLsbD_and, BitVec.getLsbD_not, inside,
    decide_true, Bool.true_and]
  cases settable.getLsbD i <;> simp

theorem ext_getLsbD {first second : Flags}
    (same : ∀ i < 32, first.getLsbD i = second.getLsbD i) : first = second :=
  BitVec.eq_of_getLsbD_eq fun i inside => same i inside

variable (flags arg : Flags) (v w : Bool)

@[simp] theorem nonblock_setNonblock : (flags.setNonblock v).nonblock = v := by
  rw [nonblock_eq, getLsbD_setNonblock _ _ (by decide), if_pos rfl]

@[simp] theorem setNonblock_setNonblock :
    (flags.setNonblock v).setNonblock w = flags.setNonblock w := by
  refine ext_getLsbD fun i inside => ?_
  simp only [getLsbD_setNonblock _ _ inside]
  split <;> rfl

theorem setNonblock_nonblock (same : flags.nonblock = v) : flags.setNonblock v = flags := by
  refine ext_getLsbD fun i inside => ?_
  rw [getLsbD_setNonblock _ _ inside]
  split
  · rename_i here
    rw [here, ← nonblock_eq, same]
  · rfl

/-- `F_SETFL` sets the mode to that of its argument. -/
@[simp] theorem nonblock_setStatus : (flags.setStatus arg).nonblock = arg.nonblock := by
  rw [nonblock_eq, nonblock_eq, getLsbD_setStatus _ _ (by decide), if_pos (by decide)]

/-- The mode and the other flags do not depend on each other. -/
theorem setStatus_setNonblock :
    (flags.setStatus (arg.setNonblock v)).setNonblock w =
      ((flags.setNonblock v).setStatus arg).setNonblock w := by
  refine ext_getLsbD fun i inside => ?_
  simp only [getLsbD_setNonblock _ _ inside, getLsbD_setStatus _ _ inside]
  split <;> rfl

theorem setNonblock_setStatus_setNonblock :
    ((flags.setNonblock v).setStatus arg).setNonblock w =
      (flags.setStatus arg).setNonblock w := by
  refine ext_getLsbD fun i inside => ?_
  simp only [getLsbD_setNonblock _ _ inside, getLsbD_setStatus _ _ inside]
  split <;> rfl

end Flags

namespace Hook

open Library

/-- The hooked calls that a user makes for the mode of a descriptor, with the answer of the
kernel. -/
inductive ModeCall where
  | setfl (arg : Flags) (success : Bool)
  | getfl
  | fionbio (value : BitVec 32) (success : Bool)
deriving DecidableEq, Repr

/-- A descriptor, and the flags that the user asked for: the last mode, and the other flags as
they were set. -/
structure Virtual extends Descriptor where
  asked : Flags
deriving DecidableEq, Repr

namespace Virtual

/-- What a call does to the descriptor, and to the mode that was asked for. -/
def call (s : Virtual) : ModeCall → Virtual
  | .setfl arg success =>
      ⟨(s.toDescriptor.setfl arg success).2,
        if success then s.asked.setStatus arg else s.asked.setNonblock arg.nonblock⟩
  | .getfl => s
  | .fionbio value success =>
      ⟨(s.toDescriptor.fionbio value success).2, s.asked.setNonblock (value != 0)⟩

/-- A call, as a step. -/
def step (s : Virtual) (modeCall : ModeCall) : Option Virtual := some (s.call modeCall)

/-- A socket that was put under management. The user asked for no mode yet. -/
def managed (flags : Flags) : Virtual :=
  let (ctx, after) := FdCtx.init (some true) flags true
  ⟨⟨some ctx, after⟩, flags.setNonblock false⟩

/-- The kernel does not block, and the user sees what was asked for. -/
structure Virtualised (s : Virtual) : Prop where
  kernel : s.flags.nonblock = true
  user : s.ctx.map (·.userNonblock) = some s.asked.nonblock
  report : s.getfl = s.asked

/-- The context is that of an open socket. -/
def Managed (s : Virtual) : Prop :=
  ∃ ctx, s.ctx = some ctx ∧ ctx.isClosed = false ∧ ctx.isSocket = true ∧ ctx.sysNonblock = true

/-- The kernel is not made to block. -/
def Harmless (modeCall : ModeCall) : Prop := modeCall ≠ .fionbio 0 true

instance (modeCall : ModeCall) : Decidable (Harmless modeCall) :=
  inferInstanceAs (Decidable (_ ≠ _))

variable {s : Virtual}

/-- What `F_GETFL` reports of a managed socket. -/
theorem getfl_eq {ctx : FdCtx} (has : s.ctx = some ctx) (opened : ctx.isClosed = false)
    (socket : ctx.isSocket = true) :
    s.getfl = s.flags.setNonblock ctx.userNonblock := by
  simp [Descriptor.getfl, has, opened, socket]

/-- The flags differ from what was asked for in the mode only. -/
theorem asked_eq {ctx : FdCtx} (has : s.ctx = some ctx) (opened : ctx.isClosed = false)
    (socket : ctx.isSocket = true) (virtualised : s.Virtualised) (v : Bool) :
    s.asked.setNonblock v = s.flags.setNonblock v := by
  have report := virtualised.report
  rw [getfl_eq has opened socket] at report
  rw [← report, Flags.setNonblock_setNonblock]

/-- A managed socket with a mode of the user, for the flags of the kernel. -/
theorem virtualised_of {ctx : FdCtx} (has : s.ctx = some ctx) (opened : ctx.isClosed = false)
    (socket : ctx.isSocket = true) (kernel : s.flags.nonblock = true)
    (user : ctx.userNonblock = s.asked.nonblock)
    (others : s.flags.setNonblock s.asked.nonblock = s.asked) : s.Virtualised := by
  refine ⟨kernel, by rw [has, Option.map_some, user], ?_⟩
  rw [getfl_eq has opened socket, user, others]

theorem Managed.call (managed : s.Managed) (modeCall : ModeCall) :
    (s.call modeCall).Managed := by
  obtain ⟨ctx, has, opened, socket, sys⟩ := managed
  cases modeCall with
  | setfl arg success =>
      simp only [Virtual.call, Descriptor.setfl, has, opened, socket]
      exact ⟨_, rfl, opened, socket, sys⟩
  | getfl => exact ⟨ctx, has, opened, socket, sys⟩
  | fionbio value success =>
      simp only [Virtual.call, Descriptor.fionbio, has, opened, socket]
      exact ⟨_, rfl, opened, socket, sys⟩

theorem virtualised_call (managed : s.Managed) (virtualised : s.Virtualised)
    {modeCall : ModeCall} (harmless : Harmless modeCall) : (s.call modeCall).Virtualised := by
  obtain ⟨ctx, has, opened, socket, sys⟩ := managed
  have kernel := virtualised.kernel
  have same := asked_eq has opened socket virtualised
  cases modeCall with
  | setfl arg success =>
      simp only [Virtual.call, Descriptor.setfl, has, opened, socket, FdCtx.setUserNonblock, sys]
      refine virtualised_of rfl rfl rfl ?_ ?_ ?_
      · cases success with
        | true => exact (Flags.nonblock_setStatus ..).trans (Flags.nonblock_setNonblock ..)
        | false => exact kernel
      · cases success with
        | true => exact (Flags.nonblock_setStatus ..).symm
        | false => exact (Flags.nonblock_setNonblock ..).symm
      · cases success with
        | true =>
            change (s.flags.setStatus (arg.setNonblock true)).setNonblock
              (s.asked.setStatus arg).nonblock = s.asked.setStatus arg
            rw [Flags.setStatus_setNonblock, ← same, Flags.setNonblock_setStatus_setNonblock,
              Flags.setNonblock_nonblock _ _ rfl]
        | false =>
            change s.flags.setNonblock (s.asked.setNonblock arg.nonblock).nonblock =
              s.asked.setNonblock arg.nonblock
            rw [Flags.nonblock_setNonblock, same]
  | getfl => exact virtualised
  | fionbio value success =>
      simp only [Virtual.call, Descriptor.fionbio, has, opened, socket, FdCtx.setUserNonblock]
      refine virtualised_of rfl rfl rfl ?_ ?_ ?_
      · cases success with
        | true =>
            have asks : (value != 0) = true := by
              rw [bne_iff_ne]
              rintro rfl
              exact harmless rfl
            change (s.flags.setNonblock (value != 0)).nonblock = true
            rw [Flags.nonblock_setNonblock, asks]
        | false => exact kernel
      · exact (Flags.nonblock_setNonblock ..).symm
      · cases success with
        | true =>
            change (s.flags.setNonblock (value != 0)).setNonblock
              (s.asked.setNonblock (value != 0)).nonblock = s.asked.setNonblock (value != 0)
            rw [Flags.nonblock_setNonblock, Flags.setNonblock_setNonblock, same]
        | false =>
            change s.flags.setNonblock (s.asked.setNonblock (value != 0)).nonblock =
              s.asked.setNonblock (value != 0)
            rw [Flags.nonblock_setNonblock, same]

/-- A call of `ioctl` that the kernel carries out makes the socket block. -/
theorem not_virtualised_of_harmful (managed : s.Managed) {modeCall : ModeCall}
    (harmful : ¬Harmless modeCall) : ¬(s.call modeCall).Virtualised := by
  obtain ⟨ctx, has, opened, socket, sys⟩ := managed
  obtain rfl := not_not.mp harmful
  intro virtualised
  have kernel := virtualised.kernel
  simp only [Virtual.call, Descriptor.fionbio, has, opened, socket, ioctlF] at kernel
  change (s.flags.setNonblock false).nonblock = true at kernel
  rw [Flags.nonblock_setNonblock] at kernel
  cases kernel

theorem managed_managed (flags : Flags) : (managed flags).Managed :=
  ⟨_, rfl, rfl, rfl, rfl⟩

/-- `FdCtx::init` makes the socket non-blocking and leaves the other flags. -/
theorem init_flags (flags : Flags) :
    (FdCtx.init (some true) flags true).2 = flags.setNonblock true := by
  unfold FdCtx.init
  cases mode : flags.nonblock with
  | true =>
      simp only [Option.getD_some, Bool.not_true, Bool.and_false, Bool.false_eq_true, if_false]
      rw [Flags.setNonblock_nonblock _ _ mode]
  | false =>
      simp only [Option.getD_some, Bool.not_false, Bool.and_true, if_true, Descriptor.setfl, fcntlF]
      refine Flags.ext_getLsbD fun i inside => ?_
      rw [Flags.getLsbD_setStatus _ _ inside, Flags.getLsbD_setNonblock _ _ inside]
      by_cases here : i = 11
      · rw [if_pos here, if_pos (by rw [here]; decide)]
      · rw [if_neg here]
        split <;> rfl

theorem virtualised_managed (flags : Flags) : (managed flags).Virtualised := by
  have has : (managed flags).ctx = some (FdCtx.init (some true) flags true).1 := rfl
  refine virtualised_of has rfl rfl ?_ ?_ ?_
  · change (FdCtx.init (some true) flags true).2.nonblock = true
    rw [init_flags, Flags.nonblock_setNonblock]
  · exact (Flags.nonblock_setNonblock flags false).symm
  · change (FdCtx.init (some true) flags true).2.setNonblock (flags.setNonblock false).nonblock =
      flags.setNonblock false
    rw [init_flags, Flags.nonblock_setNonblock, Flags.setNonblock_setNonblock]

/-- Through any sequence of calls the kernel keeps the socket non-blocking and the user sees the
mode and the flags that were asked for, if and only if no call is an `ioctl` that asks for
blocking and is carried out. -/
theorem mode_virtualised (flags : Flags) (calls : List ModeCall) :
    Along step Virtualised (managed flags) calls ↔ .fionbio 0 true ∉ calls := by
  have preserved : ∀ {s : Virtual} {modeCall next}, s.Managed ∧ s.Virtualised →
      Harmless modeCall → s.step modeCall = some next → next.Managed ∧ next.Virtualised := by
    rintro s modeCall _ ⟨managed, virtualised⟩ harmless ⟨⟩
    exact ⟨managed.call modeCall, virtualised_call managed virtualised harmless⟩
  have broken : ∀ {s : Virtual} {modeCall}, s.Managed ∧ s.Virtualised → ¬Harmless modeCall →
      ∃ next, s.step modeCall = some next ∧ ¬next.Virtualised :=
    fun holds harmful => ⟨_, rfl, not_virtualised_of_harmful holds.1 harmful⟩
  have start := And.intro (managed_managed flags) (virtualised_managed flags)
  have total : ∀ (s : Virtual) modeCall, ∃ next, step s modeCall = some next :=
    fun s modeCall => ⟨s.call modeCall, rfl⟩
  rw [along_iff_guarded (fun _ => And.right) preserved broken start, guarded_iff_forall total]
  exact ⟨fun harmless member => harmless _ member rfl,
    fun absent modeCall member same => absent (same ▸ member)⟩

/-- The user asks for blocking, and the kernel does block. -/
theorem mode_passed_through :
    ¬Along step Virtualised (managed 2) [.fionbio 0 true] := by
  intro along
  have kernel := (along.exec rfl).kernel
  exact absurd kernel (by decide)

end Virtual

end Hook

end Sylar
