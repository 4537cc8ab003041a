import DzOS.Drivers.Framebuffer
import DzOS.Proofs.Fs.Descriptors
import DzOS.Proofs.Mem.ValidateUserPtr

/-!
# `DzOS.Proofs.Drivers.FramebufferIoctl`: the commands of the framebuffer

A command of the framebuffer gets a value, sets one, clears the screen, or is unknown. The
argument of a get command is a pointer, and that of a set command is a number. But `sys_ioctl`
checks every argument other than 0 as a pointer, and checks 0 for no command.

`ioctlDone_iff` says for each command, argument and memory whether the call does what the command
says. A set command does so for 0, for numbers that are valid pointers, and for numbers above the
maximum that are refused either way. A get command does so unless its argument is `NULL`, the
check panics, or it accepts an address that is not writable. `sysIoctl_framebuffer` connects the
call with `sysIoctl` of `Fs/Syscall.lean`.
-/

set_option autoImplicit false

namespace DzOS.Proofs.Drivers

open DzOS.Lib DzOS.Mem DzOS.Drivers DzOS.Proofs.Mem

variable {max value : UInt64} {dev' : FbDeviceData}

/-! ### The commands -/

/-- The value that a get command asks for. -/
def getValue (dev : FbDeviceData) (cmd : UInt32) : Option UInt64 :=
  if cmd = FB_CTL_GET_WIDTH then some dev.currentWidth
  else if cmd = FB_CTL_GET_MAX_WIDTH then some dev.fb.width
  else if cmd = FB_CTL_GET_HEIGHT then some dev.currentHeight
  else if cmd = FB_CTL_GET_MAX_HEIGHT then some dev.fb.height
  else none

/-- The largest value of a set command, and the device with the value `v`. -/
def setValue (dev : FbDeviceData) (cmd : UInt32) (v : UInt64) : Option (UInt64 × FbDeviceData) :=
  if cmd = FB_CTL_SET_WIDTH then some (dev.fb.width, { dev with currentWidth := v })
  else if cmd = FB_CTL_SET_HEIGHT then some (dev.fb.height, { dev with currentHeight := v })
  else none

/-- The reply changes nothing. -/
structure FbReply.Idle (dev : FbDeviceData) (reply : FbReply) : Prop where
  data : reply.data = dev
  stores : reply.stores = []
  cleared : reply.cleared = 0

/-- The reply fails, and changes nothing. -/
def FbReply.Refuses (dev : FbDeviceData) (reply : FbReply) : Prop :=
  reply.ret < 0 ∧ FbReply.Idle dev reply

/-- Eight bytes are mapped at the address, for the user and writable. -/
def UserWord (s : MemState) (root v : UInt64) : Prop :=
  ∀ page, Overlaps v 8 page → UsablePage s.mem root true page

variable (s : MemState) (root : UInt64) (dev : FbDeviceData) (cmd : UInt32) (v : UInt64)

/-- The call returns, and its reply does what the command says. -/
def IoctlDone : Prop :=
  (∀ max dev', setValue dev cmd v = some (max, dev') →
    ∃ reply, sysIoctlFb s root dev cmd v = .ok reply ∧
      (v ≤ max → reply = ⟨0, dev', [], 0⟩) ∧ (max < v → FbReply.Refuses dev reply)) ∧
  (∀ value, getValue dev cmd = some value →
    ∃ reply, sysIoctlFb s root dev cmd v = .ok reply ∧
      (reply = ⟨0, dev, [(v, value)], 0⟩ ∧ UserWord s root v ∨ FbReply.Refuses dev reply)) ∧
  (FB_CTL_CLEAR < cmd →
    ∃ reply, sysIoctlFb s root dev cmd v = .ok reply ∧ FbReply.Idle dev reply)

/-- The check of the argument, and what it has to be for a command. -/
def IoctlFits : Prop :=
  let valid := vmmValidateUserPtr s root v 8 true
  (∀ max dev', setValue dev cmd v = some (max, dev') →
    v = 0 ∨ valid = .ok true ∨ (valid = .ok false ∧ max < v)) ∧
  (∀ value, getValue dev cmd = some value →
    if v = 0 then UserWord s root v
    else valid = .ok false ∨ (valid = .ok true ∧ UserWord s root v)) ∧
  (FB_CTL_CLEAR < cmd → v = 0 ∨ ∃ accepted, valid = .ok accepted)

variable {s root dev cmd v}

/-! ### The driver -/

theorem fbIoctlOp_get (h : getValue dev cmd = some value) :
    fbIoctlOp dev cmd v = ⟨0, dev, [(v, value)], 0⟩ := by
  unfold getValue at h
  split at h
  · rename_i hcmd
    cases h
    subst hcmd
    rfl
  split at h
  · rename_i hcmd
    cases h
    subst hcmd
    rfl
  split at h
  · rename_i hcmd
    cases h
    subst hcmd
    rfl
  split at h
  · rename_i hcmd
    cases h
    subst hcmd
    rfl
  · cases h

theorem fbIoctlOp_set (h : setValue dev cmd v = some (max, dev')) :
    fbIoctlOp dev cmd v = if v ≤ max then ⟨0, dev', [], 0⟩ else dev.fails (-3) := by
  unfold setValue at h
  split at h
  · rename_i hcmd
    cases h
    subst hcmd
    rfl
  split at h
  · rename_i hcmd
    cases h
    subst hcmd
    rfl
  · cases h

theorem fbIoctlOp_unknown (dev : FbDeviceData) (v : UInt64) (h : FB_CTL_CLEAR < cmd) :
    fbIoctlOp dev cmd v = dev.fails (-2) := by
  have hne : ∀ n ≤ FB_CTL_CLEAR, cmd ≠ n := by
    rintro n hn rfl
    exact absurd hn (UInt32.not_le.mpr h)
  unfold fbIoctlOp
  rw [if_neg (hne _ (by decide)), if_neg (hne _ (by decide)), if_neg (hne _ (by decide)),
    if_neg (hne _ (by decide)), if_neg (hne _ (by decide)), if_neg (hne _ (by decide)),
    if_neg (hne _ (by decide))]

theorem FbDeviceData.fails_refuses {ret : Int} (h : ret < 0) :
    FbReply.Refuses dev (dev.fails ret) :=
  ⟨h, rfl, rfl, rfl⟩

/-! ### The check of the argument -/

theorem sysIoctlFb_null : sysIoctlFb s root dev cmd 0 = .ok (fbIoctlOp dev cmd 0) := rfl

theorem sysIoctlFb_accepted (h : vmmValidateUserPtr s root v 8 true = .ok true) :
    sysIoctlFb s root dev cmd v = .ok (fbIoctlOp dev cmd v) := by
  unfold sysIoctlFb
  rw [h]
  exact ite_self _

theorem sysIoctlFb_refused (hv : v ≠ 0) (h : vmmValidateUserPtr s root v 8 true = .ok false) :
    sysIoctlFb s root dev cmd v = .ok (dev.fails (-1)) := by
  unfold sysIoctlFb
  rw [if_neg hv, h]

theorem sysIoctlFb_panic {e : String} (hv : v ≠ 0)
    (h : vmmValidateUserPtr s root v 8 true = .error e) :
    sysIoctlFb s root dev cmd v = .error e := by
  unfold sysIoctlFb
  rw [if_neg hv, h]

/-- The call returns unless the check panics. -/
theorem sysIoctlFb_ok_iff (s : MemState) (root : UInt64) (dev : FbDeviceData) (cmd : UInt32)
    (v : UInt64) :
    (∃ reply, sysIoctlFb s root dev cmd v = .ok reply) ↔
      v = 0 ∨ ∃ accepted, vmmValidateUserPtr s root v 8 true = .ok accepted := by
  by_cases hv : v = 0
  · subst hv
    exact ⟨fun _ => .inl rfl, fun _ => ⟨_, sysIoctlFb_null⟩⟩
  · cases hvalid : vmmValidateUserPtr s root v 8 true with
    | error e =>
      rw [sysIoctlFb_panic hv hvalid]
      refine ⟨?_, ?_⟩
      · rintro ⟨reply, hreply⟩
        cases hreply
      · rintro (hzero | ⟨accepted, haccepted⟩)
        · exact absurd hzero hv
        · cases haccepted
    | ok accepted =>
      refine ⟨fun _ => .inr ⟨accepted, rfl⟩, fun _ => ?_⟩
      cases accepted with
      | false => exact ⟨_, sysIoctlFb_refused hv hvalid⟩
      | true => exact ⟨_, sysIoctlFb_accepted hvalid⟩

/-! ### The kinds of commands -/

/-- A set command that reaches the driver does what it says. -/
theorem fbIoctlOp_set_done (h : setValue dev cmd v = some (max, dev')) :
    (v ≤ max → fbIoctlOp dev cmd v = ⟨0, dev', [], 0⟩) ∧
      (max < v → FbReply.Refuses dev (fbIoctlOp dev cmd v)) := by
  rw [fbIoctlOp_set h]
  refine ⟨fun hle => if_pos hle, fun hlt => ?_⟩
  rw [if_neg (UInt64.not_le.mpr hlt)]
  exact FbDeviceData.fails_refuses (by decide)

/-- A set command. The check refuses it for a number that is not a valid pointer. -/
theorem set_done_iff (h : setValue dev cmd v = some (max, dev')) :
    (∃ reply, sysIoctlFb s root dev cmd v = .ok reply ∧
        (v ≤ max → reply = ⟨0, dev', [], 0⟩) ∧ (max < v → FbReply.Refuses dev reply)) ↔
      v = 0 ∨ vmmValidateUserPtr s root v 8 true = .ok true ∨
        (vmmValidateUserPtr s root v 8 true = .ok false ∧ max < v) := by
  constructor
  · rintro ⟨reply, hreply, hset, -⟩
    rcases (sysIoctlFb_ok_iff s root dev cmd v).mp ⟨reply, hreply⟩ with hzero | ⟨accepted, hvalid⟩
    · exact .inl hzero
    · cases accepted with
      | true => exact .inr (.inl hvalid)
      | false =>
        by_cases hv : v = 0
        · exact .inl hv
        -- A refused number has to be above the maximum: the reply is not 0.
        refine .inr (.inr ⟨hvalid, UInt64.not_le.mp fun hle => ?_⟩)
        rw [sysIoctlFb_refused hv hvalid] at hreply
        have hret : (-1 : Int) = 0 :=
          congrArg FbReply.ret ((Except.ok.inj hreply).trans (hset hle))
        cases hret
  · rintro (rfl | hvalid | ⟨hvalid, hlt⟩)
    · exact ⟨_, sysIoctlFb_null, fbIoctlOp_set_done h⟩
    · exact ⟨_, sysIoctlFb_accepted hvalid, fbIoctlOp_set_done h⟩
    · have hv : v ≠ 0 := by
        rintro rfl
        exact absurd hlt (Nat.not_lt_zero _)
      exact ⟨_, sysIoctlFb_refused hv hvalid, fun hle => absurd hlt (UInt64.not_lt.mpr hle),
        fun _ => FbDeviceData.fails_refuses (by decide)⟩

/-- A get command. `NULL` passes without a check, and the driver stores there. -/
theorem get_done_iff (h : getValue dev cmd = some value) :
    (∃ reply, sysIoctlFb s root dev cmd v = .ok reply ∧
        (reply = ⟨0, dev, [(v, value)], 0⟩ ∧ UserWord s root v ∨ FbReply.Refuses dev reply)) ↔
      if v = 0 then UserWord s root v
      else vmmValidateUserPtr s root v 8 true = .ok false ∨
        (vmmValidateUserPtr s root v 8 true = .ok true ∧ UserWord s root v) := by
  -- The driver stores, so it does not refuse.
  have hstores : ¬ FbReply.Refuses dev (fbIoctlOp dev cmd v) := by
    rw [fbIoctlOp_get h]
    exact fun hrefuses => Int.lt_irrefl 0 hrefuses.1
  by_cases hv : v = 0
  · rw [if_pos hv]
    subst hv
    constructor
    · rintro ⟨reply, hreply, hdone⟩
      rw [sysIoctlFb_null] at hreply
      cases hreply
      rcases hdone with ⟨-, hword⟩ | hrefuses
      · exact hword
      · exact absurd hrefuses hstores
    · exact fun hword => ⟨_, sysIoctlFb_null, .inl ⟨fbIoctlOp_get h, hword⟩⟩
  · rw [if_neg hv]
    constructor
    · rintro ⟨reply, hreply, hdone⟩
      rcases (sysIoctlFb_ok_iff s root dev cmd v).mp ⟨reply, hreply⟩ with hzero | ⟨accepted, hvalid⟩
      · exact absurd hzero hv
      · cases accepted with
        | false => exact .inl hvalid
        | true =>
          rw [sysIoctlFb_accepted hvalid] at hreply
          cases hreply
          rcases hdone with ⟨-, hword⟩ | hrefuses
          · exact .inr ⟨hvalid, hword⟩
          · exact absurd hrefuses hstores
    · rintro (hvalid | ⟨hvalid, hword⟩)
      · exact ⟨_, sysIoctlFb_refused hv hvalid, .inr (FbDeviceData.fails_refuses (by decide))⟩
      · exact ⟨_, sysIoctlFb_accepted hvalid, .inl ⟨fbIoctlOp_get h, hword⟩⟩

/-- An unknown command. -/
theorem unknown_done_iff (h : FB_CTL_CLEAR < cmd) :
    (∃ reply, sysIoctlFb s root dev cmd v = .ok reply ∧ FbReply.Idle dev reply) ↔
      v = 0 ∨ ∃ accepted, vmmValidateUserPtr s root v 8 true = .ok accepted := by
  rw [← sysIoctlFb_ok_iff s root dev cmd v]
  constructor
  · rintro ⟨reply, hreply, -⟩
    exact ⟨reply, hreply⟩
  · rintro ⟨reply, hreply⟩
    refine ⟨reply, hreply, ?_⟩
    have hop := fbIoctlOp_unknown dev v h
    unfold sysIoctlFb at hreply
    split at hreply
    · cases hreply
      rw [hop]
      exact (FbDeviceData.fails_refuses (by decide)).2
    · split at hreply
      · cases hreply
      · cases hreply
        exact (FbDeviceData.fails_refuses (by decide)).2
      · cases hreply
        rw [hop]
        exact (FbDeviceData.fails_refuses (by decide)).2

/-- A call of `sys_ioctl` does what the command says if and only if the check of its argument
fits the command. -/
theorem ioctlDone_iff (s : MemState) (root : UInt64) (dev : FbDeviceData) (cmd : UInt32)
    (v : UInt64) : IoctlDone s root dev cmd v ↔ IoctlFits s root dev cmd v := by
  refine and_congr ?_ (and_congr ?_ ?_)
  · exact forall_congr' fun max => forall_congr' fun dev' => forall_congr' fun h => set_done_iff h
  · exact forall_congr' fun value => forall_congr' fun h => get_done_iff h
  · exact forall_congr' fun h => unknown_done_iff h

/-- The numbers below the user addresses are no pointers, so no command takes one, other than 0. -/
theorem sysIoctlFb_below_user (hv : v ≠ 0) (hlow : v < USERSPACE_VA_MIN) :
    sysIoctlFb s root dev cmd v = .ok (dev.fails (-1)) :=
  sysIoctlFb_refused hv (vmmValidateUserPtr_outside s root v 8 true fun hwin =>
    absurd hwin.2.2.2.1 (Nat.not_le_of_lt hlow))

/-- A screen of 1024 columns. -/
def wideScreen : FbDeviceData :=
  fbInit { width := 1024, height := 768, pitch := 4096, bpp := 32 }

/-- A width of 640 is refused on this screen, since it is no pointer. -/
theorem not_ioctlDone_width :
    ¬ IoctlDone (MemState.boot Bytes.zero) 0 wideScreen FB_CTL_SET_WIDTH 640 := by
  rintro ⟨hset, -⟩
  obtain ⟨reply, hreply, hdone, -⟩ := hset _ _ rfl
  have hrefused : sysIoctlFb (MemState.boot Bytes.zero) 0 wideScreen FB_CTL_SET_WIDTH 640 =
      .ok (wideScreen.fails (-1)) := sysIoctlFb_below_user (by decide) (by decide)
  have hret : (-1 : Int) = 0 :=
    congrArg FbReply.ret ((Except.ok.inj (hrefused.symm.trans hreply)).trans (hdone (by decide)))
  cases hret

/-! ### The call of a descriptor -/

/-- `sys_ioctl` of `Fs/Syscall.lean` for a descriptor of the framebuffer, whose answers are those
of the check and of the driver, returns what `sysIoctlFb` says. -/
theorem sysIoctl_framebuffer {st : Fs.Syscall.DescState} {env : Fs.Syscall.CallEnv}
    {fd : Fin Fs.MAX_OPEN_FILES} {device : Nat} {reply : FbReply}
    (hkind : (st.proc.openFiles fd).kind = .FD_DEVICE device)
    (hdevice : Fs.Syscall.deviceIndex Fs.Syscall.FRAMEBUFFER_DEVICE_NAME = some device)
    (hvalid : vmmValidateUserPtr s root v 8 true = .ok (env.validateUserPtr v.toNat 8 true))
    (hresult : env.deviceResult .fb_control = (fbIoctlOp dev cmd v).ret)
    (hreply : sysIoctlFb s root dev cmd v = .ok reply) :
    ∃ st', (Fs.Syscall.sysIoctl st env fd v.toNat).outcome = .ok (reply.ret, st') := by
  have hget : (Fs.Syscall.deviceGet device).map Fs.Syscall.Device.control =
      some (some .fb_control) := by
    obtain rfl : 2 = device := Option.some.inj hdevice
    rfl
  obtain ⟨d, hd, hcontrol⟩ := Option.map_eq_some_iff.mp hget
  have hcall : (Fs.Syscall.sysIoctl st env fd v.toNat).outcome =
      if v.toNat ≠ 0 ∧ !env.validateUserPtr v.toNat 8 true then .ok (-1, st)
      else Fs.Syscall.callDevice st env (some .fb_control) := by
    unfold Fs.Syscall.sysIoctl Fs.Syscall.withFile
    rw [if_neg (by simp), Int.toNat_natCast, DzOS.Proofs.Fs.Descriptors.fileAt_fin]
    simp only [hkind, hd, hcontrol]
    rfl
  by_cases hv : v = 0
  · subst hv
    rw [sysIoctlFb_null] at hreply
    cases hreply
    rw [hcall, if_neg fun h => h.1 rfl, ← hresult]
    exact ⟨_, rfl⟩
  · have hne : v.toNat ≠ 0 := fun h => hv (UInt64.toNat_inj.mp h)
    cases haccepted : env.validateUserPtr v.toNat 8 true with
    | false =>
      rw [haccepted] at hvalid
      rw [sysIoctlFb_refused hv hvalid] at hreply
      cases hreply
      rw [hcall, haccepted, if_pos ⟨hne, rfl⟩]
      exact ⟨_, rfl⟩
    | true =>
      rw [haccepted] at hvalid
      rw [sysIoctlFb_accepted hvalid] at hreply
      cases hreply
      rw [hcall, haccepted, if_neg (fun h => Bool.false_ne_true h.2), ← hresult]
      exact ⟨_, rfl⟩

end DzOS.Proofs.Drivers
