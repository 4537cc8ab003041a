import Mathlib.Data.List.Nodup
import DzOS.Drivers.DeviceManager
import DzOS.Lib.Run

/-!
# `DzOS.Proofs.Drivers.DeviceManager`: the registry under any calls

`Consistent` says that every bound device has a registered driver of its bus and class, and that
no driver is registered twice. Two calls do not do what they should. `driver_unregister` leaves
the devices of the driver bound to it. `device_manager_probe_all` gives each device one driver,
and does not go on to the next when its `probe` fails.

`registry_consistent_iff` is the result for runs: the registry is consistent throughout, and each
call does its work (`CallHolds`), exactly if no call unregisters a driver in use, and every
device that has an accepting driver is probed with one (`CallOk`). The order of the drivers and
their uniqueness need no condition.
-/

set_option autoImplicit false

namespace DzOS.Proofs.Drivers

open DzOS.Drivers DzOS.Lib

variable {dev : Device}

variable (memory : ℕ → Driver)

/-- The bindings and the registrations agree. -/
structure Consistent (dm : DeviceManager) : Prop where
  bound : ∀ dev ∈ dm.devices, ∀ drv, dev.drv = some drv →
    drv ∈ dm.drivers ∧ Matches memory dev drv
  nodup : dm.drivers.Nodup

/-- Some registered driver of the bus and the class of the device accepts it. -/
def HasDriver (drivers : List ℕ) (results : ℕ → ℕ → Int) (place : ℕ) (dev : Device) : Prop :=
  ∃ drv ∈ drivers, Matches memory dev drv ∧ Accepts memory results place drv

/-- Every uninitialized device that some driver accepts is bound to such a driver. -/
def Complete (results : ℕ → ℕ → Int) (dm : DeviceManager) : Prop :=
  ∀ place dev, dm.devices[place]? = some dev → dev.initialized = false →
    HasDriver memory dm.drivers results place dev →
    ∃ drv ∈ dm.drivers, dev.drv = some drv ∧ Matches memory dev drv ∧
      Accepts memory results place drv

/-- What a call does besides keeping the registry consistent. -/
def CallHolds (dm : DeviceManager) : RegistryCall → Prop
  | .unregister drv =>
    (registryCall memory dm (.unregister drv)).drivers = dm.drivers.filter (· ≠ drv)
  | .probeAll results => Complete memory results (registryCall memory dm (.probeAll results))
  | _ => True

/-- The condition for a call. A driver that goes has no device. A device that some driver accepts
is probed with one that does. -/
def CallOk (dm : DeviceManager) : RegistryCall → Prop
  | .unregister drv => ∀ dev ∈ dm.devices, dev.drv ≠ some drv
  | .probeAll results =>
    ∀ place dev, dm.devices[place]? = some dev → dev.initialized = false →
      HasDriver memory dm.drivers results place dev →
      ∃ drv, chosenDriver memory dm.drivers dev = some drv ∧ Accepts memory results place drv
  | _ => True

/-- A call as a step of a run. No call panics. -/
def registryStep (dm : DeviceManager) (call : RegistryCall) : Option DeviceManager :=
  some (registryCall memory dm call)

variable {memory} {dm : DeviceManager}

/-! ### Registering -/

theorem consistent_boot : Consistent memory .boot where
  bound := fun _ hdev => absurd hdev List.not_mem_nil
  nodup := List.nodup_nil

/-- A new device is not bound. -/
theorem Consistent.addDevice (h : Consistent memory dm) (hdrv : dev.drv = none) :
    Consistent memory (dm.addDevice dev).2 := by
  rw [DeviceManager.addDevice]
  split_ifs
  · exact h
  · refine ⟨fun dev' hdev drv hbound => ?_, h.nodup⟩
    rcases List.mem_append.mp hdev with hold | hnew
    · exact h.bound dev' hold drv hbound
    · rw [List.mem_singleton.mp hnew, hdrv] at hbound
      cases hbound

theorem Consistent.register (h : Consistent memory dm) (drv : ℕ) :
    Consistent memory (driverRegisterVerified dm drv).2 := by
  rw [driverRegisterVerified]
  split_ifs with hfull hmem
  · exact h
  · exact h
  · refine ⟨fun dev hdev drv' hbound => ?_, ?_⟩
    · obtain ⟨hreg, hmatch⟩ := h.bound dev hdev drv' hbound
      exact ⟨List.mem_append_left _ hreg, hmatch⟩
    · show (dm.drivers ++ [drv]).Nodup
      exact List.nodup_append_comm.mp (List.nodup_cons.mpr ⟨hmem, h.nodup⟩)

/-! ### Unregistering -/

/-- The loops of `driver_unregister` remove the first entry of the driver. -/
theorem removeDriver_eq (drv : ℕ) (drivers : List ℕ) :
    removeDriver drv drivers = if drv ∈ drivers then some (drivers.erase drv) else none := by
  induction drivers with
  | nil => rfl
  | cons d rest ih =>
    rw [removeDriver]
    by_cases hd : d = drv
    · rw [if_pos hd, if_pos (hd ▸ List.mem_cons_self), hd, List.erase_cons_head]
    · rw [if_neg hd, ih, List.erase_cons_tail (by simpa using hd)]
      have hmem : drv ∈ d :: rest ↔ drv ∈ rest := by
        rw [List.mem_cons]
        exact or_iff_right (Ne.symm hd)
      by_cases hrest : drv ∈ rest
      · rw [if_pos hrest, if_pos (hmem.mpr hrest)]
        rfl
      · rw [if_neg hrest, if_neg fun hin => hrest (hmem.mp hin)]
        rfl

/-- The other drivers stay, in their order. -/
theorem drivers_unregister (hnodup : dm.drivers.Nodup) (drv : ℕ) :
    (driverUnregister dm drv).2.drivers = dm.drivers.filter (· ≠ drv) := by
  rw [driverUnregister, removeDriver_eq]
  by_cases hmem : drv ∈ dm.drivers
  · rw [if_pos hmem]
    show dm.drivers.erase drv = _
    rw [hnodup.erase_eq_filter]
    exact List.filter_congr fun d _ => decide_not.symm
  · rw [if_neg hmem]
    refine (List.filter_eq_self.mpr fun d hd => ?_).symm
    exact decide_eq_true fun heq => hmem (heq ▸ hd)

theorem devices_unregister (drv : ℕ) : (driverUnregister dm drv).2.devices = dm.devices := by
  rw [driverUnregister]
  split <;> rfl

/-- A driver without devices can go. -/
theorem Consistent.unregister (h : Consistent memory dm) {drv : ℕ}
    (hfree : ∀ dev ∈ dm.devices, dev.drv ≠ some drv) :
    Consistent memory (driverUnregister dm drv).2 := by
  constructor
  · rw [drivers_unregister h.nodup, devices_unregister]
    intro dev hdev drv' hbound
    obtain ⟨hreg, hmatch⟩ := h.bound dev hdev drv' hbound
    have hne : drv' ≠ drv := by
      rintro rfl
      exact hfree dev hdev hbound
    exact ⟨List.mem_filter.mpr ⟨hreg, decide_eq_true hne⟩, hmatch⟩
  · rw [drivers_unregister h.nodup]
    exact h.nodup.filter _

/-- A driver with a device cannot. -/
theorem not_consistent_unregister (h : Consistent memory dm) {drv : ℕ} (hdev : dev ∈ dm.devices)
    (hbound : dev.drv = some drv) : ¬ Consistent memory (driverUnregister dm drv).2 := by
  intro hafter
  obtain ⟨hreg, -⟩ := hafter.bound dev (by rwa [devices_unregister]) drv hbound
  rw [drivers_unregister h.nodup] at hreg
  exact of_decide_eq_true (List.mem_filter.mp hreg).2 rfl

/-! ### Binding and probing -/

/-- The driver chosen for a device is registered and matches. -/
theorem Consistent.chosen (h : Consistent memory dm) (hdev : dev ∈ dm.devices) {drv : ℕ}
    (hchosen : chosenDriver memory dm.drivers dev = some drv) :
    drv ∈ dm.drivers ∧ Matches memory dev drv := by
  rw [chosenDriver] at hchosen
  split at hchosen
  · rename_i bound hbound
    rw [← Option.some_inj.mp hchosen]
    exact h.bound dev hdev bound hbound
  · have hmatch := List.find?_some hchosen
    exact ⟨List.mem_of_find?_eq_some hchosen, of_decide_eq_true hmatch⟩

theorem Consistent.matchAndBind (h : Consistent memory dm) (place : ℕ) :
    Consistent memory (deviceDriverMatchAndBind memory dm place) := by
  refine ⟨fun dev hdev drv hbound => ?_, h.nodup⟩
  obtain ⟨k, hk⟩ := List.mem_iff_getElem?.mp hdev
  rw [deviceDriverMatchAndBind, List.getElem?_modify] at hk
  obtain ⟨old, hold, rfl⟩ := Option.map_eq_some_iff.mp hk
  have hmem := List.mem_of_getElem? hold
  by_cases hplace : place = k
  · rw [if_pos hplace] at hbound ⊢
    exact h.chosen hmem hbound
  · rw [if_neg hplace] at hbound ⊢
    exact h.bound old hmem drv hbound

/-- What a turn of `device_manager_probe_all` leaves: the fields, and a driver only if it is the
chosen one and accepts. -/
theorem probeDevice_fields (memory : ℕ → Driver) (drivers : List ℕ) (results : ℕ → ℕ → Int)
    (place : ℕ) (dev : Device) :
    (probeDevice memory drivers results place dev).bus = dev.bus ∧
    (probeDevice memory drivers results place dev).class_ = dev.class_ ∧
    (probeDevice memory drivers results place dev).initialized = dev.initialized := by
  rw [probeDevice]
  split_ifs
  · exact ⟨rfl, rfl, rfl⟩
  · split
    · exact ⟨rfl, rfl, rfl⟩
    · split_ifs <;> exact ⟨rfl, rfl, rfl⟩

/-- The driver that a probe leaves at a device is the chosen one, if it accepts. -/
theorem probeDevice_drv (drivers : List ℕ) (results : ℕ → ℕ → Int) (place : ℕ)
    (hinit : dev.initialized = false) (drv : ℕ) :
    (probeDevice memory drivers results place dev).drv = some drv ↔
      chosenDriver memory drivers dev = some drv ∧ Accepts memory results place drv := by
  have hrun : ¬ dev.initialized = true := by
    rw [hinit]
    exact Bool.false_ne_true
  rw [probeDevice, if_neg hrun]
  split
  · rename_i hnone
    -- without a choice the device was not bound
    have hfree : dev.drv = none := by
      rw [chosenDriver] at hnone
      split at hnone
      · cases hnone
      · assumption
    rw [hfree, hnone]
    exact iff_of_false (fun h => nomatch h) fun h => nomatch h.1
  · rename_i chosen hchosen
    rw [hchosen, Option.some_inj]
    split_ifs with haccepts
    · show some chosen = some drv ↔ _
      rw [Option.some_inj]
      constructor
      · rintro rfl
        exact ⟨rfl, haccepts⟩
      · exact fun h => h.1
    · refine iff_of_false (fun h => nomatch h) ?_
      rintro ⟨rfl, h⟩
      exact haccepts h

theorem matches_probeDevice (drivers : List ℕ) (results : ℕ → ℕ → Int) (place : ℕ) (dev : Device)
    (drv : ℕ) :
    Matches memory (probeDevice memory drivers results place dev) drv ↔ Matches memory dev drv := by
  obtain ⟨hbus, hclass, -⟩ := probeDevice_fields memory drivers results place dev
  rw [Matches, Matches, hbus, hclass]

/-- The devices after `device_manager_probe_all`. -/
theorem getElem?_probeAll (results : ℕ → ℕ → Int) {place : ℕ}
    (h : (deviceManagerProbeAll memory dm results).devices[place]? = some dev) :
    ∃ old, dm.devices[place]? = some old ∧
      dev = probeDevice memory dm.drivers results place old := by
  rw [deviceManagerProbeAll, List.getElem?_mapIdx] at h
  obtain ⟨old, hold, rfl⟩ := Option.map_eq_some_iff.mp h
  exact ⟨old, hold, rfl⟩

theorem Consistent.probeAll (h : Consistent memory dm) (results : ℕ → ℕ → Int) :
    Consistent memory (deviceManagerProbeAll memory dm results) := by
  refine ⟨fun dev hdev drv hbound => ?_, h.nodup⟩
  obtain ⟨place, hplace⟩ := List.mem_iff_getElem?.mp hdev
  obtain ⟨old, hold, rfl⟩ := getElem?_probeAll results hplace
  have hmem := List.mem_of_getElem? hold
  rw [matches_probeDevice]
  show drv ∈ dm.drivers ∧ _
  by_cases hinit : old.initialized = true
  · rw [probeDevice, if_pos hinit] at hbound
    exact h.bound old hmem drv hbound
  · rw [probeDevice_drv _ _ _ (Bool.eq_false_iff.mpr hinit)] at hbound
    exact h.chosen hmem hbound.1

/-- `device_manager_probe_all` does its work exactly if each device that some driver accepts is
probed with one that does. -/
theorem complete_probeAll_iff (h : Consistent memory dm) (results : ℕ → ℕ → Int) :
    Complete memory results (deviceManagerProbeAll memory dm results) ↔
      CallOk memory dm (.probeAll results) := by
  have hcandidate : ∀ place (old : Device),
      HasDriver memory dm.drivers results place
        (probeDevice memory dm.drivers results place old) ↔
      HasDriver memory dm.drivers results place old := by
    intro place old
    simp only [HasDriver, matches_probeDevice]
  constructor
  · intro hcomplete place old hold hinit hhas
    have hafter : (deviceManagerProbeAll memory dm results).devices[place]? =
        some (probeDevice memory dm.drivers results place old) := by
      rw [deviceManagerProbeAll, List.getElem?_mapIdx, hold]
      rfl
    have hinit' : (probeDevice memory dm.drivers results place old).initialized = false :=
      (probeDevice_fields _ _ _ _ _).2.2.trans hinit
    obtain ⟨drv, -, hdrv, -, -⟩ := hcomplete place _ hafter hinit' ((hcandidate place old).mpr hhas)
    exact ⟨drv, (probeDevice_drv _ _ _ hinit drv).mp hdrv⟩
  · intro hok place dev hdev hinit hhas
    obtain ⟨old, hold, rfl⟩ := getElem?_probeAll results hdev
    rw [(probeDevice_fields _ _ _ _ _).2.2] at hinit
    obtain ⟨drv, hchosen, haccepts⟩ := hok place old hold hinit ((hcandidate place old).mp hhas)
    obtain ⟨hreg, hmatch⟩ := h.chosen (List.mem_of_getElem? hold) hchosen
    refine ⟨drv, hreg, (probeDevice_drv _ _ _ hinit drv).mpr ⟨hchosen, haccepts⟩, ?_, haccepts⟩
    exact (matches_probeDevice _ _ _ _ _).mpr hmatch

theorem initDevice_fields (memory : ℕ → Driver) (results : ℕ → ℕ → Int) (place : ℕ)
    (dev : Device) :
    (initDevice memory results place dev).bus = dev.bus ∧
    (initDevice memory results place dev).class_ = dev.class_ ∧
    (initDevice memory results place dev).drv = dev.drv := by
  rw [initDevice]
  split_ifs
  · exact ⟨rfl, rfl, rfl⟩
  · split
    · exact ⟨rfl, rfl, rfl⟩
    · split_ifs <;> exact ⟨rfl, rfl, rfl⟩

theorem Consistent.initAll (h : Consistent memory dm) (results : ℕ → ℕ → Int) :
    Consistent memory (deviceManagerInitAll memory dm results) := by
  refine ⟨fun dev hdev drv hbound => ?_, h.nodup⟩
  obtain ⟨place, hplace⟩ := List.mem_iff_getElem?.mp hdev
  rw [deviceManagerInitAll, List.getElem?_mapIdx] at hplace
  obtain ⟨old, hold, rfl⟩ := Option.map_eq_some_iff.mp hplace
  obtain ⟨hbus, hclass, hdrv⟩ := initDevice_fields memory results place old
  rw [hdrv] at hbound
  rw [Matches, hbus, hclass]
  exact h.bound old (List.mem_of_getElem? hold) drv hbound

/-! ### Runs -/

/-- A call that meets its condition keeps the registry consistent and does its work. -/
theorem Consistent.call (h : Consistent memory dm) (call : RegistryCall)
    (hok : CallOk memory dm call) :
    Consistent memory (registryCall memory dm call) ∧ CallHolds memory dm call := by
  cases call with
  | register drv => exact ⟨h.register drv, trivial⟩
  | unregister drv => exact ⟨h.unregister hok, drivers_unregister h.nodup drv⟩
  | pci info => exact ⟨h.addDevice rfl, trivial⟩
  | ps2 irq => exact ⟨h.addDevice rfl, trivial⟩
  | platform name class_ =>
    refine ⟨?_, trivial⟩
    show Consistent memory (deviceRegisterPlatform dm name class_).2
    rw [deviceRegisterPlatform]
    split_ifs
    · exact h
    · exact h
    · exact h.addDevice rfl
  | framebuffer => exact ⟨h.addDevice rfl, trivial⟩
  | matchAndBind place => exact ⟨h.matchAndBind place, trivial⟩
  | probeAll results =>
    exact ⟨h.probeAll results, (complete_probeAll_iff h results).mpr hok⟩
  | initAll results => exact ⟨h.initAll results, trivial⟩

/-- A call that does not meet its condition breaks one of the two. -/
theorem Consistent.call_breaks (h : Consistent memory dm) (call : RegistryCall)
    (hok : ¬ CallOk memory dm call) (hafter : Consistent memory (registryCall memory dm call)) :
    ¬ CallHolds memory dm call := by
  intro hholds
  cases call with
  | unregister drv =>
    refine hok fun dev hdev hbound => ?_
    exact not_consistent_unregister h hdev hbound hafter
  | probeAll results => exact hok ((complete_probeAll_iff h results).mp hholds)
  | register | pci | ps2 | platform | framebuffer | matchAndBind | initAll => exact hok trivial

/-- The registry is consistent throughout a run, and each of its calls does its work, exactly if
no call unregisters a driver that a device is bound to, and each call that probes all devices
chooses an accepting driver for every uninitialized device that has one. -/
theorem registry_consistent_iff (memory : ℕ → Driver) (calls : List RegistryCall) :
    (Throughout (registryStep memory) .boot calls (Consistent memory) ∧
        EachCall (registryStep memory) .boot calls (CallHolds memory)) ↔
      EachCall (registryStep memory) .boot calls (CallOk memory) := by
  have htotal : (runSteps (registryStep memory) .boot calls).isSome :=
    runSteps_isSome (fun _ _ => rfl) _ calls
  refine throughout_and_eachCall_iff (I := Consistent memory) (V := fun _ _ => True)
    (fun _ h => h) ?_ ?_ consistent_boot (fun _ _ _ _ _ => trivial) (runSteps_getD htotal)
  · intro dm call dm' h _ hstep hok
    cases hstep
    exact h.call call hok
  · intro dm call dm' h _ hstep hok hafter
    cases hstep
    exact h.call_breaks call hok hafter

/-- Drivers for the character devices of the platform, all with a `probe`. -/
def charDriver : Driver :=
  { bus := .platform, class_ := .char, hasProbe := true, hasInit := true }

/-- A driver goes while a device is bound to it. -/
def unregisterInUse : List RegistryCall :=
  [.register 1, .platform (some "serial") .char, .matchAndBind 0, .unregister 1]

/-- The first of two drivers for a device fails its `probe`, the second does not. -/
def secondDriver : List RegistryCall :=
  [.register 1, .register 2, .platform (some "serial") .char,
    .probeAll fun drv _ => if drv = 1 then -1 else 0]

/-- After the first run the device is bound to a driver that is gone. After the second it is
bound to none, though a driver accepts it. -/
theorem registry_not_consistent :
    ¬ Throughout (registryStep fun _ => charDriver) .boot unregisterInUse
        (Consistent fun _ => charDriver) ∧
    ¬ EachCall (registryStep fun _ => charDriver) .boot secondDriver
        (CallHolds fun _ => charDriver) := by
  constructor
  · intro hall
    have hend := hall unregisterInUse _ List.prefix_rfl rfl
    have hgone := hend.bound _ List.mem_cons_self 1 rfl
    exact absurd hgone.1 List.not_mem_nil
  · intro hall
    have hend := hall (secondDriver.take 3) _ _ List.prefix_rfl rfl
    obtain ⟨drv, -, hdrv, -⟩ := hend 0 _ rfl rfl
      ⟨2, List.mem_cons_of_mem _ List.mem_cons_self, ⟨rfl, rfl⟩, fun _ => rfl⟩
    cases hdrv

end DzOS.Proofs.Drivers
