import Mathlib.Logic.Function.Basic

/-!
# Registers of a mapped device

A driver accesses the registers of its device by their offsets. The registers of this model
keep the word that was written.
-/

namespace BaremetalCrt

/-- The words of a device by their offsets. -/
def DeviceWords : Type := Nat → BitVec 32

/-- `k_device_read32`. -/
def kDeviceRead32 (dev : DeviceWords) (off : Nat) : BitVec 32 := dev off

/-- `k_device_write32`. -/
def kDeviceWrite32 (dev : DeviceWords) (dat : BitVec 32) (off : Nat) : DeviceWords :=
  Function.update dev off dat

variable (dev : DeviceWords) (dat : BitVec 32) {off off' : Nat}

@[simp] theorem kDeviceRead32_write_self :
    kDeviceRead32 (kDeviceWrite32 dev dat off) off = dat := Function.update_self ..

theorem kDeviceRead32_write_of_ne (h : off' ≠ off) :
    kDeviceRead32 (kDeviceWrite32 dev dat off) off' = kDeviceRead32 dev off' :=
  Function.update_of_ne h ..

/-- Devices with the same words are the same. -/
theorem deviceWords_ext {dev dev' : DeviceWords}
    (h : ∀ off, kDeviceRead32 dev off = kDeviceRead32 dev' off) : dev = dev' := funext h

end BaremetalCrt
