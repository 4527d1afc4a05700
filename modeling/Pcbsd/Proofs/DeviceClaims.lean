import Pcbsd.Proofs.VdevHealth
import Pcbsd.Proofs.VdevTop

/-! Which vdev a call of vdev_probe gives its device to. -/

namespace Pcbsd.Zfs
open Function

variable {δ : Type}

/-- The vdev `v`, with the guid of the label, gets the device, which it had not before; no other one does. -/
structure Claimed (dev : δ) (guid v : Nat) (h h' : Vdevs δ) : Prop where
  count : h.count ≤ h'.count
  inside : v < h'.count
  named : (h'.vdev v).guid = guid
  mine : (h'.vdev v).phys = some dev
  unset : v < h.count → (h.vdev v).phys = none
  guid : ∀ q < h.count, (h'.vdev q).guid = (h.vdev q).guid
  phys : ∀ q < h.count, q ≠ v → (h'.vdev q).phys = (h.vdev q).phys
  new : ∀ q < h'.count, h.count ≤ q → q ≠ v → (h'.vdev q).phys = none

end Pcbsd.Zfs
