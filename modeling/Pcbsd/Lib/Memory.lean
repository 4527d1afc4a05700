import Pcbsd.Lib.Bytes

/-! Byte-addressed memory: ranges read, ranges written, and what a write leaves alone. -/

namespace Pcbsd.Memory
open Lib List Option

abbrev Mem := Nat → UInt8

def bytesAt (mem : Mem) (addr n : Nat) : Bytes := (range n).map fun i => mem (addr + i)

def write (mem : Mem) (addr : Nat) (bs : Bytes) : Mem :=
  fun a => if addr ≤ a then (bs[a - addr]?).getD (mem a) else mem a

variable {mem mem' : Mem} {addr addr' n : Nat} {bs : Bytes}

@[simp] theorem length_bytesAt (mem : Mem) (addr n : Nat) : (bytesAt mem addr n).length = n := by
  rw [bytesAt, length_map, length_range]

theorem getElem?_bytesAt (mem : Mem) (addr n i : Nat) :
    (bytesAt mem addr n)[i]? = if i < n then some (mem (addr + i)) else none := by
  rw [bytesAt, getElem?_map]
  split
  next inside => rw [getElem?_range inside, map_some]
  next _ => rw [getElem?_eq_none (by rw [length_range]; omega), map_none]

theorem bytesAt_congr (same : ∀ a, addr ≤ a → a < addr + n → mem a = mem' a) :
    bytesAt mem addr n = bytesAt mem' addr n := by
  apply map_congr_left
  intro i inside
  have small := mem_range.mp inside
  exact same (addr + i) (by omega) (by omega)

theorem bytesAt_append (mem : Mem) (addr n m : Nat) :
    bytesAt mem addr (n + m) = bytesAt mem addr n ++ bytesAt mem (addr + n) m := by
  rw [bytesAt, range_add, map_append, List.map_map]
  refine congrArg (_ ++ ·) (map_congr_left fun i _ => ?_)
  rw [Function.comp, Nat.add_assoc]

theorem write_outside (outside : n < addr ∨ addr + bs.length ≤ n) : write mem addr bs n = mem n := by
  rw [write]
  split
  next => rw [getElem?_eq_none (by omega), getD_none]
  next => rfl

theorem write_inside {i : Nat} (inside : i < bs.length) : write mem addr bs (addr + i) = bs[i] := by
  rw [write, if_pos (by omega), Nat.add_sub_cancel_left, getElem?_eq_getElem inside, getD_some]

theorem bytesAt_write (mem : Mem) (addr : Nat) (bs : Bytes) : bytesAt (write mem addr bs) addr bs.length = bs := by
  apply ext_getElem?
  intro i
  rw [getElem?_bytesAt]
  split
  next inside => rw [write_inside inside, getElem?_eq_getElem inside]
  next _ => rw [getElem?_eq_none (by omega)]

theorem bytesAt_write_other (apart : addr' + n ≤ addr ∨ addr + bs.length ≤ addr') :
    bytesAt (write mem addr bs) addr' n = bytesAt mem addr' n :=
  bytesAt_congr fun a low high => write_outside (by omega)

theorem write_same (there : bytesAt mem addr bs.length = bs) : write mem addr bs = mem := by
  funext a
  by_cases inside : addr ≤ a ∧ a < addr + bs.length
  · have found := congrArg (fun l => l[a - addr]?) there
    rw [getElem?_bytesAt, if_pos (by omega), Nat.add_sub_cancel' inside.1] at found
    rw [write, if_pos inside.1, ← found, getD_some]
  · exact write_outside (by omega)

theorem write_append (mem : Mem) (addr : Nat) (bs cs : Bytes) :
    write (write mem addr bs) (addr + bs.length) cs = write mem addr (bs ++ cs) := by
  funext a
  by_cases before : a < addr + bs.length
  · rw [write_outside (Or.inl before), write, write]
    split
    next _ => rw [getElem?_append_left (by omega)]
    next => rfl
  · have there : a - (addr + bs.length) = a - addr - bs.length := by omega
    rw [write, if_pos (by omega), write_outside (Or.inr (by omega)), write, if_pos (by omega),
      getElem?_append_right (by omega), there]

theorem slice_range {off k : Nat} (inside : off + k ≤ n) :
    slice off k (bytesAt mem addr n) = bytesAt mem (addr + off) k := by
  apply ext_getElem?
  intro i
  rw [getElem?_slice, getElem?_bytesAt, getElem?_bytesAt]
  split
  next => rw [if_pos (by omega), Nat.add_assoc]
  next => rfl

theorem bytesAt_write_range (low : addr' ≤ addr) (high : addr + bs.length ≤ addr' + n) :
    bytesAt (write mem addr bs) addr' n = put (addr - addr') bs (bytesAt mem addr' n) := by
  apply ext_getElem?
  intro i
  rw [getElem?_put (by rw [length_bytesAt]; omega), getElem?_bytesAt, getElem?_bytesAt]
  by_cases inside : addr - addr' ≤ i ∧ i < addr - addr' + bs.length
  · rw [if_pos inside, if_pos (by omega), getElem?_eq_getElem (by omega)]
    have here : addr' + i = addr + (i - (addr - addr')) := by omega
    rw [here, write_inside]
  · split
    next => rw [write_outside (by omega)]
    next => rfl

theorem write_comm {cs : Bytes} (apart : addr + bs.length ≤ addr' ∨ addr' + cs.length ≤ addr) :
    write (write mem addr bs) addr' cs = write (write mem addr' cs) addr bs := by
  funext a
  by_cases first : addr ≤ a ∧ a < addr + bs.length
  · obtain ⟨i, rfl⟩ : ∃ i, a = addr + i := ⟨a - addr, by omega⟩
    rw [write_outside (by omega), write_inside (by omega), write_inside (by omega)]
  · by_cases second : addr' ≤ a ∧ a < addr' + cs.length
    · obtain ⟨i, rfl⟩ : ∃ i, a = addr' + i := ⟨a - addr', by omega⟩
      rw [write_inside (by omega), write_outside (by omega), write_inside (by omega)]
    · rw [write_outside (by omega), write_outside (by omega), write_outside (by omega), write_outside (by omega)]

end Pcbsd.Memory
