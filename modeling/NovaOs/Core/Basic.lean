import NovaOs.Lib.Machine
import Mathlib.Data.Vector.Basic

/-!
# What the core primitives share

The result codes of `nova_core.h` and the library call `memcpy`. A definition has the name of the C function, type
or constant it models, in camel case. An output parameter is passed in with the
value the caller's variable holds and comes back with the value it holds after the call.
-/

namespace NovaOs.Core

inductive NovaResult where
  | ok
  | err
  | full
  | empty
  | notFound
  deriving DecidableEq, Repr

/-- `memcpy` into a fixed array: the first `length` bytes come from `src`, the others stay. -/
def memcpy {n : Nat} (dst : Vector UInt8 n) (src : Nat → UInt8) (length : Nat) : Vector UInt8 n :=
  Vector.ofFn fun i => if i.val < length then src i else dst[i]

def bytes (src : Nat → UInt8) (length : Nat) : List UInt8 := (List.range length).map src

@[simp] theorem bytes_length (src : Nat → UInt8) (length : Nat) : (bytes src length).length = length := by
  simp [bytes]

theorem getElem_memcpy {n : Nat} (dst : Vector UInt8 n) (src : Nat → UInt8) (length : Nat) {k : Nat} (hk : k < n) :
    (memcpy dst src length)[k] = if k < length then src k else dst[k] := by
  simp [memcpy]

theorem take_memcpy {n : Nat} (dst : Vector UInt8 n) (src : Nat → UInt8) {length : Nat} (h : length ≤ n) :
    (memcpy dst src length).toList.take length = bytes src length := by
  refine List.ext_getElem (by simpa using h) fun k hk _ => ?_
  have hk' : k < length := by
    simp only [List.length_take, Vector.length_toList] at hk
    omega
  simp [bytes, getElem_memcpy, hk']

end NovaOs.Core
