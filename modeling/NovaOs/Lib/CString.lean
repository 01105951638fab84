import Mathlib.Data.UInt
import Mathlib.Data.Vector.Basic

/-!
# Strings of bytes that end with a NUL

A `CString` is what a C program means by a string: its bytes, of which none is NUL. A pointer into an object is the
list of the bytes from there to the end of the object; `Holds` says that the string there is a given one.
-/

namespace Lib

structure CString where
  bytes : List UInt8
  nul_free : 0 ∉ bytes
  deriving DecidableEq

namespace CString

variable (s : CString) (n : Nat)

/-- The string that a literal denotes: it ends at the first NUL. -/
def ofString (literal : String) : CString where
  bytes := (literal.toList.map fun c => UInt8.ofNat c.toNat).takeWhile (· ≠ 0)
  nul_free h := by simpa using List.all_eq_true.mp List.all_takeWhile 0 h

def length : Nat := s.bytes.length

/-- The string as it lies in memory. -/
def text : List UInt8 := s.bytes ++ [0]

/-- The first `n` bytes. -/
def cut : CString := ⟨s.bytes.take n, fun h => s.nul_free (List.mem_of_mem_take h)⟩

/-- The bytes after the first `n`. -/
def rest : CString := ⟨s.bytes.drop n, fun h => s.nul_free (List.mem_of_mem_drop h)⟩

/-- `strncmp` finds no difference in the first `n` bytes. -/
def sameUpTo (t : CString) : Bool := s.cut n = t.cut n

variable {s}

theorem eq_of_bytes {s' : CString} (h : s.bytes = s'.bytes) : s = s' := by
  cases s
  cases s'
  simp only at h
  subst h
  rfl

end CString

/-- The string at the pointer is `s`: its bytes lie there, and then a NUL. -/
def Holds (text : List UInt8) (s : CString) : Prop := s.text <+: text

namespace Holds

variable {text : List UInt8} {s : CString}

theorem text_self (s : CString) : Holds s.text s := List.prefix_rfl

theorem append (s : CString) (after : List UInt8) : Holds (s.bytes ++ 0 :: after) s := by
  simp [Holds, CString.text, List.prefix_append_right_inj]

theorem exists_append (h : Holds text s) : ∃ after, text = s.bytes ++ 0 :: after := by
  obtain ⟨after, rfl⟩ := h
  exact ⟨after, by simp [CString.text]⟩

theorem drop (h : Holds text s) {n : Nat} (hn : n ≤ s.length) : Holds (text.drop n) (s.rest n) := by
  obtain ⟨after, rfl⟩ := h.exists_append
  rw [List.drop_append_of_le_length hn]
  exact .append (s.rest n) after

end Holds

/-- `strncpy` into a fixed array: at most `n` bytes of the string, and NULs up to `n`; the others stay. -/
def strncpy {size : Nat} (dst : Vector UInt8 size) (src : CString) (n : Nat) : Vector UInt8 size :=
  Vector.ofFn fun i => if i.val < n then src.bytes.getD i 0 else dst.get i

/-- A copy that is ended with a NUL holds the first bytes of the string. -/
theorem holds_strncpy {size : Nat} (dst : Vector UInt8 size) (src : CString) {n : Nat} (hn : n < size) :
    Holds ((strncpy dst src n).set n 0 hn).toList (src.cut n) := by
  have hlen : (src.cut n).bytes.length = min n src.length := by simp [CString.cut, CString.length]
  rw [Holds, List.prefix_iff_getElem]
  have hle : (src.cut n).text.length ≤ ((strncpy dst src n).set n 0 hn).toList.length := by
    simp only [CString.text, List.length_append, hlen, List.length_singleton, Vector.length_toList]
    omega
  refine ⟨hle, fun k hk => ?_⟩
  simp only [CString.text, List.length_append, hlen, List.length_singleton] at hk
  simp only [CString.text, Vector.getElem_toList, Vector.getElem_set, strncpy, Vector.getElem_ofFn]
  by_cases hend : k < min n src.length
  · -- a byte of the string
    have hbytes : k < src.bytes.length := by
      simp only [CString.length] at hend
      omega
    rw [List.getElem_append_left (by omega), if_neg (by omega), if_pos (by omega)]
    simp [CString.cut, hbytes]
  · -- the NUL, written at `n` or copied with the string
    rw [List.getElem_append_right (by omega)]
    have hbytes : src.bytes.length = src.length := rfl
    by_cases hlast : n = k
    · simp [hlast]
    · rw [if_neg hlast, if_pos (by omega)]
      have hpast : src.bytes[k]? = none := List.getElem?_eq_none (by omega)
      simp [hpast]

end Lib
