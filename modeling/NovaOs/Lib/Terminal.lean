import NovaOs.Lib.Machine

/-!
# Terminals

A terminal shows a row of cells. A printable byte is written where the cursor stands, and a backspace moves the cursor
back by a cell and erases nothing. The row has no right edge, and no other byte is understood.
-/

namespace Lib

/-- The cells before the cursor, and the cells from the cursor on. -/
structure Row where
  left : List UInt8
  right : List UInt8
  deriving DecidableEq

namespace Row

variable (row : Row)

def put (cell : UInt8) : Row := ⟨row.left ++ [cell], row.right.tail⟩

/-- At the start of the row the cursor stays. -/
def back : Row :=
  match row.left.getLast? with
  | none => row
  | some cell => ⟨row.left.dropLast, cell :: row.right⟩

def send (byte : UInt8) : Option Row :=
  if 0x20 ≤ byte ∧ byte ≤ 0x7E then some (row.put byte) else if byte = 8 then some row.back else none

/-- The text stands before the cursor and nothing behind it. -/
structure Shows (text : List UInt8) : Prop where
  left : row.left = text
  right : ∀ cell ∈ row.right, cell = 0x20

end Row

/-- After a byte that is not understood there is no row. -/
def terminal : Machine (Option Row) UInt8 Unit where
  step row byte := ((), row.bind fun row => row.send byte)

/-- The bytes make of each row that shows `text` one that shows `text'`, and `kept` is there after every byte. -/
structure Displays (kept text bytes text' : List UInt8) : Prop where
  shows : ∀ row : Row, row.Shows text → ∃ row' : Row, terminal.exec (some row) bytes = some row' ∧ row'.Shows text'
  keeps : ∀ row : Row, row.Shows text →
    terminal.Always (fun row => ∃ row' : Row, row = some row' ∧ kept <+: row'.left) (some row) bytes

variable {kept text text' text'' bytes bytes' : List UInt8} {row : Row} {byte cell : UInt8}

/-! ## Single bytes -/

theorem Row.Shows.put (h : row.Shows text) (cell : UInt8) : (row.put cell).Shows (text ++ [cell]) where
  left := by rw [Row.put, h.left]
  right := fun b hb => h.right b (List.mem_of_mem_tail hb)

theorem terminal_next_put (hbyte : 0x20 ≤ byte ∧ byte ≤ 0x7E) (row : Row) :
    terminal.next (some row) byte = some (row.put byte) := if_pos hbyte

theorem terminal_next_back (row : Row) : terminal.next (some row) 8 = some row.back := rfl

/-! ## Rules -/

theorem Displays.nil (h : kept <+: text) : Displays kept text [] text where
  shows row hrow := ⟨row, rfl, hrow⟩
  keeps row hrow := ⟨row, rfl, by rwa [hrow.left]⟩

theorem Displays.trans (h : Displays kept text bytes text') (h' : Displays kept text' bytes' text'') :
    Displays kept text (bytes ++ bytes') text'' where
  shows row hrow := by
    obtain ⟨row', hexec, hrow'⟩ := h.shows row hrow
    rw [Machine.exec_append, hexec]
    exact h'.shows row' hrow'
  keeps row hrow := by
    obtain ⟨row', hexec, hrow'⟩ := h.shows row hrow
    apply Machine.always_append (h.keeps row hrow)
    rw [hexec]
    exact h'.keeps row' hrow'

/-- A printable byte is shown behind the text. -/
theorem Displays.put (h : kept <+: text) (hbyte : 0x20 ≤ byte ∧ byte ≤ 0x7E) : Displays kept text [byte] (text ++ [byte]) where
  shows row hrow := ⟨row.put byte, terminal_next_put hbyte row, hrow.put byte⟩
  keeps row hrow := by
    have hput := hrow.put byte
    refine ⟨⟨row, rfl, by rwa [hrow.left]⟩, ⟨row.put byte, terminal_next_put hbyte row, ?_⟩⟩
    rw [hput.left]
    exact h.trans (List.prefix_append text [byte])

theorem Row.Shows.back (h : row.Shows (text ++ [cell])) : row.back = ⟨text, cell :: row.right⟩ := by
  rw [Row.back, h.left]
  simp

/-- A backspace, a space and a backspace erase the last cell. -/
theorem Displays.erase (h : kept <+: text) : Displays kept (text ++ [cell]) [8, 0x20, 8] text := by
  have hblank : ∀ row : Row, (⟨text, cell :: row.right⟩ : Row).put 0x20 = ⟨text ++ [0x20], row.right⟩ := fun _ => rfl
  have herased : ∀ row : Row, (⟨text ++ [0x20], row.right⟩ : Row).back = ⟨text, 0x20 :: row.right⟩ := by simp [Row.back]
  constructor
  · intro row hrow
    refine ⟨⟨text, 0x20 :: row.right⟩, ?_, rfl, ?_⟩
    · rw [Machine.exec_cons, terminal_next_back, hrow.back, Machine.exec_cons, terminal_next_put (by decide), hblank,
        Machine.exec_cons, terminal_next_back, herased, Machine.exec_nil]
    · simpa using hrow.right
  · intro row hrow
    have hbefore : kept <+: row.left := by
      rw [hrow.left]
      exact h.trans (List.prefix_append text [cell])
    refine ⟨⟨row, rfl, hbefore⟩, ?_⟩
    rw [terminal_next_back, hrow.back]
    refine ⟨⟨_, rfl, h⟩, ?_⟩
    rw [terminal_next_put (by decide), hblank]
    refine ⟨⟨_, rfl, h.trans (List.prefix_append text [0x20])⟩, ?_⟩
    rw [terminal_next_back, herased]
    exact ⟨_, rfl, h⟩

end Lib
