import Mathlib.Data.List.Defs

set_option autoImplicit false

namespace Libx

-- std::string, one Char for each byte.
abbrev Text := List Char

instance (text : Text) (texts : List Text) : Decidable (text ∈ texts) := inferInstance

-- What a function that takes a const char* sees of the text.
def cString (text : Text) : Text := text.takeWhile (· ≠ '\x00')

theorem c_string_whole (text : Text) (clean : '\x00' ∉ text) : cString text = text := by
  have passed : ∀ c ∈ text, decide (c ≠ '\x00') = true := by
    intro c member
    exact decide_eq_true fun same => clean (same ▸ member)
  rw [cString, ← List.append_nil text, List.takeWhile_append_of_pos passed, List.takeWhile_nil]

end Libx
