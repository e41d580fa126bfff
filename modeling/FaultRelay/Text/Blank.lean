/-! The characters with the property White_Space, and trimming by it. -/
namespace FaultRelay.Text

def isBlank (c : Char) : Bool :=
  let n := c.toNat
  (0x9 ≤ n && n ≤ 0xD) || n = 0x20 || n = 0x85 || n = 0xA0 || n = 0x1680 ||
    (0x2000 ≤ n && n ≤ 0x200A) || n = 0x2028 || n = 0x2029 || n = 0x202F || n = 0x205F || n = 0x3000

def trimStart (text : List Char) : List Char := text.dropWhile isBlank

def trim (text : List Char) : List Char := (trimStart (trimStart text).reverse).reverse

theorem isBlank_of_isWhitespace {c : Char} (white : c.isWhitespace = true) : isBlank c = true := by
  simp only [Char.isWhitespace, Bool.or_eq_true, decide_eq_true_eq] at white
  rcases white with ((rfl | rfl) | rfl) | rfl <;> decide

end FaultRelay.Text
