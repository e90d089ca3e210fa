/-
# Text

A `std::string` or `std::string_view` is the list of its bytes.  `ch` and `ascii`
are the bytes of a literal.
-/

import Canforge.Core.Word

namespace Canforge
namespace Core

/-- `std::string`. -/
abbrev Text := List Byte

/-- The byte of a character literal. -/
def ch (c : Char) : Byte := BitVec.ofNat 8 c.toNat

/-- The bytes of a string literal. -/
def ascii (s : String) : Text := s.toList.map ch

/-- `std::isspace` in the C locale. -/
def isSpace (c : Byte) : Bool := c == ch ' ' || (ch '\t' ≤ c && c ≤ ch '\r')

/-- `std::isdigit`. -/
def isDigit (c : Byte) : Bool := decide (ch '0' ≤ c) && decide (c ≤ ch '9')

/-- The value of a decimal digit: `c - '0'`. -/
def digitVal (c : Byte) : ℕ := (c - ch '0').toNat

/-- The digits a stream writes, upper case. -/
def digitChar (d : ℕ) : Byte := (ascii "0123456789ABCDEF").getD d 0

theorem digit_digitChar {d : ℕ} (h : d < 10) :
    isDigit (digitChar d) = true ∧ digitVal (digitChar d) = d := by
  have hall : ∀ d : Fin 10, isDigit (digitChar d) = true ∧ digitVal (digitChar d) = (d : ℕ) := by
    decide
  exact hall ⟨d, h⟩

theorem digitVal_lt {c : Byte} (h : isDigit c = true) : digitVal c < 10 := by
  have hall : ∀ c : Byte, isDigit c = true → digitVal c < 10 := by decide +kernel
  exact hall c h

end Core
end Canforge
