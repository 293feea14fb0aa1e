/-! # Words

The ranges of whole numbers that fit into words of some number of bits, with and without a sign. -/

namespace ForcingData.Word

/-- The count of words of `bits` bits. -/
def count (bits : Nat) : Nat := Nat.pow 2 bits

/-- The greatest word. -/
def greatest (bits : Nat) : Nat := count bits - 1

/-- Does the number fit without a sign? -/
def fits (bits : Nat) (n : Int) : Bool := 0 ≤ n && n < count bits

/-- Does the number fit with a sign? -/
def fitsSigned (bits : Nat) (n : Int) : Bool :=
  -(count (bits - 1) : Int) ≤ n && n < count (bits - 1)

end ForcingData.Word
