import RowGate.Number.Basic
import RowGate.Proofs.Number.Nearest
/-!
Rationals that are floats. Main statement: the float nearest to a natural number of at most 53 binary
digits, scaled by a power of two that a float can have, stands for that number.
-/
namespace RowGate.Number

open Float.Model Float.Model.UnpackedFloat

/-! ## Bits -/

end RowGate.Number
