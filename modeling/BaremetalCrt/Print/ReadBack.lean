import BaremetalCrt.Print.Meaning

/-!
# Reading a printed integer back

The text of an integer conversion is read as `strtol` reads it: blanks, a sign, digits. What is
read is told for every field without a mark of its base; it is not always the number that was
printed, since the buffer of a conversion holds 32 characters.
-/

namespace BaremetalCrt

open Emission

section Reader

/-- A number with its sign. -/
def signed (negative : Bool) (n : Nat) : Int := if negative then -n else n

variable {base : Nat} (hbase : base ≤ 16) (uppercase : Bool) {ds : List Nat}
  (hds : ∀ d ∈ ds, d < base)

include hbase hds

end Reader

section Field

variable {base : Nat} (hbase : base ≤ 16) (uppercase : Bool) {ds : List Nat}
  (hds : ∀ d ∈ ds, d < base)

include hbase hds

end Field

section Integer

variable (base value prec width : Nat) (negative : Bool) (flags : PriFlags)

end Integer

section Conversions

variable {t : Target} {D : Type}

end Conversions

end BaremetalCrt
