import Mathlib.Data.Int.Init
import Mathlib.Tactic.NormNum

/-!
The machine integers of the code: `int` is 32 bits in two's complement and
`size_t` is 64 bits. A value is an integer with the wrap made explicit.
-/

namespace StudyRecord.Machine

def intMax : Int := 2 ^ 31 - 1

def intMin : Int := -2 ^ 31

def FitsInt (value : Int) : Prop := intMin ≤ value ∧ value ≤ intMax

instance (value : Int) : Decidable (FitsInt value) := inferInstanceAs (Decidable (_ ∧ _))

/-- The value that an `int` holds after `value` is stored in it. -/
def toInt (value : Int) : Int := Int.bmod value (2 ^ 32)

def toSize (value : Int) : Nat := (value % 2 ^ 64).toNat

theorem toInt_fits (value : Int) : FitsInt (toInt value) := by
  have lower := Int.le_bmod (x := value) (m := 2 ^ 32) (by decide)
  have upper := Int.bmod_lt (x := value) (m := 2 ^ 32) (by decide)
  simp only [FitsInt, intMin, intMax, toInt]
  omega

theorem toInt_of_fits {value : Int} (fits : FitsInt value) : toInt value = value := by
  simp only [FitsInt, intMin, intMax] at fits
  simp only [toInt]
  exact Int.bmod_eq_of_le (by omega) (by omega)

theorem toInt_add_left (total more : Int) : toInt (toInt total + more) = toInt (total + more) :=
  Int.bmod_add_bmod

theorem toInt_eq_iff (first second : Int) :
    toInt first = toInt second ↔ first % 2 ^ 32 = second % 2 ^ 32 := by
  simp only [toInt, Int.bmod_def]
  omega

theorem toSize_of_fits {value : Int} (lower : 0 ≤ value) (upper : value < 2 ^ 64) :
    (toSize value : Int) = value := by
  simp only [toSize]
  omega

end StudyRecord.Machine
