import Keymap.Machine
import Keymap.Text.Basic

/-!
# Capacity

How often something may be repeated: a blank before a caret, a key of a new layer, a fill character
of a field. A count has to fit into a machine word with a sign, and what it asks for into memory. A
count below zero asks for nothing.
-/

namespace Keymap

/-- Why something cannot be repeated that often. -/
inductive CapacityFault where
  /-- The count does not fit into a machine word. -/
  | outOfRange
  /-- The count asks for more than can be held. -/
  | outOfMemory
  deriving DecidableEq, Repr

/-- The wording of a fault. Running out of memory has none. -/
def CapacityFault.message : CapacityFault → Text
  | .outOfRange => "cannot fit 'int' into an index-sized integer".toList
  | .outOfMemory => []

/-- The numbers of a machine word with a sign lie below this one, and not below its opposite. -/
def wordBound : Int := 0x8000000000000000

variable [Machine]

/-- How many repetitions a count asks for. -/
def checkCount (count : Int) : Except CapacityFault Nat :=
  if count < -wordBound ∨ wordBound ≤ count then .error .outOfRange
  else if capacity < count.toNat then .error .outOfMemory
  else .ok count.toNat

end Keymap
