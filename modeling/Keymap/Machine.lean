/-!
# Machines

What a machine has room for: how deeply calls may stand in each other, and how much can be held at
once. Neither is a property of a text, and neither is the same everywhere; it may even depend on
what a program was doing before it began to read. So all of the library is about any machine.
-/

namespace Keymap

/-- What a machine has room for. -/
class Machine where
  /-- How many calls may be open at a time. -/
  nestingLimit : Nat
  /-- How many characters or keys can be held at once. -/
  capacity : Nat

export Machine (nestingLimit capacity)

namespace Usual

/-- A machine such as there are many, on which programs and examples run. -/
scoped instance machine : Machine where
  nestingLimit := 490
  capacity := 0x100000000

end Usual

end Keymap
