import Keymap.Node.Basic

/-!
# Summaries

One line about the root of a tree: what it is, what it is called and which span it has.
-/

namespace Keymap

variable {ι α : Type} [Spelled ι] [Spelled α]

/-- A tree in one line: `Word('KC_B', 20:24)` or `Call('LT', 2 params, 7:18)`. -/
def Node.summary : Node ι α → Text
  | .word content offset stop =>
    "Word(".toList ++ content.quoted ++ ", ".toList ++ spell offset ++ ":".toList ++ spell stop ++
      ")".toList
  | .call name params offset stop _ =>
    "Call(".toList ++ name.quoted ++ ", ".toList ++ spell params.length ++ " params, ".toList ++
      spell offset ++ ":".toList ++ spell stop ++ ")".toList
  | .strange value => spell value

end Keymap
