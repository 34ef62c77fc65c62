import Keymap.Node.Basic

/-!
# Dumps

A dump shows trees with one line for each node, parents before their parameters, and two columns
of indentation for each level. A node's line gives its kind, its word or name, and its offset.
-/

namespace Keymap

/-- A line at a level of a dump. -/
def indented (level : Nat) (line : Text) : Text :=
  List.replicate (2 * level) ' ' ++ line

namespace Node

variable {ι α : Type} [Spelled ι]

mutual

/-- The lines of a tree at a level, the first one after a label. A strange value inside is the
error. -/
def dump (level : Nat) (label : Text) : Node ι α → Except α (List Text)
  | .word content offset _ =>
    .ok [indented level (label ++ "Word: ".toList ++ content ++ " @".toList ++ spell offset)]
  | .call name params offset _ _ => do
    let line := indented level (label ++ "Call: ".toList ++ name ++ " @".toList ++ spell offset)
    return line :: (← dumpAll (level + 1) params)
  | .strange value => .error value

/-- The lines of several trees at a level. -/
def dumpAll (level : Nat) : List (Node ι α) → Except α (List Text)
  | [] => .ok []
  | node :: rest => do return (← dump level [] node) ++ (← dumpAll level rest)

end

/-- The lines of the keys of a layer, each labelled with its number. -/
def dumpKeys (number : Nat) : List (Node ι α) → Except α (List Text)
  | [] => .ok []
  | node :: rest => do
    let label := "[".toList ++ spell number ++ "] ".toList
    return (← dump 1 label node) ++ (← dumpKeys (number + 1) rest)

/-- The lines of layers, each under a line that counts its keys. -/
def dumpLayers (number : Nat) : List (List (Node ι α)) → Except α (List Text)
  | [] => .ok []
  | layer :: rest => do
    let line := "Layer ".toList ++ spell number ++ " (".toList ++ spell layer.length ++
      " keys)".toList
    return line :: (← dumpKeys 0 layer) ++ (← dumpLayers (number + 1) rest)

/-- The dump of a single tree. -/
def dumpText (node : Node ι α) : Except α Text :=
  return ['\n'].intercalate (← node.dump 0 [])

/-- The dump of all layers. -/
def layersText (layers : List (List (Node ι α))) : Except α Text :=
  return ['\n'].intercalate (← dumpLayers 0 layers)

/-- How a strange value in the place of a tree is reported. -/
def strangeMessage [Spelled α] (value : α) : Text :=
  "not a keymap node: ".toList ++ spell value

end Node

end Keymap
