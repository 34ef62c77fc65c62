import Keymap.Outline

/-!
# Events

What happens while a text is read or edited, for whoever wants to watch. Events do not influence
any result.
-/

namespace Keymap

/-- How much an event matters. -/
inductive Level where
  | debug
  | info
  | warning
  deriving DecidableEq, Repr

/-- The name of a level. -/
def Level.name : Level → Text
  | .debug => "DEBUG".toList
  | .info => "INFO".toList
  | .warning => "WARNING".toList

/-- Something that happened. -/
inductive Event where
  /-- A layer was read. -/
  | layerRead (number start keyCount : Nat)
  /-- A key was to be set that is not there. -/
  | keyMissing (layer key : Int)
  /-- A key was set. -/
  | keySet (layer key : Int) (old new : Text)
  /-- No layer was added to a text that does not parse. -/
  | layerNotAdded (error : SyntaxError)
  /-- A layer was added. -/
  | layerAdded (number keyCount offset : Nat)
  /-- Setting a key left the text as it was. -/
  | nothingChanged (layer key : Int)
  /-- A count of keys was asked for in words that are no number. -/
  | keyCountIgnored (words : Text)
  deriving DecidableEq

namespace Event

/-- The level of an event. -/
def level : Event → Level
  | .nothingChanged .. => .info
  | .keyCountIgnored _ => .warning
  | _ => .debug

/-- The wording of an event. -/
def message : Event → Text
  | .layerRead number start keyCount =>
    "Parsed layer ".toList ++ spell number ++ " at offset ".toList ++ spell start ++ ": ".toList ++
      spell keyCount ++ " keys".toList
  | .keyMissing layer key =>
    "Key ".toList ++ spell layer ++ "/".toList ++ spell key ++
      " does not exist, text left unchanged".toList
  | .keySet layer key old new =>
    "Set key ".toList ++ spell layer ++ "/".toList ++ spell key ++ ": ".toList ++ old.quoted ++
      " -> ".toList ++ new.quoted
  | .layerNotAdded error =>
    "Not adding a layer, source does not parse: ".toList ++ error.report
  | .layerAdded number keyCount offset =>
    "Added layer ".toList ++ spell number ++ " with ".toList ++ spell keyCount ++
      " keys at offset ".toList ++ spell offset
  | .nothingChanged layer key =>
    "No key ".toList ++ spell key ++ " on layer ".toList ++ spell layer ++
      "; nothing changed".toList
  | .keyCountIgnored words =>
    "Ignoring invalid KMEDIT_KEY_COUNT: ".toList ++ words.quoted

/-- An event in one record of a log. -/
def record (event : Event) : Text :=
  event.level.name ++ ": ".toList ++ event.message

end Event

/-- The events of a reading: one for each layer that was read, also before a fault. -/
def Reading.events (reading : Reading) : List Event :=
  reading.found.mapIdx fun number layer =>
    .layerRead number layer.start layer.keys.length

end Keymap
