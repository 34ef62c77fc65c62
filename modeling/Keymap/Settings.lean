import Keymap.Edit

/-!
# Settings

What editing goes by unless a command says otherwise. Settings are read from named words, such as
the variables of an environment; an empty word counts as none.
-/

namespace Keymap

/-- The opener, the placeholder of new keys, the number of keys of a layer if it is known, and
whether a text is parsed again after a layer was added. -/
structure Settings where
  opener : Text
  placeholder : Text
  keyCount : Option Int
  validateAddition : Bool
  deriving DecidableEq, Repr

/-- Words by their names. -/
abbrev Environment := List (Text × Text)

/-- The word of a name, unless it is empty. -/
def Environment.word? (environment : Environment) (name : Text) : Option Text :=
  match environment.lookup name with
  | none | some [] => none
  | some word => some word

/-- Whether a word means yes. -/
def meansYes (word : Text) : Bool :=
  ["1", "true", "yes", "on"].any fun yes => yes.toList == word.trim.map Char.toLower

namespace Settings

/-- The settings that hold where nothing else is said. -/
def standard : Settings :=
  ⟨defaultOpener, defaultPlaceholder, none, false⟩

/-- The settings that an environment asks for. -/
def read (environment : Environment) : Settings where
  opener := (environment.word? "KMEDIT_MACRO".toList).getD defaultOpener
  placeholder := (environment.word? "KMEDIT_PLACEHOLDER".toList).getD defaultPlaceholder
  keyCount := (environment.word? "KMEDIT_KEY_COUNT".toList).bind Text.toInt?
  validateAddition :=
    ((environment.word? "KMEDIT_VALIDATE_APPEND".toList).map meansYes).getD false

/-- What happens while settings are read: a count of keys that is no number is ignored. -/
def readEvents (environment : Environment) : List Event :=
  match environment.word? "KMEDIT_KEY_COUNT".toList with
  | none => []
  | some words => if words.toInt?.isSome then [] else [.keyCountIgnored words]

/-- The template of new layers. -/
def template (settings : Settings) : Template :=
  { Template.standard with
    opener := settings.opener
    placeholder := settings.placeholder }

end Settings

end Keymap
