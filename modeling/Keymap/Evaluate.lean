import Keymap.Node.Basic

/-!
# Evaluation

A symbol table says what to do for the calls it knows. Evaluating a tree gives a word's text, and
for a call what the table makes of the values of its parameters. Evaluation is lenient: a call that
the table does not know, or for which it gives a void datum, has no value. Parameters are evaluated
from left to right before the call, also if the table does not know it. Tables may have effects of
any kind, so evaluation runs in a monad.
-/

namespace Keymap

/-- Types of data that texts belong to, some of which say nothing. -/
class Datum (V : Type) where
  /-- The datum that a text is. -/
  ofText : Text → V
  /-- Whether a datum says nothing. -/
  isVoid : V → Bool

instance : Datum Value := ⟨.text, Value.isVoid⟩

/-- Types of strange values, some of which are texts. -/
class Wording (α : Type) where
  /-- The text that a strange value is. -/
  text? : α → Option Text

instance : Wording Empty := ⟨nofun⟩
instance : Wording Value := ⟨Value.text?⟩

/-- For the names of calls that are known, what to do with the values of the parameters. -/
abbrev SymbolTable (m : Type → Type) (V : Type) :=
  Text → Option (List (Option V) → m (Option V))

/-- A void datum is no value. -/
def settle {V : Type} [Datum V] (value : Option V) : Option V :=
  value.filter (!Datum.isVoid ·)

namespace Node

variable {m : Type → Type} [Monad m] {V ι α : Type} [Datum V] [Wording α]

mutual

/-- The value of a tree, if it has one. -/
def evaluate (table : SymbolTable m V) : Node ι α → m (Option V)
  | .word content _ _ => pure (some (Datum.ofText content))
  | .call name params _ _ _ => do
    let values ← evaluateAll table params
    match table name with
    | some symbol => settle <$> symbol values
    | none => pure none
  | .strange value => pure ((Wording.text? value).map Datum.ofText)

/-- The values of several trees, from left to right. -/
def evaluateAll (table : SymbolTable m V) : List (Node ι α) → m (List (Option V))
  | [] => pure []
  | node :: rest => do
    let value ← evaluate table node
    let values ← evaluateAll table rest
    return value :: values

end

/-- The values of the keys of several layers, layer by layer. -/
def evaluateLayers (table : SymbolTable m V) : List (List (Node ι α)) → m (List (List (Option V)))
  | [] => pure []
  | layer :: rest => do
    let values ← evaluateAll table layer
    let later ← evaluateLayers table rest
    return values :: later

end Node

/-! ## Traces -/

/-- One use of a symbol table: the name of a call and the values of its parameters. -/
structure SymbolUse (V : Type) where
  name : Text
  arguments : List (Option V)

/-- Computations that may fail with an `E` and that keep, also then, a trace of all uses of a
symbol table, latest first. -/
abbrev Traced (E V : Type) := ExceptT E (StateM (List (SymbolUse V)))

/-- The table that records each use before it does what it does. -/
def SymbolTable.traced {E V : Type} (table : SymbolTable (Except E) V) :
    SymbolTable (Traced E V) V := fun name =>
  (table name).map fun symbol arguments => do
    modify (⟨name, arguments⟩ :: ·)
    ExceptT.mk (pure (symbol arguments))

/-- The outcome of a computation that begins with an empty trace, and its trace in order. -/
def Traced.outcome {E V R : Type} (computation : Traced E V R) :
    Except E R × List (SymbolUse V) :=
  let (result, trace) := computation.run.run []
  (result, trace.reverse)

end Keymap
