import Keymap.Evaluate
import Keymap.Proofs.Layout
import Mathlib.Data.List.Forall2

/-!
# What evaluation hands on

A symbol table may do anything: give any datum, fail, and remember what it was asked. Evaluating a
layer of a text that parses still hands it nothing void. Whatever a function is given, and whatever
a key comes to, is a datum that says something or no value at all; and there is no value only where
a call is not known or its function gave nothing.

Evaluation is compared with rules for how keys come to their values. The rules go with a log of all
uses of the table, which the evaluator keeps if the table does.

## Key results

- `RuleInvariant.evaluateAll` — what the rules preserve holds of every evaluation, and logging
  changes nothing
- `ComeTo.accounted`, `ComeTo.belongs` — by the rules, values and uses are accounted for
- `evaluateAll_of_parse` — what is handed on when the layers of a text are evaluated
-/

namespace Keymap

variable {E σ V : Type}

/-! ## Tables with effects -/

/-- Computations that may fail with an `E` and that have a state, which they keep also then. -/
abbrev Effect (E σ : Type) := ExceptT E (StateM σ)

/-- A use of a symbol table, and what the function of that name made of the arguments. -/
structure AnsweredUse (E V : Type) extends SymbolUse V where
  answer : Except E (Option V)

/-- The function of the given name that logs its uses besides what it does. -/
def logging (name : Text) (symbol : List (Option V) → Effect E σ (Option V)) :
    List (Option V) → Effect E (σ × List (AnsweredUse E V)) (Option V) := fun arguments =>
  ExceptT.mk fun (state, log) =>
    let (answer, state') := (symbol arguments).run.run state
    (answer, state', log ++ [⟨⟨name, arguments⟩, answer⟩])

/-- The table that logs its uses besides what it does. -/
def SymbolTable.logged (table : SymbolTable (Effect E σ) V) :
    SymbolTable (Effect E (σ × List (AnsweredUse E V))) V := fun name =>
  (table name).map (logging name)

section

variable {α β : Type} {x : Effect E σ α} {f : α → Effect E σ β} {s s' : σ}

/-- A computation goes on from what the first part of it gives. -/
theorem run_bind_ok {a : α} (h : x.run.run s = (.ok a, s')) :
    (x >>= f).run.run s = (f a).run.run s' := by
  rw [ExceptT.run_bind, StateT.run_bind, h]
  rfl

/-- A computation fails with the first part of it. -/
theorem run_bind_error {e : E} (h : x.run.run s = (.error e, s')) :
    (x >>= f).run.run s = (.error e, s') := by
  rw [ExceptT.run_bind, StateT.run_bind, h]
  rfl

end

/-- A function that logs its uses gives what it gives without the log. -/
theorem run_logging {symbol : List (Option V) → Effect E σ (Option V)}
    {arguments : List (Option V)} {answer : Except E (Option V)} {s s' : σ}
    (h : (symbol arguments).run.run s = (answer, s')) (name : Text)
    (log : List (AnsweredUse E V)) :
    (logging name symbol arguments).run.run (s, log) =
      (answer, s', log ++ [⟨⟨name, arguments⟩, answer⟩]) := by
  have hrun : symbol arguments s = (answer, s') := h
  show ((symbol arguments s).1, (symbol arguments s).2,
    log ++ [⟨⟨name, arguments⟩, (symbol arguments s).1⟩]) = _
  rw [hrun]

/-! ## Evaluating a key -/

namespace Node

section

variable {ι α : Type} [Datum V] [Wording α] {table : SymbolTable (Effect E σ) V}
  {name content : Text} {params rest : List (Node ι α)} {key : Node ι α} {offset stop : ι}
  {s s' s'' : σ}

/-- If a parameter fails, so does a call. -/
theorem evaluate_call_error {e : E} (h : (evaluateAll table params).run.run s = (.error e, s')) :
    (evaluate table (.call name params offset stop content)).run.run s = (.error e, s') := by
  rw [evaluate]
  exact run_bind_error h

/-- A call that the table does not know has no value. -/
theorem evaluate_call_missing {values : List (Option V)}
    (h : (evaluateAll table params).run.run s = (.ok values, s')) (hname : table name = none) :
    (evaluate table (.call name params offset stop content)).run.run s = (.ok none, s') := by
  rw [evaluate, run_bind_ok h, hname]
  rfl

/-- A call that the table knows comes to what its function gives, unless that is void. -/
theorem evaluate_call_known {values : List (Option V)} {answer : Except E (Option V)}
    {symbol : List (Option V) → Effect E σ (Option V)}
    (h : (evaluateAll table params).run.run s = (.ok values, s')) (hname : table name = some symbol)
    (hanswer : (symbol values).run.run s' = (answer, s'')) :
    (evaluate table (.call name params offset stop content)).run.run s =
      (answer.map settle, s'') := by
  rw [evaluate, run_bind_ok h, hname]
  simp only [map_eq_pure_bind]
  cases answer with
  | error e => exact run_bind_error hanswer
  | ok value => exact run_bind_ok hanswer

/-- If a key fails, those behind it are not evaluated. -/
theorem evaluateAll_cons_error {e : E} (h : (evaluate table key).run.run s = (.error e, s')) :
    (evaluateAll table (key :: rest)).run.run s = (.error e, s') := by
  rw [evaluateAll]
  exact run_bind_error h

/-- The values of keys are those of the first one and of those behind it. -/
theorem evaluateAll_cons_ok {value : Option V} {result : Except E (List (Option V))}
    (h : (evaluate table key).run.run s = (.ok value, s'))
    (hrest : (evaluateAll table rest).run.run s' = (result, s'')) :
    (evaluateAll table (key :: rest)).run.run s = (result.map (value :: ·), s'') := by
  rw [evaluateAll, run_bind_ok h]
  cases result with
  | error e => exact run_bind_error hrest
  | ok values => exact run_bind_ok hrest

end

end Node

/-! ## Rules -/

/-- What holds of trees, of the uses of a table on the way to their values, and of what they come
to, if every rule of evaluation preserves it. -/
structure RuleInvariant {ι α : Type} [Datum V] [Wording α] (table : SymbolTable (Effect E σ) V)
    (P : List (Node ι α) → List (AnsweredUse E V) → Except E (List (Option V)) → Prop) :
    Prop where
  nil : P [] [] (.ok [])
  /-- A word is a text. -/
  word : ∀ {content offset stop rest log result}, P rest log result →
    P (.word content offset stop :: rest) log (result.map (some (Datum.ofText content) :: ·))
  /-- What is no syntax may be a text. -/
  strange : ∀ {value rest log result}, P rest log result →
    P (.strange value :: rest) log (result.map ((Wording.text? value).map Datum.ofText :: ·))
  /-- A call that is not known has no value. -/
  missing : ∀ {name params offset stop content rest log later values result},
    P params log (.ok values) → table name = none → P rest later result →
    P (.call name params offset stop content :: rest) (log ++ later) (result.map (none :: ·))
  /-- A call has the value that its function gives, unless that is void. -/
  answered : ∀ {name params offset stop content rest log later values answer result},
    P params log (.ok values) → table name ≠ none → P rest later result →
    P (.call name params offset stop content :: rest)
      (log ++ ⟨⟨name, values⟩, .ok answer⟩ :: later) (result.map (settle answer :: ·))
  /-- Where a function fails, evaluation ends. -/
  failed : ∀ {name params offset stop content rest log values e},
    P params log (.ok values) → table name ≠ none →
    P (.call name params offset stop content :: rest) (log ++ [⟨⟨name, values⟩, .error e⟩])
      (.error e)
  /-- A function may fail for a parameter. -/
  inner : ∀ {name params offset stop content rest log e}, P params log (.error e) →
    P (.call name params offset stop content :: rest) log (.error e)

/-- Trees are evaluated by the rules, so what the rules preserve holds in the end. With a log the
table gives the same and ends in the same state, and the log gets the uses of the table. -/
theorem RuleInvariant.evaluateAll {ι α : Type} [Datum V] [Wording α]
    {table : SymbolTable (Effect E σ) V}
    {P : List (Node ι α) → List (AnsweredUse E V) → Except E (List (Option V)) → Prop}
    (h : RuleInvariant table P) (nodes : List (Node ι α)) (s : σ)
    (before : List (AnsweredUse E V)) :
    ∃ log result s', (Node.evaluateAll table nodes).run.run s = (result, s') ∧
      (Node.evaluateAll table.logged nodes).run.run (s, before) = (result, s', before ++ log) ∧
      P nodes log result := by
  -- By recursion along the evaluator: the parameters of a call first, then the trees behind it.
  match nodes with
  | [] => exact ⟨[], _, s, rfl, by rw [List.append_nil]; rfl, h.nil⟩
  | .word content offset stop :: rest =>
    obtain ⟨log, result, s', hrun, hlogged, hrest⟩ := h.evaluateAll rest s before
    exact ⟨log, _, s', Node.evaluateAll_cons_ok rfl hrun, Node.evaluateAll_cons_ok rfl hlogged,
      h.word hrest⟩
  | .strange value :: rest =>
    obtain ⟨log, result, s', hrun, hlogged, hrest⟩ := h.evaluateAll rest s before
    exact ⟨log, _, s', Node.evaluateAll_cons_ok rfl hrun, Node.evaluateAll_cons_ok rfl hlogged,
      h.strange hrest⟩
  | .call name params offset stop content :: rest =>
    obtain ⟨log, result, s', hrun, hlogged, hparams⟩ := h.evaluateAll params s before
    cases result with
    | error e =>
      exact ⟨log, _, s', Node.evaluateAll_cons_error (Node.evaluate_call_error hrun),
        Node.evaluateAll_cons_error (Node.evaluate_call_error hlogged), h.inner hparams⟩
    | ok values =>
      -- The parameters have values, so the function is asked, if there is one.
      cases hname : table name with
      | none =>
        have hname' : table.logged name = none := by rw [SymbolTable.logged, hname]; rfl
        obtain ⟨later, result, s'', hrun', hlogged', hrest⟩ := h.evaluateAll rest s' (before ++ log)
        refine ⟨log ++ later, _, s'',
          Node.evaluateAll_cons_ok (Node.evaluate_call_missing hrun hname) hrun', ?_,
          h.missing hparams hname hrest⟩
        rw [← List.append_assoc]
        exact Node.evaluateAll_cons_ok (Node.evaluate_call_missing hlogged hname') hlogged'
      | some symbol =>
        have hname' : table.logged name = some (logging name symbol) := by
          rw [SymbolTable.logged, hname]
          rfl
        have hknown : table name ≠ none := by simp [hname]
        obtain ⟨answer, s'', hanswer⟩ : ∃ answer s'', (symbol values).run.run s' = (answer, s'') :=
          ⟨_, _, rfl⟩
        have hlog := run_logging hanswer name (before ++ log)
        cases answer with
        | error e =>
          refine ⟨_, _, s'',
            Node.evaluateAll_cons_error (Node.evaluate_call_known hrun hname hanswer), ?_,
            h.failed hparams hknown⟩
          rw [← List.append_assoc]
          exact Node.evaluateAll_cons_error (Node.evaluate_call_known hlogged hname' hlog)
        | ok answer =>
          obtain ⟨later, result, t, hrun', hlogged', hrest⟩ :=
            h.evaluateAll rest s'' (before ++ log ++ [⟨⟨name, values⟩, .ok answer⟩])
          refine ⟨_, _, t,
            Node.evaluateAll_cons_ok (Node.evaluate_call_known hrun hname hanswer) hrun', ?_,
            h.answered hparams hknown hrest⟩
          have hsplit : before ++ (log ++ ⟨⟨name, values⟩, .ok answer⟩ :: later) =
              before ++ log ++ [⟨⟨name, values⟩, .ok answer⟩] ++ later := by simp
          rw [hsplit]
          exact Node.evaluateAll_cons_ok (Node.evaluate_call_known hlogged hname' hlog) hlogged'

/-- How keys come to their values, from left to right, and the uses of the table on the way. The
parameters of a call come to theirs before its function is used. -/
inductive ComeTo [Datum V] (table : SymbolTable (Effect E σ) V) :
    List Key → List (AnsweredUse E V) → Except E (List (Option V)) → Prop where
  | nil : ComeTo table [] [] (.ok [])
  /-- A word is a text. -/
  | word {content : Text} {offset stop : Nat} {rest : List Key} {log : List (AnsweredUse E V)}
      {result : Except E (List (Option V))} :
      ComeTo table rest log result →
      ComeTo table (.word content offset stop :: rest) log
        (result.map (some (Datum.ofText content) :: ·))
  /-- A call that is not known has no value. -/
  | missing {name content : Text} {params rest : List Key} {offset stop : Nat}
      {log later : List (AnsweredUse E V)} {values : List (Option V)}
      {result : Except E (List (Option V))} :
      ComeTo table params log (.ok values) → table name = none → ComeTo table rest later result →
      ComeTo table (.call name params offset stop content :: rest) (log ++ later)
        (result.map (none :: ·))
  /-- A call has the value that its function gives, unless that is void. -/
  | answered {name content : Text} {params rest : List Key} {offset stop : Nat}
      {log later : List (AnsweredUse E V)} {values : List (Option V)} {answer : Option V}
      {result : Except E (List (Option V))} :
      ComeTo table params log (.ok values) → table name ≠ none → ComeTo table rest later result →
      ComeTo table (.call name params offset stop content :: rest)
        (log ++ ⟨⟨name, values⟩, .ok answer⟩ :: later) (result.map (settle answer :: ·))
  /-- Where a function fails, evaluation ends. -/
  | failed {name content : Text} {params rest : List Key} {offset stop : Nat}
      {log : List (AnsweredUse E V)} {values : List (Option V)} {e : E} :
      ComeTo table params log (.ok values) → table name ≠ none →
      ComeTo table (.call name params offset stop content :: rest)
        (log ++ [⟨⟨name, values⟩, .error e⟩]) (.error e)
  /-- A function may fail for a parameter. -/
  | inner {name content : Text} {params rest : List Key} {offset stop : Nat}
      {log : List (AnsweredUse E V)} {e : E} :
      ComeTo table params log (.error e) →
      ComeTo table (.call name params offset stop content :: rest) log (.error e)

/-- Keys are evaluated as the rules say. With a log the table gives the same and ends in the same
state, and the log gets the uses of the table. -/
theorem evaluateAll_logged [Datum V] (table : SymbolTable (Effect E σ) V) (keys : List Key) (s : σ)
    (before : List (AnsweredUse E V)) :
    ∃ log result s', (Node.evaluateAll table keys).run.run s = (result, s') ∧
      (Node.evaluateAll table.logged keys).run.run (s, before) = (result, s', before ++ log) ∧
      ComeTo table keys log result := by
  have hrules : RuleInvariant table (ComeTo table) :=
    { nil := .nil
      word := .word
      strange := @fun value => value.elim
      missing := .missing
      answered := .answered
      failed := .failed
      inner := .inner }
  exact hrules.evaluateAll keys s before

/-! ## Accounts -/

/-- The first part of an outcome that another value has been put in front of. -/
private theorem exists_of_map_cons {value : Option V} {result : Except E (List (Option V))}
    {values : List (Option V)} (h : result.map (value :: ·) = .ok values) :
    ∃ later, result = .ok later ∧ values = value :: later := by
  cases result with
  | error e => cases h
  | ok later => exact ⟨later, rfl, (Except.ok.inj h).symm⟩

variable [Datum V]

/-- A value that may be handed on: none, or a datum that says something. -/
def Sound (value : Option V) : Prop :=
  ∀ datum ∈ value, Datum.isVoid datum = false

/-- What the uses on the way to the value of a key say of the value. -/
structure Accounts (table : SymbolTable (Effect E σ) V) (own : List (AnsweredUse E V)) (key : Key)
    (value : Option V) : Prop where
  /-- These are the uses on the way to the value. -/
  comes : ComeTo table [key] own (.ok [value])
  /-- The value may be handed on. -/
  sound : Sound value
  /-- There is none exactly for a call that is not known, or for which the function, which is used
  last, gave nothing or a void datum. -/
  eq_none_iff : value = none ↔ ∃ name params offset stop content,
    key = .call name params offset stop content ∧
      (table name = none ∨ ∃ arguments answer,
        own.getLast? = some ⟨⟨name, arguments⟩, .ok answer⟩ ∧
          ∀ datum ∈ answer, Datum.isVoid datum = true)

/-- The values of keys, one for each of them and in order, that uses in a log account for. -/
def Accounted (table : SymbolTable (Effect E σ) V) (log : List (AnsweredUse E V)) :
    List Key → List (Option V) → Prop :=
  List.Forall₂ fun key value => ∃ own, own <:+: log ∧ Accounts table own key value

/-- A use of the table for a call among some keys, with the values of the parameters. -/
def Belongs (table : SymbolTable (Effect E σ) V) (log : List (AnsweredUse E V)) (keys : List Key)
    (use : AnsweredUse E V) : Prop :=
  ∃ params offset stop content, .call use.name params offset stop content ∈ Node.nodesAll keys ∧
    Accounted table log params use.arguments

section

variable {table : SymbolTable (Effect E σ) V} {log later : List (AnsweredUse E V)}
  {keys : List Key} {values : List (Option V)}

/-- A longer log accounts for as much. -/
theorem Accounted.mono (h : Accounted table log keys values) (hlog : log <:+: later) :
    Accounted table later keys values :=
  List.Forall₂.imp (fun _ _ ⟨own, hown, haccounts⟩ => ⟨own, hown.trans hlog, haccounts⟩) h

/-- A use belongs to keys among more of them, with a longer log. -/
theorem Belongs.mono {use : AnsweredUse E V} {more : List Key} (h : Belongs table log keys use)
    (hlog : log <:+: later) (hkeys : ∀ node ∈ Node.nodesAll keys, node ∈ Node.nodesAll more) :
    Belongs table later more use := by
  obtain ⟨params, offset, stop, content, hmem, harguments⟩ := h
  exact ⟨params, offset, stop, content, hkeys _ hmem, harguments.mono hlog⟩

/-- Values that are accounted for may be handed on. -/
theorem Accounted.sound (h : Accounted table log keys values) : ∀ value ∈ values, Sound value := by
  induction h with
  | nil => exact fun _ hvalue => nomatch hvalue
  | cons hhead _ ih =>
    obtain ⟨own, -, haccounts⟩ := hhead
    exact List.forall_mem_cons.mpr ⟨haccounts.sound, ih⟩

/-- What a use that belongs to some keys is given may be handed on. -/
theorem Belongs.sound {use : AnsweredUse E V} (h : Belongs table log keys use) :
    ∀ argument ∈ use.arguments, Sound argument := by
  obtain ⟨params, offset, stop, content, -, harguments⟩ := h
  exact harguments.sound

end

/-- No word among the keys is void. -/
def WordsSound (V : Type) [Datum V] (keys : List Key) : Prop :=
  ∀ content offset stop, .word content offset stop ∈ Node.nodesAll keys →
    Datum.isVoid (Datum.ofText content : V) = false

/-- The nodes of the parameters of a call are below it. -/
theorem mem_nodesAll_params {name content : Text} {params rest : List Key} {offset stop : Nat} :
    ∀ node ∈ Node.nodesAll params,
      node ∈ Node.nodesAll (.call name params offset stop content :: rest) := fun node hnode => by
  simp [Node.nodesAll, Node.nodes, hnode]

/-- The nodes of the keys behind the first one are among those of all keys. -/
theorem mem_nodesAll_rest {key : Key} {rest : List Key} : ∀ node ∈ Node.nodesAll rest,
    node ∈ Node.nodesAll (key :: rest) := fun node hnode => by
  simp [Node.nodesAll, hnode]

/-- No word among the parameters of a call is void. -/
theorem WordsSound.params {name content : Text} {params rest : List Key} {offset stop : Nat}
    (h : WordsSound V (.call name params offset stop content :: rest)) : WordsSound V params :=
  fun c o s hmem => h c o s (mem_nodesAll_params _ hmem)

/-- No word among the keys behind the first one is void. -/
theorem WordsSound.rest {key : Key} {rest : List Key} (h : WordsSound V (key :: rest)) :
    WordsSound V rest :=
  fun c o s hmem => h c o s (mem_nodesAll_rest _ hmem)

/-- What is settled may be handed on. -/
theorem sound_settle (answer : Option V) : Sound (settle answer) := by
  intro datum hdatum
  simpa using (Option.mem_filter_iff.mp hdatum).2

/-- Nothing is left of an answer exactly if it is none or void. -/
theorem settle_eq_none_iff (answer : Option V) :
    settle answer = none ↔ ∀ datum ∈ answer, Datum.isVoid datum = true := by
  cases answer <;> simp [settle]

section

variable {table : SymbolTable (Effect E σ) V}

/-- A word is accounted for without any use. -/
theorem accounts_word {content : Text} (offset stop : Nat)
    (h : Datum.isVoid (Datum.ofText content : V) = false) :
    Accounts table [] (.word content offset stop) (some (Datum.ofText content)) where
  comes := .word .nil
  sound datum hdatum := by
    obtain rfl := Option.some.inj hdatum
    exact h
  eq_none_iff := by simp

/-- A call that is not known is accounted for by the uses for its parameters. -/
theorem accounts_missing {name content : Text} {params : List Key} {offset stop : Nat}
    {log : List (AnsweredUse E V)} {values : List (Option V)}
    (hparams : ComeTo table params log (.ok values)) (hname : table name = none) :
    Accounts table log (.call name params offset stop content) none where
  comes := by
    have hcomes : ComeTo table [.call name params offset stop content] (log ++ []) (.ok [none]) :=
      ComeTo.missing hparams hname .nil
    rwa [List.append_nil] at hcomes
  sound datum hdatum := nomatch hdatum
  eq_none_iff := by
    simp only [true_iff]
    exact ⟨_, _, _, _, _, rfl, .inl hname⟩

/-- A call that is known is accounted for by the uses for its parameters and that of its
function. -/
theorem accounts_answered {name content : Text} {params : List Key} {offset stop : Nat}
    {log : List (AnsweredUse E V)} {values : List (Option V)} {answer : Option V}
    (hparams : ComeTo table params log (.ok values)) (hname : table name ≠ none) :
    Accounts table (log ++ [⟨⟨name, values⟩, .ok answer⟩]) (.call name params offset stop content)
      (settle answer) where
  comes := ComeTo.answered hparams hname .nil
  sound := sound_settle answer
  eq_none_iff := by
    rw [settle_eq_none_iff]
    constructor
    · intro hvoid
      exact ⟨_, _, _, _, _, rfl, .inr ⟨_, _, List.getLast?_concat .., hvoid⟩⟩
    · intro hparts
      obtain ⟨name', params', offset', stop', content', hkey, hreason⟩ := hparts
      obtain ⟨rfl, -⟩ := Node.call.inj hkey
      rcases hreason with hmissing | ⟨arguments, answer', hlast, hvoid⟩
      · exact absurd hmissing hname
      · -- The last use is that of the function of the call itself.
        rw [List.getLast?_concat] at hlast
        obtain ⟨-, hanswer⟩ := AnsweredUse.mk.inj (Option.some.inj hlast)
        rwa [Except.ok.inj hanswer]

/-- By the rules, every value is accounted for. -/
theorem ComeTo.accounted {keys : List Key} {log : List (AnsweredUse E V)}
    {result : Except E (List (Option V))} (h : ComeTo table keys log result)
    (hwords : WordsSound V keys) {values : List (Option V)} (hvalues : result = .ok values) :
    Accounted table log keys values := by
  -- The uses for the first key come first in the log, and those for the others behind them.
  induction h generalizing values with
  | nil =>
    obtain rfl := Except.ok.inj hvalues
    exact .nil
  | @word content offset stop rest log result _ ih =>
    obtain ⟨later, hlater, rfl⟩ := exists_of_map_cons hvalues
    have hword := hwords content offset stop (by simp [Node.nodesAll, Node.nodes])
    exact .cons ⟨[], List.nil_infix, accounts_word offset stop hword⟩ (ih hwords.rest hlater)
  | missing hparams hname _ _ ih =>
    obtain ⟨later, hlater, rfl⟩ := exists_of_map_cons hvalues
    exact .cons ⟨_, (List.prefix_append ..).isInfix, accounts_missing hparams hname⟩
      ((ih hwords.rest hlater).mono (List.suffix_append ..).isInfix)
  | @answered name content params rest offset stop log later values answer result hparams hname _ _
      ih =>
    obtain ⟨values', hlater, rfl⟩ := exists_of_map_cons hvalues
    have hsplit : log ++ ⟨⟨name, values⟩, .ok answer⟩ :: later =
        (log ++ [⟨⟨name, values⟩, .ok answer⟩]) ++ later := by simp
    rw [hsplit]
    exact .cons ⟨_, (List.prefix_append ..).isInfix, accounts_answered hparams hname⟩
      ((ih hwords.rest hlater).mono (List.suffix_append ..).isInfix)
  | failed _ _ _ => cases hvalues
  | inner _ _ => cases hvalues

/-- By the rules, every use of the table is for a call, with the values of its parameters. -/
theorem ComeTo.belongs {keys : List Key} {log : List (AnsweredUse E V)}
    {result : Except E (List (Option V))} (h : ComeTo table keys log result)
    (hwords : WordsSound V keys) : ∀ use ∈ log, Belongs table log keys use := by
  -- The induction is on the run. Its log only grows, so what belongs to a part of it still does.
  induction h with
  | nil => exact fun use huse => nomatch huse
  | word _ ih =>
    exact fun use huse => (ih hwords.rest use huse).mono List.infix_rfl mem_nodesAll_rest
  | @missing name content params rest offset stop log later values result _ _ _ ihp ihr =>
    rw [List.forall_mem_append]
    exact ⟨fun use huse => (ihp hwords.params use huse).mono (List.prefix_append ..).isInfix
        mem_nodesAll_params,
      fun use huse => (ihr hwords.rest use huse).mono (List.suffix_append ..).isInfix
        mem_nodesAll_rest⟩
  | @answered name content params rest offset stop log later values answer result hparams _ _ ihp
      ihr =>
    have hfirst : log <:+: log ++ ⟨⟨name, values⟩, .ok answer⟩ :: later :=
      (List.prefix_append ..).isInfix
    have hlater : later <:+: log ++ ⟨⟨name, values⟩, .ok answer⟩ :: later :=
      ((List.suffix_cons ..).trans (List.suffix_append ..)).isInfix
    -- Those of the parameters, the one of the call itself, and those of the other keys.
    rw [List.forall_mem_append, List.forall_mem_cons]
    exact ⟨fun use huse => (ihp hwords.params use huse).mono hfirst mem_nodesAll_params,
      ⟨params, offset, stop, content, by simp [Node.nodesAll, Node.nodes],
        (hparams.accounted hwords.params rfl).mono hfirst⟩,
      fun use huse => (ihr hwords.rest use huse).mono hlater mem_nodesAll_rest⟩
  | @failed name content params rest offset stop log values e hparams _ ihp =>
    have hfirst : log <:+: log ++ [⟨⟨name, values⟩, .error e⟩] := (List.prefix_append ..).isInfix
    rw [List.forall_mem_append, List.forall_mem_singleton]
    exact ⟨fun use huse => (ihp hwords.params use huse).mono hfirst mem_nodesAll_params,
      params, offset, stop, content, by simp [Node.nodesAll, Node.nodes],
      (hparams.accounted hwords.params rfl).mono hfirst⟩
  | inner _ ih =>
    exact fun use huse => (ih hwords.params use huse).mono List.infix_rfl mem_nodesAll_params

/-- By the rules, evaluation fails only with what a function fails with. -/
theorem ComeTo.exists_of_error {keys : List Key} {log : List (AnsweredUse E V)}
    {result : Except E (List (Option V))} (h : ComeTo table keys log result) {e : E}
    (he : result = .error e) : ∃ use ∈ log, use.answer = .error e := by
  -- Putting a value in front of the others turns no error into a result.
  have hmap {value : Option V} {result : Except E (List (Option V))}
      (h : result.map (value :: ·) = .error e) : result = .error e := by
    cases result with
    | error e' => exact congrArg _ (Except.error.inj h)
    | ok values => cases h
  induction h with
  | nil => cases he
  | word _ ih => exact ih (hmap he)
  | missing _ _ _ _ ih =>
    obtain ⟨use, huse, hanswer⟩ := ih (hmap he)
    exact ⟨use, List.mem_append_right _ huse, hanswer⟩
  | answered _ _ _ _ ih =>
    obtain ⟨use, huse, hanswer⟩ := ih (hmap he)
    exact ⟨use, List.mem_append_right _ (List.mem_cons_of_mem _ huse), hanswer⟩
  | failed _ _ _ =>
    obtain rfl := Except.error.inj he
    exact ⟨_, List.mem_append_right _ List.mem_cons_self, rfl⟩
  | inner _ ih => exact ih (congrArg _ (Except.error.inj he))

end

/-! ## Layers of a text -/

section

variable [Machine]

/-- The words of a text that parses are not empty, so none of them is void. -/
theorem wordsSound_of_parse {text opener : Text} {keyCount : Option Int} {outline : Outline}
    (h : parse text keyCount opener = .ok outline)
    (htext : ∀ chars : Text, chars ≠ [] → Datum.isVoid (Datum.ofText chars : V) = false) :
    ∀ layer ∈ outline.layers, WordsSound V layer := by
  obtain ⟨source, size, hfits, -, rfl, rfl⟩ := (parse_eq_ok_iff ..).mp h
  intro layer hlayer content offset stop hword
  obtain ⟨first, passage, later, hpassages, rfl⟩ := Source.exists_passage hlayer
  have hpassage := hfits.passages passage (by rw [hpassages]; simp)
  have hplaced := Passage.placed hpassage
    (Text.holds_append (passagesText opener first) (passage.text opener) [])
  exact htext content (hplaced.nodes _ hword).shaped.ne_nil

/-- Evaluating a layer of a text that parses, with any table: whatever its functions give, fail with
or remember, they are given nothing void, and no key comes to anything void. Each use of the table
is for a call, and there is one value for each key and each parameter, in order, which is none
exactly where a call is not known or its function gave nothing. -/
theorem evaluateAll_of_parse {text opener : Text} {keyCount : Option Int} {outline : Outline}
    (htext : ∀ chars : Text, chars ≠ [] → Datum.isVoid (Datum.ofText chars : V) = false)
    (hparse : parse text keyCount opener = .ok outline) {layer : List Key}
    (hlayer : layer ∈ outline.layers) (table : SymbolTable (Effect E σ) V) (s : σ) :
    ∃ log result s', (Node.evaluateAll table layer).run.run s = (result, s') ∧
      (Node.evaluateAll table.logged layer).run.run (s, []) = (result, s', log) ∧
      ComeTo table layer log result ∧
      (∀ values, result = .ok values →
        Accounted table log layer values ∧ ∀ value ∈ values, Sound value) ∧
      (∀ use ∈ log, Belongs table log layer use ∧ ∀ argument ∈ use.arguments, Sound argument) ∧
      ∀ e, result = .error e → ∃ use ∈ log, use.answer = .error e := by
  have hwords := wordsSound_of_parse hparse htext layer hlayer
  obtain ⟨log, result, s', hrun, hlogged, hcomes⟩ := evaluateAll_logged table layer s []
  refine ⟨log, result, s', hrun, hlogged, hcomes, fun values hvalues => ?_, fun use huse => ?_,
    fun e he => hcomes.exists_of_error he⟩
  · have haccounted := hcomes.accounted hwords hvalues
    exact ⟨haccounted, haccounted.sound⟩
  · have hbelongs := hcomes.belongs hwords use huse
    exact ⟨hbelongs, hbelongs.sound⟩

end

open Usual

/-- A function that counts its uses is given the value of a word, none for a call that is not known,
and none for a call whose function gives an empty text. -/
theorem evaluateAll_of_nested_calls :
    let table : SymbolTable (Effect Text Nat) Value := fun name =>
      if name = ['f'] then some fun _ => do modify (· + 1); return some (.text ['F'])
      else if name = ['v'] then some fun _ => return some (.text [])
      else none
    let layer : List Key := [.call ['f'] [.word ['A'] 4 5, .call ['g'] [.word ['1'] 9 10] 7 11
      "g(1)".toList, .call ['v'] [.word ['2'] 15 16] 13 17 "v(2)".toList] 2 18
      "f(A, g(1), v(2))".toList, .word ['B'] 20 21]
    parse "K(f(A, g(1), v(2)), B)".toList none "K".toList = .ok ⟨[layer], 22⟩ ∧
      ∃ log, (Node.evaluateAll table.logged layer).run.run (0, []) =
          (.ok [some (.text ['F']), some (.text ['B'])], 1, log) ∧
        log = [⟨⟨['v'], [some (.text ['2'])]⟩, .ok (some (.text []))⟩,
          ⟨⟨['f'], [some (.text ['A']), none, none]⟩, .ok (some (.text ['F']))⟩] ∧
        ∀ use ∈ log, ∀ argument ∈ use.arguments, Sound argument := by
  intro table layer
  have hparse : parse "K(f(A, g(1), v(2)), B)".toList none "K".toList = .ok ⟨[layer], 22⟩ := by
    decide +kernel
  have htext : ∀ chars : Text, chars ≠ [] →
      Datum.isVoid (Datum.ofText chars : Value) = false := fun chars hne => by
    cases chars with
    | nil => exact absurd rfl hne
    | cons _ _ => rfl
  obtain ⟨log, result, s', -, hlogged, -, -, huses, -⟩ :=
    evaluateAll_of_parse htext hparse (List.mem_singleton_self layer) table 0
  have hrun : (Node.evaluateAll table.logged layer).run.run (0, []) =
      (.ok [some (.text ['F']), some (.text ['B'])], 1,
        [⟨⟨['v'], [some (.text ['2'])]⟩, .ok (some (.text []))⟩,
          ⟨⟨['f'], [some (.text ['A']), none, none]⟩, .ok (some (.text ['F']))⟩]) := rfl
  rw [hrun] at hlogged
  obtain ⟨-, hrest⟩ := Prod.mk.inj hlogged
  obtain ⟨-, rfl⟩ := Prod.mk.inj hrest
  exact ⟨hparse, _, hrun, rfl, fun use huse => (huses use huse).2⟩

end Keymap
