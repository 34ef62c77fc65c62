import Keymap.Proofs.Evaluation

/-!
# The order of calls

What a table is asked while trees are evaluated can be told from the trees and from the answers.
The known calls are used in post-order, from left to right, each once, up to the first one that
fails. Every use is given one argument for each parameter: the text of a word, nothing for a call
that is not known, and for another call what was answered when that very call was used. Answers are
therefore numbered here like the known calls, and a call among the parameters is found by its
number.

## Key results

- `SymbolTable.known_call` — the known calls among parameters come right before the call
- `inOrder_invariant` — every rule of evaluation keeps the order
- `evaluateAll_in_order` — the uses of a table are those of the known calls, in order
-/

namespace Keymap

variable {E σ V ι α : Type}

/-! ## Calls of trees -/

/-- A call in a tree: its name and its parameters. -/
structure CallSite (ι α : Type) where
  name : Text
  params : List (Node ι α)

namespace Node

mutual

/-- The calls of a tree, from left to right, each behind those among its parameters. -/
def calls : Node ι α → List (CallSite ι α)
  | .word .. => []
  | .call name params _ _ _ => callsAll params ++ [⟨name, params⟩]
  | .strange _ => []

/-- The calls of several trees, tree by tree. -/
def callsAll : List (Node ι α) → List (CallSite ι α)
  | [] => []
  | node :: rest => calls node ++ callsAll rest

end

end Node

namespace SymbolTable

/-- The calls of trees that a table knows, in the order of all calls. -/
def known {m : Type → Type} (table : SymbolTable m V) (nodes : List (Node ι α)) :
    List (CallSite ι α) :=
  (Node.callsAll nodes).filter fun call => (table call.name).isSome

section

variable {m : Type → Type} (table : SymbolTable m V)

/-- The known calls of trees are those of the first one and those behind it. -/
theorem known_cons (node : Node ι α) (rest : List (Node ι α)) :
    table.known (node :: rest) = table.known [node] ++ table.known rest := by
  simp [known, Node.callsAll]

/-- The known calls among the parameters of a call come right before the call, if it is known. -/
theorem known_call (name content : Text) (params : List (Node ι α)) (offset stop : ι) :
    table.known [.call name params offset stop content] =
      table.known params ++ if (table name).isSome then [⟨name, params⟩] else [] := by
  simp only [known, Node.callsAll, Node.calls, List.append_nil, List.filter_append,
    List.filter_singleton, cond_eq_ite]

end

/-! ## Values by number -/

section

variable [Datum V] [Wording α] {m : Type → Type} (table : SymbolTable m V)
  (answer : Nat → Option V)

/-- The value of a tree, if its known calls have the numbers from `n` on. A call comes behind those
among its parameters, and has its answer as its value unless that is void. -/
def valueBy (n : Nat) : Node ι α → Option V
  | .word content _ _ => some (Datum.ofText content)
  | .call name params _ _ _ =>
    if (table name).isSome then settle (answer (n + (table.known params).length)) else none
  | .strange value => (Wording.text? value).map Datum.ofText

/-- The values of several trees, if their known calls have the numbers from `n` on. -/
def valuesBy (n : Nat) : List (Node ι α) → List (Option V)
  | [] => []
  | node :: rest =>
    table.valueBy answer n node :: valuesBy (n + (table.known [node]).length) rest

end

end SymbolTable

/-! ## Answers by number -/

section

variable {answer : Nat → Option V} {n : Nat} {log later : List (AnsweredUse E V)}

/-- The answers in a log, which have the numbers from `n` on. -/
def Answers (answer : Nat → Option V) (n : Nat) (log : List (AnsweredUse E V)) : Prop :=
  ∀ i use value, log[i]? = some use → use.answer = .ok value → answer (n + i) = value

theorem Answers.left (h : Answers answer n (log ++ later)) : Answers answer n log := by
  intro i use value huse
  obtain ⟨hlt, -⟩ := List.getElem?_eq_some_iff.mp huse
  exact h i use value (by rwa [List.getElem?_append_left hlt])

theorem Answers.right (h : Answers answer n (log ++ later)) :
    Answers answer (n + log.length) later := by
  intro i use value huse hanswer
  rw [Nat.add_assoc]
  refine h _ use value ?_ hanswer
  rwa [List.getElem?_append_right (Nat.le_add_right ..), Nat.add_sub_cancel_left]

/-- What the function gave in a use, by the number of the use. -/
def answerAt (log : List (AnsweredUse E V)) (i : Nat) : Option V :=
  log[i]?.bind fun use => use.answer.toOption.join

theorem answers_answerAt (log : List (AnsweredUse E V)) : Answers (answerAt log) 0 log := by
  intro i use value huse hanswer
  rw [Nat.zero_add, answerAt, huse, Option.bind_some, hanswer]
  rfl

end

/-! ## Uses in order -/

section

variable [Datum V] [Wording α]

/-- The uses in a log are for the given calls in their order, which have the numbers from `n` on.
Each is given the values of its parameters, whose known calls have the numbers right before. -/
def UsedFor (table : SymbolTable (Effect E σ) V) (answer : Nat → Option V) (n : Nat)
    (calls : List (CallSite ι α)) (log : List (AnsweredUse E V)) : Prop :=
  ∀ i use, log[i]? = some use → ∃ call first, calls[i]? = some call ∧ use.name = call.name ∧
    first + (table.known call.params).length = n + i ∧
    use.arguments = table.valuesBy answer first call.params

/-- All uses in a log have got an answer. -/
def AllAnswered (log : List (AnsweredUse E V)) : Prop :=
  ∀ use ∈ log, ∃ value, use.answer = .ok value

/-- Evaluation uses the known calls of trees in order, up to the first one that fails, if any. -/
structure InOrder (table : SymbolTable (Effect E σ) V) (answer : Nat → Option V) (n : Nat)
    (nodes : List (Node ι α)) (log : List (AnsweredUse E V))
    (result : Except E (List (Option V))) : Prop where
  /-- The uses are for the known calls, one by one. -/
  uses : UsedFor table answer n (table.known nodes) log
  /-- All known calls are used and answered, and the trees have their values; or the last use
  fails, which is what comes out. -/
  outcome : (result = .ok (table.valuesBy answer n nodes) ∧
      log.length = (table.known nodes).length ∧ AllAnswered log) ∨
    ∃ e earlier last, result = .error e ∧ log = earlier ++ [last] ∧ last.answer = .error e ∧
      AllAnswered earlier

variable {table : SymbolTable (Effect E σ) V} {answer : Nat → Option V} {n : Nat}
  {log later : List (AnsweredUse E V)} {calls more : List (CallSite ι α)}

/-- Calls that come later are not used before. -/
theorem UsedFor.mono (h : UsedFor table answer n calls log) (more : List (CallSite ι α)) :
    UsedFor table answer n (calls ++ more) log := by
  intro i use huse
  obtain ⟨call, first, hcall, hrest⟩ := h i use huse
  obtain ⟨hlt, -⟩ := List.getElem?_eq_some_iff.mp hcall
  exact ⟨call, first, by rwa [List.getElem?_append_left hlt], hrest⟩

/-- When all calls have been used, the later ones are used for the later calls. -/
theorem UsedFor.append (h : UsedFor table answer n calls log) (hlength : log.length = calls.length)
    (hlater : UsedFor table answer (n + log.length) more later) :
    UsedFor table answer n (calls ++ more) (log ++ later) := by
  intro i use huse
  by_cases hlt : i < log.length
  · rw [List.getElem?_append_left hlt] at huse
    exact h.mono more i use huse
  · have hle : log.length ≤ i := Nat.le_of_not_lt hlt
    rw [List.getElem?_append_right hle] at huse
    obtain ⟨call, first, hcall, hname, hnumber, harguments⟩ := hlater _ use huse
    refine ⟨call, first, ?_, hname, by omega, harguments⟩
    rwa [List.getElem?_append_right (hlength ▸ hle), ← hlength]

/-- A call is used behind those among its parameters, with the values of the parameters. -/
theorem UsedFor.concat {params : List (Node ι α)}
    (h : UsedFor table answer n (table.known params) log)
    (hlength : log.length = (table.known params).length) (name : Text)
    (given : Except E (Option V)) :
    UsedFor table answer n (table.known params ++ [⟨name, params⟩])
      (log ++ [⟨⟨name, table.valuesBy answer n params⟩, given⟩]) := by
  refine h.append hlength fun i use huse => ?_
  obtain ⟨hlt, rfl⟩ := List.getElem?_eq_some_iff.mp huse
  obtain rfl : i = 0 := Nat.lt_one_iff.mp hlt
  exact ⟨⟨name, params⟩, n, rfl, rfl, by rw [hlength, Nat.add_zero], rfl⟩

/-! ## Rules and the order -/

variable {node : Node ι α} {rest : List (Node ι α)} {result : Except E (List (Option V))}

/-- Behind a tree whose known calls have all been used and answered, the order goes on. -/
theorem InOrder.cons (huses : UsedFor table answer n (table.known [node]) log)
    (hlength : log.length = (table.known [node]).length) (hall : AllAnswered log)
    (hrest : InOrder table answer (n + log.length) rest later result) :
    InOrder table answer n (node :: rest) (log ++ later)
      (result.map (table.valueBy answer n node :: ·)) := by
  obtain ⟨hlater, houtcome⟩ := hrest
  refine ⟨?_, ?_⟩
  · rw [table.known_cons]
    exact huses.append hlength hlater
  · rcases houtcome with ⟨rfl, hcount, hanswered⟩ | ⟨e, earlier, last, rfl, rfl, hlast, hearlier⟩
    · refine .inl ⟨?_, ?_, List.forall_mem_append.mpr ⟨hall, hanswered⟩⟩
      · show Except.ok _ = Except.ok _
        rw [SymbolTable.valuesBy, hlength]
      · rw [table.known_cons, List.length_append, List.length_append, hlength, hcount]
    · refine .inr ⟨e, log ++ earlier, last, rfl, (List.append_assoc ..).symm, hlast, ?_⟩
      exact List.forall_mem_append.mpr ⟨hall, hearlier⟩

/-- Where a use fails, the calls behind it are not used. -/
theorem InOrder.fail {earlier : List (AnsweredUse E V)} {last : AnsweredUse E V} {e : E}
    (huses : UsedFor table answer n (table.known [node]) (earlier ++ [last]))
    (hlast : last.answer = .error e) (hall : AllAnswered earlier) (rest : List (Node ι α)) :
    InOrder table answer n (node :: rest) (earlier ++ [last]) (.error e) := by
  refine ⟨?_, .inr ⟨e, earlier, last, rfl, rfl, hlast, hall⟩⟩
  rw [table.known_cons]
  exact huses.mono _

/-- Trees that come to values have had all their known calls used and answered. -/
theorem InOrder.of_ok {nodes : List (Node ι α)} {values : List (Option V)}
    (h : InOrder table answer n nodes log (.ok values)) :
    values = table.valuesBy answer n nodes ∧ log.length = (table.known nodes).length ∧
      AllAnswered log := by
  rcases h.outcome with ⟨hvalues, hlength, hall⟩ | ⟨_, _, _, herror, -⟩
  · exact ⟨Except.ok.inj hvalues, hlength, hall⟩
  · cases herror

/-- Every rule of evaluation keeps the order, if the answers have the numbers of their uses. -/
theorem inOrder_invariant (table : SymbolTable (Effect E σ) V) :
    RuleInvariant table fun (nodes : List (Node ι α)) log result =>
      ∀ answer n, Answers answer n log → InOrder table answer n nodes log result := by
  refine { nil := ?nil, word := ?word, strange := ?strange, missing := ?missing,
           answered := ?answered, failed := ?failed, inner := ?inner }
  case nil =>
    intro answer n _
    exact ⟨nofun, .inl ⟨rfl, rfl, nofun⟩⟩
  case word | strange =>
    intros
    rename_i ih answer n hanswers
    -- The tree holds no calls, so nothing is used for it.
    show InOrder table answer n _ ([] ++ _) _
    exact InOrder.cons nofun rfl nofun (ih answer n hanswers)
  case missing =>
    intro name params offset stop content rest log later values result ihp hname ihr answer n
      hanswers
    have hparams := ihp answer n hanswers.left
    obtain ⟨-, hlength, hall⟩ := hparams.of_ok
    have huses := hparams.uses
    have hknown : table.known [.call name params offset stop content] = table.known params := by
      rw [table.known_call, hname]
      exact List.append_nil _
    have hvalue : table.valueBy answer n (.call name params offset stop content) = none := by
      rw [SymbolTable.valueBy, hname]
      rfl
    rw [← hvalue]
    rw [← hknown] at huses hlength
    exact InOrder.cons huses hlength hall (ihr answer _ hanswers.right)
  case answered =>
    intro name params offset stop content rest log later values given result ihp hname ihr answer n
      hanswers
    have hparams := ihp answer n hanswers.left
    obtain ⟨rfl, hlength, hall⟩ := hparams.of_ok
    have hsome : (table name).isSome = true := Option.isSome_iff_ne_none.mpr hname
    have hknown : table.known [.call name params offset stop content] =
        table.known params ++ [⟨name, params⟩] := by
      rw [table.known_call, if_pos hsome]
    -- The call has the number of its use, so its value is what the function gave.
    have hgiven : answer (n + (table.known params).length) = given := by
      rw [← hlength]
      exact hanswers.right 0 _ given rfl rfl
    have hvalue : table.valueBy answer n (.call name params offset stop content) =
        settle given := by
      rw [SymbolTable.valueBy, if_pos hsome, hgiven]
    rw [← hvalue, List.append_cons]
    rw [List.append_cons] at hanswers
    have huses := hparams.uses.concat hlength name (.ok given)
    rw [← hknown] at huses
    refine InOrder.cons huses ?_ ?_ (ihr answer _ hanswers.right)
    · rw [hknown, List.length_append, List.length_append, hlength]
      rfl
    · exact List.forall_mem_append.mpr ⟨hall, List.forall_mem_singleton.mpr ⟨given, rfl⟩⟩
  case failed =>
    intro name params offset stop content rest log values e ihp hname answer n hanswers
    have hparams := ihp answer n hanswers.left
    obtain ⟨rfl, hlength, hall⟩ := hparams.of_ok
    have hsome : (table name).isSome = true := Option.isSome_iff_ne_none.mpr hname
    have huses := hparams.uses.concat hlength name (.error e)
    refine InOrder.fail ?_ rfl hall rest
    rwa [table.known_call, if_pos hsome]
  case inner =>
    intro name params offset stop content rest log e ihp answer n hanswers
    -- The call is cut off with its parameters, though it may be known.
    obtain ⟨huses, ⟨hvalues, -⟩ | ⟨e', earlier, last, herror, rfl, hlast, hall⟩⟩ :=
      ihp answer n hanswers
    · cases hvalues
    · obtain rfl := Except.error.inj herror
      refine InOrder.fail ?_ hlast hall rest
      rw [table.known_call]
      exact huses.mono _

end

/-! ## Tables that agree -/

section

variable {m : Type → Type} [Monad m] [Datum V] [Wording α] {table table' : SymbolTable m V}

mutual

/-- A tree is evaluated in the same way by tables that agree on its calls. -/
theorem Node.evaluate_congr (node : Node ι α)
    (h : ∀ call ∈ node.calls, table' call.name = table call.name) :
    evaluate table' node = evaluate table node := by
  match node with
  | .word .. | .strange _ => rfl
  | .call name params offset stop content =>
    rw [calls, List.forall_mem_append, List.forall_mem_singleton] at h
    rw [evaluate, evaluate, Node.evaluateAll_congr params h.1, h.2]

/-- Trees are evaluated in the same way by tables that agree on their calls. -/
theorem Node.evaluateAll_congr (nodes : List (Node ι α))
    (h : ∀ call ∈ Node.callsAll nodes, table' call.name = table call.name) :
    evaluateAll table' nodes = evaluateAll table nodes := by
  match nodes with
  | [] => rfl
  | node :: rest =>
    rw [callsAll, List.forall_mem_append] at h
    rw [evaluateAll, evaluateAll, Node.evaluate_congr node h.1, Node.evaluateAll_congr rest h.2]

end

end

/-! ## Evaluation in order -/

variable [Datum V] [Wording α]

/-- Evaluating trees, with any table, whatever its functions give, fail with or remember: the uses
of the table are for the known calls in post-order, each once, up to the first one that fails, and
are given the values of their parameters. A table that agrees on the calls of the trees is used in
the same way, and the same comes out. -/
theorem evaluateAll_in_order (table : SymbolTable (Effect E σ) V) (layer : List (Node ι α))
    (s : σ) :
    ∃ log result s', (Node.evaluateAll table layer).run.run s = (result, s') ∧
      (Node.evaluateAll table.logged layer).run.run (s, []) = (result, s', log) ∧
      InOrder table (answerAt log) 0 layer log result ∧
      ∀ table' : SymbolTable (Effect E σ) V,
        (∀ call ∈ Node.callsAll layer, table' call.name = table call.name) →
        (Node.evaluateAll table' layer).run.run s = (result, s') ∧
          (Node.evaluateAll table'.logged layer).run.run (s, []) = (result, s', log) := by
  obtain ⟨log, result, s', hrun, hlogged, hkeeps⟩ :=
    (inOrder_invariant table).evaluateAll layer s []
  refine ⟨log, result, s', hrun, hlogged, hkeeps _ _ (answers_answerAt log), ?_⟩
  intro table' hagree
  have hagree' : ∀ call ∈ Node.callsAll layer,
      table'.logged call.name = table.logged call.name := by
    intro call hcall
    rw [SymbolTable.logged, SymbolTable.logged, hagree call hcall]
  rw [Node.evaluateAll_congr layer hagree, Node.evaluateAll_congr layer hagree']
  exact ⟨hrun, hlogged⟩

/-- Below a call that is not known, a call is used with the value of one of its parameters, and
fails: neither the calls around it nor the key behind it are used. Another table may know a name
that does not occur. -/
theorem evaluateAll_in_order_cut_short :
    let table : SymbolTable (Effect Text Nat) Value := fun name =>
      if name = ['f'] then some fun _ => do modify (· + 1); return some (.text ['F'])
      else if name = ['v'] then some fun _ => throw "no".toList
      else none
    let table' : SymbolTable (Effect Text Nat) Value := fun name =>
      if name = ['z'] then some fun _ => return none else table name
    let layer : List Sketch := [.call ['f'] [.call ['g'] [.call ['v']
      [.word ['A'] 6 7, .call ['f'] [] 9 12 "f()".toList] 4 13 "v(A, f())".toList] 2 14
      "g(v(A, f()))".toList] 0 15 "f(g(v(A, f())))".toList, .call ['f'] [] 17 20 "f()".toList]
    let log : List (AnsweredUse Text Value) := [⟨⟨['f'], []⟩, .ok (some (.text ['F']))⟩,
      ⟨⟨['v'], [some (.text ['A']), some (.text ['F'])]⟩, .error "no".toList⟩]
    InOrder table (answerAt log) 0 layer log (.error "no".toList) ∧
      (Node.evaluateAll table'.logged layer).run.run (0, []) = (.error "no".toList, 1, log) := by
  intro table table' layer log
  -- The tables differ only in a name that no call has.
  have hagree : ∀ call ∈ Node.callsAll layer, table' call.name = table call.name := by
    have hnames : (Node.callsAll layer).map (·.name) = [['f'], ['v'], ['g'], ['f'], ['f']] := rfl
    intro call hcall
    have hmem : call.name ∈ (Node.callsAll layer).map (·.name) := List.mem_map_of_mem hcall
    rw [hnames] at hmem
    refine if_neg fun hname => ?_
    rw [hname] at hmem
    exact absurd hmem (by decide)
  obtain ⟨log', result, s', -, hlogged, horder, hsame⟩ := evaluateAll_in_order table layer 0
  have hrun : (Node.evaluateAll table.logged layer).run.run (0, []) =
      (.error "no".toList, 1, log) := rfl
  rw [hrun] at hlogged
  obtain ⟨rfl, hrest⟩ := Prod.mk.inj hlogged
  obtain ⟨rfl, rfl⟩ := Prod.mk.inj hrest
  exact ⟨horder, (hsame table' hagree).2⟩

end Keymap
