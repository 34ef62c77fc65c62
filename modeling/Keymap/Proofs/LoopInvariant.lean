import Keymap.Proofs.Layout
import Keymap.Proofs.Scan.Descent

/-!
# The invariant of the argument loop

What holds whenever the loop that reads a list of arguments is at its head, in every list that
comes to be read, and where the list is left. The count of open parentheses and their stack are
those with which the list began, although calls in between have changed both; the arguments are
counted by the commas; and the latest parenthesis on the stack is the one that the list stands
behind, with nothing left open since. So the count tells whether a list was left at its closing
parenthesis or with the text, and no element of an empty list is ever asked for.

## Key results

- `Descent.Invariant.next`, `Descent.Invariant.comma`, `Descent.Invariant.call` — what one turn of
  the loop preserves
- `Descent.Reads.comes` — what a whole list comes to
- `Descent.loop_invariant` — all of this for every list that is read
-/

namespace Keymap

/-- Text that goes on with balanced text is balanced with it. -/
def Balances (a : Text) : Prop :=
  ∀ rest, Balanced rest → Balanced (a ++ rest)

/-- A comment or a continued line. -/
theorem Skipped.balances {piece : Text} (h : Skipped piece) : Balances piece :=
  fun _ hrest => h.trivia.balanced_append hrest

namespace Descent

/-! ## Heads of the loop -/

/-- The heads of the loop that a list comes to which begins at the cursor `entry`: the cursor, the
variables, and the offsets of the commas that have separated arguments, the latest first. -/
inductive LoopHead [Machine] (text : Text) (level : Nat) (entry : Cursor) :
    Cursor → Locals → List Nat → Prop where
  | entry : LoopHead text level entry entry (.begin entry.pos) []
  | next {p : Cursor} {l l' : Locals} {commas : List Nat} {c : Char} {rest : Text} {stop : Nat} :
      LoopHead text level entry p l commas → text.drop p.pos = c :: rest →
      turn text p.pos l c rest = .ok (.next stop l') →
      LoopHead text level entry { p with pos := stop } l' commas
  | comma {p : Cursor} {l l' : Locals} {commas : List Nat} {c : Char} {rest : Text} :
      LoopHead text level entry p l commas → text.drop p.pos = c :: rest →
      turn text p.pos l c rest = .ok (.comma l') →
      LoopHead text level entry { p with pos := p.pos + 1 } l' (p.pos :: commas)
  | call {p q q' : Cursor} {l l' : Locals} {commas : List Nat} {c : Char} {rest : Text}
      {head : Head} {params : List Key} :
      LoopHead text level entry p l commas → text.drop p.pos = c :: rest →
      turn text p.pos l c rest = .ok (.enter head) → level < nestingLimit →
      read text (level + 1) p.enter (.begin p.enter.pos) = .ok (params, q) →
      resume text p.enter.depth p.pos l head params q = .ok (q', l') →
      LoopHead text level entry q' l' commas

/-- The cursors at which a list begins that comes to be read, with the number of calls around it:
the list of a layer that is found from whatever cursor there was, or that of a call in such a
list. -/
inductive Entered [Machine] (opener text : Text) : Nat → Cursor → Prop where
  | layer {p : Cursor} {start : Nat} {body : Text} :
      seek (marker opener) p.pos (text.drop p.pos) = some (start, body) →
      Entered opener text 0 (p.atLayer (start + opener.length))
  | call {level : Nat} {entry p : Cursor} {l : Locals} {commas : List Nat} {c : Char}
      {rest : Text} {head : Head} : Entered opener text level entry →
      LoopHead text level entry p l commas → text.drop p.pos = c :: rest →
      turn text p.pos l c rest = .ok (.enter head) → level < nestingLimit →
      Entered opener text (level + 1) p.enter

/-! ## What holds at a head -/

/-- The arguments are as many as the commas, and one more if there is one since the last comma,
which then stands behind it. -/
structure Counted (commas : List Nat) (l : Locals) : Prop where
  length : l.args.length = commas.length + if l.filled then 1 else 0
  behind : l.filled = true → ∀ last ∈ l.args.head?, ∀ comma ∈ commas, comma < last.offset

/-- From one place to another nothing is left open: the text between them is balanced, up to a
comment at its end that does not end. -/
def NothingOpen (text : Text) (start stop : Nat) : Prop :=
  ∃ mid, start ≤ mid ∧ mid ≤ stop ∧ Balanced (text.slice start mid) ∧
    (mid = stop ∨ Unended (text.slice mid stop))

/-- What holds at a head of the loop, in a list that began at the cursor `entry`. -/
structure AtHead (text : Text) (entry p : Cursor) (l : Locals) (commas : List Nat) : Prop
    extends Counted commas l where
  /-- The count is the one with which the list began. -/
  depth : p.depth = entry.depth
  /-- The stack is the one with which the list began. -/
  opened : p.opened = entry.opened
  entry_le : entry.pos ≤ l.start
  start_le : l.start ≤ p.pos
  le_length : p.pos ≤ text.length
  /-- The commas that are counted stand in the list, before the pending text. -/
  commas : ∀ comma ∈ commas, text[comma]? = some ',' ∧ entry.pos ≤ comma ∧ comma < l.start
  /-- The pending text has no comma, no parenthesis and no pair in it. -/
  pending : (text.slice l.start p.pos).Plain
  /-- Since the parenthesis before the list every other one has been closed. -/
  innermost : NothingOpen text entry.pos p.pos

/-- What the loop preserves: what holds at its heads, and that what stands before the pending text
leaves nothing open, and the pending text makes no pair with what comes. -/
structure Invariant (text : Text) (entry p : Cursor) (l : Locals) (commas : List Nat) : Prop
    extends AtHead text entry p l commas where
  lead : text.drop p.pos ≠ [] → Balances (text.slice entry.pos l.start)
  meets : ∀ c ∈ (text.slice l.start p.pos).getLast?, ∀ d ∈ (text.drop p.pos).head?,
    isPair c d = false

/-- A list is left because the text has ended: its loop is at a head, and nothing is left. -/
def TextEnded [Machine] (text : Text) (level : Nat) (entry q : Cursor) : Prop :=
  q.pos = text.length ∧ ∃ l commas, LoopHead text level entry q l commas

/-- What a list comes to. Reading stops at a fault or for want of room, with a parenthesis open. Or
the list is left, with the stack that it began with: with the text, or behind its closing
parenthesis, which lowers the count and is the partner of the one before the list. -/
def Comes [Machine] (text : Text) (level : Nat) (entry : Cursor) : Outcome → Prop
  | .error (raised, q) => raised ≠ .emptyList ∧ q.opened ≠ []
  | .ok (_, q) =>
    q.opened = entry.opened ∧
      (q.depth = entry.depth ∧ TextEnded text level entry q ∨
        q.depth = entry.depth - 1 ∧ entry.pos < q.pos ∧ text[q.pos - 1]? = some ')' ∧
          Balanced (text.slice entry.pos (q.pos - 1)))

/-! ## Arguments and commas -/

section

variable {commas : List Nat} {l l' : Locals}

/-- Where the slot is filled there is an argument. -/
theorem Counted.args_ne_nil (h : Counted commas l) (hfilled : l.filled = true) : l.args ≠ [] := by
  have hlength := h.length
  rw [if_pos hfilled] at hlength
  exact List.ne_nil_of_length_pos (by omega)

/-- A key behind the last comma is counted. -/
theorem Counted.fill (h : Counted commas l) (hfilled : l.filled = false) {key : Key}
    (hkey : ∀ comma ∈ commas, comma < key.offset) (start : Nat) :
    Counted commas ⟨key :: l.args, start, true⟩ := by
  have hlength := h.length
  rw [hfilled] at hlength
  refine ⟨by simp [hlength], fun _ last hlast comma hcomma => ?_⟩
  obtain rfl := Option.some.inj hlast
  exact hkey comma hcomma

/-- A comma behind a filled slot is counted. -/
theorem Counted.comma (h : Counted commas l) (hfilled : l.filled = true) (comma start : Nat) :
    Counted (comma :: commas) { l with start, filled := false } := by
  have hlength := h.length
  rw [if_pos hfilled] at hlength
  exact ⟨by simpa using hlength, nofun⟩

end

/-! ## Turns of the loop -/

/-- A pair of parentheses with what is between them. -/
theorem slice_parentheses {text : Text} {start stop : Nat} (hopen : text[start]? = some '(')
    (hclose : text[stop - 1]? = some ')') (hlt : start + 1 < stop) :
    text.slice start stop = '(' :: (text.slice (start + 1) (stop - 1) ++ [')']) := by
  have hlast : text.slice (stop - 1) stop = [')'] := by
    rw [Text.slice_eq_cons hclose (by omega), Nat.sub_add_cancel (by omega),
      Text.slice_eq_nil text (Nat.le_refl _)]
  rw [Text.slice_eq_cons hopen (by omega), ← hlast,
    text.slice_append_slice (by omega) (by omega)]

section

variable {text : Text} {entry p : Cursor} {l l' : Locals} {commas : List Nat} {c : Char}
  {rest : Text}

/-- The loop has moved on since the list began. -/
theorem AtHead.entry_le_pos (h : AtHead text entry p l commas) : entry.pos ≤ p.pos :=
  Nat.le_trans h.entry_le h.start_le

/-- The commas stand before any later place. -/
theorem AtHead.commas_before (h : AtHead text entry p l commas) {stop : Nat} (hle : p.pos ≤ stop) :
    ∀ comma ∈ commas, text[comma]? = some ',' ∧ entry.pos ≤ comma ∧ comma < stop := by
  intro comma hcomma
  obtain ⟨hat, hfrom, hto⟩ := h.commas comma hcomma
  have hstart := h.start_le
  exact ⟨hat, hfrom, by omega⟩

/-- A key from the pending text is counted. -/
theorem AtHead.fill (h : AtHead text entry p l commas) (hfilled : l.filled = false) {key : Key}
    (hkey : l.start ≤ key.offset) (start : Nat) :
    Counted commas ⟨key :: l.args, start, true⟩ :=
  h.toCounted.fill hfilled
    (fun comma hcomma => Nat.lt_of_lt_of_le (h.commas comma hcomma).2.2 hkey) start

/-- And so is a token that is flushed. -/
theorem AtHead.flush (h : AtHead text entry p l commas) (hflushed : Flushed l l') (start : Nat) :
    Counted commas { l' with start } := by
  cases hflushed with
  | blank => exact ⟨h.length, h.behind⟩
  | word hfilled hkey => exact h.fill hfilled hkey start

/-- A place at which the next token may begin. -/
theorem Invariant.of_start {q : Cursor} (hcounted : Counted commas l)
    (hdepth : q.depth = entry.depth) (hopened : q.opened = entry.opened) (hle : entry.pos ≤ q.pos)
    (hlength : q.pos ≤ text.length)
    (hcommas : ∀ comma ∈ commas, text[comma]? = some ',' ∧ entry.pos ≤ comma ∧ comma < q.pos)
    (hstart : l.start = q.pos) (hinnermost : NothingOpen text entry.pos q.pos)
    (hlead : text.drop q.pos ≠ [] → Balances (text.slice entry.pos q.pos)) :
    Invariant text entry q l commas where
  toCounted := hcounted
  depth := hdepth
  opened := hopened
  entry_le := hstart ▸ hle
  start_le := Nat.le_of_eq hstart
  le_length := hlength
  commas := hstart ▸ hcommas
  pending := by
    rw [Text.slice_eq_nil text (Nat.le_of_eq hstart.symm)]
    exact Text.plain_nil
  innermost := hinnermost
  lead := hstart ▸ hlead
  meets := by
    rw [Text.slice_eq_nil text (Nat.le_of_eq hstart.symm)]
    exact fun _ hc => nomatch hc

/-- Such a place behind text that is balanced with what comes. -/
theorem Invariant.fresh {q : Cursor} (hcounted : Counted commas l) (hdepth : q.depth = entry.depth)
    (hopened : q.opened = entry.opened) (hle : entry.pos ≤ q.pos) (hlength : q.pos ≤ text.length)
    (hcommas : ∀ comma ∈ commas, text[comma]? = some ',' ∧ entry.pos ≤ comma ∧ comma < q.pos)
    (hstart : l.start = q.pos) (hbalances : Balances (text.slice entry.pos q.pos)) :
    Invariant text entry q l commas :=
  .of_start hcounted hdepth hopened hle hlength hcommas hstart
    ⟨q.pos, hle, Nat.le_refl _, by simpa using hbalances [] .nil, .inl rfl⟩ fun _ => hbalances

/-- At the first head nothing has been read. -/
theorem Invariant.begin (h : entry.pos ≤ text.length) :
    Invariant text entry entry (.begin entry.pos) [] :=
  .fresh ⟨rfl, nofun⟩ rfl rfl (Nat.le_refl _) h (fun _ hcomma => nomatch hcomma) rfl <| by
    rw [Text.slice_eq_nil text (Nat.le_refl _)]
    exact fun _ hrest => hrest

/-- What has been read of the list is balanced as long as the text goes on, and so is what balanced
text makes of it that makes no pair with the pending text. -/
theorem Invariant.balanced_append (h : Invariant text entry p l commas)
    (hdrop : text.drop p.pos = c :: rest) {more : Text}
    (hmeets : ∀ d ∈ (text.slice l.start p.pos).getLast?, ∀ e ∈ more.head?, isPair d e = false)
    (hmore : Balanced more) : Balanced (text.slice entry.pos p.pos ++ more) := by
  have hsplit := text.slice_append_slice h.entry_le h.start_le
  rw [← hsplit, List.append_assoc]
  exact h.lead (by simp [hdrop]) _ (.plain_append h.pending hmeets hmore)

/-- A character of a token leaves the list alone. -/
theorem Invariant.char (h : Invariant text entry p l commas) (hdrop : text.drop p.pos = c :: rest)
    (hrest : ∀ d ∈ rest.head?, isPair c d = false) (hc : isDelimiter c = false) :
    Invariant text entry { p with pos := p.pos + 1 } l commas := by
  have hslice := Text.slice_succ h.start_le hdrop
  have hlead : Balances (text.slice entry.pos l.start) := h.lead (by simp [hdrop])
  have hlast : ∀ d ∈ (text.slice l.start p.pos).getLast?, isPair d c = false :=
    fun d hd => h.meets d hd c (by rw [hdrop]; rfl)
  have hpending : (text.slice l.start (p.pos + 1)).Plain := by
    rw [hslice]
    exact h.pending.concat hc hlast
  have hle := Nat.le_succ_of_le h.start_le
  have hbalanced : Balanced (text.slice entry.pos (p.pos + 1)) := by
    rw [← text.slice_append_slice h.entry_le hle]
    exact hlead _ (.of_plain hpending)
  exact {
    h with
    start_le := hle
    le_length := lt_length_of_drop hdrop
    pending := hpending
    innermost := ⟨_, Nat.le_trans h.entry_le hle, Nat.le_refl _, hbalanced, .inl rfl⟩
    lead := fun _ => hlead
    meets := by
      rw [drop_succ hdrop, hslice]
      intro d hd e he
      obtain rfl : c = d := by simpa using hd
      exact hrest e he }

/-- What is read where the next token may begin. -/
theorem Invariant.balances_append (h : Invariant text entry p l commas)
    (hdrop : text.drop p.pos = c :: rest) {piece : Text} (hpiece : piece.head? = some c)
    (hbalances : Balances piece) : Balances (text.slice entry.pos p.pos ++ piece) := by
  intro more hmore
  rw [List.append_assoc]
  refine h.balanced_append hdrop (fun d hd e he => h.meets d hd e ?_) (hbalances more hmore)
  rw [List.head?_append, hpiece] at he
  rw [hdrop]
  exact he

/-- A pair ends a token, and what it begins is left alone. -/
theorem Invariant.pair {second : Char} {more : Text} (h : Invariant text entry p l commas)
    (hdrop : text.drop p.pos = c :: second :: more) (hpair : isPair c second = true)
    (hflush : flushWord text l p.pos = .ok l') :
    Invariant text entry { p with pos := behindPair text p.pos second }
      { l' with start := behindPair text p.pos second } commas := by
  obtain ⟨body, after, rfl, hbehind, hkind⟩ := behindPair_cases hdrop hpair
  have hcounted := h.flush (flushed_of_flushWord hflush) (p.pos + 2 + body.length)
  -- What is skipped is the pair and the body behind it.
  have hslice : text.slice p.pos (p.pos + 2 + body.length) = c :: second :: body := by
    have hholds : text.Holds p.pos (c :: second :: body) := ⟨after, hdrop.symm⟩
    have hlength : p.pos + (c :: second :: body).length = p.pos + 2 + body.length := by
      simp only [List.length_cons]
      omega
    rw [← hlength, hholds.slice]
  have hsum := congrArg List.length hdrop
  simp only [List.length_drop, List.length_cons, List.length_append] at hsum
  have hstop : p.pos + 2 + body.length ≤ text.length := by omega
  have hle : p.pos ≤ p.pos + 2 + body.length := by omega
  have hentry := Nat.le_trans h.entry_le_pos hle
  rw [hbehind]
  rcases hkind with hskipped | ⟨rfl, hunended⟩
  · -- A whole comment or continuation is balanced, and the next token begins behind it.
    refine .fresh hcounted h.depth h.opened hentry hstop (h.commas_before hle) rfl ?_
    rw [← text.slice_append_slice h.entry_le_pos hle, hslice]
    exact h.balances_append hdrop rfl hskipped.balances
  · -- The comment runs to the end of the text, and nothing comes.
    have hbefore : Balanced (text.slice entry.pos p.pos) := by
      simpa using h.balanced_append hdrop (by simp) .nil
    have hnil : text.drop (p.pos + 2 + body.length) = [] := by
      rw [List.drop_eq_nil_iff]
      rw [List.length_nil] at hsum
      omega
    exact .of_start hcounted h.depth h.opened hentry hstop (h.commas_before hle) rfl
      ⟨p.pos, h.entry_le_pos, hle, hbefore, .inr (hslice.symm ▸ hunended)⟩
      fun hne => absurd hnil hne

/-- A comma ends an argument. -/
theorem Invariant.comma (h : Invariant text entry p l commas)
    (hdrop : text.drop p.pos = ',' :: rest) (hend : endToken text l p.pos = .ok l') :
    Invariant text entry { p with pos := p.pos + 1 }
      { l' with start := p.pos + 1, filled := false } (p.pos :: commas) := by
  obtain ⟨hflushed, hfilled⟩ := flushed_of_endToken hend
  have hcounted := (h.flush hflushed l'.start).comma hfilled p.pos (p.pos + 1)
  have hcomma : text[p.pos]? = some ',' ∧ entry.pos ≤ p.pos ∧ p.pos < p.pos + 1 :=
    ⟨getElem?_of_drop hdrop, h.entry_le_pos, Nat.lt_succ_self _⟩
  refine .fresh hcounted h.depth h.opened (Nat.le_succ_of_le h.entry_le_pos)
    (lt_length_of_drop hdrop)
    (List.forall_mem_cons.mpr ⟨hcomma, h.commas_before (Nat.le_succ _)⟩) rfl ?_
  rw [Text.slice_succ h.entry_le_pos hdrop]
  exact h.balances_append hdrop rfl fun _ hmore => .cons (by decide) hmore

/-- A call whose list has been left at its parenthesis is an argument. -/
theorem Invariant.call [Machine] {level : Nat} {head : Head} {params : List Key} {q q' : Cursor}
    (h : Invariant text entry p l commas) (hdrop : text.drop p.pos = '(' :: rest)
    (hhead : callHead text l.start p.pos = .ok head)
    (hcomes : Comes text level p.enter (.ok (params, q)))
    (hresume : resume text p.enter.depth p.pos l head params q = .ok (q', l')) :
    Invariant text entry q' l' commas := by
  obtain ⟨rfl, hdepth, hfilled, rfl⟩ := resume_eq_ok hresume
  obtain ⟨hopened, ⟨hopen, -⟩ | ⟨-, hlt, hclose, hinner⟩⟩ := hcomes
  · -- With the text ended, the count has not been lowered.
    omega
  · have hlt : p.pos + 1 < q.pos := hlt
    have hstop : q.pos - 1 < text.length := (List.getElem?_eq_some_iff.mp hclose).1
    have hle : p.pos ≤ q.pos := by omega
    have hback : q.depth = entry.depth := by
      simp only [hdepth, Cursor.enter, ← h.depth]
      omega
    have htail : q.opened.tail = entry.opened := by
      rw [hopened, Cursor.enter, List.tail_cons, h.opened]
    let call : Key := .call head.name params head.offset q.pos (text.slice head.offset q.pos)
    have hcall : l.start ≤ call.offset := le_offset_of_callHead hhead
    refine .fresh (h.fill hfilled hcall q.pos) hback htail (Nat.le_trans h.entry_le_pos hle)
      (by simp only; omega) (h.commas_before hle) rfl ?_
    -- The call is a pair of parentheses with balanced text between them.
    have hslice := slice_parentheses (getElem?_of_drop hdrop) hclose hlt
    rw [← text.slice_append_slice h.entry_le_pos hle, hslice]
    refine h.balances_append hdrop rfl fun more hmore => ?_
    rw [List.cons_append, List.append_assoc]
    exact .nest hinner hmore

/-- Going on within a list keeps the invariant. -/
theorem Invariant.next {stop : Nat} (h : Invariant text entry p l commas)
    (hdrop : text.drop p.pos = c :: rest) (hturn : turn text p.pos l c rest = .ok (.next stop l')) :
    Invariant text entry { p with pos := stop } l' commas := by
  cases turns_of_turn hturn with
  | pair hrest hpair hflush => exact h.pair (hrest ▸ hdrop) hpair hflush
  | char hrest hc => exact h.char hdrop hrest hc

end

/-! ## Whole lists -/

section

variable [Machine]

section

variable {text : Text} {level : Nat} {entry p : Cursor} {l : Locals} {commas : List Nat}

/-- What is read turn by turn is what is read. -/
theorem Reads.eq_read {outcome : Outcome} (h : Reads text level p l outcome) :
    read text level p l = outcome := by
  induction h with
  | ended hdrop => exact read_nil hdrop
  | stopped hdrop hturn => simp only [read_cons hdrop, hturn]
  | next hdrop hturn _ ih => simp only [read_cons hdrop, hturn, ih]
  | comma hdrop hturn _ ih => simp only [read_cons hdrop, hturn, ih]
  | leave hdrop hturn => simp only [read_cons hdrop, hturn]
  | tooDeep hdrop hturn hlevel => simp only [read_cons hdrop, hturn, readCall, if_pos hlevel]
  | inner hdrop hturn hlevel _ ih =>
    simp only [read_cons hdrop, hturn, readCall, if_neg (Nat.not_le_of_lt hlevel), ih]
  | refused hdrop hturn hlevel _ hresume ih =>
    simp only [read_cons hdrop, hturn, readCall, if_neg (Nat.not_le_of_lt hlevel), ih, hresume]
  | call hdrop hturn hlevel _ hresume _ ihin ih =>
    simp only [read_cons hdrop, hturn, readCall, if_neg (Nat.not_le_of_lt hlevel), ihin, hresume,
      ih]

/-- What a whole list comes to. -/
theorem Reads.comes {outcome : Outcome} (h : Reads text level p l outcome)
    (hhead : LoopHead text level entry p l commas) (hinv : Invariant text entry p l commas)
    (hopen : entry.opened ≠ []) : Comes text level entry outcome := by
  -- The induction is on the run. A call is a loop of its own, whose invariant begins anew.
  induction h generalizing entry commas with
  | ended hdrop =>
    have hlength := List.drop_eq_nil_iff.mp hdrop
    exact ⟨hinv.opened, .inl ⟨hinv.depth, Nat.le_antisymm hinv.le_length hlength, _, _, hhead⟩⟩
  | stopped hdrop hturn =>
    exact ⟨turn_ne_emptyList hinv.args_ne_nil hturn, hinv.opened ▸ hopen⟩
  | next hdrop hturn _ ih => exact ih (.next hhead hdrop hturn) (hinv.next hdrop hturn) hopen
  | comma hdrop hturn _ ih =>
    cases turns_of_turn hturn with
    | comma hc hend =>
      exact ih (.comma hhead hdrop hturn) (hinv.comma (hc ▸ hdrop) hend) hopen
  | leave hdrop hturn =>
    cases turns_of_turn hturn with
    | leave hc hend =>
      have hbalanced := hinv.balanced_append hdrop (by simp) .nil
      rw [List.append_nil] at hbalanced
      have hle := Nat.le_trans hinv.entry_le hinv.start_le
      exact ⟨hinv.opened, .inr ⟨congrArg (· - 1) hinv.depth, Nat.lt_succ_of_le hle,
        hc ▸ getElem?_of_drop hdrop, hbalanced⟩⟩
  | tooDeep => exact ⟨nofun, List.cons_ne_nil _ _⟩
  | inner hdrop hturn hlevel _ ih =>
    exact ih .entry (.begin (lt_length_of_drop hdrop)) (List.cons_ne_nil _ _)
  | refused hdrop hturn hlevel hin hresume _ =>
    -- The stack is the one before the call, which still holds the parenthesis of this list.
    rcases resume_eq_error (hin.left _ _ rfl).opened hresume with ⟨-, rfl⟩ | ⟨-, hfilled, rfl⟩
    · exact ⟨nofun, hinv.opened ▸ hopen⟩
    · exact ⟨reject_ne_emptyList (hinv.args_ne_nil hfilled) _ _, hinv.opened ▸ hopen⟩
  | call hdrop hturn hlevel hin hresume _ ihin ih =>
    cases turns_of_turn hturn with
    | enter hc hname =>
      have hcomes := ihin .entry (.begin (lt_length_of_drop hdrop)) (List.cons_ne_nil _ _)
      exact ih (.call hhead hdrop hturn hlevel hin.eq_read hresume)
        (hinv.call (hc ▸ hdrop) hname hcomes hresume) hopen

/-- The invariant holds at every head. -/
theorem LoopHead.invariant (h : LoopHead text level entry p l commas)
    (hentry : entry.pos ≤ text.length) : Invariant text entry p l commas := by
  induction h with
  | entry => exact .begin hentry
  | next _ hdrop hturn ih => exact ih.next hdrop hturn
  | comma _ hdrop hturn ih =>
    cases turns_of_turn hturn with
    | comma hc hend => exact ih.comma (hc ▸ hdrop) hend
  | @call p _ _ _ _ _ _ _ _ _ _ hdrop hturn hlevel hread hresume ih =>
    cases turns_of_turn hturn with
    | enter hc hname =>
      have hreads := reads_read text (level + 1) p.enter (.begin p.enter.pos)
      rw [hread] at hreads
      have hcomes := hreads.comes .entry (.begin (lt_length_of_drop hdrop)) (List.cons_ne_nil _ _)
      exact ih.call (hc ▸ hdrop) hname hcomes hresume

end

/-! ## Lists that come to be read -/

/-- How a list begins: behind a parenthesis that is the latest on the stack, with all of the stack
counted, which holds one parenthesis for the layer and one for each call around. -/
structure AtEntry (text : Text) (level : Nat) (entry : Cursor) : Prop where
  opens : ∃ paren, entry.opened.head? = some paren ∧ entry.pos = paren + 1 ∧
    text[paren]? = some '('
  depth : entry.depth = entry.opened.length
  length : entry.opened.length = level + 1

omit [Machine] in
/-- A list begins within the text. -/
theorem AtEntry.le_length {text : Text} {level : Nat} {entry : Cursor}
    (h : AtEntry text level entry) : entry.pos ≤ text.length := by
  obtain ⟨paren, -, hpos, hparen⟩ := h.opens
  have hlt := (List.getElem?_eq_some_iff.mp hparen).1
  omega

/-- What is true of a list that is read: how it begins, what holds at each head of its loop, what
it comes to, and what the checks of the count find out where it has been left. -/
structure Kept (text : Text) (level : Nat) (entry : Cursor) : Prop where
  begins : AtEntry text level entry
  /-- What holds at each head. -/
  heads : ∀ p l commas, LoopHead text level entry p l commas → AtHead text entry p l commas
  /-- The latest parenthesis of the stack is the innermost one that is open. -/
  latest : ∀ p l commas, LoopHead text level entry p l commas → ∃ paren,
    p.opened.head? = some paren ∧ text[paren]? = some '(' ∧ NothingOpen text (paren + 1) p.pos
  comes : Comes text level entry (read text level entry (.begin entry.pos))
  /-- The check behind a call fails exactly if the text has ended. -/
  call_check : ∀ args q, read text level entry (.begin entry.pos) = .ok (args, q) →
    (q.depth ≠ entry.depth - 1 ↔ TextEnded text level entry q)
  /-- The check behind a layer fails exactly if the text has ended. -/
  layer_check : level = 0 → ∀ args q, read text level entry (.begin entry.pos) = .ok (args, q) →
    (q.depth ≠ 0 ↔ TextEnded text level entry q)

variable {opener text : Text} {level : Nat} {entry : Cursor}

/-- Every list that is read begins behind its parenthesis. -/
theorem Entered.atEntry (h : Entered opener text level entry) : AtEntry text level entry := by
  induction h with
  | @layer p start body hseek =>
    obtain ⟨gap, hdrop, rfl, -⟩ := (seek_eq_some_iff ..).mp hseek
    refine ⟨⟨_, rfl, rfl, ?_⟩, rfl, rfl⟩
    have hparen : text.drop (p.pos + gap.length + opener.length) = '(' :: body := by
      rw [Nat.add_assoc, ← List.drop_drop, hdrop, marker, ← List.length_append]
      simp
    exact getElem?_of_drop hparen
  | @call level entry p l commas c rest head _ hhead hdrop hturn _ ih =>
    have hinv := hhead.invariant ih.le_length
    cases turns_of_turn hturn with
    | enter hc _ =>
      refine ⟨⟨p.pos, rfl, rfl, hc ▸ getElem?_of_drop hdrop⟩, ?_, ?_⟩
      · simp only [Cursor.enter, List.length_cons, hinv.depth, hinv.opened, ih.depth]
        rfl
      · simp only [Cursor.enter, List.length_cons, hinv.opened, ih.length]

/-- Where a list has been left, the count says whether the text had ended. -/
theorem depth_ne_iff {args : List Key} {q : Cursor} (hentry : entry.pos ≤ text.length)
    (hcomes : Comes text level entry (.ok (args, q))) :
    q.depth ≠ entry.depth - 1 ↔ TextEnded text level entry q := by
  constructor
  · intro hdepth
    obtain ⟨-, ⟨-, hended⟩ | ⟨hclosed, -⟩⟩ := hcomes
    · exact hended
    · exact absurd hclosed hdepth
  · rintro ⟨-, l, commas, hhead⟩
    have hdepth := (hhead.invariant hentry).depth
    omega

/-- What is true of a list that comes to be read. -/
theorem Entered.kept (h : Entered opener text level entry) : Kept text level entry := by
  have hentry := h.atEntry
  have hbegin : Invariant text entry entry (.begin entry.pos) [] := .begin hentry.le_length
  have hopen : entry.opened ≠ [] := by
    have := hentry.length
    exact List.ne_nil_of_length_pos (by omega)
  have hcomes := (reads_read text level entry (.begin entry.pos)).comes .entry hbegin hopen
  have hcheck (args : List Key) (q : Cursor)
      (hread : read text level entry (.begin entry.pos) = .ok (args, q)) :
      q.depth ≠ entry.depth - 1 ↔ TextEnded text level entry q :=
    depth_ne_iff hentry.le_length (hread ▸ hcomes)
  exact {
    begins := hentry
    heads := fun p l commas hhead => (hhead.invariant hentry.le_length).toAtHead
    latest := fun p l commas hhead => by
      have hinv := hhead.invariant hentry.le_length
      obtain ⟨paren, htop, hpos, hparen⟩ := hentry.opens
      exact ⟨paren, hinv.opened ▸ htop, hparen, hpos ▸ hinv.innermost⟩
    comes := hcomes
    call_check := hcheck
    layer_check := fun hlevel args q hread => by
      -- A layer begins with a count of one.
      have hone : entry.depth - 1 = 0 := by
        rw [hentry.depth, hentry.length, hlevel]
        rfl
      rw [← hone]
      exact hcheck args q hread }

/-- The invariant of the argument loop. From any cursor on the layers of a text are read by descent,
and every list that comes to be read on the way keeps the count and the stack, whatever calls it
holds. -/
theorem loop_invariant (opener text : Text) :
    (∀ p, (layers opener text p).Sweeps (sweep opener p.pos (text.drop p.pos)) p.pos) ∧
      ∀ level entry, Entered opener text level entry → Kept text level entry :=
  ⟨layers_eq_sweep opener text, fun _ _ => Entered.kept⟩

end

open Usual

/-- The list of a call in the second slot of a layer, which is found with a count and a stack left
over from before. -/
theorem loop_invariant_of_nested_call :
    Entered "K".toList "K(A,f(B))".toList 1 ⟨6, 2, [5, 1]⟩ ∧
      Kept "K(A,f(B))".toList 1 ⟨6, 2, [5, 1]⟩ := by
  have hseek : seek (marker "K".toList) 0 "K(A,f(B))".toList = some (0, "A,f(B))".toList) := rfl
  have hlayer : Entered "K".toList "K(A,f(B))".toList 0 ⟨2, 1, [1]⟩ :=
    @Entered.layer _ _ _ ⟨0, 3, [7, 6, 4]⟩ _ _ hseek
  have hfirst : LoopHead "K(A,f(B))".toList 0 ⟨2, 1, [1]⟩ ⟨2, 1, [1]⟩ (.begin 2) [] := .entry
  have hkey := hfirst.next rfl rfl
  have hcomma := hkey.comma rfl rfl
  have hname := hcomma.next rfl rfl
  have hcall : Entered "K".toList "K(A,f(B))".toList 1 ⟨6, 2, [5, 1]⟩ :=
    .call hlayer hname rfl rfl (by decide)
  exact ⟨hcall, (loop_invariant "K".toList "K(A,f(B))".toList).2 1 _ hcall⟩

end Descent

end Keymap
