import Keymap.Layer.Descent
import Keymap.Proofs.Balanced

/-!
# Turn by turn

What reading by descent does, said turn by turn: what one turn of the loop can do to the variables
of a list, where it moves on to, and how the turns of a list and those of the calls in it make up a
whole reading.

## Key results

- `Descent.turns_of_turn`, `Descent.stops_of_turn` — what one turn of the loop can do
- `Descent.read_cons` — reading goes on with the next turn
- `Descent.reads_read` — so every reading goes turn by turn
- `Descent.Reads.left` — where a list of arguments is left
-/

namespace Keymap

namespace Descent

/-! ## One turn of the loop -/

/-- What a turn does, by what stands at the offset. -/
inductive Turns (text : Text) (pos : Nat) (l : Locals) (c : Char) (rest : Text) : Turn → Prop where
  | pair {second : Char} {more : Text} {l' : Locals} : rest = second :: more →
      isPair c second = true → flushWord text l pos = .ok l' →
      Turns text pos l c rest
        (.next (behindPair text pos second) { l' with start := behindPair text pos second })
  | char : (∀ d ∈ rest.head?, isPair c d = false) → isDelimiter c = false →
      Turns text pos l c rest (.next (pos + 1) l)
  | comma {l' : Locals} : c = ',' → endToken text l pos = .ok l' →
      Turns text pos l c rest (.comma { l' with start := pos + 1, filled := false })
  | enter {head : Head} : c = '(' → callHead text l.start pos = .ok head →
      Turns text pos l c rest (.enter head)
  | leave {l' : Locals} : c = ')' → endToken text l pos = .ok l' →
      Turns text pos l c rest (.leave l')

/-- Where a turn stops reading: at what is pending before a pair or a separator, or at the name
before an opening parenthesis. -/
inductive Stops (text : Text) (pos : Nat) (l : Locals) (c : Char) (rest : Text) :
    Raised × Nat → Prop where
  | pair {second : Char} {more : Text} {raised : Raised} : rest = second :: more →
      isPair c second = true → flushWord text l pos = .error raised →
      Stops text pos l c rest (raised, pos)
  | separator {raised : Raised} : c = ',' ∨ c = ')' → endToken text l pos = .error raised →
      Stops text pos l c rest (raised, pos + 1)
  | name {raised : Raised} : c = '(' → callHead text l.start pos = .error raised →
      Stops text pos l c rest (raised, pos + 1)

section

variable {text : Text} {pos : Nat} {l : Locals} {c : Char} {rest : Text}

/-- What one turn of the loop can do. -/
theorem turns_of_turn {t : Turn} (h : turn text pos l c rest = .ok t) :
    Turns text pos l c rest t := by
  -- One branch of `turn` after the other: a pair, the three delimiters, any other character.
  unfold turn at h
  split at h
  · rename_i second hsecond
    obtain ⟨hhead, hpair⟩ := Option.filter_eq_some_iff.mp hsecond
    obtain ⟨more, rfl⟩ := List.head?_eq_some_iff.mp hhead
    split at h
    · exact nomatch h
    · rename_i l' hflush
      obtain rfl := Except.ok.inj h
      exact .pair rfl hpair hflush
  · rename_i hnone
    split at h
    · split at h
      · exact nomatch h
      · rename_i l' hend
        obtain rfl := Except.ok.inj h
        exact .comma rfl hend
    · split at h
      · exact nomatch h
      · rename_i head hhead
        obtain rfl := Except.ok.inj h
        exact .enter rfl hhead
    · split at h
      · exact nomatch h
      · rename_i l' hend
        obtain rfl := Except.ok.inj h
        exact .leave rfl hend
    · rename_i hcomma hopen hclose
      obtain rfl := Except.ok.inj h
      refine .char (fun d hd => ?_) ?_
      · simpa using Option.filter_eq_none_iff.mp hnone d hd
      · simpa [isDelimiter] using ⟨⟨hcomma, hopen⟩, hclose⟩

/-- All ways in which a turn can stop reading. -/
theorem stops_of_turn {stopped : Raised × Nat} (h : turn text pos l c rest = .error stopped) :
    Stops text pos l c rest stopped := by
  unfold turn at h
  split at h
  · rename_i second hsecond
    obtain ⟨hhead, hpair⟩ := Option.filter_eq_some_iff.mp hsecond
    obtain ⟨more, rfl⟩ := List.head?_eq_some_iff.mp hhead
    split at h
    · rename_i raised hflush
      obtain rfl := Except.error.inj h
      exact .pair rfl hpair hflush
    · exact nomatch h
  · split at h
    · split at h
      · rename_i raised hend
        obtain rfl := Except.error.inj h
        exact .separator (.inl rfl) hend
      · exact nomatch h
    · split at h
      · rename_i raised hhead
        obtain rfl := Except.error.inj h
        exact .name rfl hhead
      · exact nomatch h
    · split at h
      · rename_i raised hend
        obtain rfl := Except.error.inj h
        exact .separator (.inr rfl) hend
      · exact nomatch h
    · exact nomatch h

end

/-! ## What becomes of the variables -/

/-- A token takes the open slot, behind the start. Without one nothing changes. -/
inductive Flushed (l : Locals) : Locals → Prop where
  | blank : Flushed l l
  | word {key : Key} : l.filled = false → l.start ≤ key.offset →
      Flushed l { l with args := key :: l.args, filled := true }

section

variable {text : Text} {stop : Nat} {l l' : Locals} {raised : Raised}

/-- What flushing does to the variables. -/
theorem flushed_of_flushWord (h : flushWord text l stop = .ok l') : Flushed l l' := by
  unfold flushWord at h
  split at h
  · obtain rfl := Except.ok.inj h
    exact .blank
  · simp only at h
    split at h
    · obtain rfl := Except.ok.inj h
      exact .blank
    · split at h
      · exact nomatch h
      · split at h
        · exact nomatch h
        · rename_i hfilled
          obtain rfl := Except.ok.inj h
          exact .word (by simpa using hfilled) (Nat.le_add_right _ _)

/-- What ending a token does to the variables. It leaves the slot filled. -/
theorem flushed_of_endToken (h : endToken text l stop = .ok l') :
    Flushed l l' ∧ l'.filled = true := by
  unfold endToken at h
  split at h
  · exact nomatch h
  · rename_i hflush
    split at h
    · rename_i hfilled
      obtain rfl := Except.ok.inj h
      exact ⟨flushed_of_flushWord hflush, hfilled⟩
    · exact nomatch h

/-- There is a last argument to be named where a token is refused. -/
theorem reject_ne_emptyList {args : List Key} (h : args ≠ []) (offset stop : Nat) :
    reject text args offset stop ≠ .emptyList := by
  obtain ⟨last, earlier, rfl⟩ := List.exists_cons_of_ne_nil h
  exact nofun

/-- Flushing does not ask for the first element of an empty list. -/
theorem flushWord_ne_emptyList (hargs : l.filled = true → l.args ≠ [])
    (h : flushWord text l stop = .error raised) : raised ≠ .emptyList := by
  unfold flushWord at h
  split at h
  · exact nomatch h
  · simp only at h
    split at h
    · exact nomatch h
    · split at h
      · obtain rfl := Except.error.inj h
        exact nofun
      · split at h
        · rename_i hfilled
          obtain rfl := Except.error.inj h
          exact reject_ne_emptyList (hargs hfilled) _ _
        · exact nomatch h

/-- Ending a token does not ask for the first element of an empty list. -/
theorem endToken_ne_emptyList (hargs : l.filled = true → l.args ≠ [])
    (h : endToken text l stop = .error raised) : raised ≠ .emptyList := by
  unfold endToken at h
  split at h
  · rename_i hflush
    obtain rfl := Except.error.inj h
    exact flushWord_ne_emptyList hargs hflush
  · split at h
    · exact nomatch h
    · obtain rfl := Except.error.inj h
      exact nofun

/-- The name of a call stands behind the start. -/
theorem le_offset_of_callHead {start paren : Nat} {head : Head}
    (h : callHead text start paren = .ok head) : start ≤ head.offset := by
  simp only [callHead] at h
  split at h
  · exact nomatch h
  · split at h
    · exact nomatch h
    · obtain rfl := Except.ok.inj h
      exact Nat.le_add_right _ _

/-- Reading the name of a call does not ask for the first element of an empty list. -/
theorem callHead_ne_emptyList {start paren : Nat} (h : callHead text start paren = .error raised) :
    raised ≠ .emptyList := by
  simp only [callHead] at h
  split at h
  · obtain rfl := Except.error.inj h
    exact nofun
  · split at h
    · obtain rfl := Except.error.inj h
      exact nofun
    · exact nomatch h

/-- No turn asks for the first element of an empty list. -/
theorem turn_ne_emptyList {pos pos' : Nat} {c : Char} {rest : Text}
    (hargs : l.filled = true → l.args ≠ [])
    (h : turn text pos l c rest = .error (raised, pos')) : raised ≠ .emptyList := by
  cases stops_of_turn h with
  | pair _ _ hflush => exact flushWord_ne_emptyList hargs hflush
  | separator _ hend => exact endToken_ne_emptyList hargs hend
  | name _ hhead => exact callHead_ne_emptyList hhead

end

/-! ## Comments and continued lines -/

/-- A comment that does not end. -/
inductive Unended : Text → Prop where
  | block {body : Text} : ¬ ['*', '/'] <:+: body → Unended ('/' :: '*' :: body)
  | line {body : Text} : '\n' ∉ body → Unended ('/' :: '/' :: body)

section

variable {text : Text} {pos : Nat}

/-- A mark ends behind its first place, or nowhere before the end of the text. -/
theorem behind_cases (mark : Text) (last : Char) (h : pos ≤ text.length) :
    (∃ gap after, text.drop pos = gap ++ (mark ++ [last]) ++ after ∧
      behind text (mark ++ [last]) pos = pos + (gap ++ (mark ++ [last])).length ∧
      ¬ mark ++ [last] <:+: gap ++ mark) ∨
    (¬ mark ++ [last] <:+: text.drop pos ∧
      behind text (mark ++ [last]) pos = pos + (text.drop pos).length) := by
  rw [behind]
  cases hseek : seek (mark ++ [last]) pos (text.drop pos) with
  | none =>
    refine .inr ⟨(seek_eq_none_iff (by simp) ..).mp hseek, ?_⟩
    simp only [List.length_drop]
    omega
  | some found =>
    obtain ⟨gap, hdrop, hplace, hgap⟩ := (seek_concat_eq_some_iff ..).mp hseek
    refine .inl ⟨gap, found.2, hdrop, ?_, hgap⟩
    simp only [hplace, List.length_append]
    omega

/-- Reading goes on behind what the pair begins: a comment or a continued line, or a comment that
does not end before the text does. -/
theorem behindPair_cases {c second : Char} {more : Text} (h : text.drop pos = c :: second :: more)
    (hpair : isPair c second = true) :
    ∃ body after, more = body ++ after ∧ behindPair text pos second = pos + 2 + body.length ∧
      (Skipped (c :: second :: body) ∨ after = [] ∧ Unended (c :: second :: body)) := by
  have hmore : text.drop (pos + 2) = more := by
    rw [← List.drop_drop, h]
    rfl
  have hle : pos + 2 ≤ text.length := by
    have hlength := congrArg List.length h
    simp only [List.length_drop, List.length_cons] at hlength
    omega
  simp only [isPair, Bool.or_eq_true, Bool.and_eq_true, beq_iff_eq] at hpair
  rcases hpair with ⟨rfl, rfl | rfl⟩ | ⟨rfl, rfl⟩
  · -- A block comment.
    rw [behindPair, if_pos rfl, ← hmore]
    rcases behind_cases ['*'] '/' hle with ⟨gap, after, hdrop, hbehind, hgap⟩ | ⟨hnone, hbehind⟩
    · exact ⟨gap ++ ['*', '/'], after, hdrop, hbehind, .inl (.inl (.block hgap))⟩
    · exact ⟨_, [], (List.append_nil _).symm, hbehind, .inr ⟨rfl, .block hnone⟩⟩
  · -- A line comment.
    rw [behindPair, if_neg (by decide), if_pos rfl, ← hmore]
    rcases behind_cases [] '\n' hle with ⟨gap, after, hdrop, hbehind, hgap⟩ | ⟨hnone, hbehind⟩
    · have hline : '\n' ∉ gap := fun hin =>
        hgap (by simpa using (List.singleton_infix_iff ..).mpr hin)
      exact ⟨gap ++ ['\n'], after, hdrop, hbehind, .inl (.inl (.line hline))⟩
    · have hline : '\n' ∉ text.drop (pos + 2) := fun hin =>
        hnone (by simpa using (List.singleton_infix_iff ..).mpr hin)
      exact ⟨_, [], (List.append_nil _).symm, hbehind, .inr ⟨rfl, .line hline⟩⟩
  · -- A continued line.
    rw [behindPair, if_neg (by decide), if_neg (by decide)]
    exact ⟨[], more, rfl, rfl, .inl (.inr rfl)⟩

end

section

variable {text : Text} {pos : Nat} {c : Char} {rest : Text}

/-- A turn stays within the text. -/
theorem stop_le_of_turn {l l' : Locals} {stop : Nat} (hdrop : text.drop pos = c :: rest)
    (h : turn text pos l c rest = .ok (.next stop l')) : stop ≤ text.length := by
  cases turns_of_turn h with
  | char _ _ => exact lt_length_of_drop hdrop
  | @pair second more _ hrest hpair _ =>
    obtain ⟨body, after, rfl, hstop, -⟩ := behindPair_cases (hrest ▸ hdrop) hpair
    have hsum := congrArg List.length (hdrop.trans (congrArg (c :: ·) hrest))
    simp only [List.length_drop, List.length_cons, List.length_append] at hsum
    omega

end

/-! ## Coming back from a call -/

/-- A call is refused if its parenthesis has not been closed, or else if the slot is filled. -/
theorem resume_eq_error {text : Text} {depth : Int} {paren top : Nat} {l : Locals} {head : Head}
    {params : List Key} {q : Cursor} {opened : List Nat} {stopped : Raised × Cursor}
    (hopened : q.opened = top :: opened)
    (h : resume text depth paren l head params q = .error stopped) :
    q.depth ≠ depth - 1 ∧ stopped = (.fault ⟨.unclosed, paren⟩, { q with opened }) ∨
      q.depth = depth - 1 ∧ l.filled = true ∧
        stopped = (reject text l.args head.offset q.pos, { q with opened }) := by
  unfold resume at h
  rw [hopened] at h
  simp only at h
  split at h
  · rename_i hopen
    exact .inl ⟨hopen, (Except.error.inj h).symm⟩
  · rename_i hclosed
    split at h
    · rename_i hfilled
      exact .inr ⟨by simpa using hclosed, hfilled, (Except.error.inj h).symm⟩
    · cases h

/-! ## Where a list is left -/

/-- A list that has been read from one cursor is left at another one: behind its closing
parenthesis, which lowers the count, or with the text. The stack is as it was. -/
structure Left (text : Text) (p q : Cursor) : Prop where
  opened : q.opened = p.opened
  le : p.pos ≤ q.pos
  le_length : p.pos ≤ text.length → q.pos ≤ text.length
  ends : q.depth = p.depth ∧ text.drop q.pos = [] ∨
    q.depth = p.depth - 1 ∧ p.pos < q.pos ∧ text[q.pos - 1]? = some ')'

/-- A list that is left from further on is left from before. -/
theorem Left.of_le {text : Text} {p p' q : Cursor} (h : Left text p' q) (hpos : p.pos ≤ p'.pos)
    (hlength : p'.pos ≤ text.length) (hdepth : p'.depth = p.depth)
    (hopened : p'.opened = p.opened) : Left text p q where
  opened := h.opened.trans hopened
  le := Nat.le_trans hpos h.le
  le_length _ := h.le_length hlength
  ends := by
    rw [← hdepth]
    refine h.ends.imp_right fun hclosed => ⟨hclosed.1, Nat.lt_of_le_of_lt hpos hclosed.2.1,
      hclosed.2.2⟩

/-- The character at the head of what is left of a text. -/
theorem getElem?_of_drop {text : Text} {pos : Nat} {c : Char} {rest : Text}
    (h : text.drop pos = c :: rest) : text[pos]? = some c := by
  rw [← List.head?_drop, h, List.head?_cons]

/-! ## Lists of arguments -/

variable [Machine]

/-- What reading comes to where a call begins: its list is read first, and then the rest. -/
def readCall (text : Text) (level : Nat) (p : Cursor) (l : Locals) (head : Head) : Outcome :=
  if nestingLimit ≤ level then .error (.tooDeep, p.enter)
  else
    match read text (level + 1) p.enter (.begin p.enter.pos) with
    | .error stopped => .error stopped
    | .ok (params, q) =>
      match resume text p.enter.depth p.pos l head params q with
      | .error stopped => .error stopped
      | .ok (q', l') => read text level q' l'

section

variable {text : Text} {level : Nat} {p : Cursor} {l : Locals} {c : Char} {rest : Text}

/-- A list is left with the text. -/
theorem read_nil (h : text.drop p.pos = []) : read text level p l = .ok (l.args.reverse, p) := by
  rw [read, arguments]
  split
  · rfl
  · rename_i hdrop
    cases hdrop.symm.trans h

/-- Reading goes on with the next turn. -/
theorem read_cons (h : text.drop p.pos = c :: rest) :
    read text level p l =
      match turn text p.pos l c rest with
      | .error (raised, pos) => .error (raised, { p with pos })
      | .ok (.next stop l') => read text level { p with pos := stop } l'
      | .ok (.comma l') => read text level { p with pos := p.pos + 1 } l'
      | .ok (.leave l') => .ok (l'.args.reverse, ⟨p.pos + 1, p.depth - 1, p.opened⟩)
      | .ok (.enter head) => readCall text level p l head := by
  -- The recursion carries proofs along, so each branch is opened and matched with its result.
  rw [read, arguments]
  split
  · rename_i hdrop
    cases hdrop.symm.trans h
  · rename_i hdrop
    obtain ⟨rfl, rfl⟩ := List.cons.inj (hdrop.symm.trans h)
    split
    · rename_i hturn
      simp only [hturn]
    · rename_i hturn
      simp only [hturn, read]
    · rename_i hturn
      simp only [hturn, read]
    · rename_i hturn
      simp only [hturn]
    · rename_i hturn
      simp only [hturn, readCall, read]
      split
      · rfl
      · split
        · rename_i hin
          simp only [hin]
        · rename_i hin
          simp only [hin]
          split
          · rename_i hresume
            simp only [hresume]
          · rename_i hresume
            simp only [hresume]

end

/-- A reading, turn by turn. -/
inductive Reads (text : Text) : Nat → Cursor → Locals → Outcome → Prop where
  | ended {level : Nat} {p : Cursor} {l : Locals} : text.drop p.pos = [] →
      Reads text level p l (.ok (l.args.reverse, p))
  | stopped {level pos : Nat} {p : Cursor} {l : Locals} {c : Char} {rest : Text}
      {raised : Raised} : text.drop p.pos = c :: rest →
      turn text p.pos l c rest = .error (raised, pos) →
      Reads text level p l (.error (raised, { p with pos }))
  | next {level stop : Nat} {p : Cursor} {l l' : Locals} {c : Char} {rest : Text}
      {outcome : Outcome} : text.drop p.pos = c :: rest →
      turn text p.pos l c rest = .ok (.next stop l') →
      Reads text level { p with pos := stop } l' outcome → Reads text level p l outcome
  | comma {level : Nat} {p : Cursor} {l l' : Locals} {c : Char} {rest : Text}
      {outcome : Outcome} : text.drop p.pos = c :: rest →
      turn text p.pos l c rest = .ok (.comma l') →
      Reads text level { p with pos := p.pos + 1 } l' outcome → Reads text level p l outcome
  | leave {level : Nat} {p : Cursor} {l l' : Locals} {c : Char} {rest : Text} :
      text.drop p.pos = c :: rest → turn text p.pos l c rest = .ok (.leave l') →
      Reads text level p l (.ok (l'.args.reverse, ⟨p.pos + 1, p.depth - 1, p.opened⟩))
  | tooDeep {level : Nat} {p : Cursor} {l : Locals} {c : Char} {rest : Text} {head : Head} :
      text.drop p.pos = c :: rest → turn text p.pos l c rest = .ok (.enter head) →
      nestingLimit ≤ level → Reads text level p l (.error (.tooDeep, p.enter))
  | inner {level : Nat} {p : Cursor} {l : Locals} {c : Char} {rest : Text} {head : Head}
      {stopped : Raised × Cursor} : text.drop p.pos = c :: rest →
      turn text p.pos l c rest = .ok (.enter head) → level < nestingLimit →
      Reads text (level + 1) p.enter (.begin p.enter.pos) (.error stopped) →
      Reads text level p l (.error stopped)
  | refused {level : Nat} {p q : Cursor} {l : Locals} {c : Char} {rest : Text} {head : Head}
      {params : List Key} {stopped : Raised × Cursor} : text.drop p.pos = c :: rest →
      turn text p.pos l c rest = .ok (.enter head) → level < nestingLimit →
      Reads text (level + 1) p.enter (.begin p.enter.pos) (.ok (params, q)) →
      resume text p.enter.depth p.pos l head params q = .error stopped →
      Reads text level p l (.error stopped)
  | call {level : Nat} {p q q' : Cursor} {l l' : Locals} {c : Char} {rest : Text} {head : Head}
      {params : List Key} {outcome : Outcome} : text.drop p.pos = c :: rest →
      turn text p.pos l c rest = .ok (.enter head) → level < nestingLimit →
      Reads text (level + 1) p.enter (.begin p.enter.pos) (.ok (params, q)) →
      resume text p.enter.depth p.pos l head params q = .ok (q', l') →
      Reads text level q' l' outcome → Reads text level p l outcome

/-- Every reading goes turn by turn. -/
theorem reads_read (text : Text) (level : Nat) (p : Cursor) (l : Locals) :
    Reads text level p l (read text level p l) := by
  -- Strong induction on what is left of the text: a turn moves the cursor, and so does a call.
  induction hleft : text.length - p.pos using Nat.strong_induction_on generalizing level p l with
  | _ left ih =>
    subst hleft
    cases hdrop : text.drop p.pos with
    | nil =>
      rw [read_nil hdrop]
      exact .ended hdrop
    | cons c rest =>
      have hlength := lt_length_of_drop hdrop
      rw [read_cons hdrop]
      cases hturn : turn text p.pos l c rest with
      | error stopped => exact .stopped hdrop hturn
      | ok t =>
        cases t with
        | next stop l' =>
          have hlt := lt_stop_of_turn hdrop hturn
          exact .next hdrop hturn (ih _ (by simp only; omega) level _ l' rfl)
        | comma l' => exact .comma hdrop hturn (ih _ (by simp only; omega) level _ l' rfl)
        | leave l' => exact .leave hdrop hturn
        | enter head =>
          simp only [readCall]
          split
          · rename_i hlimit
            exact .tooDeep hdrop hturn hlimit
          · rename_i hlimit
            -- First the arguments of the call, one level deeper.
            have hin := ih _ (by simp only [Cursor.enter]; omega) (level + 1) p.enter
              (.begin p.enter.pos) rfl
            -- They end behind the parenthesis that opens them.
            have hahead := (arguments text (level + 1) p.enter (.begin p.enter.pos)).2
            rw [← read] at hahead
            cases hread : read text (level + 1) p.enter (.begin p.enter.pos) with
            | error stopped => exact .inner hdrop hturn (Nat.lt_of_not_le hlimit) (hread ▸ hin)
            | ok result =>
              obtain ⟨params, q⟩ := result
              rw [hread] at hin hahead
              have hpos : p.pos < q.pos := hahead params q rfl
              cases hresume : resume text p.enter.depth p.pos l head params q with
              | error stopped =>
                simp only [hresume]
                exact .refused hdrop hturn (Nat.lt_of_not_le hlimit) hin hresume
              | ok onward =>
                obtain ⟨q', l'⟩ := onward
                simp only [hresume]
                -- Then the rest of this list, from where the call ends.
                have hpos' : q'.pos = q.pos := by rw [(resume_eq_ok hresume).1]
                exact .call hdrop hturn (Nat.lt_of_not_le hlimit) hin hresume
                  (ih _ (by omega) level q' l' rfl)

/-- A list that is read is left at its end or with the text. -/
theorem Reads.left {text : Text} {level : Nat} {p : Cursor} {l : Locals} {outcome : Outcome}
    (h : Reads text level p l outcome) : ∀ args q, outcome = .ok (args, q) → Left text p q := by
  -- A list is left at the end of the text or behind its parenthesis, with its stack as it was.
  induction h with
  | ended hdrop =>
    rintro _ _ ⟨⟩
    exact ⟨rfl, Nat.le_refl _, id, .inl ⟨rfl, hdrop⟩⟩
  | stopped | tooDeep | inner | refused => rintro _ _ ⟨⟩
  | next hdrop hturn _ ih =>
    have hle := Nat.le_of_lt (lt_stop_of_turn hdrop hturn)
    have hlength := stop_le_of_turn hdrop hturn
    exact fun args q hq => (ih args q hq).of_le hle hlength rfl rfl
  | comma hdrop hturn _ ih =>
    have hlength := lt_length_of_drop hdrop
    exact fun args q hq => (ih args q hq).of_le (Nat.le_succ _) hlength rfl rfl
  | leave hdrop hturn =>
    rintro _ _ ⟨⟩
    cases turns_of_turn hturn with
    | leave hc _ =>
      exact ⟨rfl, Nat.le_succ _, fun _ => lt_length_of_drop hdrop,
        .inr ⟨rfl, Nat.lt_succ_self _, hc ▸ getElem?_of_drop hdrop⟩⟩
  | @call level p q q' l l' c rest head params outcome hdrop hturn _ _ hresume _ ihin ih =>
    intro args last hlast
    -- The list of the call has put back what it was given, and the call is taken off the stack.
    have hin := ihin params q rfl
    obtain ⟨rfl, hdepth, -, -⟩ := resume_eq_ok hresume
    have hle : p.pos + 1 ≤ q.pos := hin.le
    have hlength := hin.le_length (lt_length_of_drop hdrop)
    refine (ih args last hlast).of_le (by simp only; omega) hlength ?_ ?_
    · simp only [hdepth, Cursor.enter]
      omega
    · simp only [hin.opened, Cursor.enter, List.tail_cons]

end Descent

end Keymap
