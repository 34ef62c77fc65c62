import Keymap.Proofs.Designation

/-!
# Faults of the scanner

Every fault that ends the scanning of a layer designates what it names. What has been scanned is
known from the invariant `State.Tracks`; a fault comes with the character that breaks it, or with
the end of the text. One thing more has to be known of a run: a word that fills a slot is parted
from what is pending by more than blanks, because only a pair makes the scanner take a word early.

## Key results

- `State.flush_eq_error` — flushing fails on two words, or on one if the slot is filled
- `Stack.exists_slot` — what is read ends with the part of an argument behind a separator
- `State.Tracks.parted` — every step keeps a word in its slot parted from what is pending
- `State.Tracks.neverCloses` — where the text ends, the innermost open parenthesis has no partner
- `State.scan_designates` — the fault of a run designates what it names
-/

namespace Keymap

/-! ## Trimmed texts -/

namespace Text

/-- A trimmed text ends with no blank. -/
theorem getLast?_trim (span : Text) : ∀ c ∈ span.trim.getLast?, isBlank c = false := by
  intro c hc
  rw [trim, trimRight, List.getLast?_reverse] at hc
  have hdrop := List.head?_dropWhile_not isBlank (span.dropWhile isBlank).reverse
  rwa [hc] at hdrop

/-- A trimmed text begins with no blank. -/
theorem head?_trim (span : Text) : ∀ c ∈ span.trim.head?, isBlank c = false := by
  intro c hc
  obtain ⟨rest, hrest⟩ := List.head?_eq_some_iff.mp hc
  obtain ⟨blanks, heq, -⟩ := trimRight_eq (span.dropWhile isBlank)
  -- What trimming takes off the end does not change the beginning.
  have hdrop := List.head?_dropWhile_not isBlank span
  rw [heq, ← trim, hrest] at hdrop
  exact hdrop

/-- The first blank of a text with no blank at its ends stands within it. -/
theorem exists_first_blank {token : Text} (h : token.hasBlank = true)
    (hhead : ∀ c ∈ token.head?, isBlank c = false)
    (hlast : ∀ c ∈ token.getLast?, isBlank c = false) :
    ∃ (c : Char) (more : Text), token = token.takeWhile (!isBlank ·) ++ c :: more ∧
      token.takeWhile (!isBlank ·) ≠ [] ∧ hasBlank (token.takeWhile (!isBlank ·)) = false ∧
      isBlank c = true ∧ more ≠ [] := by
  have hsplit : token.takeWhile (!isBlank ·) ++ token.dropWhile (!isBlank ·) = token :=
    List.takeWhile_append_dropWhile
  have hfirst : hasBlank (token.takeWhile (!isBlank ·)) = false := by
    have hall : (token.takeWhile (!isBlank ·)).all (!isBlank ·) = true := List.all_takeWhile
    rw [hasBlank, List.any_eq_false]
    intro c hc
    simpa using List.all_eq_true.mp hall c hc
  have hblank := List.head?_dropWhile_not (!isBlank ·) token
  cases hdrop : token.dropWhile (!isBlank ·) with
  | nil =>
    rw [hdrop, List.append_nil] at hsplit
    rw [hsplit, h] at hfirst
    cases hfirst
  | cons c more =>
    rw [hdrop] at hsplit hblank
    have hc : isBlank c = true := by simpa using hblank
    refine ⟨c, more, hsplit.symm, ?_, hfirst, hc, ?_⟩
    · -- The token would begin with the blank.
      intro hnil
      rw [hnil] at hsplit
      have := hhead c (by rw [← hsplit]; rfl)
      rw [hc] at this
      cases this
    · -- The token would end with the blank.
      rintro rfl
      have := hlast c (by rw [← hsplit]; simp)
      rw [hc] at this
      cases this

end Text

/-! ## Failing steps -/

namespace State

/-- Flushing fails on a text with a blank inside, and on a word that finds its slot filled. -/
theorem flush_eq_error {s : State} {span more : Text} {fault : Fault}
    (h : s.Pending (span ++ more)) (herror : s.flush (s.start + span.length) = .error fault) :
    ∃ before token after : Text, span = before ++ token ++ after ∧ before.AllBlank ∧
      after.AllBlank ∧ token ≠ [] ∧
      ((∃ (first more : Text) (c : Char), token = first ++ c :: more ∧ first ≠ [] ∧
          first.hasBlank = false ∧ isBlank c = true ∧ more ≠ [] ∧
          fault = ⟨.blankInKey token, s.start + before.length + first.length⟩) ∨
        (token.hasBlank = false ∧ ∃ previous, s.frame.slot = some previous ∧
          fault = ⟨.blankInKey (s.between previous.offset
            (s.start + before.length + token.length)), s.start + before.length⟩)) := by
  obtain ⟨before, after, hspan, hbefore, hafter, hmargin⟩ := span.exists_trim
  simp only [flush, between_of_pending h, ← hmargin] at herror
  split at herror
  · cases herror
  · rename_i hne
    refine ⟨before, span.trim, after, hspan, hbefore, hafter, by simpa using hne, ?_⟩
    split at herror
    · -- A blank within the token.
      rename_i hblank
      obtain ⟨c, more, heq, hfirst, hnoblank, hc, hmore⟩ :=
        Text.exists_first_blank hblank span.head?_trim span.getLast?_trim
      exact .inl ⟨_, more, c, heq, hfirst, hnoblank, hc, hmore, (Except.error.inj herror).symm⟩
    · -- A token in the slot already.
      rename_i hblank
      rw [fill] at herror
      split at herror
      · cases herror
      · rename_i previous hslot
        exact .inr ⟨by simpa using hblank, previous, hslot, (Except.error.inj herror).symm⟩

/-- An argument ends badly if flushing fails, or if it leaves the slot open. -/
theorem endArgument_eq_error {s : State} {offset : Nat} {fault : Fault}
    (h : s.endArgument offset = .error fault) :
    s.flush offset = .error fault ∨
      ∃ frame, s.flush offset = .ok frame ∧ frame.slot = none ∧
        fault = ⟨.missingToken, offset⟩ := by
  simp only [endArgument, bind, Except.bind] at h
  split at h
  · rename_i fault' hflush
    rw [← Except.error.inj h]
    exact .inl hflush
  · rename_i frame hflush
    split at h
    · cases h
    · rename_i hslot
      exact .inr ⟨frame, hflush, hslot, (Except.error.inj h).symm⟩

/-- A closing parenthesis fails with its last argument, or because the call finds its slot
filled. -/
theorem close_eq_error {s : State} {offset : Nat} {fault : Fault}
    (h : s.close offset = .error fault) :
    s.endArgument offset = .error fault ∨
      ∃ frame key head parent outer previous, s.endArgument offset = .ok (frame, key) ∧
        s.outer = (head, parent) :: outer ∧ parent.slot = some previous ∧
        fault = ⟨.blankInKey (s.between previous.offset s.pos), head.offset⟩ := by
  simp only [close, bind, Except.bind] at h
  split at h
  · rename_i fault' hend
    rw [← Except.error.inj h]
    exact .inl hend
  · rename_i result hend
    obtain ⟨frame, key⟩ := result
    split at h
    · cases h
    · -- The call is whole. It is refused only if its parent's slot is taken.
      rename_i head parent outer houter
      simp only [fill] at h
      cases hparent : parent.slot with
      | none => simp [hparent, pure, Except.pure] at h
      | some previous =>
        simp only [hparent] at h
        exact .inr ⟨frame, key, head, parent, outer, previous, hend, houter, hparent,
          (Except.error.inj h).symm⟩

/-- What lies between two offsets is told by what has been seen since a parenthesis. -/
theorem between_of_seen {s : State} {front before chars rest : Text}
    (hseen : front ++ '(' :: s.seen.reverse = before ++ chars ++ rest)
    (hpos : s.pos = front.length + 1 + s.seen.length) (hbefore : front.length < before.length) :
    s.between before.length (before.length + chars.length) = chars := by
  have hlength := congrArg List.length hseen
  simp only [List.length_append, List.length_cons, List.length_reverse] at hlength
  -- The text before the first offset begins with the one before the parenthesis.
  obtain ⟨inner, rfl⟩ : ∃ inner, before = front ++ '(' :: inner := by
    have hfront : front ++ ['('] <+: front ++ '(' :: s.seen.reverse := ⟨s.seen.reverse, by simp⟩
    have hwithin : before <+: front ++ '(' :: s.seen.reverse :=
      ⟨chars ++ rest, by rw [hseen, List.append_assoc]⟩
    obtain ⟨inner, heq⟩ := List.prefix_of_prefix_length_le hfront hwithin
      (by rw [List.length_append, List.length_singleton]; exact hbefore)
    exact ⟨inner, by rw [← heq]; simp⟩
  have hreverse : s.seen.reverse = inner ++ chars ++ rest := by simpa using hseen
  have hseen' : s.seen = rest.reverse ++ (chars.reverse ++ inner.reverse) := by
    rw [← List.reverse_reverse s.seen, hreverse]
    simp
  have hdrop : s.pos - ((front ++ '(' :: inner).length + chars.length) = rest.reverse.length := by
    rw [List.length_reverse]
    simp only [List.length_append, List.length_cons] at hlength ⊢
    omega
  have htake : (front ++ '(' :: inner).length + chars.length - (front ++ '(' :: inner).length =
      chars.reverse.length := by
    rw [List.length_reverse]
    omega
  rw [between, hdrop, htake, hseen', List.drop_left, List.take_left, List.reverse_reverse]

end State

/-! ## Where an argument stands -/

/-- What makes a slot is what may be read of an argument. -/
theorem SlotCovers.begun {pos : Nat} {rest read : Text} {slot : Option Key}
    (h : SlotCovers pos rest read slot) : Begun rest read := by
  cases h with
  | trivia hread => exact .trivia hread
  | token hbefore hfits hafter => exact .token hbefore hfits hafter

variable [Machine]

namespace Stack

variable {opener front : Text} {room : Nat} {outer : List (Head × Frame)} {frame : Frame}
  {read rest : Text}

/-- What is read ends with what is read of the innermost list that is open. -/
theorem exists_open (hfront : ∀ rest, Opens opener front rest)
    (h : Stack (front.length + 1) room outer frame read rest) :
    ∃ outside inner, front ++ '(' :: read = outside ++ '(' :: inner ∧
      Opens opener outside (inner ++ rest) ∧ front.length ≤ outside.length ∧
      frame.paren = outside.length ∧ frame.Covers room inner rest := by
  induction h with
  | @layer frame read rest hbase hframe =>
    exact ⟨front, read, rfl, hfront _, Nat.le_refl _, by omega, hframe⟩
  | @call room outer parent frame before name blanks read rest _ hne hname hblanks hparen hframe
      ih =>
    obtain ⟨outside, inner, heq, hopens, hle, -, hparent⟩ := ih
    obtain ⟨args, current, rfl, hfit, -, hslot⟩ := hparent.parts
    have hlength := congrArg List.length heq
    simp only [List.length_append, List.length_cons] at hlength
    -- The call stands behind what is read of the list around it.
    refine ⟨outside ++ '(' :: (args.leading ++ current ++ (name ++ blanks)), read, ?_, ?_, ?_, ?_,
      hframe⟩
    · rw [← List.cons_append, ← List.append_assoc, heq]
      simp
    · refine .call ?_ hfit (by simpa using hslot.begun) hne hname hblanks
      simpa using hopens
    · simp only [List.length_append]
      omega
    · rw [hparen]
      simp only [List.length_append, List.length_cons]
      omega

/-- What is read ends with what is read of an argument, behind a separator. -/
theorem exists_slot (hfront : ∀ rest, Opens opener front rest)
    (h : Stack (front.length + 1) room outer frame read rest) :
    ∃ before current, front ++ '(' :: read = before ++ current ∧
      Separates opener before (current ++ rest) ∧ front.length < before.length ∧
      SlotCovers before.length rest current frame.slot := by
  obtain ⟨outside, inner, heq, hopens, hle, hparen, hframe⟩ := h.exists_open hfront
  obtain ⟨args, current, rfl, hfit, -, hslot⟩ := hframe.parts
  refine ⟨outside ++ '(' :: args.leading, current, by rw [heq]; simp,
    ⟨outside, args, rfl, by simpa using hopens, hfit⟩, ?_, ?_⟩
  · simp only [List.length_append, List.length_cons]
    omega
  · have hpos : frame.paren + 1 + args.leading.length =
        (outside ++ '(' :: args.leading).length := by
      simp only [List.length_append, List.length_cons]
      omega
    rwa [hpos] at hslot

/-- A second token behind a separator crowds the slot that the first one fills. -/
theorem exists_crowds {lead : Text} {second : Token} {previous : Key}
    (hfront : ∀ rest, Opens opener front rest)
    (h : Stack (front.length + 1) room outer frame read (lead ++ second.text ++ rest))
    (hslot : frame.slot = some previous) (hlead : Trivia lead) (hsecond : second.Fits rest) :
    ∃ before chars, front ++ '(' :: (read ++ (lead ++ second.text)) = before ++ chars ∧
      front.length < before.length ∧ before.length = previous.offset ∧
      CrowdsSlot opener (front ++ '(' :: (read ++ (lead ++ second.text) ++ rest))
        (front.length + 1 + read.length + lead.length) chars := by
  obtain ⟨before, current, heq, hseparates, hlt, hcovers⟩ := h.exists_slot hfront
  rw [hslot] at hcovers
  -- The slot has been filled by a token that was read before `lead`.
  cases hcovers with
  | @token lead' after first hlead' hfirst hafter =>
    have hlength := congrArg List.length heq
    simp only [List.length_append, List.length_cons] at hlength
    have htext : front ++ '(' :: (read ++ (lead ++ second.text)) =
        before ++ lead' ++ (first.text ++ (after ++ lead) ++ second.text) := by
      rw [← List.cons_append, ← List.append_assoc, heq]
      simp
    -- So the slot holds two tokens with nothing but trivia between them.
    refine ⟨before ++ lead', first.text ++ (after ++ lead) ++ second.text, htext, ?_, ?_, ?_⟩
    · rw [List.length_append]
      omega
    · rw [Token.offset_key, List.length_append]
    · refine ⟨before, lead', after ++ lead, rest, first, second, rfl, ?_, ?_, ?_, hlead', ?_,
        hafter.append hlead, hsecond⟩
      · rw [← htext]
        simp
      · simp only [List.length_append]
        omega
      · simpa using hseparates
      · simpa using hfirst

end Stack

namespace State

variable {opener front : Text} {keyCount : Option Int} {room : Nat} {s t : State}
  {read span rest : Text} {c : Char}

/-! ## Faults of pending text -/

/-- A fault of flushing designates the blank or the second token that is in the way. -/
theorem flush_designates {more : Text} {fault : Fault} (hfront : ∀ rest, Opens opener front rest)
    (hstack : Stack (front.length + 1) room t.outer t.frame read (span ++ (more ++ rest)))
    (hplain : span.Plain)
    (hlast : ∀ c ∈ span.getLast?, ∀ d ∈ (more ++ rest).head?, isPair c d = false)
    (hword : Text.word (more ++ rest) = []) (hstart : t.start = front.length + 1 + read.length)
    (hseen : t.seen.reverse = read ++ span ++ more)
    (hpos : t.pos = front.length + 1 + (read ++ span ++ more).length)
    (herror : t.flush (t.start + span.length) = .error fault) :
    Designates opener (front ++ '(' :: (read ++ span ++ more ++ rest)) keyCount fault.offset
      fault.cause := by
  have hpending : t.Pending (span ++ more) := by
    refine ⟨⟨read.reverse, ?_⟩, ?_⟩
    · rw [← List.reverse_append, ← List.append_assoc, ← hseen, List.reverse_reverse]
    · rw [hpos, hstart]
      simp only [List.length_append]
      omega
  obtain ⟨before, token, after, rfl, hbefore, hafter, hne, hfault⟩ := flush_eq_error hpending herror
  rcases hfault with ⟨first, behind, c, rfl, hfirst, hnoblank, hc, hbehind, rfl⟩ |
    ⟨hnoblank, previous, hslot, rfl⟩
  · -- A blank stands within the token.
    refine .inl ⟨front ++ '(' :: (read ++ before), first, behind, after ++ more ++ rest, c, rfl, ?_,
      ?_, hfirst, hnoblank, hc, hbehind⟩
    · simp
    · rw [hstart]
      simp only [List.length_append, List.length_cons]
      omega
  · -- The token finds its slot filled.
    have hfits : (Token.word token).Fits (after ++ (more ++ rest)) := by
      rw [Token.Fits]
      exact ⟨hne, Text.word_append_of_plain_span hplain hnoblank hafter hlast hword⟩
    have hread : Stack (front.length + 1) room t.outer t.frame read
        (before ++ (Token.word token).text ++ (after ++ (more ++ rest))) := by
      simpa using hstack
    obtain ⟨start, chars, heq, hlt, hoffset, hcrowds⟩ :=
      hread.exists_crowds hfront hslot (.of_allBlank hbefore) hfits
    rw [Token.text_word] at heq hcrowds
    -- The scanner reports what stands between the ends of the two tokens.
    have hlength := congrArg List.length heq
    simp only [List.length_append, List.length_cons] at hlength
    have hbetween : t.between previous.offset (t.start + before.length + token.length) = chars := by
      have hstop : t.start + before.length + token.length = start.length + chars.length := by
        rw [hstart]
        omega
      rw [← hoffset, hstop]
      have hread' : front ++ '(' :: t.seen.reverse = start ++ chars ++ (after ++ more) := by
        rw [hseen, ← heq]
        simp
      exact between_of_seen hread' (by rw [hpos, ← hseen, List.length_reverse]) hlt
    rw [hbetween, hstart]
    right
    simpa using hcrowds

/-- A separator that comes too early, or behind text that cannot be flushed, is at fault. -/
theorem InCode.endArgument_designates {d : Char} {fault : Fault}
    (hfront : ∀ rest, Opens opener front rest)
    (h : s.InCode (front.length + 1) room read span (d :: rest)) (hd : d = ',' ∨ d = ')')
    (herror : (s.see d).endArgument ((s.see d).pos - 1) = .error fault) :
    Designates opener (front ++ '(' :: (read ++ span ++ d :: rest)) keyCount fault.offset
      fault.cause := by
  have hdelimiter : isDelimiter d = true := by
    rcases hd with rfl | rfl <;> rfl
  have hoffset : (s.see d).pos - 1 = (s.see d).start + span.length := by
    have := h.pending.pos
    simp only [see]
    omega
  rw [hoffset] at herror
  rcases endArgument_eq_error herror with hflush | ⟨frame, hflush, hslot, rfl⟩
  · -- The token before the separator cannot be flushed.
    suffices Designates opener (front ++ '(' :: (read ++ span ++ [d] ++ rest)) keyCount fault.offset
        fault.cause by simpa using this
    refine flush_designates (t := s.see d) hfront h.stack h.plain ?_
      (Text.word_delimiter rest hdelimiter) h.start ?_ ?_ hflush
    · intro c _ e he
      obtain rfl : d = e := by simpa using he
      exact isPair_delimiter hdelimiter
    · simp [see, h.seen]
    · have := h.pos
      simp only [see, List.length_append, List.length_singleton] at this ⊢
      omega
  · -- Nothing but trivia is read of the argument.
    have htakes := (flush_eq_ok_iff (h.pending.see d)).mp hflush
    obtain ⟨rfl, hblank⟩ := htakes.eq_of_slot hslot
    obtain ⟨before, current, heq, hseparates, -, hcovers⟩ := h.stack.exists_slot hfront
    have hframe : (s.see d).frame = s.frame := rfl
    rw [← hframe, hslot] at hcovers
    cases hcovers with
    | trivia hcurrent =>
      have hlength := congrArg List.length heq
      simp only [List.length_append, List.length_cons] at hlength
      have hpos := h.start
      refine ⟨before, current ++ span, rest, d, ?_, ?_, hd,
        hcurrent.append (.of_allBlank hblank), by simpa using hseparates⟩
      · rw [← List.append_assoc before, ← heq]
        simp
      · simp only [see, List.length_append]
        omega

/-- A call that comes to its end behind another token of the same argument is at fault. -/
theorem InCode.closeCall_designates {frame parent : Frame} {key previous : Key} {head : Head}
    {outer : List (Head × Frame)} (hfront : ∀ rest, Opens opener front rest)
    (h : s.InCode (front.length + 1) room read span (')' :: rest))
    (htakes : s.frame.Takes s.start span frame) (hslot : frame.slot = some key)
    (houter : s.outer = (head, parent) :: outer) (hparent : parent.slot = some previous) :
    CrowdsSlot opener (front ++ '(' :: (read ++ span ++ ')' :: rest)) head.offset
      ((s.see ')').between previous.offset (s.see ')').pos) := by
  have hstack := h.takes rfl htakes
  rw [houter] at hstack
  generalize hread : read ++ span = all at hstack
  cases hstack with
  | @call _ _ _ _ before name blanks inner _ houtside hne hname hblanks hparen hframe =>
    -- The call is complete, and it is the second token of its argument.
    obtain ⟨args, hargs, hfit, htext, -, -⟩ := hframe.close hslot
    let second : Token := .call name blanks args
    have hsecond : second.text = name ++ blanks ++ '(' :: (inner ++ [')']) := by
      rw [← htext]
      exact Token.text_call ..
    have hfits : second.Fits rest := ⟨hne, hname, hblanks, hargs, hfit⟩
    have hparent' : Stack (front.length + 1) (room + 1) outer parent before
        ([] ++ second.text ++ rest) := by
      rw [hsecond]
      simpa using houtside
    -- Its parent's slot holds a token already, which it crowds.
    obtain ⟨start, chars, heq, hlt, hoffset, hcrowds⟩ :=
      hparent'.exists_crowds hfront hparent .nil hfits
    have hseen : front ++ '(' :: (s.see ')').seen.reverse = start ++ chars ++ [] := by
      rw [List.append_nil, ← heq, hsecond]
      simp [see, h.seen, hread]
    have hpos : (s.see ')').pos = front.length + 1 + (s.see ')').seen.length := by
      have hlength := congrArg List.length h.seen
      have := h.pos
      simp only [see, List.length_append, List.length_cons, List.length_reverse] at *
      omega
    -- The text of the fault runs from that token to the end of the call.
    have hstop : (s.see ')').pos = start.length + chars.length := by
      have hlength := congrArg List.length hseen
      simp only [List.length_append, List.length_cons, List.length_reverse, List.length_nil]
        at hlength
      omega
    rw [← hoffset, hstop, between_of_seen hseen hpos hlt]
    rw [hsecond] at hcrowds
    simpa [hread] using hcrowds

/-! ## Parentheses without a name -/

/-- If a word fills the slot, a character that is not blank stands between it and what is
pending. -/
def Parted (s : State) : Prop :=
  ∀ w offset stop, s.frame.slot = some (.word w offset stop) →
    ∃ newer c older, s.seen = newer ++ c :: older ∧ isBlank c = false ∧
      stop + newer.length < s.pos ∧ s.pos ≤ s.start + newer.length

omit [Machine] in
/-- Nothing fills a slot right behind the parenthesis of a layer. -/
theorem parted_initial (paren : Nat) : (initial paren).Parted :=
  fun _ _ _ h => nomatch h

/-- A word stays parted from what is pending while its frame is not changed. -/
theorem Parted.next (h : s.Parted) (hstep : s.step c = .ok (.reading t))
    (hframe : t.frame = s.frame) (hstart : t.start = s.start ∨ t.start = t.pos) : t.Parted := by
  intro w offset stop hslot
  rw [hframe] at hslot
  obtain ⟨newer, d, older, hseen, hd, hstop, hpos⟩ := h w offset stop hslot
  obtain ⟨hseen', hpos'⟩ := step_seen hstep
  refine ⟨c :: newer, d, older, by rw [hseen', hseen]; rfl, hd, ?_, ?_⟩
  · rw [hpos', List.length_cons]
    omega
  · rw [List.length_cons]
    omega

omit [Machine] in
/-- Nothing parts what is no word. -/
theorem Parted.of_slot (h : ∀ w offset stop, t.frame.slot ≠ some (.word w offset stop)) :
    t.Parted :=
  fun w offset stop hslot => absurd hslot (h w offset stop)

/-- Inside a comment the frame stays as it is, and the next token begins where it could begin or
right behind the comment. -/
theorem step_comment_frame (hmode : s.mode.inCode = false) (hstep : s.step c = .ok (.reading t)) :
    t.frame = s.frame ∧ (t.start = s.start ∨ t.start = t.pos) := by
  simp only [step] at hstep
  split at hstep <;> rename_i hm <;> try (rw [hm] at hmode; cases hmode)
  case h_11 =>
    cases h : s.mode <;> simp_all [Mode.inCode]
  all_goals
    obtain rfl := Progress.reading.inj (Except.ok.inj hstep)
    exact ⟨rfl, by simp [into, see, fresh]⟩

/-- The character that parts a word that is taken before a pair is the first half of the pair. -/
private theorem InCode.parted_pair {base : Nat} (h : s.InCode base room read span (c :: rest))
    (hc : s.mode.completes c = true) (hparted : s.Parted) (hstep : s.step c = .ok (.reading t)) :
    t.Parted := by
  obtain ⟨span', d, rfl, hpair, hboth, hoffset⟩ := h.exists_pair hc
  have hstep' := hstep
  rw [State.step_pair hc, skip] at hstep'
  split at hstep'
  case h_2 => cases hstep'
  rename_i frame hflush
  obtain rfl := Progress.reading.inj (Except.ok.inj hstep')
  rw [hoffset, flush_eq_ok_iff hboth] at hflush
  cases hflush with
  | blank _ => exact hparted.next hstep rfl (.inr rfl)
  | word hspan _ _ _ _ _ =>
    intro w offset stop hslot
    obtain ⟨rfl, rfl, rfl⟩ := Node.word.inj (Option.some.inj hslot)
    obtain ⟨older, hseen⟩ := h.pending.seen
    have hpos := h.pending.pos
    have hlength := congrArg List.length hspan
    have hblank : isBlank d = false := by
      simp only [isPair, Bool.or_eq_true, Bool.and_eq_true, beq_iff_eq] at hpair
      rcases hpair with ⟨rfl, -⟩ | ⟨rfl, -⟩ <;> rfl
    -- The pair that was just read stands between the word and whatever comes next.
    refine ⟨[c], d, span'.reverse ++ older, ?_, hblank, ?_, Nat.le_add_right ..⟩
    · rw [show ((s.see c).fresh _ _).seen = c :: s.seen from rfl, ← hseen]
      simp
    · simp only [fresh, see, List.length_append, List.length_singleton] at hpos hlength ⊢
      omega

/-- Every step keeps a word in its slot parted from what is pending. -/
theorem Tracks.parted {base : Nat} (h : Tracks base s (c :: rest)) (hparted : s.Parted)
    (hstep : s.step c = .ok (.reading t)) : t.Parted := by
  -- Within a comment neither the frame nor the start of the span changes.
  have hcomment (hmode : s.mode.inCode = false) : t.Parted := by
    obtain ⟨hframe, hstart⟩ := step_comment_frame hmode hstep
    exact hparted.next hstep hframe hstart
  cases h with
  | block _ _ h =>
    exact hcomment (by rcases h.mode with ⟨hmode, -⟩ | ⟨hmode, -⟩ <;> rw [hmode] <;> rfl)
  | line _ _ h => exact hcomment (by rw [h.mode]; rfl)
  | code _ _ h =>
    by_cases hc : s.mode.completes c = true
    · exact h.parted_pair hc hparted hstep
    · cases hdelimiter : isDelimiter c with
      | false =>
        have hstep' := hstep
        rw [step_code h.inCode (by simpa using hc), code_of_not_delimiter _ hdelimiter] at hstep'
        obtain rfl := Progress.reading.inj (Except.ok.inj hstep')
        exact hparted.next hstep rfl (.inl rfl)
      | true =>
        -- Behind a comma and an opening parenthesis a slot is open, and a call fills one.
        simp only [isDelimiter, Bool.or_eq_true, beq_iff_eq] at hdelimiter
        rcases hdelimiter with (rfl | rfl) | rfl
        · obtain ⟨frame, key, -, -, heq⟩ := (step_comma_iff h.inCode h.pending _).mp hstep
          obtain rfl := Progress.reading.inj heq
          exact .of_slot fun _ _ _ hslot => by cases hslot
        · obtain ⟨_, _, _, -, -, -, -, -, -, heq⟩ :=
            (step_open_iff h.inCode h.pending _).mp hstep
          obtain rfl := Progress.reading.inj heq
          exact .of_slot fun _ _ _ hslot => by cases hslot
        · cases houter : s.outer with
          | nil =>
            obtain ⟨_, _, -, -, heq⟩ :=
              (step_close_layer_iff h.inCode h.pending houter _).mp hstep
            cases heq
          | cons parent outer =>
            obtain ⟨_, _, -, -, -, heq⟩ :=
              (step_close_call_iff h.inCode h.pending houter _).mp hstep
            obtain rfl := Progress.reading.inj heq
            exact .of_slot fun _ _ _ hslot => by cases hslot

omit [Machine] in
/-- A character at an index behind the first part of a text stands in the second part. -/
private theorem mem_of_getElem?_append {a b : Text} {n : Nat} (h : (a ++ b)[n]? = some c)
    (hn : a.length ≤ n) : c ∈ b := by
  rw [List.getElem?_append_right hn] at h
  exact List.mem_of_getElem? h

/-- Where a slot is filled by a word and only blanks follow the word, nothing can be pending. -/
private theorem InCode.not_allBlank_behind_word {before blanks w : Text} {offset stop : Nat}
    (h : s.InCode (front.length + 1) room read span rest) (hparted : s.Parted)
    (hslot : s.frame.slot = some (.word w offset stop))
    (hread : front ++ '(' :: read = before ++ blanks) (hstop : before.length = stop) :
    ¬ blanks.AllBlank := by
  intro hblanks
  obtain ⟨newer, c, older, hseen, hc, hlow, hhigh⟩ := hparted w offset stop hslot
  have hpos := h.pos
  have hstart := h.start
  have hseen' : read ++ span = older.reverse ++ c :: newer.reverse := by
    rw [← h.seen, hseen]
    simp
  have hlength := congrArg List.length hseen'
  simp only [List.length_append, List.length_cons, List.length_reverse] at hpos hlength
  -- The character lies in what has been read, behind the word.
  have hat : (front ++ '(' :: read)[front.length + 1 + older.length]? = some c := by
    have hwithin : older.length < read.length := by omega
    have hall : (read ++ span)[older.length]? = some c := by
      rw [hseen', List.getElem?_append_right (by simp)]
      simp
    rw [List.getElem?_append_left hwithin] at hall
    rw [List.getElem?_append_right (by omega), Nat.add_assoc, Nat.add_sub_cancel_left, Nat.add_comm,
      List.getElem?_cons_succ, hall]
  rw [hread] at hat
  have hmem := mem_of_getElem?_append hat (by omega)
  rw [hblanks c hmem] at hc
  cases hc

/-- An opening parenthesis with only blanks pending stands behind what leaves no word open. -/
theorem InCode.lacksName (hfront : ∀ rest, Opens opener front rest)
    (h : s.InCode (front.length + 1) room read span ('(' :: rest)) (hparted : s.Parted)
    (hblank : span.AllBlank) :
    LacksName opener (front ++ '(' :: (read ++ span ++ '(' :: rest)) s.pos := by
  obtain ⟨before, current, heq, hseparates, -, hcovers⟩ := h.stack.exists_slot hfront
  have hpos := h.pos
  have hlength := congrArg List.length heq
  simp only [List.length_append, List.length_cons] at hpos hlength
  -- It remains to split what is read of the argument into blanks and what they stand behind.
  suffices ∃ outside blanks, before ++ current = outside ++ blanks ∧ blanks.AllBlank ∧
      Breaks opener outside (blanks ++ (span ++ '(' :: rest)) by
    obtain ⟨outside, blanks, hsplit, hblanks, hbreaks⟩ := this
    have hlength' := congrArg List.length hsplit
    simp only [List.length_append] at hlength'
    refine ⟨outside, blanks ++ span, rest, ?_, ?_, (Text.allBlank_append ..).mpr ⟨hblanks, hblank⟩,
      by simpa using hbreaks⟩
    · rw [← List.append_assoc outside, ← hsplit, ← heq]
      simp
    · simp only [List.length_append]
      omega
  generalize hslot : s.frame.slot = slot at hcovers
  cases hcovers with
  | trivia hcurrent =>
    obtain ⟨last, blanks, rfl, hblanks, rfl | ⟨lead, piece, rfl, hlead, hpiece⟩⟩ :=
      hcurrent.exists_blanks
    · exact ⟨before, blanks, rfl, hblanks, .separator (by simpa using hseparates)⟩
    · exact ⟨before ++ lead ++ piece, blanks, by simp, hblanks,
        .skipped (by simpa using hseparates) (.trivia hlead) hpiece⟩
  | @token lead after token hlead hfits hafter =>
    obtain ⟨last, blanks, rfl, hblanks, rfl | ⟨more, piece, rfl, hmore, hpiece⟩⟩ :=
      hafter.exists_blanks
    · cases token with
      | call name inner args =>
        exact ⟨before ++ lead ++ (Token.call name inner args).text, blanks, by simp, hblanks,
          .call (by simpa using hseparates) hlead (by simpa [Token.Fits] using hfits)⟩
      | word chars =>
        -- The word would still be pending.
        rw [Token.key] at hslot
        have hread : front ++ '(' :: read = before ++ lead ++ chars ++ blanks := by
          rw [heq]
          simp
        exact absurd hblanks (h.not_allBlank_behind_word hparted hslot hread (by simp; omega))
    · refine ⟨before ++ (lead ++ token.text ++ more) ++ piece, blanks, by simp, hblanks,
        .skipped (by simpa using hseparates) (.token hlead ?_ hmore) hpiece⟩
      simpa using hfits

/-- An opening parenthesis that no name stands before is at fault, and so is a blank within the
name. -/
theorem InCode.openCall_designates {fault : Fault} (hfront : ∀ rest, Opens opener front rest)
    (h : s.InCode (front.length + 1) room read span ('(' :: rest)) (hparted : s.Parted)
    (herror : (s.see '(').openCall ((s.see '(').pos - 1) = .error fault)
    (hcause : fault.cause ≠ .tooDeep) :
    Designates opener (front ++ '(' :: (read ++ span ++ '(' :: rest)) keyCount fault.offset
      fault.cause := by
  have hbetween : (s.see '(').between (s.see '(').start ((s.see '(').pos - 1) = span := by
    have hpos : (s.see '(').pos - 1 = s.start + span.length := h.pending.pos
    rw [hpos]
    exact between_of_pending (h.pending.see '(')
  obtain ⟨before, after, hspan, hbefore, hafter, hmargin⟩ := span.exists_trim
  simp only [openCall, hbetween] at herror
  split at herror
  · -- Only blanks are pending.
    rename_i hempty
    obtain rfl := Except.error.inj herror
    rw [List.isEmpty_iff.mp hempty, List.append_nil] at hspan
    have hblank : span.AllBlank := by
      rw [hspan]
      exact (Text.allBlank_append ..).mpr ⟨hbefore, hafter⟩
    exact h.lacksName hfront hparted hblank
  · split at herror
    · -- The name has a blank within it.
      rename_i hblank
      obtain rfl := Except.error.inj herror
      refine ⟨front ++ '(' :: (read ++ before), after, rest, ?_, ?_, hblank, span.head?_trim,
        span.getLast?_trim, hafter⟩
      · simp only [List.append_assoc, List.cons_append]
        rw [← List.append_assoc span.trim, ← List.append_assoc before, ← List.append_assoc before,
          ← hspan]
      · have := h.start
        simp only [see, List.length_append, List.length_cons]
        omega
    · split at herror
      · obtain rfl := Except.error.inj herror
        exact absurd rfl hcause
      · cases herror

/-! ## Failing steps -/

/-- The fault of a step outside comments designates what it names. -/
theorem InCode.step_designates {failure : Failure} (hfront : ∀ rest, Opens opener front rest)
    (h : s.InCode (front.length + 1) room read span (c :: rest)) (hparted : s.Parted)
    (herror : s.step c = .error failure) (hcause : failure.fault.cause ≠ .tooDeep) :
    Designates opener (front ++ '(' :: (read ++ span ++ c :: rest)) keyCount failure.fault.offset
      failure.fault.cause := by
  by_cases hc : s.mode.completes c = true
  · -- What is pending before a pair cannot be flushed.
    obtain ⟨span', d, rfl, hpair, hboth, hoffset⟩ := h.exists_pair hc
    rw [State.step_pair hc, skip, hoffset] at herror
    split at herror
    · cases herror
    · rename_i fault hflush
      obtain rfl := Except.error.inj herror
      have hplain : span'.Plain := h.plain.of_isInfix (List.prefix_append span' [d]).isInfix
      have hseen : (s.see c).seen.reverse = read ++ span' ++ [d, c] := by
        simp [see, h.seen]
      suffices Designates opener (front ++ '(' :: (read ++ span' ++ [d, c] ++ rest)) keyCount
          fault.offset fault.cause by simpa using this
      refine flush_designates (t := s.see c) hfront (by simpa [see] using h.stack) hplain ?_
        (Text.word_pair rest hpair) h.start hseen ?_ hflush
      · intro e he d' hd'
        obtain rfl : d = d' := by simpa using hd'
        obtain ⟨before, rfl⟩ := List.getLast?_eq_some_iff.mp he
        exact h.plain.pair e d ⟨before, [], by simp⟩
      · have := h.pos
        simp only [see, List.length_append, List.length_cons, List.length_nil] at this ⊢
        omega
  · have hc' : s.mode.completes c = false := by simpa using hc
    -- Of the single characters only delimiters can fail, each by its own check.
    cases hdelimiter : isDelimiter c with
    | false =>
      rw [step_code h.inCode hc', code_of_not_delimiter _ hdelimiter] at herror
      cases herror
    | true =>
      simp only [isDelimiter, Bool.or_eq_true, beq_iff_eq] at hdelimiter
      rcases hdelimiter with (rfl | rfl) | rfl <;> rw [step_code h.inCode hc', code] at herror <;>
        obtain ⟨fault, hfault, rfl⟩ := (mapError_eq_error_iff ..).mp herror
      · simp only [separate, bind, Except.bind] at hfault
        split at hfault
        · rename_i fault' hend
          obtain rfl := Except.error.inj hfault
          exact h.endArgument_designates hfront (.inl rfl) hend
        · cases hfault
      · exact h.openCall_designates hfront hparted hfault hcause
      · rcases close_eq_error hfault with hend |
          ⟨frame, key, head, parent, outer, previous, hend, houter, hparent, rfl⟩
        · exact h.endArgument_designates hfront (.inr rfl) hend
        · obtain ⟨hflush, hslot⟩ := (endArgument_eq_ok_iff ..).mp hend
          have hoffset : (s.see ')').pos - 1 = (s.see ')').start + span.length := h.pending.pos
          rw [hoffset, flush_eq_ok_iff (h.pending.see ')')] at hflush
          exact .inr (h.closeCall_designates hfront hflush hslot houter hparent)

/-! ## The end of the text -/

/-- A parenthesis has no partner in a text that can be completed without one. -/
theorem neverCloses_of_balanced {before more : Text} (hopens : Opens opener before rest)
    (hbalanced : Balanced (rest ++ more)) :
    NeverCloses opener (before ++ '(' :: rest) before.length := by
  refine ⟨before, rest, rfl, rfl, hopens, ?_⟩
  rintro inner later rfl hinner
  -- Two parentheses would be partners of the same one.
  have heq : inner ++ ')' :: (later ++ more ++ [')']) =
      inner ++ ')' :: later ++ more ++ ')' :: [] := by
    simp
  have hlength := congrArg List.length (hinner.eq_of_append hbalanced heq)
  simp only [List.length_append, List.length_cons] at hlength
  omega

end State

omit [Machine] in
/-- What is read of an argument is balanced with what follows. -/
theorem Begun.balanced_append {read rest : Text} (h : Begun rest read) (hrest : Balanced rest) :
    Balanced (read ++ rest) := by
  cases h with
  | trivia hread => exact hread.balanced_append hrest
  | token hbefore hfits hafter =>
    simpa using hbefore.balanced_append
      (Token.balanced_append hfits (hafter.balanced_append hrest))

omit [Machine] in
/-- What is read of an argument stays so if the text goes on in another way behind the same
character. -/
theorem Begun.congr {x y read : Text} (h : Begun x read) (hy : Text.word y = [])
    (hhead : x.head? = y.head?) : Begun y read := by
  cases h with
  | trivia hread => exact .trivia hread
  | @token before after token hbefore hfits hafter =>
    refine .token hbefore ?_ hafter
    cases token with
    | word chars =>
      rw [Token.Fits] at hfits ⊢
      refine ⟨hfits.1, Text.word_append_of_word hfits.2 (hafter.word_append hy) fun c hc d hd => ?_⟩
      have hnext : (after ++ x).head? = (after ++ y).head? := by
        rw [List.head?_append, List.head?_append, hhead]
      exact Text.isPair_of_word hfits.2 hc (hnext.trans hd)
    | call name blanks args =>
      rw [Token.Fits] at hfits ⊢
      exact hfits

namespace State

/-- The innermost open parenthesis has no partner if what is left of the text can be completed to
balanced text. -/
private theorem neverCloses_of_stack {read rest more : Text} {outer : List (Head × Frame)}
    {frame : Frame} (hfront : ∀ rest, Opens opener front rest)
    (h : Stack (front.length + 1) room outer frame read rest)
    (hbegun : ∀ current, Begun rest current → Begun (rest ++ more) current)
    (hbalanced : Balanced (rest ++ more)) :
    NeverCloses opener (front ++ '(' :: (read ++ rest)) frame.paren := by
  obtain ⟨outside, inner, heq, hopens, -, hparen, hframe⟩ := h.exists_open hfront
  obtain ⟨args, current, rfl, hfit, -, hslot⟩ := hframe.parts
  have hcurrent := (hbegun current hslot.begun).balanced_append hbalanced
  have hall : Balanced (args.leading ++ current ++ rest ++ more) := by
    simpa using ArgumentList.balanced_leading hfit hcurrent
  rw [hparen, ← List.cons_append, ← List.append_assoc, heq, List.append_assoc, List.cons_append]
  exact neverCloses_of_balanced (by simpa using hopens) hall

/-- Where the text ends, the innermost open parenthesis has no partner. -/
theorem Tracks.neverCloses (hfront : ∀ rest, Opens opener front rest)
    (h : Tracks (front.length + 1) s []) :
    NeverCloses opener (front ++ '(' :: s.seen.reverse) s.frame.paren := by
  cases h with
  | code read span h =>
    have hspan : Balanced (span ++ []) := by simpa using Balanced.of_plain h.plain
    rw [h.seen]
    exact neverCloses_of_stack hfront (by simpa using h.stack) (fun _ hread => by simpa using hread)
      hspan
  | block read body h =>
    -- The comment could come to an end.
    have hend : ¬ ['*', '/'] <:+: body ++ ['*'] := noEnd_concat h.noEnd fun _ => by decide
    have hcomment : Balanced ('/' :: '*' :: body ++ ['*', '/']) := by
      simpa using Balanced.comment (.block hend) .nil
    rw [h.seen]
    exact neverCloses_of_stack hfront (by simpa using h.stack)
      (fun _ hread => hread.congr (Text.word_pair _ rfl) rfl) hcomment
  | line read body h =>
    have hcomment : Balanced ('/' :: '/' :: body ++ ['\n']) := by
      simpa using Balanced.comment (.line h.noEnd) .nil
    rw [h.seen]
    exact neverCloses_of_stack hfront (by simpa using h.stack)
      (fun _ hread => hread.congr (Text.word_pair _ rfl) rfl) hcomment

/-! ## Runs -/

/-- The fault of a step designates what it names. -/
theorem Tracks.step_designates {failure : Failure} (hfront : ∀ rest, Opens opener front rest)
    (h : Tracks (front.length + 1) s (c :: rest)) (hparted : s.Parted)
    (herror : s.step c = .error failure) (hcause : failure.fault.cause ≠ .tooDeep) :
    Designates opener (front ++ '(' :: (s.seen.reverse ++ c :: rest)) keyCount
      failure.fault.offset failure.fault.cause := by
  have hcomment (hmode : s.mode.inCode = false) : False := by
    obtain ⟨t, hstep⟩ := step_comment hmode c
    rw [hstep] at herror
    cases herror
  cases h with
  | block _ _ h =>
    exact (hcomment (by rcases h.mode with ⟨hmode, -⟩ | ⟨hmode, -⟩ <;> rw [hmode] <;> rfl)).elim
  | line _ _ h => exact (hcomment (by rw [h.mode]; rfl)).elim
  | code read span h =>
    rw [h.seen]
    exact h.step_designates hfront hparted herror hcause

/-- The fault of a run from any state designates what it names. -/
private theorem scan_designates_go {text : Text} {failure : Failure}
    (hfront : ∀ rest, Opens opener front rest) (h : Tracks (front.length + 1) s text)
    (hparted : s.Parted) (herror : s.scan text = .error failure)
    (hcause : failure.fault.cause ≠ .tooDeep) :
    Designates opener (front ++ '(' :: (s.seen.reverse ++ text)) keyCount failure.fault.offset
      failure.fault.cause := by
  -- The induction is on what is left to read, with what is seen so far as the front of the text.
  induction text generalizing s with
  | nil =>
    obtain rfl := Except.error.inj herror
    rw [List.append_nil]
    exact h.neverCloses hfront
  | cons c rest ih =>
    rw [scan_cons] at herror
    split at herror
    · rename_i hstep
      obtain rfl := Except.error.inj herror
      exact h.step_designates hfront hparted hstep hcause
    · cases herror
    · rename_i t hstep
      have hrest := ih (h.step hstep) (h.parted hparted hstep) herror
      rw [(step_seen hstep).1] at hrest
      simpa using hrest

/-- The fault of scanning a layer designates what it names. -/
theorem scan_designates {body : Text} {failure : Failure} (hfront : ∀ rest, Opens opener front rest)
    (herror : (initial front.length).scan body = .error failure)
    (hcause : failure.fault.cause ≠ .tooDeep) :
    Designates opener (front ++ '(' :: body) keyCount failure.fault.offset failure.fault.cause :=
  scan_designates_go hfront (tracks_initial front.length body) (parted_initial _) herror hcause

end State

end Keymap
