import Keymap.Proofs.Source

/-!
# The language of source texts

Which texts parse, and what they mean, said of the characters alone: where the invocations of a
text begin, how the characters behind each of them derive arguments, and which keys those are.
Parsing accepts exactly this language, as long as calls do not stand too deeply in each other, and
gives exactly these keys.

## Key results

- `parse_eq_ok_iff_means` — a text parses to an outline exactly if that is what it means
-/

namespace Keymap

/-! ## Derivations -/

/-- The invocations that a text beginning at the offset `pos` derives. Each begins at the leftmost
marker that is not part of an earlier one, and the characters after the marker derive at least one
argument and the closing parenthesis. No marker stands after the last one. -/
inductive Derives (opener : Text) : Nat → Text → List Invocation → Prop where
  | done {pos : Nat} {tail : Text} :
      (∀ before after, tail ≠ before ++ marker opener ++ after) → Derives opener pos tail []
  | next {pos : Nat} {gap rest : Text} {args : ArgumentList} {later : List Invocation} :
      (∀ before after,
        gap ++ marker opener ++ (args.text ++ rest) = before ++ marker opener ++ after →
        gap.length ≤ before.length) →
      args ≠ [] → args.Fit →
      Derives opener (pos + (gap ++ marker opener ++ args.text).length) rest later →
      Derives opener pos (gap ++ marker opener ++ (args.text ++ rest))
        (⟨pos + gap.length, args.keys (pos + gap.length + (marker opener).length),
          pos + (gap ++ marker opener ++ args.text).length⟩ :: later)

/-- A text that is expected to have a number of keys in each layer means an outline: it derives at
least one invocation, all have the same number of keys, which is the expected one if there is one,
and the outline holds their keys and the end of the last of them. -/
structure Means (opener : Text) (keyCount : Option Int) (text : Text) (outline : Outline) :
    Prop where
  derives : ∃ found, Derives opener 0 text found ∧ outline.layers = found.map (·.keys) ∧
    found.getLast?.map (·.stop) = some outline.stop
  even : ∀ a ∈ outline.layers, ∀ b ∈ outline.layers, a.length = b.length
  count : ∀ expected ∈ keyCount, ∀ layer ∈ outline.layers, (layer.length : Int) = expected

/-! ## Derivations and passages -/

variable [Machine]

namespace Derives

variable {opener : Text}

/-- Passages that fit are a derivation. -/
theorem of_passages {passages : List Passage} {tail : Text} (pos : Nat)
    (hfits : ∀ passage ∈ passages, passage.Fits opener) (htail : ¬ marker opener <:+: tail) :
    Derives opener pos (passagesText opener passages ++ tail)
      (invocations opener pos passages) := by
  induction passages generalizing pos with
  | nil =>
    apply Derives.done
    intro before after heq
    exact htail ⟨before, after, heq.symm⟩
  | cons passage rest ih =>
    obtain ⟨hpassage, hrest⟩ := List.forall_mem_cons.mp hfits
    have htext : passagesText opener (passage :: rest) ++ tail =
        passage.gap ++ marker opener ++
          (passage.args.text ++ (passagesText opener rest ++ tail)) := by
      rw [passagesText_cons, Passage.text]
      simp only [List.append_assoc]
    rw [htext, invocations]
    exact .next ((leftmost_iff ..).mpr hpassage.gap) hpassage.args_ne_nil hpassage.args
      (ih _ hrest)

/-- A derivation consists of passages that fit, if its keys are not too deep. -/
theorem exists_passages {pos : Nat} {text : Text} {found : List Invocation}
    (h : Derives opener pos text found)
    (hdepth : ∀ layer ∈ found, Node.depthAll layer.keys ≤ nestingLimit) :
    ∃ passages tail, text = passagesText opener passages ++ tail ∧
      (∀ passage ∈ passages, passage.Fits opener) ∧ ¬ marker opener <:+: tail ∧
      found = invocations opener pos passages := by
  induction h with
  | @done pos tail hnone =>
    refine ⟨[], tail, rfl, nofun, ?_, rfl⟩
    intro hparts
    obtain ⟨before, after, heq⟩ := hparts
    exact hnone before after heq.symm
  | @next pos gap rest args later hleft hne hfit _ ih =>
    obtain ⟨hfirst, hlater⟩ := List.forall_mem_cons.mp hdepth
    obtain ⟨passages, tail, rfl, hfits, htail, rfl⟩ := ih hlater
    rw [ArgumentList.depthAll_keys args _ 0] at hfirst
    have hpassage : Passage.Fits opener ⟨gap, args⟩ :=
      ⟨(leftmost_iff ..).mp hleft, hne, hfit, hfirst⟩
    refine ⟨⟨gap, args⟩ :: passages, tail, ?_, List.forall_mem_cons.mpr ⟨hpassage, hfits⟩,
      htail, rfl⟩
    rw [passagesText_cons, Passage.text]
    simp only [List.append_assoc]

end Derives

/-! ## Parsing -/

/-- A text parses to an outline exactly if that is what the text means and no call stands too
deeply in others. -/
theorem parse_eq_ok_iff_means (text : Text) (keyCount : Option Int) (opener : Text)
    (outline : Outline) :
    parse text keyCount opener = .ok outline ↔
      Means opener keyCount text outline ∧
        ∀ layer ∈ outline.layers, Node.depthAll layer ≤ nestingLimit := by
  rw [parse_eq_ok_iff]
  constructor
  · intro hparts
    obtain ⟨source, size, hfits, hcount, rfl, rfl⟩ := hparts
    have hsizes := (source.forall_length_layers_iff opener size).mpr hfits.size
    have hstop := map_stop_invocations opener 0 hfits.passages_ne_nil
    rw [Nat.zero_add] at hstop
    -- Passages derive their invocations, and the sizes are those of the source.
    refine ⟨⟨⟨_, .of_passages 0 hfits.passages hfits.tail, rfl, hstop⟩, ?_, ?_⟩,
      hfits.depth_layers⟩
    · intro a ha b hb
      rw [hsizes a ha, hsizes b hb]
    · intro expected hexpected layer hlayer
      rw [hsizes layer hlayer, hcount expected hexpected]
  · intro hparts
    obtain ⟨⟨⟨found, hderives, hlayers, hstop⟩, heven, hcount⟩, hdepth⟩ := hparts
    -- Conversely, what is derived within the limit of nesting is that of passages.
    obtain ⟨passages, tail, rfl, hfits, htail, rfl⟩ := hderives.exists_passages
      (by rwa [hlayers, List.forall_mem_map] at hdepth)
    have hne : passages ≠ [] := by
      rintro rfl
      exact nomatch hstop
    have heq : outline = Source.outline opener ⟨passages, tail⟩ := by
      have hend := map_stop_invocations opener 0 hne
      rw [hstop, Nat.zero_add] at hend
      rw [Source.outline, ← hlayers, ← Option.some.inj hend]
    -- The size of the layers is that of the first one.
    obtain ⟨first, later, hfirst⟩ := List.exists_cons_of_ne_nil hne
    have hmem : (first.keys opener 0) ∈ outline.layers := by
      rw [hlayers, hfirst]
      exact List.mem_cons_self
    refine ⟨⟨passages, tail⟩, (first.keys opener 0).length, ⟨hne, hfits, ?_, htail⟩, ?_, rfl, heq⟩
    · rw [← Source.forall_length_layers_iff, ← heq]
      exact fun layer hlayer => heven layer hlayer _ hmem
    · exact fun expected hexpected => (hcount expected hexpected _ hmem).symm

end Keymap
