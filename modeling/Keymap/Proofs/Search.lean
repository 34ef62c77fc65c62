import Keymap.Layer.Invocation
import Mathlib.Data.List.Infix

/-!
# Leftmost places

Where a mark stands in a text for the first time. Only the text up to there and all but the last
character of the mark matter for this, whatever comes behind them.

## Key results

- `leftmost_iff` — a mark stands nowhere before if it does not stand in the text up to its last
  character
- `eq_of_leftmost` — there is one leftmost place
- `marker_not_within` — no marker comes about before the opener of a layer
- `seek_concat_eq_some_iff` — a search finds the leftmost place of a mark
-/

namespace Keymap

/-- A mark stands nowhere before a place exactly if it does not stand in the text up to there with
all but the last character of the mark. -/
theorem leftmost_iff (mark : Text) (last : Char) (gap rest : Text) :
    (∀ before after,
      gap ++ (mark ++ [last]) ++ rest = before ++ (mark ++ [last]) ++ after →
      gap.length ≤ before.length) ↔ ¬ mark ++ [last] <:+: gap ++ mark := by
  constructor
  · intro h hwithin
    obtain ⟨before, after, heq⟩ := hwithin
    have hlength : before.length < gap.length := by
      have := congrArg List.length heq
      simp only [List.length_append, List.length_singleton] at this
      omega
    have hle := h before (after ++ last :: rest) (by
      have hgap : gap ++ (mark ++ [last]) ++ rest = gap ++ mark ++ last :: rest := by simp
      rw [hgap, ← heq, List.append_assoc (before ++ _)])
    omega
  · intro h before after heq
    rw [← Nat.not_lt]
    intro hlt
    -- An earlier place would lie within the gap and the mark.
    have hstarts : before ++ (mark ++ [last]) <+: gap ++ mark := by
      have hlong : before ++ (mark ++ [last]) <+: gap ++ (mark ++ [last]) ++ rest :=
        ⟨after, heq.symm⟩
      refine List.prefix_of_prefix_length_le hlong ⟨last :: rest, by simp⟩ ?_
      simp only [List.length_append, List.length_singleton]
      omega
    exact h ((List.suffix_append before (mark ++ [last])).isInfix.trans hstarts.isInfix)

/-- There is one leftmost place of a mark. -/
theorem eq_of_leftmost (mark : Text) {a b x y : Text} {last : Char}
    (ha : ¬ mark ++ [last] <:+: a ++ mark) (hb : ¬ mark ++ [last] <:+: b ++ mark)
    (heq : a ++ (mark ++ [last]) ++ x = b ++ (mark ++ [last]) ++ y) : a = b := by
  have hab := (leftmost_iff mark last a x).mpr ha b y heq
  have hba := (leftmost_iff mark last b y).mpr hb a x heq.symm
  rw [List.append_assoc a, List.append_assoc b] at heq
  exact (List.append_inj heq (Nat.le_antisymm hab hba)).1

/-- No marker comes about before the opener of a layer if there is no parenthesis before it. -/
theorem marker_not_within {opener gap : Text} (hgap : '(' ∉ gap) :
    ¬ marker opener <:+: gap ++ opener := by
  intro hwithin
  -- The marker holds one parenthesis more than the opener.
  have hcount := hwithin.sublist.count_le '('
  rw [marker, List.count_append, List.count_append, List.count_eq_zero_of_not_mem hgap,
    List.count_singleton_self] at hcount
  omega

/-- A search finds the first place at which a mark stands. -/
theorem seek_concat_eq_some_iff (mark : Text) (last : Char) (pos : Nat) (text : Text) (start : Nat)
    (body : Text) :
    seek (mark ++ [last]) pos text = some (start, body) ↔
      ∃ gap, text = gap ++ (mark ++ [last]) ++ body ∧ start = pos + gap.length ∧
        ¬ mark ++ [last] <:+: gap ++ mark := by
  induction text generalizing pos with
  | nil =>
    simp only [seek, reduceCtorEq, false_iff]
    intro hparts
    obtain ⟨gap, heq, -⟩ := hparts
    simp at heq
  | cons c rest ih =>
    rw [seek]
    split <;> rename_i hstarts
    · -- The mark stands right here.
      rw [List.isPrefixOf_iff_prefix] at hstarts
      constructor
      · intro h
        obtain ⟨rfl, rfl⟩ := Prod.mk.inj (Option.some.inj h)
        refine ⟨[], ?_, rfl, fun hwithin => ?_⟩
        · obtain ⟨after, heq⟩ := hstarts
          rw [← heq, List.drop_left, List.nil_append]
        · have := hwithin.length_le
          simp only [List.nil_append, List.length_append, List.length_singleton] at this
          omega
      · intro hparts
        obtain ⟨gap, heq, rfl, hgap⟩ := hparts
        cases gap with
        | nil =>
          rw [List.nil_append] at heq
          rw [heq, List.drop_left, List.length_nil, Nat.add_zero]
        | cons d gap =>
          obtain ⟨after, heq'⟩ := hstarts
          have hle := (leftmost_iff mark last (d :: gap) body).mpr hgap [] after
            (heq.symm.trans heq'.symm)
          exact absurd hle (by simp)
    · -- It stands later if at all.
      rw [List.isPrefixOf_iff_prefix] at hstarts
      rw [ih]
      constructor
      · intro hparts
        obtain ⟨gap, heq, rfl, hgap⟩ := hparts
        refine ⟨c :: gap, by rw [heq]; rfl, by rw [List.length_cons]; omega, ?_⟩
        rw [List.cons_append, List.infix_cons_iff, not_or]
        refine ⟨fun hstart => hstarts (hstart.trans ?_), hgap⟩
        rw [heq]
        exact ⟨last :: body, by simp⟩
      · intro hparts
        obtain ⟨gap, heq, rfl, hgap⟩ := hparts
        cases gap with
        | nil => exact absurd ⟨body, heq.symm⟩ hstarts
        | cons d gap =>
          obtain ⟨rfl, heq'⟩ := List.cons.inj heq
          refine ⟨gap, heq', by rw [List.length_cons]; omega, fun hwithin => hgap ?_⟩
          exact hwithin.trans (List.suffix_cons c (gap ++ mark)).isInfix

/-- A search finds the first place at which the marker stands. -/
theorem seek_eq_some_iff (opener : Text) (pos : Nat) (text : Text) (start : Nat) (body : Text) :
    seek (marker opener) pos text = some (start, body) ↔
      ∃ gap, text = gap ++ marker opener ++ body ∧ start = pos + gap.length ∧
        ¬ marker opener <:+: gap ++ opener :=
  seek_concat_eq_some_iff opener '(' pos text start body

end Keymap
