import Keymap.Proofs.Source

/-!
# Values that stand alone

A value may be tried out on its own, as the only key of a layer. Whether it is one there does not
depend on the opener, and says of the value that it is one argument of the grammar.

## Key results

- `parse_sole_eq_ok_iff` — which layers with one key are invocations of a value
- `standalone_iff` — a value stands alone exactly if it is an argument that fits
- `exact_iff` — a value is exactly a key if it is a token that fits
-/

namespace Keymap

/-! ## Single layers -/

variable [Machine]

/-- Arguments behind a marker are a layer of their own, whatever comes behind that is no layer. -/
theorem parse_arguments {opener tail : Text} {keyCount : Option Int} {args : ArgumentList}
    (hne : args ≠ []) (hfit : args.Fit) (hdepth : Node.depthAll (args.keys 0) ≤ nestingLimit)
    (htail : ¬ marker opener <:+: tail) (hcount : ∀ expected ∈ keyCount, expected = args.length) :
    parse (marker opener ++ args.text ++ tail) keyCount opener =
      .ok ⟨[args.keys (marker opener).length], (marker opener ++ args.text).length⟩ := by
  refine (parse_eq_ok_iff ..).mpr
    ⟨⟨[⟨[], args⟩], tail⟩, args.length, ⟨by simp, ?_, by simp, htail⟩, hcount, ?_, ?_⟩
  · rw [List.forall_mem_singleton]
    exact ⟨marker_not_within (by simp), hne, hfit, hdepth⟩
  · simp [Source.text, Passage.text]
  · simp [Source.outline, invocations, Passage.invocation, Passage.keys, Passage.text]

/-- The invocation of a value is a single layer with one key exactly if the value begins with an
argument that fits and goes on with the text behind the closing parenthesis. -/
theorem parse_sole_eq_ok_iff (opener body : Text) (key : Key) (stop : Nat) :
    parse (marker opener ++ body) none opener = .ok ⟨[[key]], stop⟩ ↔
      ∃ (arg : Argument Token) (tail : Text), arg.Fits ∧
        (arg.token.key 0).depth ≤ nestingLimit ∧ ¬ marker opener <:+: tail ∧
        body = arg.text ++ ')' :: tail ∧
        key = arg.token.key ((marker opener).length + arg.before.length) ∧
        stop = (marker opener ++ arg.text ++ [')']).length := by
  constructor
  · intro h
    obtain ⟨⟨passages, tail⟩, size, hfits, -, htext, houtline⟩ := (parse_eq_ok_iff ..).mp h
    obtain ⟨hlayers, hstop⟩ := Outline.mk.inj houtline
    -- There is one passage with one argument.
    have hsizes := Source.map_length_layers opener ⟨passages, tail⟩
    rw [Source.outline, ← hlayers] at hsizes
    obtain ⟨⟨gap, args⟩, rfl, hone⟩ := List.map_eq_singleton_iff.mp hsizes.symm
    obtain ⟨arg, rfl⟩ := List.length_eq_one_iff.mp hone
    have hpassage := hfits.passages ⟨gap, [arg]⟩ (List.mem_singleton_self _)
    have hsplit : gap ++ marker opener ++ (arg.text ++ ')' :: tail) =
        [] ++ marker opener ++ body := by
      simpa [Source.text, Passage.text, closer] using htext.symm
    -- Nothing stands before the marker, because the text begins with it.
    have hgap : gap = [] :=
      List.eq_nil_of_length_eq_zero (Nat.le_zero.mp
        ((leftmost_iff opener '(' gap _).mpr hpassage.gap [] _ hsplit))
    subst hgap
    have hkey : [key] = [arg.token.key ((marker opener).length + arg.before.length)] := by
      simpa [invocations, Passage.invocation, Passage.keys] using hlayers
    refine ⟨arg, tail, by simpa using hpassage.args, ?_, hfits.tail,
      (List.append_cancel_left hsplit).symm, (List.cons.inj hkey).1, ?_⟩
    · simpa [Node.depthAll, Token.depth_key _ _ 0] using hpassage.depth
    · rw [hstop]
      simp [Passage.text, closer]
  · intro hparts
    obtain ⟨arg, tail, hfits, hdepth, htail, rfl, rfl, rfl⟩ := hparts
    have hargs : ArgumentList.text [arg] = arg.text ++ [')'] := by simp [closer]
    have hsole := @parse_arguments _ opener tail none [arg] (by simp) (by simpa using hfits)
      (by simpa [Node.depthAll, Token.depth_key _ _ 0] using hdepth) htail (by simp)
    simpa [hargs] using hsole

/-! ## Values -/

/-- A value that is the only key of a layer, and all of the layer. -/
def Standalone (opener value : Text) (key : Key) : Prop :=
  parse (marker opener ++ value ++ [')']) none opener =
    .ok ⟨[[key]], (marker opener ++ value ++ [')']).length⟩

/-- A value stands alone exactly if it is an argument that fits and is not too deep, whatever the
opener. -/
theorem standalone_iff (opener value : Text) (key : Key) :
    Standalone opener value key ↔
      ∃ arg : Argument Token, arg.Fits ∧ (arg.token.key 0).depth ≤ nestingLimit ∧
        value = arg.text ∧ key = arg.token.key ((marker opener).length + arg.before.length) := by
  rw [Standalone, List.append_assoc, parse_sole_eq_ok_iff]
  constructor
  · intro hparts
    obtain ⟨arg, tail, hfits, hdepth, -, hvalue, hkey, hstop⟩ := hparts
    refine ⟨arg, hfits, hdepth, ?_, hkey⟩
    -- Nothing stands behind the closing parenthesis, because the layer ends there.
    have hlength := congrArg List.length hvalue
    simp only [List.length_append, List.length_cons, List.length_nil] at hlength hstop
    exact (List.append_inj hvalue (by omega)).1
  · intro hparts
    obtain ⟨arg, hfits, hdepth, rfl, rfl⟩ := hparts
    exact ⟨arg, [], hfits, hdepth, by simp [marker], rfl, rfl, by simp⟩

/-- A value of which a layer makes one key that holds all of it. -/
def Exact (opener value : Text) : Prop :=
  ∃ key stop, parse (marker opener ++ value ++ [')']) none opener = .ok ⟨[[key]], stop⟩ ∧
    key.content = value

/-- A value is exactly a key if it is a token that fits and is not too deep, whatever the opener. -/
theorem exact_iff (opener value : Text) :
    Exact opener value ↔
      ∃ token : Token, token.Fits [] ∧ (token.key 0).depth ≤ nestingLimit ∧
        value = token.text := by
  simp only [Exact, List.append_assoc, parse_sole_eq_ok_iff]
  constructor
  · intro hparts
    obtain ⟨key, stop, ⟨arg, tail, hfits, hdepth, -, hvalue, rfl, -⟩, hcontent⟩ := hparts
    rw [Token.content_key] at hcontent
    -- The value has no room for anything else.
    have hlength := congrArg List.length hvalue
    rw [← hcontent] at hlength
    simp only [Argument.text, List.length_append, List.length_cons, List.length_nil] at hlength
    have hafter : arg.after = [] := List.eq_nil_of_length_eq_zero (by omega)
    obtain ⟨-, htoken, -⟩ := hfits
    rw [hafter] at htoken
    exact ⟨arg.token, htoken, hdepth, hcontent.symm⟩
  · intro hparts
    obtain ⟨token, hfits, hdepth, rfl⟩ := hparts
    refine ⟨_, _, ⟨⟨[], token, []⟩, [], ⟨.nil, hfits, .nil⟩, hdepth, by simp [marker], ?_, rfl,
      rfl⟩, Token.content_key _ _⟩
    simp [Argument.text]

end Keymap
