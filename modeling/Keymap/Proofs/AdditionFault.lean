import Keymap.Edit
import Keymap.Template.Pattern
import Mathlib.Data.List.Infix

/-!
# How adding a layer fails

A layer is added to a text with or without a check of the result. The check never changes a result,
it only refuses one. Besides it nothing can fail but the label of the new layer, for which the
renderer may find a fault; then no layer is written, and the fault is not one of syntax.

## Key results

- `Template.addition_eq_error_iff` — what is added cannot be written exactly if the label cannot
- `addLayer_ends` — all ways in which adding a layer can end
- `addLayer_failures` — when adding a layer fails, and when it changes nothing
- `addLayer_lone_brace` — a label that fails without a check
-/

namespace Keymap

/-! ## What is added -/

/-- A layer that is added changes the text. -/
theorem Outline.extend_ne {outline : Outline} {addition : Text} (text : Text) (h : addition ≠ []) :
    outline.extend text addition ≠ text := by
  intro heq
  have hlength := congrArg List.length heq
  have hpos := List.length_pos_iff.mpr h
  simp only [extend, Text.splice, List.length_append, List.length_take, List.length_drop] at hlength
  omega

namespace Template

variable {template : Template} {renderer : Renderer} {outline : Outline}

/-- What is added to a text is written as soon as its label is. -/
theorem addition_of_label {label : Text}
    (hlabel : renderer outline.layerCount template.labelPattern = .ok label) :
    template.addition renderer outline = .ok (template.separator ++ (label ++
      marker template.opener ++ template.keys outline.keyCount ++ [')'])) := by
  rw [addition, write_of_label outline.keyCount hlabel]
  rfl

/-- What is added to a text cannot be written exactly if its label cannot. -/
theorem addition_eq_error_iff {fault : TemplateFault} :
    template.addition renderer outline = .error fault ↔
      ∃ reason, renderer outline.layerCount template.labelPattern = .error reason ∧
        fault = .label reason := by
  cases hlabel : renderer outline.layerCount template.labelPattern with
  | error reason =>
    have haddition : template.addition renderer outline = .error (.label reason) := by
      rw [addition, write, hlabel]
      rfl
    rw [haddition]
    simp [eq_comm]
  | ok label =>
    rw [addition_of_label hlabel]
    simp

/-- Something is added whenever it can be written: at least the parentheses of the layer. -/
theorem addition_ne_nil {addition : Text} (h : template.addition renderer outline = .ok addition) :
    addition ≠ [] := by
  cases hlabel : renderer outline.layerCount template.labelPattern with
  | error reason =>
    have herror := addition_eq_error_iff.mpr ⟨reason, hlabel, rfl⟩
    rw [h] at herror
    cases herror
  | ok label =>
    rw [addition_of_label hlabel] at h
    rw [← Except.ok.inj h]
    simp

end Template

/-! ## All ends -/

section

variable [Machine]

/-- All ways in which adding a layer to a text can end, without a check of the result and with
one. -/
inductive AdditionEnds (renderer : Renderer) (text : Text) (template : Template) :
    Except AdditionFault Text → Except AdditionFault Text → Prop where
  /-- The text does not parse and is left alone. -/
  | untouched {e : SyntaxError} : parse text none template.opener = .error e →
    AdditionEnds renderer text template (.ok text) (.ok text)
  /-- The label cannot be written. -/
  | unwritten {outline : Outline} {reason : PatternFault} :
    parse text none template.opener = .ok outline →
    renderer outline.layerCount template.labelPattern = .error reason →
    AdditionEnds renderer text template (.error (.template (.label reason)))
      (.error (.template (.label reason)))
  /-- The text with the layer parses, with as many keys in each layer as there were. -/
  | accepted {outline outline' : Outline} {addition : Text} :
    parse text none template.opener = .ok outline →
    template.addition renderer outline = .ok addition →
    parse (outline.extend text addition) (some outline.keyCount) template.opener = .ok outline' →
    AdditionEnds renderer text template (.ok (outline.extend text addition))
      (.ok (outline.extend text addition))
  /-- The text with the layer does not parse, which only the check finds out. -/
  | refused {outline : Outline} {addition : Text} {e : SyntaxError} :
    parse text none template.opener = .ok outline →
    template.addition renderer outline = .ok addition →
    parse (outline.extend text addition) (some outline.keyCount) template.opener = .error e →
    AdditionEnds renderer text template (.ok (outline.extend text addition)) (.error (.source e))

/-- Adding a layer ends in one of these ways. -/
theorem addLayer_ends (renderer : Renderer) (text : Text) (template : Template) :
    AdditionEnds renderer text template (addLayer renderer text template false)
      (addLayer renderer text template true) := by
  cases hparse : parse text none template.opener with
  | error e =>
    rw [addLayer_of_error renderer false hparse, addLayer_of_error renderer true hparse]
    exact .untouched hparse
  | ok outline =>
    -- Both runs write the same text, and only the check tells them apart.
    simp only [addLayer, hparse]
    cases haddition : template.addition renderer outline with
    | error fault =>
      obtain ⟨reason, hlabel, rfl⟩ := Template.addition_eq_error_iff.mp haddition
      exact .unwritten hparse hlabel
    | ok addition =>
      cases hedited : parse (outline.extend text addition) (some outline.keyCount)
          template.opener with
      | error e => simpa [hedited] using AdditionEnds.refused hparse haddition hedited
      | ok outline' => simpa [hedited] using AdditionEnds.accepted hparse haddition hedited

namespace AdditionEnds

variable {renderer : Renderer} {text : Text} {template : Template}
  {free checked : Except AdditionFault Text}

/-- Without a check only the label of a layer can fail, once the text has parsed. -/
theorem free_eq_error_iff (h : AdditionEnds renderer text template free checked)
    (fault : AdditionFault) : free = .error fault ↔
      ∃ outline reason, parse text none template.opener = .ok outline ∧
        renderer outline.layerCount template.labelPattern = .error reason ∧
        fault = .template (.label reason) := by
  cases h with
  | untouched hparse => simp [hparse]
  | unwritten hparse hlabel => simp [hparse, hlabel, eq_comm]
  | accepted hparse haddition _ | refused hparse haddition _ =>
    -- What is added has been written, so the label had no fault.
    refine iff_of_false (nomatch ·) ?_
    rintro ⟨outline', reason, hparse', hlabel, -⟩
    obtain rfl := Except.ok.inj (hparse.symm.trans hparse')
    have herror := Template.addition_eq_error_iff.mpr ⟨reason, hlabel, rfl⟩
    cases haddition.symm.trans herror

/-- The check refuses a result that does not parse, and nothing else. -/
theorem checked_eq_source_iff (h : AdditionEnds renderer text template free checked)
    (e : SyntaxError) : checked = .error (.source e) ↔
      ∃ outline edited, parse text none template.opener = .ok outline ∧ free = .ok edited ∧
        parse edited (some outline.keyCount) template.opener = .error e := by
  cases h with
  | untouched hparse => simp [hparse]
  | unwritten _ _ => simp
  | accepted hparse _ hedited => simp [hparse, hedited]
  | refused hparse _ hedited => simp [hparse, hedited]

/-- A check that refuses nothing makes no difference. -/
theorem checked_eq_free (h : AdditionEnds renderer text template free checked)
    (hsource : ∀ e, checked ≠ .error (.source e)) : checked = free := by
  cases h with
  | untouched _ | unwritten _ _ | accepted _ _ _ => rfl
  | @refused _ _ e _ _ _ => exact absurd rfl (hsource e)

/-- A result is the text itself exactly if the text does not parse. -/
theorem free_eq_text_iff (h : AdditionEnds renderer text template free checked) {edited : Text}
    (hfree : free = .ok edited) :
    edited = text ↔ ∃ e, parse text none template.opener = .error e := by
  cases h with
  | @untouched e hparse => exact iff_of_true (Except.ok.inj hfree).symm ⟨e, hparse⟩
  | unwritten _ _ => cases hfree
  | @accepted outline _ _ hparse haddition _ | @refused outline _ _ hparse haddition _ =>
    rw [← Except.ok.inj hfree]
    exact iff_of_false (outline.extend_ne text (Template.addition_ne_nil haddition))
      (by simp [hparse])

/-- A result with a check is one without it. -/
theorem free_of_checked (h : AdditionEnds renderer text template free checked) {edited : Text}
    (hchecked : checked = .ok edited) : free = .ok edited := by
  rw [← h.checked_eq_free (by simp [hchecked]), hchecked]

end AdditionEnds

/-- With a check or without one, a result is the text itself exactly if the text does not parse. -/
theorem eq_text_iff_of_addLayer {renderer : Renderer} {text edited : Text} {template : Template}
    {check : Bool} (h : addLayer renderer text template check = .ok edited) :
    edited = text ↔ ∃ e, parse text none template.opener = .error e := by
  have hends := addLayer_ends renderer text template
  cases check with
  | false => exact hends.free_eq_text_iff h
  | true => exact hends.free_eq_text_iff (hends.free_of_checked h)

/-! ## Failures -/

/-- When adding a layer to a text fails, and when it changes nothing. -/
structure AdditionFailures (renderer : Renderer) (text : Text) (template : Template) : Prop where
  /-- Without a check nothing fails but the label, and that only for a text that parses. -/
  unchecked : ∀ fault, addLayer renderer text template false = .error fault ↔
    ∃ outline reason, parse text none template.opener = .ok outline ∧
      renderer outline.layerCount template.labelPattern = .error reason ∧
      fault = .template (.label reason)
  /-- The check fails exactly if the text parses and the result, which is there without a check,
  does not parse with as many keys in each layer. It says what is wrong with the result. -/
  checked : ∀ e, addLayer renderer text template true = .error (.source e) ↔
    ∃ outline edited, parse text none template.opener = .ok outline ∧
      addLayer renderer text template false = .ok edited ∧
      parse edited (some outline.keyCount) template.opener = .error e
  /-- In every other case the check makes no difference. -/
  same : (∀ e, addLayer renderer text template true ≠ .error (.source e)) →
    addLayer renderer text template true = addLayer renderer text template false
  /-- A result is the text itself exactly if that does not parse. -/
  unchanged : ∀ check edited, addLayer renderer text template check = .ok edited →
    (edited = text ↔ ∃ e, parse text none template.opener = .error e)

/-- When adding a layer fails and when it changes nothing, for every renderer, every text and every
template. -/
theorem addLayer_failures (renderer : Renderer) (text : Text) (template : Template) :
    AdditionFailures renderer text template where
  unchecked := (addLayer_ends renderer text template).free_eq_error_iff
  checked := (addLayer_ends renderer text template).checked_eq_source_iff
  same := (addLayer_ends renderer text template).checked_eq_free
  unchanged _ _ := eq_text_iff_of_addLayer

end

open Usual

/-- A label that is a single brace fails without a check, although the text parses. -/
theorem addLayer_lone_brace :
    addLayer fill "KEYMAP(A)".toList { Template.standard with labelPattern := ['\x7b'] } false =
      .error (.template (.label .loneOpen)) := by
  decide +kernel

end Keymap
