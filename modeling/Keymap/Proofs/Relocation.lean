import Keymap.Proofs.Grammar

/-!
# Relocation

The same characters at another place of a text mean the same key with other offsets. Relocating a
key changes its offsets and nothing else.

## Key results

- `Token.relocate_key`, `ArgumentList.map_relocate_keys` — a token that is moved means the relocated
  key
- `Node.depth_relocate` — relocation keeps the depth of a key
-/

namespace Keymap

namespace Node

mutual

/-- The key with other offsets. -/
def relocate (f : Nat → Nat) : Key → Key
  | .word content offset stop => .word content (f offset) (f stop)
  | .call name params offset stop content =>
    .call name (relocateAll f params) (f offset) (f stop) content
  | .strange value => nomatch value

/-- Several keys with other offsets. -/
def relocateAll (f : Nat → Nat) : List Key → List Key
  | [] => []
  | key :: rest => relocate f key :: relocateAll f rest

end

theorem relocateAll_eq_map (f : Nat → Nat) (keys : List Key) :
    relocateAll f keys = keys.map (relocate f) := by
  induction keys with
  | nil => rfl
  | cons key rest ih => rw [relocateAll, ih, List.map_cons]

/-- The key moved to where `new` is, if it is thought of as standing where `old` is. -/
def shift (old new : Nat) (key : Key) : Key :=
  key.relocate fun offset => offset + new - old

/-- Only the distance of the two places matters for a move. -/
theorem shift_congr {old new old' new' : Nat} (h : old + new' = old' + new) (key : Key) :
    key.shift old new = key.shift old' new' := by
  have hf : (fun offset => offset + new - old) = fun offset => offset + new' - old' := by
    funext offset
    omega
  rw [shift, shift, hf]

@[simp] theorem content_relocate (f : Nat → Nat) (key : Key) :
    (key.relocate f).content = key.content := by
  cases key with
  | word | call => rfl
  | strange value => exact nomatch value

@[simp] theorem offset_relocate (f : Nat → Nat) (key : Key) :
    (key.relocate f).offset = f key.offset := by
  cases key with
  | word | call => rfl
  | strange value => exact nomatch value

@[simp] theorem stop_relocate (f : Nat → Nat) (key : Key) :
    (key.relocate f).stop = f key.stop := by
  cases key with
  | word | call => rfl
  | strange value => exact nomatch value

mutual

/-- Relocation keeps the depth of a key. -/
theorem depth_relocate (f : Nat → Nat) (key : Key) : (key.relocate f).depth = key.depth := by
  match key with
  | .word .. => rfl
  | .call name params offset stop content =>
    rw [relocate, depth, depth, depthAll_relocateAll f params]
  | .strange value => exact nomatch value

theorem depthAll_relocateAll (f : Nat → Nat) (keys : List Key) :
    depthAll (relocateAll f keys) = depthAll keys := by
  match keys with
  | [] => rfl
  | key :: rest =>
    rw [relocateAll, depthAll, depthAll, depth_relocate f key, depthAll_relocateAll f rest]

end

end Node

mutual

/-- A token that is moved means the relocated key. -/
theorem Token.relocate_key {f : Nat → Nat} {pos pos' : Nat} (hf : ∀ n, f (pos + n) = pos' + n)
    (token : Token) : (token.key pos).relocate f = token.key pos' := by
  have hpos : f pos = pos' := hf 0
  match token with
  | .word chars => rw [Token.key, Token.key, Node.relocate, hf, hpos]
  | .call name blanks args =>
    have hinner (n : Nat) : f (pos + name.length + blanks.length + 1 + n) =
        pos' + name.length + blanks.length + 1 + n := by
      simpa only [Nat.add_assoc] using hf (name.length + blanks.length + 1 + n)
    have hargs := ArgumentList.relocateAll_keys hinner args
    rw [Token.key, Token.key, Node.relocate, hargs, hf, hpos]

/-- Arguments that are moved mean the relocated keys. -/
theorem ArgumentList.relocateAll_keys {f : Nat → Nat} {pos pos' : Nat}
    (hf : ∀ n, f (pos + n) = pos' + n) (args : ArgumentList) :
    Node.relocateAll f (args.keys pos) = args.keys pos' := by
  match args with
  | [] => rfl
  | ⟨before, token, after⟩ :: rest =>
    have hat (n : Nat) : f (pos + before.length + n) = pos' + before.length + n := by
      simpa only [Nat.add_assoc] using hf (before.length + n)
    have hbehind (n : Nat) :
        f (pos + before.length + token.text.length + after.length + 1 + n) =
          pos' + before.length + token.text.length + after.length + 1 + n := by
      simpa only [Nat.add_assoc] using
        hf (before.length + token.text.length + after.length + 1 + n)
    have htoken := Token.relocate_key hat token
    have hrest := ArgumentList.relocateAll_keys hbehind rest
    rw [ArgumentList.keys, ArgumentList.keys, Node.relocateAll, htoken, hrest]

end

/-- Arguments that are moved mean the relocated keys. -/
theorem ArgumentList.map_relocate_keys {f : Nat → Nat} {pos pos' : Nat}
    (hf : ∀ n, f (pos + n) = pos' + n) (args : ArgumentList) :
    (args.keys pos).map (Node.relocate f) = args.keys pos' := by
  rw [← Node.relocateAll_eq_map, relocateAll_keys hf]

/-- The depth of keys does not depend on where they stand. -/
theorem ArgumentList.depthAll_keys (args : ArgumentList) (pos pos' : Nat) :
    Node.depthAll (args.keys pos) = Node.depthAll (args.keys pos') := by
  have hf (n : Nat) : pos + n + pos' - pos = pos' + n := by omega
  rw [← relocateAll_keys (f := fun offset => offset + pos' - pos) hf args,
    Node.depthAll_relocateAll]

/-- The depth of a key does not depend on where it stands. -/
theorem Token.depth_key (token : Token) (pos pos' : Nat) :
    (token.key pos).depth = (token.key pos').depth := by
  have hf (n : Nat) : pos + n + pos' - pos = pos' + n := by omega
  rw [← relocate_key (f := fun offset => offset + pos' - pos) hf token, Node.depth_relocate]

/-- The key of a token moves with the token. -/
theorem Token.shift_key (token : Token) (old new n : Nat) :
    (token.key (old + n)).shift old new = token.key (new + n) :=
  relocate_key (fun m => by omega) token

end Keymap
