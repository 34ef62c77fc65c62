import Keymap.Evaluate
import Keymap.Main
import Keymap.Node.Summary
import Keymap.Proofs.AddLayer
import Keymap.Proofs.AdditionFault
import Keymap.Proofs.AllOrNothing
import Keymap.Proofs.AnyValue
import Keymap.Proofs.Blanking
import Keymap.Proofs.ByteExact
import Keymap.Proofs.CallOrder
import Keymap.Proofs.Causality
import Keymap.Proofs.Dump
import Keymap.Proofs.Evaluation
import Keymap.Proofs.Language
import Keymap.Proofs.Layout
import Keymap.Proofs.LineEndings
import Keymap.Proofs.Listing
import Keymap.Proofs.LoopInvariant
import Keymap.Proofs.NothingChanged
import Keymap.Proofs.Report
import Keymap.Proofs.Resumption
import Keymap.Proofs.Session
import Keymap.Proofs.SetKey
import Keymap.Proofs.Spacing
import Keymap.Proofs.WriteLaws
