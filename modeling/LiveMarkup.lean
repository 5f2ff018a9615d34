import LiveMarkup.Heap.Document
import LiveMarkup.Proofs.Attributes
import LiveMarkup.Proofs.Bags
import LiveMarkup.Proofs.Caching
import LiveMarkup.Proofs.Clauses
import LiveMarkup.Proofs.Equality
import LiveMarkup.Proofs.Hooks
import LiveMarkup.Proofs.InSync
import LiveMarkup.Proofs.Ranges
import LiveMarkup.Proofs.ListChanges
import LiveMarkup.Proofs.Placement
import LiveMarkup.Proofs.Positions
import LiveMarkup.Proofs.ReservedWords
import LiveMarkup.Proofs.Secrecy
import LiveMarkup.Proofs.Separation
import LiveMarkup.Proofs.Silence
import LiveMarkup.Proofs.Slices
import LiveMarkup.Proofs.SlotTexts
import LiveMarkup.Proofs.Stacks
import LiveMarkup.Proofs.Verbatim
import LiveMarkup.Proofs.WriteBack
import LiveMarkup.Session.Inspect
