import WatchList.Main
import WatchList.Catalog.Shelf
import WatchList.Proofs.RoundTrip
import WatchList.Proofs.Isolation
import WatchList.Proofs.History
import WatchList.Proofs.Revisions
import WatchList.Proofs.Agreement
import WatchList.Proofs.Custody
import WatchList.Proofs.Lowering
import WatchList.Proofs.Sounding
import WatchList.Proofs.Marking
import WatchList.Proofs.Latest
import WatchList.Proofs.Ordinals
import WatchList.Proofs.CleanTitles
import WatchList.Proofs.Tidiness
import WatchList.Proofs.Alignment
import WatchList.Proofs.Company
import WatchList.Proofs.Repetition
import WatchList.Proofs.Summaries
import WatchList.Proofs.Attempts
import WatchList.Proofs.Concord
import WatchList.Proofs.Coherence
import WatchList.Proofs.Seams
import WatchList.Proofs.Finality
import WatchList.Proofs.Spacing
import WatchList.Proofs.Recognition
import WatchList.Proofs.Silence
import WatchList.Proofs.PlainTitles
import WatchList.Proofs.PlainLists
import WatchList.Proofs.Renaming
import WatchList.Proofs.Respelling
import WatchList.Proofs.Margins
import WatchList.Proofs.Extraction
import WatchList.Proofs.Nameless
import WatchList.Proofs.Pruning
import WatchList.Proofs.Finding
import WatchList.Proofs.Leftovers
import WatchList.Proofs.Recasing
import WatchList.Proofs.TitleLists
import WatchList.Proofs.Ordering
import WatchList.Proofs.Stretches
import WatchList.Proofs.Respacing
import WatchList.Proofs.Documents
import WatchList.Proofs.Saving
import WatchList.Proofs.NormalForms
import WatchList.Proofs.Offsets
import WatchList.Proofs.Pairing
import WatchList.Proofs.Searching
import WatchList.Proofs.Bounds
