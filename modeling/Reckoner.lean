import Reckoner.Main
import Reckoner.Proofs.Ascent
import Reckoner.Proofs.Canonical
import Reckoner.Proofs.Completion
import Reckoner.Proofs.Conversation
import Reckoner.Proofs.Drawing
import Reckoner.Proofs.Exchange
import Reckoner.Proofs.Inversion
import Reckoner.Proofs.Literals
import Reckoner.Proofs.Locale
import Reckoner.Proofs.Logging
import Reckoner.Proofs.LowestTerms
import Reckoner.Proofs.Nesting
import Reckoner.Proofs.Passage
import Reckoner.Proofs.Power
import Reckoner.Proofs.Progress
import Reckoner.Proofs.Recording
import Reckoner.Proofs.RoundTrip
import Reckoner.Proofs.Shape
import Reckoner.Proofs.Unchecked
import Reckoner.Proofs.Value
