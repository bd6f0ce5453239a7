import Recurrence.Zone.Table
import Recurrence.Rule.Parser
import Recurrence.Expansion.Series
import Recurrence.Proofs.Expansion.ZonedWindow
import Recurrence.Proofs.Expansion.Safety
import Recurrence.Proofs.Expansion.Restart
import Recurrence.Proofs.Expansion.Jump
import Recurrence.Proofs.Expansion.WeekNumbers
import Recurrence.Proofs.Expansion.RankedDays
import Recurrence.Proofs.Expansion.Selection
import Recurrence.Proofs.Expansion.NamedDays
import Recurrence.Proofs.Expansion.Reordered
import Recurrence.Proofs.Expansion.Bounds
import Recurrence.Proofs.Expansion.Start
import Recurrence.Proofs.Expansion.Carried
import Recurrence.Proofs.Rule.RoundTrip
import Recurrence.Proofs.Rule.Location
import Recurrence.Proofs.Expansion.Views
import Recurrence.Proofs.Rule.Session
import Recurrence.Proofs.Rule.Outcome
import Recurrence.Proofs.Rule.UntilGrammar
import Recurrence.Proofs.Rule.Splitting
import Recurrence.Proofs.Rule.Layout
import Recurrence.Proofs.Rule.FirstOutside
