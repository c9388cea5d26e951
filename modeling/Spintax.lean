import Spintax.Cache.Flight
import Spintax.Main
import Spintax.Metrics
import Spintax.Proofs.Cache.Refinement
import Spintax.Proofs.Selection.Fitting
import Spintax.Proofs.Template.Printing
import Spintax.Proofs.Cache.Losses
import Spintax.Proofs.Cache.Slots
import Spintax.Proofs.Cache.Outcomes
import Spintax.Proofs.Cache.SingleFlight
import Spintax.Proofs.Rendering.Routes
import Spintax.Proofs.Rendering.Counting
import Spintax.Proofs.Rendering.Shares
import Spintax.Proofs.Mailing.Drain
import Spintax.Proofs.Campaign.Accounts
import Spintax.Proofs.Cache.Balance
import Spintax.Proofs.Cache.Recency
import Spintax.Proofs.Cache.Agreement
import Spintax.Proofs.Template.Preorder
import Spintax.Proofs.Template.Faults
import Spintax.Proofs.Rendering.Visits
import Spintax.Proofs.Campaign.Conservation
import Spintax.Proofs.Mailing.Cancelling
import Spintax.Proofs.Mailing.Offices
import Spintax.Proofs.Rendering.Slots
import Spintax.Proofs.Mailing.Counters
import Spintax.Proofs.Campaign.Readings
import Spintax.Proofs.Command.Splitting
import Spintax.Proofs.Rendering.Pieces
import Spintax.Proofs.Template.Concatenation
import Spintax.Proofs.Mailing.Deliveries
import Spintax.Proofs.Metrics.Series
import Spintax.Proofs.Selection.Fairness
import Spintax.Proofs.Selection.Segments
import Spintax.Proofs.Cache.Purges
import Spintax.Proofs.Cache.Capacities
import Spintax.Proofs.Mailing.Portions
import Spintax.Proofs.Json.RoundTrip
import Spintax.Proofs.Mailing.Frames
import Spintax.Proofs.Json.Layout
import Spintax.Proofs.Campaign.Exports
import Spintax.Proofs.Mailing.Reports
import Spintax.Proofs.Config.Loading
