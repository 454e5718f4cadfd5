import Dropless.NoLoss
import Dropless.Fencing
import Dropless.FanOut
import Dropless.Probes
import Dropless.Budget
import Dropless.Stripe
import Dropless.Tokens
import Dropless.Tolerance
import Dropless.Sdk
import Dropless.Status
import Dropless.Performed
import Dropless.Admission
import Dropless.Resolution
import Dropless.Inbox
import Dropless.Replays
import Dropless.Subscribers
import Dropless.Scopes
import Dropless.Tenants
import Dropless.Outcomes
import Dropless.Notify
import Dropless.Paused
import Dropless.Shutdown
import Dropless.Recovery
import Dropless.Ledger
import Dropless.Acknowledged
import Dropless.Operator
