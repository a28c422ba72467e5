import HostNotify.Receiving
import HostNotify.Holdings
import HostNotify.Accounts
import HostNotify.Keeping
import HostNotify.Estates
import HostNotify.Bookkeeping
import HostNotify.Duties
import HostNotify.Rounds
import HostNotify.Errands
import HostNotify.Takeover
import HostNotify.Balance
import HostNotify.Handback
import HostNotify.Fencing
import HostNotify.Windows
import HostNotify.Resources
import HostNotify.Deadlock
import HostNotify.Interleaving.Alone
import HostNotify.Enabling
import HostNotify.QuietDrain
import HostNotify.Undisturbed
import HostNotify.Stock
import HostNotify.Retries
import HostNotify.Masking
import HostNotify.Recovery
import HostNotify.Rmi.Rotation
import HostNotify.RoutedPort
import HostNotify.Psmouse.Lifetimes
