import Boomerangz.Control.Agreement
import Boomerangz.Daemon.Current
import Boomerangz.Daemon.Delivered
import Boomerangz.Daemon.LockScopes
import Boomerangz.Daemon.Logged
import Boomerangz.Daemon.Reload
import Boomerangz.Daemon.Remembered
import Boomerangz.Daemon.Repeated
import Boomerangz.Daemon.Reports
import Boomerangz.Daemon.Targets
import Boomerangz.Daemon.Turns
import Boomerangz.Daemon.Undercut
import Boomerangz.Daemon.Wakeups
import Boomerangz.Discovery.Sparse
import Boomerangz.Lifecycle.Forgotten
import Boomerangz.Lifecycle.Gate
import Boomerangz.Lifecycle.Grace
import Boomerangz.Lifecycle.Tenure
import Boomerangz.Lifecycle.Unexposed
import Boomerangz.Lifecycle.Wider
import Boomerangz.Lifecycle.Written
import Boomerangz.Migrate.Lossless
import Boomerangz.Policy.Canonical
import Boomerangz.Replication.Confined
import Boomerangz.Replication.Ssh
import Boomerangz.Transfer.Bound
import Boomerangz.Transfer.Reserved
import Boomerangz.Transfer.Resumed
import Boomerangz.Transfer.Streams
import Boomerangz.Transfer.Verified
import Boomerangz.Zfs.Inventory
import Boomerangz.Zfs.Permissions
