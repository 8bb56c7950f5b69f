import SyscallThrottling.Impl.System
import SyscallThrottling.Lemmas.SyscallRegistry
import SyscallThrottling.Lemmas.Registered
import SyscallThrottling.Lemmas.Elapsed
import SyscallThrottling.Lemmas.Listing
import SyscallThrottling.Lemmas.Unload
import SyscallThrottling.Lemmas.Load
import SyscallThrottling.Lemmas.Authority
import SyscallThrottling.Lemmas.Fetch
import SyscallThrottling.Lemmas.Balance
import SyscallThrottling.Lemmas.Window
import SyscallThrottling.Lemmas.Timer
import SyscallThrottling.Lemmas.Wakeup
import SyscallThrottling.Lemmas.Lookup
import SyscallThrottling.Lemmas.Sequential
import SyscallThrottling.Lemmas.Record
import SyscallThrottling.Lemmas.Scan
import SyscallThrottling.Lemmas.Reclaim
import SyscallThrottling.Lemmas.Stale
import SyscallThrottling.Lemmas.BlockedPeak
import SyscallThrottling.Lemmas.Mean
import SyscallThrottling.Lemmas.Vtpmo
import SyscallThrottling.Lemmas.Finder
import SyscallThrottling.Lemmas.Dispatch
import SyscallThrottling.Lemmas.Linear
import SyscallThrottling.Lemmas.Liveness
import SyscallThrottling.Lemmas.Release
import SyscallThrottling.Lemmas.Rate
import SyscallThrottling.Lemmas.Delay
import SyscallThrottling.Lemmas.Protect
import SyscallThrottling.Lemmas.Menu
import SyscallThrottling.Lemmas.Custody
