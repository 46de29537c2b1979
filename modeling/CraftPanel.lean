import CraftPanel.Ops.Workers
import CraftPanel.Supervise.Delivery
import CraftPanel.Console.Once
import CraftPanel.Console.Listening
import CraftPanel.Servers.Watching
import CraftPanel.Drive.Sparing
import CraftPanel.Backups.Saving
import CraftPanel.Servers.Registry
import CraftPanel.Backups.Unrolling
import CraftPanel.Drive.Fetching
import CraftPanel.Drive.Confirming
import CraftPanel.Backups.Removing
import CraftPanel.Backups.Entries
import CraftPanel.Backups.Schedule
import CraftPanel.Drive.Disconnecting
import CraftPanel.Ops.Admission
import CraftPanel.Ops.Transactions
import CraftPanel.Servers.Deleting
import CraftPanel.Servers.Launching
import CraftPanel.Settings.Budget
import CraftPanel.Ops.Catching
import CraftPanel.Settings.Ports
import CraftPanel.Settings.Surviving
import CraftPanel.Content.Confined
import CraftPanel.Framework.Windows
import CraftPanel.Settings.Runtimes
import CraftPanel.Framework.Requests
import CraftPanel.Backups.Pruning
import CraftPanel.Drive.Ending
import CraftPanel.Drive.RunBudget
import CraftPanel.Drive.DayTally
import CraftPanel.Settings.Overrides
import CraftPanel.Settings.Commands
import CraftPanel.Content.Toggling
import CraftPanel.Content.LayingOut
import CraftPanel.Content.Operations
import CraftPanel.Framework.Looping
import CraftPanel.Accounts.Rates
import CraftPanel.Settings.PortChoice
import CraftPanel.Supervise.Reading
import CraftPanel.Ops.Tidying
import CraftPanel.Accounts.Neutral
import CraftPanel.Settings.Installing
import CraftPanel.Framework.Effects
import CraftPanel.Backups.Exactly
import CraftPanel.Backups.Relinking
import CraftPanel.Web.Console
import CraftPanel.Web.Socket
import CraftPanel.Helper.Chown
import CraftPanel.Playit.Adopting
