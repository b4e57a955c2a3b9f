import Outbox.Json.Domain
import Outbox.Main
import Outbox.Proofs.Fleet.Freshness
import Outbox.Proofs.Fleet.Copies
import Outbox.Session
import Outbox.Proofs.Fleet.NoLoss
import Outbox.Proofs.Fleet.StaleSaves
import Outbox.Proofs.Fleet.Custody
import Outbox.Proofs.Fleet.Exclusion
import Outbox.Proofs.Pass.Solo
import Outbox.Proofs.Digits
import Outbox.Proofs.Message.RoundTrip
import Outbox.Proofs.Fleet.WellFormed
import Outbox.Proofs.Pass.Turns
import Outbox.Proofs.Pass.Release
import Outbox.Proofs.Pass.Attempts
import Outbox.Proofs.Pass.Faults
import Outbox.Proofs.Session.Publishing
import Outbox.Proofs.Store.Commit
import Outbox.Proofs.Sql.Agreement
import Outbox.Proofs.Sql.Written
import Outbox.Proofs.Pass.Rounds
import Outbox.Proofs.Pass.AgeOrder
import Outbox.Proofs.Pass.Retirement
import Outbox.Proofs.Pass.Recovery
import Outbox.Proofs.Dispatcher.Course
import Outbox.Proofs.Dispatcher.Loops
import Outbox.Proofs.Dispatcher.Visits
import Outbox.Proofs.Dispatcher.Passage
import Outbox.Proofs.Dispatcher.Shutdown
import Outbox.Proofs.Dispatcher.Company
import Outbox.Proofs.Dispatcher.Modes
import Outbox.Proofs.Dispatcher.Dropping
import Outbox.Proofs.Dispatcher.Schedule
import Outbox.Proofs.Fleet.Lone
import Outbox.Proofs.Dispatcher.Worker
import Outbox.Record.Method
import Outbox.Proofs.Record.Lifecycle
import Outbox.Proofs.Message.Damage
import Outbox.Proofs.Housekeeping
import Outbox.Proofs.Pass.Unlocking
import Outbox.Proofs.Pass.Deletion
import Outbox.Proofs.Sql.Retiring
import Outbox.Proofs.RecordId.Text
import Outbox.Proofs.Config.Overrides
