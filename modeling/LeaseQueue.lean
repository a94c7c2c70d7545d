import LeaseQueue.Job.Ident
import LeaseQueue.Store.Backend
import LeaseQueue.Work.Basic
import LeaseQueue.Proofs.Time.Elapsed
import LeaseQueue.Proofs.Store.Fencing
import LeaseQueue.Proofs.Store.HandOuts
import LeaseQueue.Proofs.Store.Rows
import LeaseQueue.Proofs.Store.Agreement
import LeaseQueue.Proofs.Store.Counting
import LeaseQueue.Proofs.Store.Paging
import LeaseQueue.Proofs.Store.Effects
import LeaseQueue.Proofs.Store.FirstHandOut
import LeaseQueue.Proofs.Store.FirstInLine
import LeaseQueue.Proofs.Store.Copies
import LeaseQueue.Proofs.Store.Counter
import LeaseQueue.Proofs.Store.Exclusion
import LeaseQueue.Proofs.Store.Places
import LeaseQueue.Proofs.Job.Written
import LeaseQueue.Proofs.Work.Payloads
import LeaseQueue.Proofs.Queue.Execution
import LeaseQueue.Proofs.Queue.Gating
import LeaseQueue.Proofs.Queue.Lifecycle
import LeaseQueue.Proofs.Queue.Processing
import LeaseQueue.Proofs.Queue.Feeding
import LeaseQueue.Proofs.Queue.Owners
import LeaseQueue.Proofs.Queue.Completions
import LeaseQueue.Proofs.Queue.Watching
import LeaseQueue.Proofs.Queue.Polling
import LeaseQueue.Queue.Answering
import LeaseQueue.Queue.Dispatching
import LeaseQueue.Queue.Request
import LeaseQueue.Queue.Schedule
