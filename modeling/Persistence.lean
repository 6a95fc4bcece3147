import Persistence.Manager.Reference
import Persistence.Manager.Repository
import Persistence.Proofs.Postcondition
import Persistence.Proofs.Writing
import Persistence.Proofs.Consistency
import Persistence.Proofs.Runs
import Persistence.Proofs.Bookkeeping
import Persistence.Proofs.IdentityMap
import Persistence.Proofs.FailedFlush
import Persistence.Proofs.MemoryStore
import Persistence.Proofs.Sending
import Persistence.Proofs.Underway
import Persistence.Proofs.WriteBack
import Persistence.Proofs.Nesting
import Persistence.Proofs.Blocks
import Persistence.Proofs.Working
import Persistence.Proofs.AllOrNothing
import Persistence.Proofs.Settled
import Persistence.Proofs.Loading
import Persistence.Proofs.Exchange
import Persistence.Proofs.Snapshots
import Persistence.Proofs.Noting
import Persistence.Proofs.Accounts
import Persistence.Proofs.Requests
import Persistence.Proofs.Histories
import Persistence.Proofs.Texts
import Persistence.Proofs.Calls
import Persistence.Proofs.Retrying
import Persistence.Proofs.Addresses
import Persistence.Proofs.Queues
import Persistence.Proofs.Script
import Persistence.Proofs.Steadiness
import Persistence.Proofs.Inquiries
import Persistence.Proofs.Carrying
import Persistence.Proofs.Anchoring
import Persistence.Proofs.Stability
import Persistence.Proofs.Tokens
import Persistence.Proofs.Clauses
import Persistence.Proofs.RoundTrip
import Persistence.Proofs.Layout
import Persistence.Proofs.Rewriting
import Persistence.Proofs.Statements
import Persistence.Proofs.Translation
import Persistence.Proofs.Binding
import Persistence.Proofs.Joining
import Persistence.Proofs.Placeholders
import Persistence.Proofs.TableAliases
import Persistence.Proofs.SharedCache
import Persistence.Proofs.CacheHistory
import Persistence.Proofs.Parentheses
import Persistence.Proofs.AcceptedQueries
import Persistence.Proofs.Memoization
import Persistence.Proofs.BothSides
import Persistence.Proofs.WellFormedMappings
import Persistence.Proofs.Joinable
import Persistence.Proofs.TrackedTypes
import Persistence.Proofs.Spellings
import Persistence.Proofs.Refreshing
import Persistence.Proofs.Reuse
import Persistence.Proofs.Scheduling
import Persistence.Proofs.Alignment
import Persistence.Proofs.Hydration
import Persistence.Proofs.Presence
import Persistence.Proofs.LookUps
import Persistence.Proofs.Plans
import Persistence.Proofs.Noninterference
import Persistence.Proofs.Numerals
import Persistence.Proofs.IntegerTexts
import Persistence.Proofs.Slices
import Persistence.Proofs.Pages
