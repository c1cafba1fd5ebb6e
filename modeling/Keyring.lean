import Keyring.Binary64
import Keyring.Binary64.Shortest
import Keyring.Binary64.Written
import Keyring.Bytes
import Keyring.Bytes.Base64
import Keyring.Cache
import Keyring.Crypto.Aes256
import Keyring.Crypto.ChaCha20
import Keyring.Crypto.Der
import Keyring.Crypto.Gcm
import Keyring.Crypto.Modular
import Keyring.Crypto.Rsa
import Keyring.Crypto.Rsa.Generation
import Keyring.Crypto.Sha256
import Keyring.Crypto.XChaCha20Poly1305
import Keyring.Duration
import Keyring.Entropy
import Keyring.Envelope
import Keyring.FileTree
import Keyring.Json.Number
import Keyring.Json.Reader
import Keyring.Json.StringText
import Keyring.Json.Token
import Keyring.Json.Tree
import Keyring.Json.Value
import Keyring.Jwk
import Keyring.Key
import Keyring.Key.Aead
import Keyring.Key.Signing
import Keyring.KeyError
import Keyring.KeyRecord
import Keyring.KeySet
import Keyring.KeySet.Data
import Keyring.KeySet.Name
import Keyring.KeySet.Plan
import Keyring.KeySet.Record
import Keyring.KeySet.Write
import Keyring.KeyType
import Keyring.LocalStore
import Keyring.LocalStore.ObjectFile
import Keyring.LocalStore.Poller
import Keyring.MemoryStore
import Keyring.MemoryStore.Feed
import Keyring.Rehearsal
import Keyring.Rehearsal.Basic
import Keyring.Rehearsal.Clock
import Keyring.Rehearsal.Participant
import Keyring.Rehearsal.Storage
import Keyring.Rehearsal.Writing
import Keyring.Retry
import Keyring.Settings
import Keyring.Settings.Dotenv
import Keyring.Settings.Place
import Keyring.Settings.Value
import Keyring.SortedMap
import Keyring.StoredObject
import Keyring.SyncOptions
import Keyring.Text.Alphanumeric
import Keyring.Text.Blank
import Keyring.Text.Decimal
import Keyring.Text.Lowercase
import Keyring.Text.Quoted
import Keyring.Text.Ranges
import Keyring.Text.Unprintable
import Keyring.Text.Utf8
import Keyring.WatchLoop
import Keyring.Proofs.Json.WrittenNumber
import Keyring.Proofs.Json.NumberText
import Keyring.Proofs.Binary64.Rounding
import Keyring.Proofs.Binary64.ShortestDecimal
import Keyring.Proofs.Binary64.Powers
import Keyring.Proofs.Json.ScaledNumber
import Keyring.Proofs.Json.FloatText
import Keyring.Proofs.Json.StringText
import Keyring.Proofs.Json.RoundTrip
import Keyring.Proofs.Json.Canonical
import Keyring.Proofs.Json.Rereading
import Keyring.Proofs.Base64
import Keyring.Proofs.Base64.Canonical
import Keyring.Proofs.KeySet.StoredForm
import Keyring.Proofs.KeySet.Versions
import Keyring.Proofs.KeySet.Rotation
import Keyring.Proofs.MemoryStore.History
import Keyring.Proofs.MemoryStore.Delivery
import Keyring.Proofs.MemoryStore.Evolution
import Keyring.Proofs.Runs
import Keyring.Proofs.Fleet.Basic
import Keyring.Proofs.Fleet.Knowledge
import Keyring.Proofs.Fleet.Watching
import Keyring.Proofs.Fleet.Snapshot
import Keyring.Proofs.KeySet.Ledger
import Keyring.Proofs.Fleet.Writing
import Keyring.Proofs.Fleet.Ledgers
import Keyring.Proofs.Fleet.Rotations
import Keyring.Proofs.MemoryStore.Forwarding
import Keyring.Proofs.Crypto.Sealing
import Keyring.Proofs.Envelope
import Keyring.Proofs.KeySet.Lookups
import Keyring.Proofs.Fleet.Versions
import Keyring.Proofs.Fleet.Ciphertexts
import Keyring.Proofs.Fleet.Newcomers
import Keyring.Proofs.Fleet.Creations
import Keyring.Proofs.Fleet.Convergence
import Keyring.Proofs.FileTree
import Keyring.Proofs.LocalStore.ObjectFile
import Keyring.Proofs.LocalStore.Files
import Keyring.Proofs.Stores.Calls
import Keyring.Proofs.Stores.Interchange
import Keyring.Proofs.Stores.Isolation
import Keyring.Proofs.Stores.Tenants
import Keyring.Proofs.Stores.Occurrences
import Keyring.Proofs.MemoryStore.Feeds
import Keyring.Proofs.MemoryStore.Runs
import Keyring.Proofs.MemoryStore.Streams
import Keyring.Proofs.MemoryStore.Sightings
import Keyring.Proofs.LocalStore.Log
import Keyring.Proofs.LocalStore.Runs
import Keyring.Proofs.Stores.Versions
import Keyring.Proofs.WatchLoop
import Keyring.Proofs.Fleet.Failures
import Keyring.Proofs.Fleet.Endings
import Keyring.Proofs.Fleet.OwnWrites
import Keyring.Proofs.StoredForms
import Keyring.Proofs.KeySet.Decisions
import Keyring.Proofs.Cache.Slots
import Keyring.Proofs.Cache.Overlaps
import Keyring.Proofs.LocalStore.Drafts
import Keyring.Proofs.Stores.Shared
import Keyring.Proofs.Stores.Replacements
import Keyring.Proofs.Stores.Callers
import Keyring.Proofs.Stores.FailedWrites
import Keyring.Proofs.Json.Wholeness
import Keyring.Proofs.KeySet.Corruption
import Keyring.Proofs.Retry
import Keyring.Proofs.KeySet.Attempts
import Keyring.Proofs.WatchLoop.Course
import Keyring.Proofs.LocalStore.Steps
import Keyring.Proofs.LocalStore.Readers
import Keyring.Proofs.LocalStore.WholeReads
import Keyring.Proofs.Cache.Decryption
import Keyring.Proofs.Bytes
import Keyring.Proofs.Crypto.Modular
import Keyring.Proofs.Crypto.Rsa
import Keyring.Proofs.Key.Signing
import Keyring.Proofs.KeySet.Published
import Keyring.Proofs.LocalStore.History
import Keyring.Proofs.LocalStore.Polling
import Keyring.Proofs.Outcomes
import Keyring.Proofs.Binary64.WholeNumbers
import Keyring.Proofs.Binary64.Values
import Keyring.Proofs.Binary64.WrittenNumbers
import Keyring.Proofs.Settings.Variables
import Keyring.Proofs.Settings.Texts
import Keyring.Proofs.Settings.Numbers
import Keyring.Proofs.Duration
import Keyring.Proofs.Retry.Fixed
import Keyring.Proofs.Retry.Capped
import Keyring.Proofs.Settings.Pauses
import Keyring.Proofs.Stores.Courses
import Keyring.Proofs.LocalStore.Attendance
import Keyring.Proofs.Stores.Reports
import Keyring.Proofs.Text.Marks
import Keyring.Proofs.Redaction
