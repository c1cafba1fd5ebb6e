import Keyring.Crypto.Rsa.Generation
import Keyring.Retry
import Keyring.Settings
/-!
# Options of a synchronised key store

How a process makes signing keys, repeats its writes and restarts its watch loop.
-/
namespace Keyring

/-- How a process keeps its key sets in step with the others. -/
structure SyncOptions where
  /-- The modulus size of new signing keys. -/
  rsaBits : Nat
  /-- Repetitions of a write after another writer was faster. -/
  writeRetry : RetryPolicy
  /-- Pauses of the watch loop, which is restarted without bound. -/
  watchBackoff : RetryPolicy
  deriving DecidableEq, Repr

namespace SyncOptions

def standard : SyncOptions :=
  ⟨Rsa.minModulusBits, .standard, .fixed (.ofSeconds 10)⟩

/-- The options that the settings of a service ask for. -/
def ofSettings (s : Settings) : SyncOptions :=
  { standard with rsaBits := s.rsaBits, watchBackoff := .fixed s.watchBackoff }

end SyncOptions
end Keyring
