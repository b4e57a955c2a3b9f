import Outbox.State

/-!
The settings of a dispatcher: how often its three tasks run, how long locks and records are kept, and
when a record is given up. Times are in milliseconds.
-/

namespace Outbox

structure Config where
  processInterval : Nat := 5000
  lockCheckerInterval : Nat := 60000
  maxLockTime : Nat := 300000
  cleanupInterval : Nat := 3600000
  retrialPolicy : RetrialPolicy := {}
  retention : Nat := 7 * 24 * 3600000
  cleanupFinishedOnly : Bool := false
deriving DecidableEq, Inhabited

/-- Why a file gives no text. -/
inductive FileFault where
  | missing
  | directory
  | notDirectory
  | nameTooLong
  /-- A name holds a null character. -/
  | nullInName
  | notText
  | other (reason : String)
deriving DecidableEq

def FileFault.message : FileFault → String
  | missing => "No such file or directory (os error 2)"
  | directory => "Is a directory (os error 21)"
  | notDirectory => "Not a directory (os error 20)"
  | nameTooLong => "File name too long (os error 36)"
  | nullInName => "file name contained an unexpected NUL byte"
  | notText => "stream did not contain valid UTF-8"
  | other reason => reason

inductive ConfigError where
  | unreadable (path : String) (fault : FileFault)
  | malformed
  | zero (field : String)
  | noSendAttempts
deriving DecidableEq

def ConfigError.message : ConfigError → String
  | unreadable path fault => "failed to read config file " ++ path ++ ": " ++ fault.message
  | malformed => "invalid config"
  | zero field => field ++ " must be greater than zero"
  | noSendAttempts => "retrial_policy.max_send_attempts must be at least 1 when the policy is enabled"

namespace Config

/-- The times that must not be zero, in the order in which they are checked. -/
def times (c : Config) : List (String × Nat) :=
  [("process_interval_ms", c.processInterval), ("lock_checker_interval_ms", c.lockCheckerInterval),
    ("max_lock_time_duration_ms", c.maxLockTime), ("cleanup_worker_interval_ms", c.cleanupInterval),
    ("messages_retention_duration_ms", c.retention)]

def validate (c : Config) : Except ConfigError Unit :=
  match c.times.find? (·.2 = 0) with
  | some (field, _) => .error (.zero field)
  | none =>
    if c.retrialPolicy.enabled && c.retrialPolicy.max = 0 then .error .noSendAttempts else .ok ()

theorem time_pos {c : Config} (h : c.validate = .ok ()) {e : String × Nat} (he : e ∈ c.times) :
    0 < e.2 := by
  unfold validate at h
  split at h
  · contradiction
  · next hf =>
    have := List.find?_eq_none.1 hf e he
    simp only [decide_eq_true_eq] at this
    omega

end Config

end Outbox
