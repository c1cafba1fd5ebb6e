import Keyring.Duration
import Keyring.KeyType
import Keyring.Settings.Place
/-!
# Settings of a service

Settings start from defaults and are changed by variables, whose names begin with `KEYWARD_` in
letters of any case. Two variables without that beginning take precedence over the others. Settings
that no service could run with are refused.
-/
namespace Keyring

inductive StoreBackend
  | memory
  | «local»
  deriving DecidableEq, Repr

inductive LogFormat
  | json
  | console
  deriving DecidableEq, Repr

/-- What a service is set up with. -/
structure Settings where
  storeBackend : StoreBackend
  storePath : String
  «namespace» : String
  objectName : String
  keySet : String
  keyType : KeyType
  rsaBits : Nat
  watchBackoffSeconds : Nat
  pollIntervalMillis : Nat
  logLevel : String
  logFormat : LogFormat
  deriving DecidableEq, Repr

inductive SettingsError
  /-- A setting has a value of another kind. -/
  | wrongKind (setting : String)
  | unknownChoice (choice given : String)
  /-- A choice is neither a text nor a table with one key. -/
  | notAChoice (choice : String)
  | modulusTooSmall (bits : Nat)
  | pollIntervalZero
  | blank (name : String)
  /-- A variable names a position that no array can have. -/
  | impossiblePosition
  deriving DecidableEq, Repr

def SettingsError.message : SettingsError → String
  | .wrongKind setting => "wrong kind of value for " ++ setting
  | .unknownChoice choice given =>
    "enum " ++ choice ++ " does not have variant constructor " ++ given
  | .notAChoice choice => "value of enum " ++ choice ++
      " should be represented by either string or table with exactly one key"
  | .modulusTooSmall bits => "KEYWARD_RSA_BITS must be at least 2048, got " ++ Decimal.ofNat bits
  | .pollIntervalZero => "KEYWARD_POLL_INTERVAL_MS must be positive"
  | .blank name => name ++ " must not be empty"
  | .impossiblePosition => "no array has the position"

abbrev Variables := SortedMap String String

namespace Settings

/-- How the names of variables begin, in lower case. -/
def variableStart : List Char := "keyward_".toList

def defaults : SettingValue :=
  .table [("store_backend", .text "local"), ("store_path", .text "./keyward-data"),
    ("namespace", .text "keyward-system"), ("object_name", .text "keyward-keys"),
    ("keyset", .text "oidc-keys"), ("key_type", .text "rsa"), ("rsa_bits", .int 2048),
    ("watch_backoff_secs", .int 10), ("poll_interval_ms", .int 1000), ("log_level", .text "info"),
    ("log_format", .text "json")]

/-- The place that a variable sets, if it sets one. -/
def placeOf? (name : String) : Option (List SettingValue.Step) :=
  let cs := (Text.lower name).toList
  if variableStart.isPrefixOf cs then
    some (SettingValue.Place.ofText (String.ofList (cs.drop variableStart.length)))
  else none

/-- Takes one variable into the values. -/
def setVariable (values : SettingValue) (v : String × String) :
    Except SettingsError SettingValue :=
  match placeOf? v.1 with
  | none => .ok values
  | some steps =>
    match SettingValue.put (.ofText v.2) steps values with
    | some values => .ok values
    | none => .error .impossiblePosition

/-- Sets a value to the text of a variable, if there is one. -/
def override (vars : Variables) (name setting : String) (values : SettingValue) :
    SettingValue :=
  match vars.get? name with
  | some s => .table (SettingValue.replaceEntry setting (.text s) values.entries)
  | none => values

def valuesOf (vars : Variables) : Except SettingsError SettingValue := do
  let values ← vars.entries.foldlM setVariable defaults
  return override vars "LOG_FORMAT" "log_format"
    (override vars "LOG_LEVEL" "log_level" values)

def textOf (values : SettingValue) (setting : String) : Except SettingsError String :=
  match ((values.child? setting).getD .absent).text? with
  | some s => .ok s
  | none => .error (.wrongKind setting)

/-- The value of a setting as a natural number. -/
def natOf (values : SettingValue) (setting : String) : Except SettingsError Nat :=
  match ((values.child? setting).getD .absent).nat? with
  | some n => .ok n
  | none => .error (.wrongKind setting)

/-- A choice by name, in letters of any case. -/
def choose {α : Type} (choice : String) (names : List (String × α)) (given : String) :
    Except SettingsError α :=
  match names.find? fun n => n.1 == Text.lower given with
  | some (_, a) => .ok a
  | none => .error (.unknownChoice choice given)

/-- The value of a setting as a choice: its name, or a table with the name as its only key. -/
def choiceOf {α : Type} (values : SettingValue) (setting choice : String)
    (names : List (String × α)) : Except SettingsError α :=
  match (values.child? setting).getD .absent with
  | .text s => choose choice names s
  | .table [(key, _)] => choose choice names key
  | _ => .error (.notAChoice choice)

def backendNames : List (String × StoreBackend) := [("memory", .memory), ("local", .local)]

def keyTypeNames : List (String × KeyType) :=
  [("rsa", .asymmetricSigning), ("asymmetric_signing", .asymmetricSigning),
    ("aead", .symmetricAead), ("symmetric_aead", .symmetricAead), ("secretbox", .symmetricAead)]

def logFormatNames : List (String × LogFormat) := [("json", .json), ("console", .console)]

/-- The settings of the values, before they are checked. -/
def ofValues (values : SettingValue) : Except SettingsError Settings := do
  let storeBackend ← choiceOf values "store_backend" "StoreBackend" backendNames
  let storePath ← textOf values "store_path"
  let «namespace» ← textOf values "namespace"
  let objectName ← textOf values "object_name"
  let keySet ← textOf values "keyset"
  let keyType ← choiceOf values "key_type" "KeyKind" keyTypeNames
  let rsaBits ← natOf values "rsa_bits"
  let watchBackoffSeconds ← natOf values "watch_backoff_secs"
  let pollIntervalMillis ← natOf values "poll_interval_ms"
  let logLevel ← textOf values "log_level"
  let logFormat ← choiceOf values "log_format" "LogFormat" logFormatNames
  return ⟨storeBackend, storePath, «namespace», objectName, keySet, keyType, rsaBits,
    watchBackoffSeconds, pollIntervalMillis, logLevel, logFormat⟩

def minRsaBits : Nat := 2048

def isBlank (s : String) : Bool := s.toList.all Text.isBlank

/-- Refuses settings that no service could run with. -/
def validate (s : Settings) : Except SettingsError Settings :=
  if s.rsaBits < minRsaBits then .error (.modulusTooSmall s.rsaBits)
  else if s.pollIntervalMillis = 0 then .error .pollIntervalZero
  else if isBlank s.namespace then .error (.blank "KEYWARD_NAMESPACE")
  else if isBlank s.objectName then .error (.blank "KEYWARD_OBJECT_NAME")
  else if isBlank s.keySet then .error (.blank "KEYWARD_KEYSET")
  else .ok s

def ofVariables (vars : Variables) : Except SettingsError Settings := do
  (← ofValues (← valuesOf vars)).validate

/-- How long a service waits after its watch was interrupted. -/
def watchBackoff (s : Settings) : Duration := .ofSeconds s.watchBackoffSeconds

def pollInterval (s : Settings) : Duration := .ofMillis s.pollIntervalMillis

/-- The level of log lines; an empty one stands for the default. -/
def effectiveLogLevel (s : Settings) : String := if s.logLevel = "" then "info" else s.logLevel

end Settings
end Keyring
