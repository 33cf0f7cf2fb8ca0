import FlowScript.Decimal.Natural
import FlowScript.FileTree.Resolve
import FlowScript.Json.Decoder
import FlowScript.Json.Printer
import FlowScript.Text.Blank
import FlowScript.Toml.Reader

/-! Settings of the script cache. They come from the defaults, from a document that may set some of
them, and from variables of the environment, of which each later source wins. -/
namespace FlowScript

/-- Library copies are kept in a directory of the name `storeName` below `rootDirectory`. The period is
in milliseconds. -/
structure CacheConfig where
  enabled : Bool
  capacityHint : Nat
  janitorPeriod : Nat
  rootDirectory : Path
  storeName : String
  deriving DecidableEq, Repr

/-- Why settings are refused. -/
inductive ConfigError where
  | unreadable (fault : IoFault)
  | document
  | notFlag (name value : String)
  | notNumber (name value : String) (error : Decimal.NaturalError)
  | notPositive (name : String)
  deriving DecidableEq, Repr

/-- What is wrong with a variable is told in words; of a document it is only told that it is wrong. -/
def ConfigError.message : ConfigError → String
  | .unreadable fault => "I/O error at " ++ fault.path.text
  | .document => "Configuration error"
  | .notFlag name value => "Configuration error: " ++ name ++ ": '" ++ value ++ "' is not a boolean"
  | .notNumber name value error =>
    "Configuration error: " ++ name ++ ": '" ++ value ++ "' is not a number: " ++ error.message
  | .notPositive name => "Configuration error: " ++ name ++ " must be positive"

namespace CacheConfig

/-- The cache is off unless it is switched on. -/
def default (temporary : Path) : CacheConfig :=
  ⟨false, 50, 600000, temporary.joinName "cps", "parse-cache-libraries"⟩

def libraryRoot (c : CacheConfig) : Path := c.rootDirectory.joinName c.storeName

def periodSeconds (c : CacheConfig) : Nat := c.janitorPeriod / 1000

/-- The directory for the files of runs. -/
def runsRoot (c : CacheConfig) : Path := c.rootDirectory.joinName "executions"

/-! ### Documents -/

/-- The field of a name, or what its absence stands for. -/
def field (fields : Toml.Fields) (name : String) (absent : α) (read : Toml → Option α) : Option α :=
  match fields.find? name with
  | none => some absent
  | some v => read v

def asFlag : Toml → Option Bool
  | .bool b => some b
  | _ => none

def asCount : Toml → Option Nat
  | .int i => if 0 ≤ i then some i.toNat else none
  | _ => none

def asText : Toml → Option String
  | .string s => some s
  | _ => none

/-- A whole number of seconds in milliseconds. -/
def asPeriod (v : Toml) : Option Nat := (asCount v).map (1000 * ·)

/-- The settings that a document names in place of those given. -/
def withFields (c : CacheConfig) (fields : Toml.Fields) : Option CacheConfig := do
  return {
    enabled := ← field fields "enabled" c.enabled asFlag
    capacityHint := ← field fields "capacity_hint" c.capacityHint asCount
    janitorPeriod := ← field fields "janitor_period_secs" c.janitorPeriod asPeriod
    rootDirectory := ← field fields "root_dir" c.rootDirectory fun v => (asText v).map Path.mk
    storeName := ← field fields "namespace" c.storeName asText }

def ofDocument (temporary : Path) (text : String) : Except ConfigError CacheConfig :=
  ((Toml.read? text).bind (default temporary).withFields).elim (.error .document) .ok

def load (temporary : Path) (files : FileTree) (p : Path) : Except ConfigError CacheConfig := do
  let text ← (files.readText p).mapError fun e => .unreadable ⟨p, e⟩
  ofDocument temporary text

/-! ### Variables -/

def enabledVariable : String := "CPS_PARSE_CACHE_ENABLED"
def capacityVariable : String := "CPS_PARSE_CACHE_CAPACITY"
def periodVariable : String := "CPS_PARSE_CACHE_CLEANUP_PERIOD_SECS"
def rootVariable : String := "CPS_PARSE_CACHE_ROOT"

def readFlag (name raw : String) : Except ConfigError Bool :=
  match String.ofList ((Text.trim raw).toList.map Char.toLower) with
  | "true" | "1" | "yes" | "on" => .ok true
  | "false" | "0" | "no" | "off" | "" => .ok false
  | other => .error (.notFlag name other)

def readCount (name raw : String) : Except ConfigError Nat :=
  (Decimal.readNatural UInt64.size (Text.trim raw)).mapError (.notNumber name raw)

def readPeriod (name raw : String) : Except ConfigError Nat := do
  match ← readCount name raw with
  | 0 => .error (.notPositive name)
  | seconds => return 1000 * seconds

/-- What a variable says, or the setting as it is. -/
def override (environment : Entries String) (name : String) (current : α)
    (read : String → Except ConfigError α) : Except ConfigError α :=
  match environment.find? name with
  | none => .ok current
  | some raw => read raw

/-- The settings that variables name in place of those given. -/
def withOverrides (c : CacheConfig) (environment : Entries String) : Except ConfigError CacheConfig := do
  let enabled ← override environment enabledVariable c.enabled (readFlag enabledVariable)
  let capacityHint ← override environment capacityVariable c.capacityHint (readCount capacityVariable)
  let janitorPeriod ← override environment periodVariable c.janitorPeriod (readPeriod periodVariable)
  let rootDirectory ← override environment rootVariable c.rootDirectory fun raw => .ok ⟨raw⟩
  return { c with enabled, capacityHint, janitorPeriod, rootDirectory }

/-! ### Written form -/

def toJson (c : CacheConfig) : Json :=
  .record [("enabled", .bool c.enabled), ("capacity_hint", .int c.capacityHint),
    ("janitor_period_secs", .int c.periodSeconds), ("root_dir", .string c.rootDirectory.text),
    ("namespace", .string c.storeName)]

/-- Decodes settings; fields that are missing keep their defaults. -/
def ofJson (temporary : Path) : Json.Decoder CacheConfig :=
  let absent := default temporary
  Json.asRecord ⟨["enabled", "capacity_hint", "janitor_period_secs", "root_dir", "namespace"], 0⟩ fun fields =>
    CacheConfig.mk
      <$> Json.defaulted fields "enabled" absent.enabled Json.asBool
      <*> Json.defaulted fields "capacity_hint" absent.capacityHint (Json.asNat UInt64.size)
      <*> Json.defaulted fields "janitor_period_secs" absent.janitorPeriod
        (fun j => (Json.asNat UInt64.size j).map (1000 * ·))
      <*> Json.defaulted fields "root_dir" absent.rootDirectory (fun j => (Json.asString j).map Path.mk)
      <*> Json.defaulted fields "namespace" absent.storeName Json.asString

end CacheConfig
end FlowScript
