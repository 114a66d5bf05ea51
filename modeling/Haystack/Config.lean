import Haystack.Cache.Tiered
import Haystack.Duration
import Haystack.Erasure.Layout
import Haystack.SuperBlock
import Haystack.Yaml.Document

/-!
# Configuration

A configuration says how chunks are cached and how new volumes are made. Every setting has a
default, so a document without any is a configuration. A document is read as a whole first; then
the settings are checked, those of the cache before those of volumes, and the first setting that
makes no sense is what is wrong with it.
-/

namespace Haystack

/-- How chunks are cached. -/
structure CacheConfig where
  /-- The largest number of chunks in memory. -/
  maxEntries : Nat := 256
  /-- How long a chunk stays in memory without being read. -/
  timeToIdle : Duration := .ofSeconds 3600
  /-- The largest chunk to keep in memory. -/
  partLimit : Nat := 8 * 1024 * 1024
  enableDisk : Bool := true
  /-- The directory of the disk tiers, if it is not the usual one. -/
  diskDirectory : Option String := none
  /-- What the disk tiers may take together, in units of 2 ^ 20 bytes. -/
  diskSize : Nat := 1024
  /-- The largest chunk of the first disk tier. -/
  unit : Nat := 2 * 1024 * 1024
  deriving DecidableEq, Repr, Inhabited

/-- How new volumes are made. -/
structure VolumeConfig where
  version : UInt8 := Version.current.toByte
  replication : String := "000"
  ttl : String := ""
  largeBlock : Int := Erasure.largeBlockLength
  smallBlock : Int := Erasure.smallBlockLength
  deriving DecidableEq, Repr, Inhabited

/-- All settings. -/
structure Config where
  cache : CacheConfig := {}
  volume : VolumeConfig := {}
  deriving DecidableEq, Repr, Inhabited

/-- A setting that makes no sense. -/
inductive ConfigProblem where
  | noEntries
  | noTimeToIdle
  | noDiskSize
  | noUnit
  /-- A setting of volumes that cannot be read. -/
  | unreadable (problem : Error)
  | blockSizes (small large : Int)
  deriving DecidableEq, Repr

def ConfigProblem.message : ConfigProblem → String
  | .noEntries => "memory_max_entries must be > 0"
  | .noTimeToIdle => "memory_time_to_idle must be > 0"
  | .noDiskSize => "disk_size_mb must be > 0 when the disk cache is enabled"
  | .noUnit => "unit_size must be > 0"
  | .unreadable problem => problem.message
  | .blockSizes small large =>
    "block sizes must satisfy 0 < small (" ++ toString small ++ ") <= large (" ++
      toString large ++ ")"

/-- Why there is no configuration. -/
inductive ConfigError where
  /-- There is no such file. -/
  | missingFile
  /-- The text is no document of settings. -/
  | malformed
  | invalid (problem : ConfigProblem)
  deriving DecidableEq, Repr

namespace CacheConfig

def problem? (config : CacheConfig) : Option ConfigProblem :=
  if config.maxEntries = 0 then some .noEntries
  else if config.timeToIdle.nanoseconds = 0 then some .noTimeToIdle
  else if !config.enableDisk then none
  else if config.diskSize = 0 then some .noDiskSize
  else if config.unit = 0 then some .noUnit
  else none

/-- The cache that the settings ask for, over the directories of its disk tiers. -/
def build (config : CacheConfig) (directories : List Directory) : TieredCache :=
  if config.enableDisk then
    .openOver config.partLimit config.unit (config.diskSize * 2 ^ (20 : Nat)) directories
  else .inMemory config.partLimit

end CacheConfig

namespace VolumeConfig

def superBlock (config : VolumeConfig) : Except Error SuperBlock := do
  let version ← Version.ofByte config.version
  let placement ← ReplicaPlacement.parse config.replication
  let ttl ← Ttl.parse config.ttl
  return { version, placement := some placement, ttl := some ttl }

def problem? (config : VolumeConfig) : Option ConfigProblem :=
  match config.superBlock with
  | .error problem => some (.unreadable problem)
  | .ok _ =>
    if config.smallBlock ≤ 0 ∨ config.largeBlock < config.smallBlock then
      some (.blockSizes config.smallBlock config.largeBlock)
    else none

end VolumeConfig

namespace Config

def problem? (config : Config) : Option ConfigProblem :=
  config.cache.problem?.or config.volume.problem?

/-- The largest number of 64 bits. -/
def word : Nat := 2 ^ (64 : Nat) - 1

def cacheOf? (value : Yaml) : Option CacheConfig := do
  let fields ← value.fields?
  let number (name : String) (default : Nat) := Yaml.field? fields name (Yaml.natural? word) default
  let usual : CacheConfig := {}
  return {
    maxEntries := ← number "memory_max_entries" usual.maxEntries
    timeToIdle := ← Yaml.field? fields "memory_time_to_idle"
      (fun value => value.decimal?.bind Duration.ofDecimal?) usual.timeToIdle
    partLimit := ← number "max_file_part_size" usual.partLimit
    enableDisk := ← Yaml.field? fields "enable_disk" Yaml.boolean? usual.enableDisk
    diskDirectory := ←
      Yaml.field? fields "disk_dir" (Yaml.optional? Yaml.text?) usual.diskDirectory
    diskSize := ← number "disk_size_mb" usual.diskSize
    unit := ← number "unit_size" usual.unit }

def volumeOf? (value : Yaml) : Option VolumeConfig := do
  let fields ← value.fields?
  let usual : VolumeConfig := {}
  return {
    version := ← Yaml.field? fields "needle_version"
      (fun value => (value.natural? 255).map UInt8.ofNat) usual.version
    replication := ← Yaml.field? fields "replication" Yaml.text? usual.replication
    ttl := ← Yaml.field? fields "ttl" Yaml.text? usual.ttl
    largeBlock := ← Yaml.field? fields "large_block_size" (Yaml.integer? (2 ^ (63 : Nat) - 1))
      usual.largeBlock
    smallBlock := ← Yaml.field? fields "small_block_size" (Yaml.integer? (2 ^ (63 : Nat) - 1))
      usual.smallBlock }

/-- All settings of a document. Names that no setting has are passed over. -/
def ofYaml? (value : Yaml) : Option Config := do
  let fields ← value.fields?
  return {
    cache := ← Yaml.field? fields "cache" cacheOf? {}
    volume := ← Yaml.field? fields "volume" volumeOf? {} }

def check (config : Config) : Except ConfigError Config :=
  match config.problem? with
  | some problem => .error (.invalid problem)
  | none => .ok config

def parse (text : String) : Except ConfigError Config :=
  match (Yaml.parse? text).bind ofYaml? with
  | none => .error .malformed
  | some config => config.check

def ofFile (text : Option String) : Except ConfigError Config :=
  match text with
  | none => .error .missingFile
  | some text => parse text

end Config

end Haystack
