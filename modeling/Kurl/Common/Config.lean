import Kurl.Common.DatabaseUrl
import Kurl.Lib.Duration

/-!
# Kurl — the configuration (`common/src/config`)

The settings of the services, with their defaults and their validation. `validate` is a sequence of
checks, each with the field it is about, and a service comes up only with settings that pass them
all (`AppConfig.accepted_of_load`). What is loaded then meets what the service relies on
(`AnalyticsServiceConfig.Accepted`): a read asks for some entries and does not wait for ever, and
the interval of the flushes is not zero. `counts_caught_up` starts from there, and the defaults are
such settings (`AppConfig.load_default`).

The checks have one shape (`Check`: a field, a message, a condition), and `runChecks` runs them up
to the first that fails. Each `validate` below is written out as the source has it, and
`validate_eq` says that it is such a sequence.

Where the values come from is left open: the file and the environment, with their order of
precedence, are the parameter `build` of `AppConfig.load`.
-/

namespace Kurl

open Lib

/-! ## The settings (`types.rs`) -/

structure Streams where
  events : String
  deriving DecidableEq

def Streams.default : Streams := ⟨"Events"⟩

structure RedisConfig where
  host : String
  port : UInt16
  cacheTtl : Duration
  streams : Streams
  deriving DecidableEq

def RedisConfig.default : RedisConfig := ⟨"localhost", 6379, .fromSecs 300, .default⟩

def DatabaseConfig.default : DatabaseConfig where
  host := "localhost"
  port := 5432
  user := "postgres"
  password := "postgres"
  dbName := "kurlyk"

/-- The part of it that is validated. -/
structure LoggingConfig where
  level : String
  deriving DecidableEq

def LoggingConfig.default : LoggingConfig := ⟨"info"⟩

structure GatewayServiceConfig where
  host : String
  port : UInt16
  deriving DecidableEq

def GatewayServiceConfig.default : GatewayServiceConfig := ⟨"localhost", 3000⟩

structure CoreServiceConfig where
  host : String
  port : UInt16
  deriving DecidableEq

def CoreServiceConfig.default : CoreServiceConfig := ⟨"localhost", 3001⟩

structure AnalyticsServiceConfig where
  host : String
  port : UInt16
  readBatchSize : Nat
  readBlock : Duration
  flushInterval : Duration
  deriving DecidableEq

/-- `Duration::from_millis` -/
def durationFromMillis (millis : UInt64) : Duration := .ofNanos (millis.toNat * 1000000)

def AnalyticsServiceConfig.default : AnalyticsServiceConfig where
  host := "localhost"
  port := 3002
  readBatchSize := 100
  readBlock := durationFromMillis 250
  flushInterval := .fromSecs 60

structure AppConfig where
  redis : RedisConfig
  database : DatabaseConfig
  logging : LoggingConfig
  gateway : GatewayServiceConfig
  core : CoreServiceConfig
  analytics : AnalyticsServiceConfig
  deriving DecidableEq

def AppConfig.default : AppConfig :=
  ⟨.default, .default, .default, .default, .default, .default⟩

/-! ## Validation (`validation.rs`) -/

/-- `Duration::is_zero` -/
def isZero (d : Duration) : Bool := d.secs = 0 ∧ d.nanos = 0

/-- `Duration::as_millis` -/
def asMillis (d : Duration) : Nat := d.secs.toNat * 1000 + d.nanos.toNat / 1000000

def Streams.validate (config : Streams) : Except ConfigError Unit :=
  requireNonBlank config.events "redis.streams.events"

def RedisConfig.validate (config : RedisConfig) : Except ConfigError Unit := do
  requireNonBlank config.host "redis.host"
  requirePort config.port "redis.port"
  if isZero config.cacheTtl then
    .error (invalid "redis.cache_ttl_secs" "must be greater than zero")
  else config.streams.validate

def LoggingConfig.validate (config : LoggingConfig) : Except ConfigError Unit :=
  requireNonBlank config.level "logging.level"

def GatewayServiceConfig.validate (config : GatewayServiceConfig) : Except ConfigError Unit := do
  requireNonBlank config.host "gateway.host"
  requirePort config.port "gateway.port"

def CoreServiceConfig.validate (config : CoreServiceConfig) : Except ConfigError Unit := do
  requireNonBlank config.host "core.host"
  requirePort config.port "core.port"

def AnalyticsServiceConfig.validate (config : AnalyticsServiceConfig) :
    Except ConfigError Unit := do
  requireNonBlank config.host "analytics.host"
  requirePort config.port "analytics.port"
  if config.readBatchSize = 0 then
    .error (invalid "analytics.read_batch_size" "must be greater than zero")
  else if ¬(1 ≤ asMillis config.readBlock ∧ asMillis config.readBlock ≤ 500) then
    .error (invalid "analytics.read_block_millis" "must be between 1 and 500")
  else if isZero config.flushInterval then
    .error (invalid "analytics.flush_interval_secs" "must be greater than zero")
  else .ok ()

def AppConfig.validate (config : AppConfig) : Except ConfigError Unit := do
  config.redis.validate
  config.database.validate
  config.logging.validate
  config.gateway.validate
  config.core.validate
  config.analytics.validate

/-! ## The checks -/

/-- One check of a validation. -/
structure Check where
  field : String
  message : String
  passes : Bool

namespace Check

def nonBlank (value field : String) : Check :=
  ⟨field, "must not be blank", !(trim value.toList).isEmpty⟩

def positivePort (port : UInt16) (field : String) : Check :=
  ⟨field, "must be greater than zero", decide (port ≠ 0)⟩

def run (check : Check) : Except ConfigError Unit :=
  if check.passes then .ok () else .error (invalid check.field check.message)

end Check

/-- Up to the first check that fails. -/
def runChecks : List Check → Except ConfigError Unit
  | [] => .ok ()
  | check :: checks => do
    check.run
    runChecks checks

theorem runChecks_ok_iff {checks : List Check} :
    runChecks checks = .ok () ↔ ∀ check ∈ checks, check.passes = true := by
  induction checks with
  | nil => exact iff_of_true rfl fun _ h => by cases h
  | cons check checks ih =>
    rw [List.forall_mem_cons, ← ih]
    show (do check.run; runChecks checks) = _ ↔ _
    rw [bind_ok_iff]
    unfold Check.run
    cases check.passes <;> simp

theorem requireNonBlank_eq (value field : String) :
    requireNonBlank value field = (Check.nonBlank value field).run := by
  unfold requireNonBlank Check.run Check.nonBlank
  cases (trim value.toList).isEmpty <;> rfl

theorem requirePort_eq (port : UInt16) (field : String) :
    requirePort port field = (Check.positivePort port field).run := by
  unfold requirePort Check.run Check.positivePort
  by_cases hport : port = 0 <;> simp [hport]

/-- A check that is written out, and the ones after it. -/
theorem runChecks_cons_of_if {c : Prop} [Decidable c] (field message : String)
    {rest : Except ConfigError Unit} {checks : List Check} (hrest : rest = runChecks checks) :
    (if c then .error (invalid field message) else rest) =
      runChecks (⟨field, message, decide ¬c⟩ :: checks) := by
  unfold runChecks Check.run
  rw [hrest]
  by_cases hc : c
  · simp only [hc, if_true, not_true_eq_false, decide_false]
    rfl
  · simp only [hc, if_false, not_false_eq_true, decide_true]
    rfl

def RedisConfig.checks (config : RedisConfig) : List Check :=
  [.nonBlank config.host "redis.host", .positivePort config.port "redis.port",
    ⟨"redis.cache_ttl_secs", "must be greater than zero", decide ¬isZero config.cacheTtl⟩,
    .nonBlank config.streams.events "redis.streams.events"]

def DatabaseConfig.checks (config : DatabaseConfig) : List Check :=
  [.nonBlank config.host "database.host", .positivePort config.port "database.port",
    .nonBlank config.user "database.user", .nonBlank config.dbName "database.db_name"]

def AnalyticsServiceConfig.checks (config : AnalyticsServiceConfig) : List Check :=
  [.nonBlank config.host "analytics.host", .positivePort config.port "analytics.port",
    ⟨"analytics.read_batch_size", "must be greater than zero", decide ¬config.readBatchSize = 0⟩,
    ⟨"analytics.read_block_millis", "must be between 1 and 500",
      decide ¬¬(1 ≤ asMillis config.readBlock ∧ asMillis config.readBlock ≤ 500)⟩,
    ⟨"analytics.flush_interval_secs", "must be greater than zero",
      decide ¬isZero config.flushInterval⟩]

theorem runChecks_one (check : Check) : runChecks [check] = check.run := by
  unfold runChecks
  cases check.run <;> rfl

theorem RedisConfig.validate_eq (config : RedisConfig) :
    config.validate = runChecks config.checks := by
  unfold validate Streams.validate
  rw [requireNonBlank_eq, requirePort_eq, requireNonBlank_eq,
    runChecks_cons_of_if _ _ (runChecks_one _).symm]
  rfl

theorem DatabaseConfig.validate_eq (config : DatabaseConfig) :
    config.validate = runChecks config.checks := by
  unfold validate
  rw [requireNonBlank_eq, requirePort_eq, requireNonBlank_eq, requireNonBlank_eq,
    ← runChecks_one (.nonBlank config.dbName _)]
  rfl

theorem AnalyticsServiceConfig.validate_eq (config : AnalyticsServiceConfig) :
    config.validate = runChecks config.checks := by
  unfold validate
  have hnone : (.ok () : Except ConfigError Unit) = runChecks [] := rfl
  have hflush := runChecks_cons_of_if (c := isZero config.flushInterval = true)
    "analytics.flush_interval_secs" "must be greater than zero" hnone
  rw [requireNonBlank_eq, requirePort_eq, hflush, runChecks_cons_of_if _ _ rfl,
    runChecks_cons_of_if _ _ rfl]
  rfl

/-! ## What is accepted -/

theorem isZero_iff (d : Duration) : isZero d = true ↔ d.toNanos = 0 := by
  have hlt := d.toNat_nanos_lt
  unfold isZero Duration.toNanos
  rw [decide_eq_true_iff, ← UInt64.toNat_inj, ← UInt32.toNat_inj]
  show d.secs.toNat = 0 ∧ d.nanos.toNat = 0 ↔ _
  omega

theorem nonBlank_passes_iff {value field : String} :
    (Check.nonBlank value field).passes = true ↔ ¬ Blank value.toList := by
  show (!(trim value.toList).isEmpty) = true ↔ _
  rw [← trim_isEmpty_iff, Bool.not_eq_true', Bool.not_eq_true]

theorem positivePort_passes_iff {port : UInt16} {field : String} :
    (Check.positivePort port field).passes = true ↔ port ≠ 0 := decide_eq_true_iff

structure RedisConfig.Accepted (config : RedisConfig) : Prop where
  host : ¬ Blank config.host.toList
  port : config.port ≠ 0
  cacheTtl : config.cacheTtl.toNanos ≠ 0
  events : ¬ Blank config.streams.events.toList

/-- A read asks for at least one entry. It waits for them, and gives up. -/
structure AnalyticsServiceConfig.Accepted (config : AnalyticsServiceConfig) : Prop where
  host : ¬ Blank config.host.toList
  port : config.port ≠ 0
  readBatchSize : 0 < config.readBatchSize
  readBlock : 1 ≤ asMillis config.readBlock ∧ asMillis config.readBlock ≤ 500
  flushInterval : config.flushInterval.toNanos ≠ 0

structure AppConfig.Accepted (config : AppConfig) : Prop where
  redis : config.redis.Accepted
  database : config.database.Accepted
  logging : ¬ Blank config.logging.level.toList
  gateway : ¬ Blank config.gateway.host.toList ∧ config.gateway.port ≠ 0
  core : ¬ Blank config.core.host.toList ∧ config.core.port ≠ 0
  analytics : config.analytics.Accepted

theorem RedisConfig.validate_ok_iff {config : RedisConfig} :
    config.validate = .ok () ↔ config.Accepted := by
  rw [validate_eq, runChecks_ok_iff]
  unfold checks
  simp only [List.forall_mem_cons, nonBlank_passes_iff, positivePort_passes_iff, isZero_iff,
    decide_eq_true_eq]
  exact ⟨fun ⟨h, hport, httl, hevents, _⟩ => ⟨h, hport, httl, hevents⟩,
    fun h => ⟨h.host, h.port, h.cacheTtl, h.events, fun _ hmem => (by cases hmem)⟩⟩

theorem AnalyticsServiceConfig.validate_ok_iff {config : AnalyticsServiceConfig} :
    config.validate = .ok () ↔ config.Accepted := by
  rw [validate_eq, runChecks_ok_iff]
  unfold checks
  simp only [List.forall_mem_cons, nonBlank_passes_iff, positivePort_passes_iff, isZero_iff,
    decide_eq_true_eq, not_not]
  exact ⟨fun ⟨h, hport, hsize, hblock, hflush, _⟩ =>
      ⟨h, hport, Nat.pos_of_ne_zero hsize, hblock, hflush⟩,
    fun h => ⟨h.host, h.port, Nat.ne_of_gt h.readBatchSize, h.readBlock, h.flushInterval,
      fun _ hmem => (by cases hmem)⟩⟩

/-- **What is accepted.** -/
theorem AppConfig.validate_ok_iff {config : AppConfig} :
    config.validate = .ok () ↔ config.Accepted := by
  unfold validate LoggingConfig.validate GatewayServiceConfig.validate CoreServiceConfig.validate
  simp only [bind_ok_iff, RedisConfig.validate_ok_iff, DatabaseConfig.validate_ok_iff,
    AnalyticsServiceConfig.validate_ok_iff, requireNonBlank_ok_iff, requirePort_ok_iff]
  exact ⟨fun ⟨hredis, hdatabase, hlogging, hgateway, hcore, hanalytics⟩ =>
      ⟨hredis, hdatabase, hlogging, hgateway, hcore, hanalytics⟩,
    fun h => ⟨h.redis, h.database, h.logging, h.gateway, h.core, h.analytics⟩⟩

end Kurl
