import RateLimiter.Foundations.Runs
import RateLimiter.Foundations.Metering
import RateLimiter.Foundations.Accrual
import RateLimiter.Foundations.Sweeping
import RateLimiter.Redis.Keys
import RateLimiter.Redis.Ranges
import RateLimiter.Javascript.Text
import RateLimiter.Admission.Scripts
import RateLimiter.Admission.ScriptSpecs
import RateLimiter.Admission.Calls
import RateLimiter.Admission.Ledger
import RateLimiter.Admission.Lifecycle
import RateLimiter.Admission.ClockSkew
import RateLimiter.Admission.KeyLifetime
import RateLimiter.Admission.Debt
import RateLimiter.Admission.Settlement
import RateLimiter.Admission.PolicyEdit
import RateLimiter.Admission.Agreement
import RateLimiter.Admission.RetryAfter
import RateLimiter.Admission.ShedTrace
import RateLimiter.Foundations.Bucket
import RateLimiter.Redis.StoredBalance
import RateLimiter.Admission.RequestRate
import RateLimiter.Foundations.Joining
import RateLimiter.Admission.Keyspace
import RateLimiter.Admission.Isolation
import RateLimiter.Redis.Cluster
import RateLimiter.Admission.Slots
import RateLimiter.Admission.Metrics
import RateLimiter.Admission.Overrun
import RateLimiter.Admission.Backlog
import RateLimiter.Javascript.Numerals
import RateLimiter.Javascript.Seams
import RateLimiter.Admission.Estimator
import RateLimiter.Foundations.Averages
import RateLimiter.Admission.Calibration
import RateLimiter.Admission.Unsatisfiable
import RateLimiter.Gateway.Amounts
import RateLimiter.Foundations.Memo
import RateLimiter.Foundations.FirstMatch
import RateLimiter.Control.Patterns
import RateLimiter.Control.PolicyTable
import RateLimiter.Control.Resolver
import RateLimiter.Control.Interleaving
import RateLimiter.Limiter.Checks
import RateLimiter.Limiter.TokenBucket
import RateLimiter.Foundations.Windows
import RateLimiter.Limiter.SlidingWindow
import RateLimiter.Limiter.FixedWindow
import RateLimiter.Javascript.Maps
import RateLimiter.Admission.Untimed
import RateLimiter.Simulator.Page
import RateLimiter.Simulator.Mirror
import RateLimiter.Simulator.Lockstep
import RateLimiter.Simulator.Service
import RateLimiter.Limiter.Rules
import RateLimiter.Limiter.RuleWrites
import RateLimiter.Limiter.Service
import RateLimiter.Limiter.Contract
import RateLimiter.Limiter.Hints
import RateLimiter.Limiter.Stats
import RateLimiter.Gateway.DegradedMode
import RateLimiter.Limiter.CheckRoute
import RateLimiter.Foundations.Regex
import RateLimiter.Foundations.Rounding
import RateLimiter.Javascript.Doubles
import RateLimiter.Redis.Numbers
import RateLimiter.Javascript.RegExp
import RateLimiter.Control.PatternCache
import RateLimiter.Control.Globs
import RateLimiter.Control.RegexGuard
import RateLimiter.Limiter.StoredPatterns
import RateLimiter.Javascript.Json
import RateLimiter.Limiter.CustomRules
import RateLimiter.Foundations.Statements
import RateLimiter.Limiter.RuleStore
import RateLimiter.Limiter.RulesAsWritten
import RateLimiter.Control.PolicyUpdate
import RateLimiter.Limiter.DecisionPath
import RateLimiter.Foundations.Footprints
import RateLimiter.Limiter.KeyNames
import RateLimiter.Limiter.Database
import RateLimiter.Limiter.Places
import RateLimiter.Limiter.Resets
import RateLimiter.Foundations.Atomic
import RateLimiter.Redis.ScriptRunner
import RateLimiter.Admission.TokenRate
import RateLimiter.Foundations.KeyedRows
import RateLimiter.Gateway.Credentials
import RateLimiter.Limiter.RuleRoutes
import RateLimiter.Limiter.RuleCatalogue
import RateLimiter.Control.Loading
import RateLimiter.Limiter.Outages
import RateLimiter.Limiter.WindowSkew
import RateLimiter.Gateway.SeedNodes
import RateLimiter.Admission.Capacity
import RateLimiter.Control.Staleness
import RateLimiter.Admission.ReserveRoute
import RateLimiter.Admission.Retries
import RateLimiter.Limiter.ChangingQuotas
