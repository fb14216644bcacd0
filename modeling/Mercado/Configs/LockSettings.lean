import Mercado.Arith.Checked
import Mercado.Configs.Validation

/-! The settings of the API lock. The number of retries is not configured: it is computed
while the settings are read, which is before they are validated. -/
namespace Mercado.Configs
open Checked

structure LockSettings where
  redisLockExpirySeconds : UInt32
  delayBetweenRetriesInMilliseconds : UInt32
  lockRetries : UInt32
  deriving DecidableEq, Repr

namespace LockSettings

/-- What `Deserialize` does with the two fields that are read. -/
def fromInner (build : Build) (redisLockExpirySeconds delayBetweenRetriesInMilliseconds : UInt32) :
    Except Panic LockSettings := do
  let redisLockExpiryMilliseconds ← build.mulU32 redisLockExpirySeconds 1000
  let lockRetries ← divU32 redisLockExpiryMilliseconds delayBetweenRetriesInMilliseconds
  return { redisLockExpirySeconds, delayBetweenRetriesInMilliseconds, lockRetries }

def validate (s : LockSettings) : Except ApplicationError Unit := do
  when (isDefaultOrEmptyU32 s.redisLockExpirySeconds) (.error (.invalidConfigurationValueError
    "redis_lock_expiry_seconds must not be empty or 0"))
  when (isDefaultOrEmptyU32 s.delayBetweenRetriesInMilliseconds)
    (.error (.invalidConfigurationValueError
      "delay_between_retries_in_milliseconds must not be empty or 0"))
  when (isDefaultOrEmptyU32 s.lockRetries) (.error (.invalidConfigurationValueError
    "lock_retries must not be empty or 0"))

end LockSettings

/- The settings are defined in two crates, each with its own copy of this code. -/

def DataModels.deserializeLockSettings : Build → UInt32 → UInt32 → Except Panic LockSettings :=
  LockSettings.fromInner

def Router.deserializeLockSettings : Build → UInt32 → UInt32 → Except Panic LockSettings :=
  LockSettings.fromInner

def loadLockSettings (deserialize : Build → UInt32 → UInt32 → Except Panic LockSettings)
    (build : Build) (expiry delay : UInt32) :
    Except Panic (Except ApplicationError LockSettings) := do
  let settings ← deserialize build expiry delay
  return settings.validate.map fun _ => settings

/-- The expiry and the delay are given, at least one retry fits, and their number is a `u32`. -/
def Admissible (expiry delay : UInt32) : Prop :=
  expiry ≠ 0 ∧ delay ≠ 0 ∧ delay.toNat ≤ expiry.toNat * 1000 ∧
    expiry.toNat * 1000 / delay.toNat < 2 ^ 32

/-- Every build accepts the admissible pairs, with the exact number of retries, and reports
the others as errors. -/
def DerivedExactly (deserialize : Build → UInt32 → UInt32 → Except Panic LockSettings)
    (expiry delay : UInt32) : Prop :=
  ∃ result, (∀ build, loadLockSettings deserialize build expiry delay = .ok result) ∧
    ((∃ settings, result = .ok settings) ↔ Admissible expiry delay) ∧
    ∀ settings, result = .ok settings → settings.redisLockExpirySeconds = expiry ∧
      settings.delayBetweenRetriesInMilliseconds = delay ∧
      settings.lockRetries.toNat = expiry.toNat * 1000 / delay.toNat

theorem fromInner_ok {build : Build} {expiry delay : UInt32} (positive : delay ≠ 0)
    (fits : expiry.toNat * 1000 < 2 ^ 32) :
    LockSettings.fromInner build expiry delay =
      .ok ⟨expiry, delay, expiry * 1000 / delay⟩ := by
  rw [LockSettings.fromInner, (mulU32_fits fits).1]
  change (divU32 (expiry * 1000) delay >>= _) = _
  rw [divU32_ok positive]
  rfl

theorem fromInner_panics {expiry delay : UInt32}
    (h : ¬ (delay ≠ 0 ∧ expiry.toNat * 1000 < 2 ^ 32)) :
    ∃ panic, LockSettings.fromInner .debug expiry delay = .error panic := by
  by_cases fits : expiry.toNat * 1000 < 2 ^ 32
  · have zero : delay = 0 := Decidable.by_contra fun positive => h ⟨positive, fits⟩
    refine ⟨.divisionByZero, ?_⟩
    rw [LockSettings.fromInner, (mulU32_fits fits).1, zero]
    rfl
  · refine ⟨.overflow, ?_⟩
    rw [LockSettings.fromInner, mulU32_overflows (Nat.not_lt.mp fits)]
    rfl

theorem validate_ok_iff {settings : LockSettings} : settings.validate = .ok () ↔
    settings.redisLockExpirySeconds ≠ 0 ∧ settings.delayBetweenRetriesInMilliseconds ≠ 0 ∧
      settings.lockRetries ≠ 0 := by
  rw [LockSettings.validate, when_bind_ok, when_bind_ok, when_ok, isDefaultOrEmptyU32_iff,
    isDefaultOrEmptyU32_iff, isDefaultOrEmptyU32_iff]

theorem derivedExactly_iff (expiry delay : UInt32) :
    DerivedExactly LockSettings.fromInner expiry delay ↔
      delay ≠ 0 ∧ expiry.toNat * 1000 < 2 ^ 32 := by
  constructor
  · rintro ⟨result, returns, -⟩
    refine Decidable.by_contra fun h => ?_
    obtain ⟨panic, panics⟩ := fromInner_panics h
    have returned := returns .debug
    rw [loadLockSettings, panics] at returned
    cases returned
  · rintro ⟨positive, fits⟩
    let settings : LockSettings := ⟨expiry, delay, expiry * 1000 / delay⟩
    have retries : settings.lockRetries.toNat = expiry.toNat * 1000 / delay.toNat := by
      rw [UInt32.toNat_div, (@mulU32_fits .debug expiry 1000 fits).2]
      rfl
    have bound : expiry.toNat * 1000 / delay.toNat < 2 ^ 32 :=
      Nat.lt_of_le_of_lt (Nat.div_le_self ..) fits
    have delayPositive : 0 < delay.toNat :=
      Nat.pos_of_ne_zero fun zero => positive (UInt32.toNat_inj.mp zero)
    have some : settings.lockRetries ≠ 0 ↔ delay.toNat ≤ expiry.toNat * 1000 := by
      rw [ne_eq, ← UInt32.toNat_inj, retries, UInt32.toNat_zero, Nat.div_eq_zero_iff]
      omega
    have accepted : settings.validate = .ok () ↔ Admissible expiry delay := by
      rw [validate_ok_iff, some, Admissible]
      simp only [bound, and_true]
      rfl
    refine ⟨settings.validate.map fun _ => settings, fun build => ?_, ?_, ?_⟩
    · rw [loadLockSettings, fromInner_ok positive fits]
      rfl
    · rw [← accepted]
      cases settings.validate with
      | ok => exact iff_of_true ⟨settings, rfl⟩ rfl
      | error e => exact iff_of_false (by rintro ⟨_, ⟨⟩⟩) (by simp)
    · intro settings' ok
      cases valid : settings.validate with
      | ok =>
        rw [valid] at ok
        cases ok
        exact ⟨rfl, rfl, retries⟩
      | error e =>
        rw [valid] at ok
        cases ok

/-- Both copies derive the settings exactly unless the delay is zero or the expiry in
milliseconds does not fit. -/
theorem lockSettings_derived (expiry delay : UInt32) :
    (DerivedExactly DataModels.deserializeLockSettings expiry delay ↔
      delay ≠ 0 ∧ expiry.toNat * 1000 < 2 ^ 32) ∧
    (DerivedExactly Router.deserializeLockSettings expiry delay ↔
      delay ≠ 0 ∧ expiry.toNat * 1000 < 2 ^ 32) :=
  ⟨derivedExactly_iff expiry delay, derivedExactly_iff expiry delay⟩

/-- A delay of zero is not reported: the division panics before the settings are validated. -/
theorem zero_delay_panics : ¬ DerivedExactly DataModels.deserializeLockSettings 180 0 := by
  rintro ⟨result, returns, -⟩
  have panics : loadLockSettings DataModels.deserializeLockSettings .release 180 0 =
      .error .divisionByZero := by decide
  cases panics.symm.trans (returns .release)

end Mercado.Configs
