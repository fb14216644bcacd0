import Mercado.Arith.Checked
import Mercado.Configs.Validation
import Mercado.Drainer.Routing

/-! The arithmetic on shards, overflow and division by zero included, under the settings that
the validator of the drainer lets through. -/
namespace Mercado.Drainer.Fleet
open Checked Configs Storage

inductive ConfigError where
  | configParsingError (message : String)
  deriving DecidableEq, Repr

def DrainerSettings.validate (conf : DrainerSettings) : Except ConfigError Unit :=
  when (isDefaultOrEmpty conf.streamName)
    (.error (.configParsingError "drainer stream name must not be empty"))

structure Cycling where
  streamIndex : UInt8
  jobsPicked : UInt8
  completedUnsuccessfully : Nat
  completedSuccessfully : Nat

def Cycling.complete (s : Cycling) : Cycling where
  streamIndex := 0
  jobsPicked := 0
  completedUnsuccessfully := s.completedUnsuccessfully + if s.jobsPicked = 0 then 1 else 0
  completedSuccessfully := s.completedSuccessfully + if s.jobsPicked = 0 then 0 else 1

def Cycling.increment (build : Build) (s : Cycling) (totalStreams : UInt8) :
    Except Checked.Panic Cycling := do
  let last ← build.subU8 totalStreams 1
  if s.streamIndex = last then
    return s.complete
  else
    let next ← build.addU8 s.streamIndex 1
    return { s with streamIndex := next }

def Cycling.start : Cycling := ⟨0, 0, 0, 0⟩

/-- The loop after so many turns. Its handlers have picked jobs in the meantime. -/
def Cycling.turns (build : Build) (totalStreams : UInt8) (jobsPicked : Nat → UInt8) :
    Nat → Except Checked.Panic Cycling
  | 0 => return start
  | turn + 1 => do
    let s ← turns build totalStreams jobsPicked turn
    { s with jobsPicked := jobsPicked turn }.increment build totalStreams

def checkedPartitionNumber (crc32 : String → UInt32) (key : PartitionKey)
    (numPartitions : UInt8) : Except Checked.Panic UInt32 :=
  remU32 (crc32 key.display) numPartitions.toUInt32

/-- In every build the loop goes through the indices below the number of partitions, over and
over, and every key has a partition. -/
structure SafeShards (crc32 : String → UInt32) (conf : DrainerSettings) : Prop where
  turns : ∀ build jobsPicked turn, ∃ s,
    Cycling.turns build conf.numPartitions jobsPicked turn = .ok s ∧
      s.streamIndex < conf.numPartitions ∧
      s.streamIndex.toNat = turn % conf.numPartitions.toNat
  partition : ∀ key, ∃ n, checkedPartitionNumber crc32 key conf.numPartitions = .ok n

theorem increment_ok {build : Build} {s : Cycling} {total : UInt8} (below : s.streamIndex < total) :
    ∃ s', s.increment build total = .ok s' ∧
      s'.streamIndex = incrementStreamIndex s.streamIndex total := by
  have bound : s.streamIndex.toNat < total.toNat := UInt8.lt_iff_toNat_lt.mp below
  have small : total.toNat < 256 := total.toNat_lt
  have last : build.subU8 total 1 = .ok (total - 1) := fit_of_fits (by
    rw [UInt8.toNat_one]
    omega)
  have lastNat : (total - 1).toNat = total.toNat - 1 :=
    UInt8.toNat_sub_of_le _ _ (UInt8.le_iff_toNat_le.mpr (by rw [UInt8.toNat_one]; omega))
  rw [Cycling.increment, last, incrementStreamIndex]
  by_cases same : s.streamIndex = total - 1
  · refine ⟨s.complete, ?_, ?_⟩
    · simp only [bind, Except.bind, same, if_true]
      rfl
    · rw [if_pos same]
      rfl
  · have differ : s.streamIndex.toNat ≠ total.toNat - 1 := fun eq =>
      same (UInt8.toNat_inj.mp (eq.trans lastNat.symm))
    have next : build.addU8 s.streamIndex 1 = .ok (s.streamIndex + 1) := fit_of_fits (by
      rw [UInt8.toNat_one]
      omega)
    refine ⟨{ s with streamIndex := s.streamIndex + 1 }, ?_, ?_⟩
    · simp only [bind, Except.bind, same, if_false, next]
      rfl
    · rw [if_neg same]

theorem turns_visit {build : Build} {conf : DrainerSettings} (positive : 0 < conf.numPartitions)
    (jobsPicked : Nat → UInt8) (turn : Nat) : ∃ s,
      Cycling.turns build conf.numPartitions jobsPicked turn = .ok s ∧
        s.streamIndex = visitedIndex conf turn := by
  induction turn with
  | zero => exact ⟨Cycling.start, rfl, rfl⟩
  | succ turn ih =>
    obtain ⟨s, ran, index⟩ := ih
    have below : s.streamIndex < conf.numPartitions := by
      rw [index]
      exact (visitedIndex_range positive _).mp ⟨turn, rfl⟩
    obtain ⟨s', next, index'⟩ := @increment_ok build { s with jobsPicked := jobsPicked turn }
      conf.numPartitions below
    refine ⟨s', ?_, ?_⟩
    · rw [Cycling.turns, ran]
      exact next
    · rw [index', visitedIndex, ← index]

theorem safeShards_iff (crc32 : String → UInt32) (conf : DrainerSettings) :
    SafeShards crc32 conf ↔ conf.numPartitions ≠ 0 := by
  constructor
  · rintro ⟨turns, -⟩ zero
    obtain ⟨s, -, below, -⟩ := turns .release (fun _ => 0) 0
    rw [zero] at below
    exact absurd (UInt8.lt_iff_toNat_lt.mp below) (Nat.not_lt_zero _)
  · intro nonzero
    have positive : 0 < conf.numPartitions := by
      refine UInt8.lt_iff_toNat_lt.mpr (Nat.pos_of_ne_zero fun zero => ?_)
      exact nonzero (UInt8.toNat_inj.mp zero)
    constructor
    · intro build jobsPicked turn
      obtain ⟨s, ran, index⟩ := @turns_visit build conf positive jobsPicked turn
      refine ⟨s, ran, ?_, ?_⟩
      · rw [index]
        exact (visitedIndex_range positive _).mp ⟨turn, rfl⟩
      · rw [index, visitedIndex_toNat positive]
    · intro key
      refine remU32_ok_iff.mpr fun zero => nonzero ?_
      have := congrArg UInt32.toNat zero
      exact UInt8.toNat_inj.mp this

/-- The validator asks for the name of the stream only, so settings without partitions are the
ones that it accepts and should not. -/
theorem validated_shards_safe (crc32 : String → UInt32) (conf : DrainerSettings) :
    (conf.validate = .ok () → SafeShards crc32 conf) ↔
      isDefaultOrEmpty conf.streamName = true ∨ conf.numPartitions ≠ 0 := by
  rw [DrainerSettings.validate, when_ok, safeShards_iff]
  cases isDefaultOrEmpty conf.streamName <;> simp

def noPartitions : DrainerSettings where
  streamName := "DRAINER_STREAM"
  numPartitions := 0
  maxReadCount := 100
  defaultTtl := 300

/-- They are accepted, and the first increment underflows. -/
theorem no_partitions_accepted :
    ¬ (noPartitions.validate = .ok () → SafeShards (fun _ => 0) noPartitions) := by
  intro safe
  obtain ⟨s, ran, -, -⟩ := (safe (by decide)).turns .debug (fun _ => 0) 1
  have underflows : Cycling.turns .debug 0 (fun _ => 0) 1 = .error .overflow := by rfl
  cases underflows.symm.trans ran

end Mercado.Drainer.Fleet
