import Mercado.Configs.Validation
import Mercado.Scheduler.Batch

/-! Tasks divided into batches, under the settings that the validators of the scheduler let
through. -/
namespace Mercado.Scheduler
open Configs

structure Server where
  workers : Nat
  host : String

structure ServedSettings extends SchedulerSettings where
  server : Server

def Server.validate (s : Server) : Except ApplicationError Unit := do
  when (isDefaultOrEmpty s.host)
    (.error (.invalidConfigurationValueError "server host must not be empty"))
  when (s.workers = 0)
    (.error (.invalidConfigurationValueError "number of workers must be greater than 0"))

def ProducerSettings.validate (s : ProducerSettings) : Except ApplicationError Unit :=
  when (isDefaultOrEmpty s.lockKey)
    (.error (.invalidConfigurationValueError "producer lock key must not be empty"))

def ServedSettings.validate (s : ServedSettings) : Except ApplicationError Unit := do
  when (isDefaultOrEmpty s.stream)
    (.error (.invalidConfigurationValueError "scheduler stream must not be empty"))
  when (isDefaultOrEmpty s.consumer.consumerGroup)
    (.error (.invalidConfigurationValueError "scheduler consumer group must not be empty"))
  s.producer.validate
  s.server.validate
  return ()

def ServedSettings.Complete (s : ServedSettings) : Prop :=
  isDefaultOrEmpty s.stream = false ∧ isDefaultOrEmpty s.consumer.consumerGroup = false ∧
    isDefaultOrEmpty s.producer.lockKey = false ∧ isDefaultOrEmpty s.server.host = false ∧
    s.server.workers ≠ 0

theorem ServedSettings.validate_ok_iff {s : ServedSettings} :
    s.validate = .ok () ↔ s.Complete := by
  have served : s.server.validate = .ok () ↔
      isDefaultOrEmpty s.server.host = false ∧ s.server.workers ≠ 0 := by
    rw [Server.validate, when_bind_ok, when_ok, decide_eq_false_iff_not]
  rw [ServedSettings.validate, when_bind_ok, when_bind_ok, ProducerSettings.validate, when_bind_ok,
    Complete, ← served]
  cases s.server.validate with
  | ok => exact and_congr_right' (and_congr_right' (and_congr_right' (iff_of_true rfl rfl)))
  | error e => simp [bind, Except.bind]

def divide (tasks : List ProcessTracker) (conf : SchedulerSettings) (now : PrimitiveDateTime)
    (batchId : String) : Option (List ProcessTrackerBatch) :=
  divideIntoBatches conf.producer.batchSize tasks now batchId conf

/-- Nothing is lost, doubled or moved; the batches are full except for the last, which has at
least one task. -/
structure Divided (conf : SchedulerSettings) (tasks : List ProcessTracker)
    (batches : List ProcessTrackerBatch) : Prop where
  trackers : batches.flatMap ProcessTrackerBatch.trackers = tasks
  nonempty : ∀ batch ∈ batches, batch.trackers ≠ []
  size : ∀ batch ∈ batches, batch.trackers.length ≤ conf.producer.batchSize
  full : ∀ batch ∈ batches.dropLast, batch.trackers.length = conf.producer.batchSize
  names : ∀ batch ∈ batches, batch.streamName = conf.stream ∧
    batch.groupName = conf.consumer.consumerGroup

def Divides (conf : SchedulerSettings) : Prop :=
  ∀ tasks now batchId, ∃ batches, divide tasks conf now batchId = some batches ∧
    Divided conf tasks batches

/- The slices, one at a time. -/

theorem mem_chunksFuel {α : Type} {size : Nat} (positive : 0 < size) {fuel : Nat} {xs c : List α}
    (mem : c ∈ chunksFuel size fuel xs) : c ≠ [] ∧ c.length ≤ size := by
  induction fuel generalizing xs with
  | zero => cases mem
  | succ fuel ih =>
    cases xs with
    | nil => cases mem
    | cons x xs =>
      rw [chunksFuel] at mem
      rcases List.mem_cons.mp mem with rfl | mem
      · refine ⟨?_, List.length_take_le ..⟩
        rw [ne_eq, List.take_eq_nil_iff, not_or]
        exact ⟨Nat.ne_of_gt positive, List.cons_ne_nil x xs⟩
      · exact ih mem

theorem dropLast_chunksFuel {α : Type} {size fuel : Nat} {xs c : List α}
    (mem : c ∈ (chunksFuel size fuel xs).dropLast) : c.length = size := by
  induction fuel generalizing xs with
  | zero => cases mem
  | succ fuel ih =>
    cases xs with
    | nil => cases mem
    | cons x xs =>
      rw [chunksFuel] at mem
      cases rest : chunksFuel size fuel ((x :: xs).drop size) with
      | nil =>
        rw [rest] at mem
        cases mem
      | cons d ds =>
        rw [rest, List.dropLast_cons_cons] at mem
        rcases List.mem_cons.mp mem with rfl | mem
        · have more : (x :: xs).drop size ≠ [] := by
            intro done
            rw [done] at rest
            cases fuel <;> cases rest
          rw [List.length_take]
          have := mt List.drop_eq_nil_iff.mpr more
          omega
        · exact ih (rest ▸ mem)

theorem divides_iff (conf : SchedulerSettings) : Divides conf ↔ conf.producer.batchSize ≠ 0 := by
  constructor
  · intro divides zero
    obtain ⟨batches, divided, -⟩ := divides [] 0 ""
    rw [divide, divideIntoBatches, if_pos zero] at divided
    cases divided
  · intro nonzero tasks now batchId
    have positive := Nat.pos_of_ne_zero nonzero
    refine ⟨_, if_neg nonzero, ?_, ?_, ?_, ?_, ?_⟩
    · rw [List.flatMap_def, List.map_map]
      exact (congrArg List.flatten (List.map_id _)).trans (chunks_flatten positive tasks)
    · intro batch mem
      obtain ⟨item, chunk, rfl⟩ := List.mem_map.mp mem
      exact (mem_chunksFuel positive chunk).1
    · intro batch mem
      obtain ⟨item, chunk, rfl⟩ := List.mem_map.mp mem
      exact (mem_chunksFuel positive chunk).2
    · intro batch mem
      rw [← List.map_dropLast] at mem
      obtain ⟨item, chunk, rfl⟩ := List.mem_map.mp mem
      exact dropLast_chunksFuel chunk
    · intro batch mem
      obtain ⟨item, chunk, rfl⟩ := List.mem_map.mp mem
      exact ⟨rfl, rfl⟩

/-- No validator asks for a batch size, and with a batch size of zero every division panics. -/
theorem validated_settings_divide (s : ServedSettings) :
    (s.validate = .ok () → Divides s.toSchedulerSettings) ↔
      ¬ s.Complete ∨ s.producer.batchSize ≠ 0 := by
  rw [ServedSettings.validate_ok_iff, divides_iff]
  exact imp_iff_not_or

def zeroBatches : ServedSettings :=
  { sampleSettings with
    producer := { sampleSettings.producer with batchSize := 0 }
    server := ⟨1, "localhost"⟩ }

theorem zero_batch_size_accepted :
    ¬ (zeroBatches.validate = .ok () → Divides zeroBatches.toSchedulerSettings) := by
  intro divides
  obtain ⟨batches, divided, -⟩ := divides (by decide) [] 0 ""
  cases divided

end Mercado.Scheduler
