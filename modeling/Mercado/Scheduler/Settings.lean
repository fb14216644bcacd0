import Mercado.Errors

/-! The settings and errors of the process tracker. -/
namespace Mercado.Scheduler

structure ProducerSettings where
  upperFetchLimit : Int
  lowerFetchLimit : Int
  lockKey : String
  lockTtl : Int
  batchSize : Nat

structure ConsumerSettings where
  disabled : Bool
  consumerGroup : String

structure SchedulerSettings where
  stream : String
  producer : ProducerSettings
  consumer : ConsumerSettings

def sampleSettings : SchedulerSettings where
  stream := "SCHEDULER_STREAM"
  producer := ⟨0, 1800, "PRODUCER_LOCKING_KEY", 160, 200⟩
  consumer := ⟨false, "SCHEDULER_GROUP"⟩

/-- `ProcessTrackerError`, the variants the modelled functions return. `panicked` is not
one of them: it stands for a panic, which no caller handles. -/
inductive ProcessTrackerError where
  | unexpectedFlow | serializationFailed | deserializationFailed | missingRequiredField
  | batchInsertionFailed | batchNotFound | batchUpdateFailed | batchDeleteFailed
  | configurationError | processUpdateFailed | processFetchingFailed
  | eRedisError (e : RedisError)
  | panicked
  deriving DecidableEq, Repr

inductive SchedulerFlow where
  | producer | consumer | cleaner
  deriving DecidableEq, Repr

end Mercado.Scheduler
