/-! The errors that several crates pass on to each other. -/
namespace Mercado

/-- `redis_interface::errors::RedisError`, the variants the modelled functions return. -/
inductive RedisError where
  | setFailed | setNxFailed | setExFailed | setExpiryFailed | getFailed | deleteFailed
  | streamAppendFailed | streamReadFailed | streamDeleteFailed | streamTrimFailed
  | streamAcknowledgeFailed | streamEmptyOrNotAvailable | consumerGroupCreateFailed
  | jsonSerializationFailed | jsonDeserializationFailed
  | setHashFailed | setHashFieldFailed | setAddMembersFailed | getHashFieldFailed
  | notFound | invalidRedisEntryId | redisConnectionError | subscribeError | onMessageError
  deriving DecidableEq, Repr

inductive DatabaseError where
  | databaseConnectionError | notFound | uniqueViolation | noFieldsToUpdate
  | queryGenerationFailed | others
  deriving DecidableEq, Repr

/-- `data_models::errors::StorageError`, the variants of the cache functions and of the
database functions they are given. -/
inductive StorageError where
  | databaseError (e : DatabaseError)
  | valueNotFound (message : String)
  | kvError
  | redisError (e : RedisError)
  deriving DecidableEq, Repr

end Mercado
