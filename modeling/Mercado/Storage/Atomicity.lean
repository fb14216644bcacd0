import Mercado.Storage.KvStore

/-! What an operation that returns an error has done to Redis, and what one that
returns its result has done. -/
namespace Mercado.Storage
open Async Redis

/-- A command that fails has not been carried out. -/
abbrev CleanChoice := { o : Choice // o.redis ≠ .unanswered }

def cleanExec (globMatches : String → String → Bool) (client : Nat) (c : Command)
    (o : CleanChoice) (w : World) : Reply c × World :=
  exec globMatches client c o.1 w

abbrev Ran (globMatches : String → String → Bool) (client : Nat) {α : Type} (t : KvTask α)
    (w : World) (r : α) (w' : World) : Prop :=
  Task.Outcome (cleanExec globMatches client) t w r w'

section Writes

variable {S T σ : Type} (traits : Traits S T σ) (store : KvRouterStore) (client : Nat)

/-- The writes on the path of an operation, in the order in which it makes them. -/
def writes (op : KvOperation S σ) (key : String) : List (World → World) :=
  match op with
  | .hset field value _ =>
    [fun w => w.write client (.inHash key field) value, fun w => w.expire key store.ttlForKv]
  | .hSetNx field value _ =>
    let constraints := fun w : World =>
      w.sadd ("unique_constraint:" ++ traits.tableName value) (traits.uniqueConstraints value)
    match traits.encodeToVec value with
    | .ok serialized =>
      [constraints, fun w => w.writeIfNotExists client (.inHash key field) serialized,
        fun w => w.expire key store.ttlForKv]
    | .error _ => [constraints]
  | .setNx value _ =>
    match traits.encodeToVec value with
    | .ok serialized =>
      [fun w => w.setNxEx client key serialized store.ttlForKv, fun w =>
        w.sadd ("unique_constraint:" ++ traits.tableName value) (traits.uniqueConstraints value)]
    | .error _ => []
  | .hGet _ | .get | .scan _ => []

def performed (done : List (World → World)) (w : World) : World :=
  done.foldl (fun u f => f u) w

def Appended (key : String) (sql : σ) (w w' : World) : Prop :=
  ∃ now gap fields,
    toFieldValuePairs traits sql (store.requestId.getD "") key now = .ok fields ∧
    w' = w.xadd client (getDrainerStreamName store (shardKey traits
      (.merchantIdPaymentIdCombination key) store.drainerNumPartitions)) gap fields

def sqlOf : KvOperation S σ → Option σ
  | .hset _ _ sql | .setNx _ sql | .hSetNx _ _ sql => some sql
  | .hGet _ | .get | .scan _ => none

/-- How many of the writes an operation has made when it ends with this error. A value or a query
that cannot be serialized, an entry that cannot be appended and a key that was there already are
found after all of them. -/
def madeBefore (op : KvOperation S σ) (key : String) (e : RedisError) : Nat :=
  match e, op with
  | .redisConnectionError, _ | .setHashFailed, _ | .setFailed, _ => 0
  | .setAddMembersFailed, .setNx .. => 1
  | .setAddMembersFailed, _ => 0
  | .setHashFieldFailed, _ => 1
  | .setExpiryFailed, .hset .. => 1
  | .setExpiryFailed, _ => 2
  | _, _ => (writes traits store client op key).length

/-- The constraint check on several members, which has added them although its reply, which counts
them, is taken for a failure. -/
def AddedSeveral (op : KvOperation S σ) (e : RedisError) : Prop :=
  match op with
  | .hSetNx _ value _ | .setNx value _ =>
    e = .setAddMembersFailed ∧ 2 ≤ (traits.uniqueConstraints value).length
  | _ => False

def FirstWriteFailed (op : KvOperation S σ) (e : RedisError) : Prop :=
  match op with
  | .hset .. => e = .setHashFailed
  | .hSetNx _ value _ =>
    e = .setAddMembersFailed ∧ (traits.uniqueConstraints value).length ≤ 1
  | .setNx .. => e = .setFailed
  | .hGet _ | .get | .scan _ => True

end Writes

section Steps

variable {globMatches : String → String → Bool} {client : Nat} {w w' : World}

theorem clean_through {ε α S : Type} (o : CleanChoice) (err : ε) (s : S) (x : α × S) :
    o.1.redis.through err s x = (.ok x.1, x.2) ∨ o.1.redis.through err s x = (.error err, s) := by
  rcases Delivery.through_cases o.1.redis err s x with h | h | h
  · exact .inl h
  · exact .inr h
  · cases delivery : o.1.redis with
    | answered => exact .inl rfl
    | lost => exact .inr rfl
    | unanswered => exact absurd delivery o.2

theorem through_ran {α : Type} {o : CleanChoice} {a : α} {effect : World} {r : Except Unit α}
    (made : o.1.redis.through () w (a, effect) = (r, w')) :
    (r = .ok a ∧ w' = effect) ∨ (r = .error () ∧ w' = w) := by
  rcases clean_through o () w (a, effect) with h | h
  · cases h.symm.trans made
    exact .inl ⟨rfl, rfl⟩
  · cases h.symm.trans made
    exact .inr ⟨rfl, rfl⟩

theorem changeContext_ran {α : Type} {e : RedisError} {t : KvTask (Except Unit α)}
    {r : Except RedisError α} (ran : Ran globMatches client (Task.changeContext e t).run w r w') :
    ∃ r', Ran globMatches client t w r' w' ∧ r = r'.mapError fun _ => e :=
  Task.outcome_changeContext ran

theorem converted_ran {α β : Type} {fromValue : α → Except Unit β} {t : KvTask (Except Unit α)}
    {r : Except Unit β} (ran : Ran globMatches client (converted fromValue t) w r w') :
    ∃ r', Ran globMatches client t w r' w' ∧ r = r'.bind fromValue := by
  obtain ⟨r', m, first, rfl, rfl⟩ := Task.outcome_bind.mp ran
  exact ⟨r', first, rfl⟩

theorem setExpiry_ran {key : String} {seconds : Nat} {r : Except RedisError Unit}
    (ran : Ran globMatches client (setExpiry key seconds).run w r w') :
    (r = .ok () ∧ w' = w.expire key seconds) ∨ (r = .error .setExpiryFailed ∧ w' = w) := by
  obtain ⟨r', inner, rfl⟩ := changeContext_ran ran
  obtain ⟨o, made⟩ := Task.outcome_call.mp inner
  rcases through_ran made with ⟨rfl, rfl⟩ | ⟨rfl, rfl⟩
  · exact .inl ⟨rfl, rfl⟩
  · exact .inr ⟨rfl, rfl⟩

theorem setHashFields_ran {config : RedisConfig} {key field value : String} {ttl : Nat}
    {r : Except RedisError Unit}
    (ran : Ran globMatches client (setHashFields config key field value (some ttl)).run w r w') :
    (r = .ok () ∧ w' = (w.write client (.inHash key field) value).expire key ttl) ∨
      (r = .error .setExpiryFailed ∧ w' = w.write client (.inHash key field) value) ∨
      (r = .error .setHashFailed ∧ w' = w) := by
  have write : ∀ r u, Ran globMatches client (call (.hset key field value)) w r u →
      (r = .ok () ∧ u = w.write client (.inHash key field) value) ∨ (r = .error () ∧ u = w) := by
    intro r u inner
    obtain ⟨o, made⟩ := Task.outcome_call.mp inner
    exact through_ran made
  rcases Task.outcome_tryBind ran with ⟨_, m, first, rest⟩ | ⟨e, rfl, first⟩
  · obtain ⟨r', inner, same⟩ := changeContext_ran first
    rcases write r' m inner with ⟨rfl, rfl⟩ | ⟨rfl, rfl⟩
    · rcases setExpiry_ran rest with ⟨rfl, rfl⟩ | ⟨rfl, rfl⟩
      · exact .inl ⟨rfl, rfl⟩
      · exact .inr (.inl ⟨rfl, rfl⟩)
    · cases same
  · obtain ⟨r', inner, same⟩ := changeContext_ran first
    rcases write r' w' inner with ⟨rfl, rfl⟩ | ⟨rfl, rfl⟩
    · cases same
    · cases same
      exact .inr (.inr ⟨rfl, rfl⟩)

theorem setHashFieldIfNotExist_ran {config : RedisConfig} {key field value : String} {ttl : Nat}
    {r : Except RedisError HsetnxReply} (ran : Ran globMatches client
      (setHashFieldIfNotExist config key field value (some ttl)).run w r w') :
    (∃ reply, r = .ok reply ∧
      w' = (w.writeIfNotExists client (.inHash key field) value).expire key ttl) ∨
      (r = .error .setExpiryFailed ∧ w' = w.writeIfNotExists client (.inHash key field) value) ∨
      (r = .error .setHashFieldFailed ∧ w' = w) := by
  have write : ∀ r u, Ran globMatches client
      (converted HsetnxReply.fromValue (call (.hsetnx key field value))) w r u →
      (∃ reply, r = .ok reply ∧ u = w.writeIfNotExists client (.inHash key field) value) ∨
        (r = .error () ∧ u = w) := by
    intro r u conv
    obtain ⟨r', inner, rfl⟩ := converted_ran conv
    obtain ⟨o, made⟩ := Task.outcome_call.mp inner
    rcases through_ran made with ⟨rfl, rfl⟩ | ⟨rfl, rfl⟩
    · split
      · exact .inl ⟨.keyNotSet, rfl, rfl⟩
      · exact .inl ⟨.keySet, rfl, rfl⟩
    · exact .inr ⟨rfl, rfl⟩
  rcases Task.outcome_tryBind ran with ⟨reply, m, first, rest⟩ | ⟨e, rfl, first⟩
  · obtain ⟨r', inner, same⟩ := changeContext_ran first
    rcases write r' m inner with ⟨_, rfl, rfl⟩ | ⟨rfl, rfl⟩
    · rcases Task.outcome_tryBind rest with ⟨_, m', expiry, last⟩ | ⟨e, rfl, expiry⟩
      · rcases setExpiry_ran expiry with ⟨_, rfl⟩ | ⟨wrong, _⟩
        · obtain ⟨rfl, rfl⟩ := last
          exact .inl ⟨reply, rfl, rfl⟩
        · cases wrong
      · rcases setExpiry_ran expiry with ⟨wrong, _⟩ | ⟨same', rfl⟩
        · cases wrong
        · cases same'
          exact .inr (.inl ⟨rfl, rfl⟩)
    · cases same
  · obtain ⟨r', inner, same⟩ := changeContext_ran first
    rcases write r' w' inner with ⟨_, rfl, rfl⟩ | ⟨rfl, rfl⟩
    · cases same
    · cases same
      exact .inr (.inr ⟨rfl, rfl⟩)

theorem setKeyIfNotExistsWithExpiry_ran {config : RedisConfig} {key value : String} {ttl : Nat}
    {r : Except RedisError SetnxReply} (ran : Ran globMatches client
      (setKeyIfNotExistsWithExpiry config key value (some ttl)).run w r w') :
    (∃ reply, r = .ok reply ∧ w' = w.setNxEx client key value ttl) ∨
      (r = .error .setFailed ∧ w' = w) := by
  obtain ⟨r', conv, rfl⟩ := changeContext_ran ran
  obtain ⟨r'', inner, rfl⟩ := converted_ran conv
  obtain ⟨o, made⟩ := Task.outcome_call.mp inner
  simp only [cleanExec, exec] at made
  split at made
  · cases made
    exact .inr ⟨rfl, rfl⟩
  · rcases through_ran made with ⟨rfl, rfl⟩ | ⟨rfl, rfl⟩
    · split
      · exact .inl ⟨.keyNotSet, rfl, rfl⟩
      · exact .inl ⟨.keySet, rfl, rfl⟩
    · exact .inr ⟨rfl, rfl⟩

theorem sadd_ran {key : String} {members : List String} {r : Except Unit Nat}
    (ran : Ran globMatches client (call (.sadd key members)) w r w') :
    (r = .ok (w.keys.newMembers key members).length ∧ w' = w.sadd key members) ∨
      (r = .error () ∧ w' = w) := by
  obtain ⟨o, made⟩ := Task.outcome_call.mp ran
  simp only [cleanExec, exec] at made
  split at made
  · cases made
    exact .inr ⟨rfl, rfl⟩
  · exact through_ran made

theorem sadd_nothing {key : String} {members : List String}
    (none : (w.keys.newMembers key members).length = 0) : w.sadd key members = w := by
  unfold World.sadd Keyspace.addMembers
  rw [List.length_eq_zero_iff.mp none, List.append_nil, Function.update_eq_self]

theorem newMembers_length (k : Keyspace) (key : String) (members : List String) :
    (k.newMembers key members).length ≤ members.length := by
  unfold Keyspace.newMembers
  exact Nat.le_trans (List.dedup_sublist _).length_le (List.length_filter_le ..)

end Steps

section Operations

variable {S T σ : Type} {traits : Traits S T σ} {store : KvRouterStore} {client : Nat}
  {w w' : World}

theorem checkForConstraints_ran {value : S} {r : Except RedisError Unit}
    (ran : Ran traits.globMatches client (checkForConstraints traits value).run w r w') :
    (r = .ok () ∧ w' = w.sadd ("unique_constraint:" ++ traits.tableName value)
      (traits.uniqueConstraints value)) ∨
    (r = .error .setAddMembersFailed ∧ w' = w) ∨
    (r = .error .setAddMembersFailed ∧ 2 ≤ (traits.uniqueConstraints value).length ∧
      w' = w.sadd ("unique_constraint:" ++ traits.tableName value)
        (traits.uniqueConstraints value)) := by
  have atMost := newMembers_length w.keys ("unique_constraint:" ++ traits.tableName value)
    (traits.uniqueConstraints value)
  rcases Task.outcome_tryBind ran with ⟨reply, m, first, rest⟩ | ⟨e, rfl, first⟩ <;>
    obtain ⟨r', conv, same⟩ := changeContext_ran first <;>
    obtain ⟨r'', inner, rfl⟩ := converted_ran conv
  · rcases sadd_ran inner with ⟨rfl, rfl⟩ | ⟨rfl, rfl⟩
    · match count : (w.keys.newMembers ("unique_constraint:" ++ traits.tableName value)
        (traits.uniqueConstraints value)).length with
      | 0 =>
        rw [count] at same
        cases same
        obtain ⟨rfl, rfl⟩ := rest
        exact .inr (.inl ⟨rfl, sadd_nothing count⟩)
      | 1 =>
        rw [count] at same
        cases same
        obtain ⟨rfl, rfl⟩ := rest
        exact .inl ⟨rfl, rfl⟩
      | n + 2 =>
        rw [count] at same
        cases same
    · cases same
  · rcases sadd_ran inner with ⟨rfl, rfl⟩ | ⟨rfl, rfl⟩
    · match count : (w.keys.newMembers ("unique_constraint:" ++ traits.tableName value)
        (traits.uniqueConstraints value)).length with
      | 0 =>
        rw [count] at same
        cases same
      | 1 =>
        rw [count] at same
        cases same
      | n + 2 =>
        rw [count] at same
        cases same
        exact .inr (.inr ⟨rfl, by omega, rfl⟩)
    · cases same
      exact .inr (.inl ⟨rfl, rfl⟩)

theorem pushToDrainerStream_ran {sql : σ} {key : String} {r : Except RedisError Unit}
    (ran : Ran traits.globMatches client (pushToDrainerStream traits store sql
      (.merchantIdPaymentIdCombination key)).run w r w') :
    (r = .ok () ∧ Appended traits store client key sql w w') ∨
      ((r = .error .jsonSerializationFailed ∨ r = .error .streamAppendFailed) ∧ w' = w) := by
  obtain ⟨o, afterNow⟩ := ran
  have inOrder : Ran traits.globMatches client ((do
      let fields ← Task.orFail .jsonSerializationFailed
        (toFieldValuePairs traits sql (store.requestId.getD "") key o.1.now)
      Task.changeContext .streamAppendFailed (call (.xadd (getDrainerStreamName store
        (shardKey traits (.merchantIdPaymentIdCombination key) store.drainerNumPartitions))
        fields)) : Kv Unit)).run w r w' := afterNow
  rcases Task.outcome_tryBind inOrder with ⟨fields, m, ⟨same, rfl⟩, rest⟩ | ⟨e, rfl, same, rfl⟩
  · obtain ⟨r', inner, rfl⟩ := changeContext_ran rest
    obtain ⟨o', made⟩ := Task.outcome_call.mp inner
    rcases through_ran made with ⟨rfl, rfl⟩ | ⟨rfl, rfl⟩
    · refine .inl ⟨rfl, o.1.now, o'.1.gap, fields, ?_, rfl⟩
      cases pairs : toFieldValuePairs traits sql (store.requestId.getD "") key o.1.now with
      | ok found =>
        rw [pairs] at same
        cases same
        rfl
      | error _ =>
        rw [pairs] at same
        cases same
    · exact .inr ⟨.inr rfl, rfl⟩
  · cases pairs : toFieldValuePairs traits sql (store.requestId.getD "") key o.1.now with
    | ok found =>
      rw [pairs] at same
      cases same
    | error _ =>
      rw [pairs] at same
      cases same
      exact .inr ⟨.inl rfl, rfl⟩

theorem expire_streams (w : World) (key : String) (seconds : Nat) :
    (w.expire key seconds).keys.streams = w.keys.streams := by
  unfold World.expire
  split <;> rfl

theorem write_streams (w : World) (location : Location) (value : String) :
    (w.write client location value).keys.streams = w.keys.streams := by
  cases location <;> rfl

theorem writeIfNotExists_streams (w : World) (location : Location) (value : String) :
    (w.writeIfNotExists client location value).keys.streams = w.keys.streams := by
  unfold World.writeIfNotExists
  split
  · rfl
  · exact write_streams w location value

theorem setNxEx_streams (w : World) (key value : String) (seconds : Nat) :
    (w.setNxEx client key value seconds).keys.streams = w.keys.streams := by
  unfold World.setNxEx
  split <;> rfl

theorem writes_streams {op : KvOperation S σ} {key : String} {f : World → World}
    (hf : f ∈ writes traits store client op key) (w : World) :
    (f w).keys.streams = w.keys.streams := by
  cases op with
  | hset field value sql =>
    rcases List.mem_pair.mp hf with rfl | rfl
    · rfl
    · exact expire_streams w key store.ttlForKv
  | hSetNx field value sql =>
    unfold writes at hf
    cases serialized : traits.encodeToVec value with
    | ok bytes =>
      simp only [serialized, List.mem_cons, List.not_mem_nil, or_false] at hf
      rcases hf with rfl | rfl | rfl
      · rfl
      · exact writeIfNotExists_streams w _ _
      · exact expire_streams w key store.ttlForKv
    | error _ =>
      simp only [serialized, List.mem_singleton] at hf
      subst hf
      rfl
  | setNx value sql =>
    unfold writes at hf
    cases serialized : traits.encodeToVec value with
    | ok bytes =>
      simp only [serialized, List.mem_cons, List.not_mem_nil, or_false] at hf
      rcases hf with rfl | rfl
      · exact setNxEx_streams w key bytes _
      · rfl
    | error _ =>
      simp only [serialized, List.not_mem_nil] at hf
  | hGet | get | scan => cases hf

theorem performed_streams {done : List (World → World)} (w : World)
    (each : ∀ f ∈ done, ∀ w : World, (f w).keys.streams = w.keys.streams) :
    (performed done w).keys.streams = w.keys.streams := by
  induction done generalizing w with
  | nil => rfl
  | cons f done ih =>
    have rest := ih (f w) fun g hg => each g (List.mem_cons_of_mem _ hg)
    exact rest.trans (each f (List.mem_cons_self ..) w)

/-- What an operation leaves behind. After an error these are the writes before the failed step,
none of which is taken back; the appended entry comes last. -/
structure Settled (traits : Traits S T σ) (store : KvRouterStore) (client : Nat)
    (op : KvOperation S σ) (key : String) (w : World) (r : Except RedisError (KvResult T))
    (w' : World) : Prop where
  noRollback : ∀ e, r = .error e →
    w' = performed ((writes traits store client op key).take
      (madeBefore traits store client op key e)) w ∨
    AddedSeveral traits op e ∧ w' = performed ((writes traits store client op key).take
      (madeBefore traits store client op key e + 1)) w
  unchanged : ∀ e, r = .error e → e = .redisConnectionError ∨ FirstWriteFailed traits op e → w' = w
  complete : ∀ result sql, r = .ok result → sqlOf op = some sql →
    Appended traits store client key sql (performed (writes traits store client op key) w) w'

variable {op : KvOperation S σ} {key : String} {r : Except RedisError (KvResult T)}

theorem made_all {e : RedisError}
    (late : e = .jsonSerializationFailed ∨ e = .streamAppendFailed ∨ e = .setNxFailed) :
    (writes traits store client op key).take (madeBefore traits store client op key e) =
      writes traits store client op key := by
  rcases late with rfl | rfl | rfl <;> exact List.take_length

theorem settled_error {e : RedisError}
    (state : performed ((writes traits store client op key).take
      (madeBefore traits store client op key e)) w = w')
    (early : e = .redisConnectionError ∨ FirstWriteFailed traits op e → w' = w) :
    Settled (T := T) traits store client op key w (.error e) w' := by
  refine ⟨?_, ?_, nofun⟩
  · rintro _ ⟨⟩
    exact .inl state.symm
  · rintro _ ⟨⟩
    exact early

theorem settled_several {e : RedisError} (several : AddedSeveral traits op e)
    (state : performed ((writes traits store client op key).take
      (madeBefore traits store client op key e + 1)) w = w')
    (late : ¬ (e = .redisConnectionError ∨ FirstWriteFailed traits op e)) :
    Settled (T := T) traits store client op key w (.error e) w' := by
  refine ⟨?_, ?_, nofun⟩
  · rintro _ ⟨⟩
    exact .inr ⟨several, state.symm⟩
  · rintro _ ⟨⟩ first
    exact absurd first late

theorem push_settled {sql : σ} {result : KvResult T} (isSql : sqlOf op = some sql)
    (late : ∀ e, FirstWriteFailed traits op e → e ≠ .jsonSerializationFailed ∧
      e ≠ .streamAppendFailed)
    (ran : Ran traits.globMatches client (do
      pushToDrainerStream traits store sql (.merchantIdPaymentIdCombination key)
      return result : Kv (KvResult T)).run (performed (writes traits store client op key) w) r w') :
    Settled traits store client op key w r w' := by
  rcases Task.outcome_tryBind ran with ⟨_, m, push, rfl, rfl⟩ | ⟨e, rfl, push⟩
  · rcases pushToDrainerStream_ran push with ⟨_, appended⟩ | ⟨wrong | wrong, _⟩
    · refine ⟨nofun, nofun, ?_⟩
      intro _ sql' _ isSql'
      cases isSql.symm.trans isSql'
      exact appended
    · cases wrong
    · cases wrong
  · rcases pushToDrainerStream_ran push with ⟨wrong, _⟩ | ⟨failed, rfl⟩
    · cases wrong
    · have last : e = .jsonSerializationFailed ∨ e = .streamAppendFailed ∨ e = .setNxFailed := by
        rcases failed with same | same <;> cases same
        · exact .inl rfl
        · exact .inr (.inl rfl)
      refine settled_error (by rw [made_all last]) ?_
      rintro (rfl | first)
      · rcases failed with wrong | wrong <;> cases wrong
      · obtain ⟨notJson, notAppend⟩ := late e first
        rcases failed with same | same
        · exact absurd (Except.error.inj same) notJson
        · exact absurd (Except.error.inj same) notAppend

theorem hset_settled {field value : String} {sql : σ}
    (ran : Ran traits.globMatches client (do
      setHashFields store.config key field value (some store.ttlForKv)
      pushToDrainerStream traits store sql (.merchantIdPaymentIdCombination key)
      return KvResult.hset : Kv (KvResult T)).run w r w') :
    Settled traits store client (.hset field value sql) key w r w' := by
  have late : ∀ e, FirstWriteFailed traits (.hset field value sql) e →
      e ≠ .jsonSerializationFailed ∧ e ≠ .streamAppendFailed := by
    rintro _ rfl
    exact ⟨nofun, nofun⟩
  rcases Task.outcome_tryBind ran with ⟨_, m, write, rest⟩ | ⟨e, rfl, write⟩
  · rcases setHashFields_ran write with ⟨_, rfl⟩ | ⟨wrong, _⟩ | ⟨wrong, _⟩
    · exact push_settled rfl late rest
    · cases wrong
    · cases wrong
  · rcases setHashFields_ran write with ⟨wrong, _⟩ | ⟨same, rfl⟩ | ⟨same, rfl⟩
    · cases wrong
    · cases same
      exact settled_error rfl (by rintro (wrong | wrong) <;> cases wrong)
    · cases same
      exact settled_error rfl fun _ => rfl

theorem serialize_ran {α : Type} {value : S} {next : String → Kv α} {r : Except RedisError α}
    (ran : Ran traits.globMatches client (do
      next (← Task.orFail .jsonSerializationFailed (traits.encodeToVec value)) : Kv α).run w r w') :
    (∃ e, traits.encodeToVec value = .error e ∧ r = .error .jsonSerializationFailed ∧ w' = w) ∨
      ∃ serialized, traits.encodeToVec value = .ok serialized ∧
        Ran traits.globMatches client (next serialized).run w r w' := by
  rcases Task.outcome_tryBind ran with ⟨bytes, m, ⟨same, rfl⟩, rest⟩ | ⟨e, rfl, same, rfl⟩ <;>
    cases encoded : traits.encodeToVec value <;> rw [encoded] at same <;> cases same
  · exact .inr ⟨bytes, rfl, rest⟩
  · exact .inl ⟨_, rfl, rfl, rfl⟩

theorem writes_hSetNx {field bytes : String} {value : S} {sql : σ}
    (encoded : traits.encodeToVec value = .ok bytes) :
    writes traits store client (.hSetNx field value sql) key =
      [fun w => w.sadd ("unique_constraint:" ++ traits.tableName value)
          (traits.uniqueConstraints value),
        fun w => w.writeIfNotExists client (.inHash key field) bytes,
        fun w => w.expire key store.ttlForKv] := by
  simp only [writes, encoded]

theorem writes_setNx {bytes : String} {value : S} {sql : σ}
    (encoded : traits.encodeToVec value = .ok bytes) :
    writes traits store client (.setNx value sql) key =
      [fun w => w.setNxEx client key bytes store.ttlForKv,
        fun w => w.sadd ("unique_constraint:" ++ traits.tableName value)
          (traits.uniqueConstraints value)] := by
  simp only [writes, encoded]

theorem not_first_hSetNx {field : String} {value : S} {sql : σ} {e : RedisError}
    (notConn : e ≠ .redisConnectionError) (notSadd : e ≠ .setAddMembersFailed) :
    ¬ (e = .redisConnectionError ∨ FirstWriteFailed traits (.hSetNx field value sql) e) := by
  rintro (rfl | ⟨rfl, _⟩)
  · exact notConn rfl
  · exact notSadd rfl

theorem not_first_setNx {value : S} {sql : σ} {e : RedisError}
    (notConn : e ≠ .redisConnectionError) (notSet : e ≠ .setFailed) :
    ¬ (e = .redisConnectionError ∨ FirstWriteFailed traits (.setNx value sql) e) := by
  rintro (rfl | rfl)
  · exact notConn rfl
  · exact notSet rfl

theorem hSetNx_checked_settled {field : String} {value : S} {sql : σ}
    (ran : Ran traits.globMatches client (do
      let result ← serializeAndSetHashFieldIfNotExist traits store.config key field value
        (some store.ttlForKv)
      match result with
      | .keySet =>
        pushToDrainerStream traits store sql (.merchantIdPaymentIdCombination key)
        return KvResult.hSetNx result
      | .keyNotSet => throw .setNxFailed : Kv (KvResult T)).run
        (w.sadd ("unique_constraint:" ++ traits.tableName value)
          (traits.uniqueConstraints value)) r w') :
    Settled traits store client (.hSetNx field value sql) key w r w' := by
  have late : ∀ e, FirstWriteFailed traits (.hSetNx field value sql) e →
      e ≠ .jsonSerializationFailed ∧ e ≠ .streamAppendFailed := by
    rintro _ ⟨rfl, _⟩
    exact ⟨nofun, nofun⟩
  rcases Task.outcome_tryBind ran with ⟨reply, m, set, last⟩ | ⟨e, rfl, set⟩
  · rcases serialize_ran set with ⟨_, _, wrong, _⟩ | ⟨bytes, encoded, set⟩
    · cases wrong
    · rcases setHashFieldIfNotExist_ran set with ⟨_, _, rfl⟩ | ⟨wrong, _⟩ | ⟨wrong, _⟩
      · have all : performed (writes traits store client (.hSetNx field value sql) key) w =
            ((w.sadd ("unique_constraint:" ++ traits.tableName value)
              (traits.uniqueConstraints value)).writeIfNotExists client (.inHash key field)
                bytes).expire key store.ttlForKv := by
          rw [writes_hSetNx encoded]
          rfl
        cases reply with
        | keySet => exact push_settled rfl late (all ▸ last)
        | keyNotSet =>
          obtain ⟨rfl, rfl⟩ := last
          exact settled_error (by rw [made_all (.inr (.inr rfl)), all])
            fun first => absurd first (not_first_hSetNx nofun nofun)
      · cases wrong
      · cases wrong
  · rcases serialize_ran set with ⟨_, encoded, same, rfl⟩ | ⟨bytes, encoded, set⟩
    · cases same
      refine settled_error ?_ fun first => absurd first (not_first_hSetNx nofun nofun)
      rw [made_all (.inl rfl)]
      simp only [writes, encoded]
      rfl
    · rcases setHashFieldIfNotExist_ran set with ⟨_, wrong, _⟩ | ⟨same, rfl⟩ | ⟨same, rfl⟩
      · cases wrong
      · cases same
        exact settled_error (by rw [writes_hSetNx encoded]; rfl)
          fun first => absurd first (not_first_hSetNx nofun nofun)
      · cases same
        exact settled_error (by rw [writes_hSetNx encoded]; rfl)
          fun first => absurd first (not_first_hSetNx nofun nofun)

theorem hSetNx_settled {field : String} {value : S} {sql : σ}
    (ran : Ran traits.globMatches client (do
      checkForConstraints traits value
      let result ← serializeAndSetHashFieldIfNotExist traits store.config key field value
        (some store.ttlForKv)
      match result with
      | .keySet =>
        pushToDrainerStream traits store sql (.merchantIdPaymentIdCombination key)
        return KvResult.hSetNx result
      | .keyNotSet => throw .setNxFailed : Kv (KvResult T)).run w r w') :
    Settled traits store client (.hSetNx field value sql) key w r w' := by
  rcases Task.outcome_tryBind ran with ⟨_, m, check, rest⟩ | ⟨e, rfl, check⟩
  · rcases checkForConstraints_ran check with ⟨_, rfl⟩ | ⟨wrong, _⟩ | ⟨wrong, _⟩
    · exact hSetNx_checked_settled rest
    · cases wrong
    · cases wrong
  · rcases checkForConstraints_ran check with ⟨wrong, _⟩ | ⟨same, rfl⟩ | ⟨same, several, rfl⟩
    · cases wrong
    · cases same
      exact settled_error rfl fun _ => rfl
    · cases same
      refine settled_several ⟨rfl, several⟩ ?_ ?_
      · cases encoded : traits.encodeToVec value <;> simp only [writes, encoded] <;> rfl
      · rintro (wrong | ⟨_, atMostOne⟩)
        · cases wrong
        · omega

theorem setNx_written_settled {value : S} {sql : σ} {bytes : String} {reply : SetnxReply}
    (encoded : traits.encodeToVec value = .ok bytes)
    (ran : Ran traits.globMatches client (do
      checkForConstraints traits value
      match reply with
      | .keySet =>
        pushToDrainerStream traits store sql (.merchantIdPaymentIdCombination key)
        return KvResult.setNx reply
      | .keyNotSet => throw .setNxFailed : Kv (KvResult T)).run
        (w.setNxEx client key bytes store.ttlForKv) r w') :
    Settled traits store client (.setNx value sql) key w r w' := by
  have late : ∀ e, FirstWriteFailed traits (.setNx value sql) e →
      e ≠ .jsonSerializationFailed ∧ e ≠ .streamAppendFailed := by
    rintro _ rfl
    exact ⟨nofun, nofun⟩
  rcases Task.outcome_tryBind ran with ⟨_, m, check, last⟩ | ⟨e, rfl, check⟩
  · rcases checkForConstraints_ran check with ⟨_, rfl⟩ | ⟨wrong, _⟩ | ⟨wrong, _⟩
    · have all : performed (writes traits store client (.setNx value sql) key) w =
          (w.setNxEx client key bytes store.ttlForKv).sadd
            ("unique_constraint:" ++ traits.tableName value)
            (traits.uniqueConstraints value) := by
        rw [writes_setNx encoded]
        rfl
      cases reply with
      | keySet => exact push_settled rfl late (all ▸ last)
      | keyNotSet =>
        obtain ⟨rfl, rfl⟩ := last
        exact settled_error (by rw [made_all (.inr (.inr rfl)), all]) fun first => absurd first (not_first_setNx nofun nofun)
    · cases wrong
    · cases wrong
  · rcases checkForConstraints_ran check with ⟨wrong, _⟩ | ⟨same, rfl⟩ | ⟨same, several, rfl⟩
    · cases wrong
    · cases same
      exact settled_error (by rw [writes_setNx encoded]; rfl)
        fun first => absurd first (not_first_setNx nofun nofun)
    · cases same
      exact settled_several ⟨rfl, several⟩ (by rw [writes_setNx encoded]; rfl)
        (not_first_setNx nofun nofun)

theorem setNx_settled {value : S} {sql : σ}
    (ran : Ran traits.globMatches client (do
      let result ← serializeAndSetKeyIfNotExist traits store.config key value (some store.ttlForKv)
      checkForConstraints traits value
      match result with
      | .keySet =>
        pushToDrainerStream traits store sql (.merchantIdPaymentIdCombination key)
        return KvResult.setNx result
      | .keyNotSet => throw .setNxFailed : Kv (KvResult T)).run w r w') :
    Settled traits store client (.setNx value sql) key w r w' := by
  rcases Task.outcome_tryBind ran with ⟨reply, m, set, rest⟩ | ⟨e, rfl, set⟩
  · rcases serialize_ran set with ⟨_, _, wrong, _⟩ | ⟨bytes, encoded, set⟩
    · cases wrong
    · rcases setKeyIfNotExistsWithExpiry_ran set with ⟨_, _, rfl⟩ | ⟨wrong, _⟩
      · exact setNx_written_settled encoded rest
      · cases wrong
  · rcases serialize_ran set with ⟨_, encoded, same, rfl⟩ | ⟨bytes, encoded, set⟩
    · cases same
      refine settled_error ?_ fun _ => rfl
      rw [made_all (.inl rfl)]
      simp only [writes, encoded]
      rfl
    · rcases setKeyIfNotExistsWithExpiry_ran set with ⟨_, wrong, _⟩ | ⟨same, rfl⟩
      · cases wrong
      · cases same
        exact settled_error rfl fun _ => rfl

/- Reads leave everything as it is. -/

theorem read_ran {α β : Type} {e : RedisError} {t : KvTask (Except Unit α)} {f : α → Kv β}
    {r : Except RedisError β}
    (read : ∀ r u, Ran traits.globMatches client t w r u → u = w)
    (rest : ∀ a w r u, Ran traits.globMatches client (f a).run w r u → u = w)
    (ran : Ran traits.globMatches client (do
      let value ← Task.changeContext e t
      f value : Kv β).run w r w') : w' = w := by
  rcases Task.outcome_tryBind ran with ⟨a, m, first, last⟩ | ⟨e, rfl, first⟩
  · obtain ⟨r', inner, _⟩ := changeContext_ran first
    exact (rest a m r w' last).trans (read r' m inner)
  · obtain ⟨r', inner, _⟩ := changeContext_ran first
    exact read r' w' inner

theorem deserialized_ran {value : Option String} {r : Except RedisError T}
    (ran : Ran traits.globMatches client (deserialized traits value).run w r w') : w' = w := by
  unfold deserialized at ran
  split at ran <;> exact ran.2.symm

theorem settled_read (noSql : sqlOf op = none) (none : writes traits store client op key = [])
    (same : w' = w) : Settled traits store client op key w r w' := by
  refine ⟨fun _ _ => .inl ?_, fun _ _ _ => same, ?_⟩
  · rw [none, List.take_nil]
    exact same
  intro _ sql _ isSql
  cases noSql.symm.trans isSql

theorem lookup_ran {e : RedisError} {read : KvTask (Except Unit (Option String))}
    {found : T → KvResult T} {r : Except RedisError (KvResult T)}
    (quiet : ∀ r u, Ran traits.globMatches client read w r u → u = w)
    (ran : Ran traits.globMatches client (do
      let result ← (do
        let value ← Task.changeContext e read
        deserialized traits value : Kv T)
      return found result : Kv (KvResult T)).run w r w') : w' = w := by
  have looked : ∀ r u, Ran traits.globMatches client (do
      let value ← Task.changeContext e read
      deserialized traits value : Kv T).run w r u → u = w :=
    fun _ _ inner => read_ran quiet (fun _ _ _ _ last => deserialized_ran last) inner
  rcases Task.outcome_tryBind ran with ⟨_, m, first, _, rfl⟩ | ⟨_, _, first⟩
  · exact looked _ _ first
  · exact looked _ _ first

theorem hGet_settled {field : String}
    (ran : Ran traits.globMatches client (do
      let result ← getHashFieldAndDeserialize traits key field
      return KvResult.hGet result : Kv (KvResult T)).run w r w') :
    Settled traits store client (.hGet field) key w r w' := by
  refine settled_read rfl rfl (lookup_ran ?_ ran)
  intro r u read
  obtain ⟨o, made⟩ := Task.outcome_call.mp read
  rcases through_ran made with ⟨_, rfl⟩ | ⟨_, rfl⟩ <;> rfl

theorem get_settled
    (ran : Ran traits.globMatches client (do
      let result ← getAndDeserializeKey traits key
      return KvResult.get result : Kv (KvResult T)).run w r w') :
    Settled traits store client .get key w r w' := by
  refine settled_read rfl rfl (lookup_ran ?_ ran)
  intro r u read
  obtain ⟨o, made⟩ := Task.outcome_call.mp read
  rcases through_ran made with ⟨_, rfl⟩ | ⟨_, rfl⟩ <;> rfl

theorem scan_settled {pattern : String}
    (ran : Ran traits.globMatches client (do
      let result ← hscanAndDeserialize traits key pattern
      if result.isEmpty then throw .notFound
      return KvResult.scan result : Kv (KvResult T)).run w r w') :
    Settled traits store client (.scan pattern) key w r w' := by
  have scan : ∀ r u, Ran traits.globMatches client (hscanAndDeserialize traits key pattern).run
      w r u → u = w := by
    rintro r u ⟨o, _, rfl⟩
    have made := clean_through o () w ((w.keys.hashes key).filter fun x =>
      o.1.page x.1 && traits.globMatches pattern x.1, w)
    rcases made with h | h <;> exact congrArg Prod.snd h
  refine settled_read rfl rfl ?_
  rcases Task.outcome_tryBind ran with ⟨result, m, first, last⟩ | ⟨_, _, first⟩
  · refine Eq.trans ?_ (scan _ _ first)
    cases empty : result.isEmpty with
    | true =>
      simp only [empty, if_true] at last
      exact last.2.symm
    | false =>
      simp only [empty, Bool.false_eq_true, if_false] at last
      exact last.2.symm
  · exact scan _ _ first

theorem getRedisConn_ran {r : Except RedisError Unit}
    (ran : Ran traits.globMatches client getRedisConn.run w r w') :
    (r = .ok () ∨ r = .error .redisConnectionError) ∧ w' = w := by
  obtain ⟨o, rest⟩ := ran
  have answer : Ran traits.globMatches client
      (if o.1.available then pure () else throw .redisConnectionError : Kv Unit).run w r w' := rest
  cases available : o.1.available with
  | true =>
    rw [available] at answer
    obtain ⟨rfl, rfl⟩ := answer
    exact ⟨.inl rfl, rfl⟩
  | false =>
    rw [available] at answer
    obtain ⟨rfl, rfl⟩ := answer
    exact ⟨.inr rfl, rfl⟩

/-- An operation that returns an error leaves the drainer streams alone and keeps the writes before
its failed step; if its first write failed, nothing has changed; one that returns its result has
made all its writes, then the entry. -/
theorem kvWrapper_settled
    (ran : Ran traits.globMatches client (kvWrapper traits store op key).run w r w') :
    Settled traits store client op key w r w' ∧
      ∀ e, r = .error e → w'.keys.streams = w.keys.streams := by
  have settled : Settled traits store client op key w r w' := by
    rcases Task.outcome_tryBind ran with ⟨_, m, conn, rest⟩ | ⟨e, rfl, conn⟩
    · obtain ⟨_, rfl⟩ := getRedisConn_ran conn
      cases op with
      | hset => exact hset_settled rest
      | hSetNx => exact hSetNx_settled rest
      | setNx => exact setNx_settled rest
      | hGet => exact hGet_settled rest
      | get => exact get_settled rest
      | scan => exact scan_settled rest
    · obtain ⟨wrong | same, rfl⟩ := getRedisConn_ran conn
      · cases wrong
      · cases same
        exact settled_error rfl fun _ => rfl
  refine ⟨settled, ?_⟩
  rintro e failed
  have made : ∃ n, w' = performed ((writes traits store client op key).take n) w := by
    rcases settled.noRollback e failed with state | ⟨_, state⟩
    · exact ⟨_, state⟩
    · exact ⟨_, state⟩
  obtain ⟨n, rfl⟩ := made
  exact performed_streams w fun f hf => writes_streams (List.mem_of_mem_take hf)

end Operations

def SameData (w w' : World) : Prop :=
  w'.keys.strings = w.keys.strings ∧ w'.keys.hashes = w.keys.hashes ∧
    w'.keys.sets = w.keys.sets ∧ w'.keys.streams = w.keys.streams

def answered : CleanChoice := ⟨{}, nofun⟩
def lost : CleanChoice := ⟨{ redis := .lost }, nofun⟩

/-- The field is written, the append fails, and the field stays written. -/
theorem hset_append_failed :
    ∃ w', Ran textTraits.globMatches 0
        (kvWrapper textTraits textStore (.hset "f" "v" "sql") "k").run .empty
        (.error .streamAppendFailed) w' ∧
      w'.keys.read (.inHash "k" "f") = some "v" ∧ ¬ SameData .empty w' := by
  have ran : Task.replay (cleanExec textTraits.globMatches 0)
      (kvWrapper textTraits textStore (.hset "f" "v" "sql") "k").run
      [answered, answered, answered, answered, lost] .empty =
        some (.error .streamAppendFailed, _) := rfl
  refine ⟨_, Task.outcome_of_replay ran, rfl, ?_⟩
  rintro ⟨_, hashes, _⟩
  cases congrFun hashes "k"

theorem kvWrapper_settled_append_failed :
    ∃ w', Ran textTraits.globMatches 0
        (kvWrapper textTraits textStore (.hset "f" "v" "sql") "k").run .empty
        (.error .streamAppendFailed) w' ∧
      Settled textTraits textStore 0 (.hset "f" "v" "sql") "k" .empty
        (.error .streamAppendFailed) w' ∧
      ∀ e, (.error .streamAppendFailed : Except RedisError (KvResult String)) = .error e →
        w'.keys.streams = World.empty.keys.streams := by
  have ran : Task.replay (cleanExec textTraits.globMatches 0)
      (kvWrapper textTraits textStore (.hset "f" "v" "sql") "k").run
      [answered, answered, answered, answered, lost] .empty =
        some (.error .streamAppendFailed, _) := rfl
  exact ⟨_, Task.outcome_of_replay ran, kvWrapper_settled (Task.outcome_of_replay ran)⟩

end Mercado.Storage
