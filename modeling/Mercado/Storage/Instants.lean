import Mercado.Async.Moments
import Mercado.Storage.WriteOrder

/-! The operations of the store are atomic: one that succeeds has done all that it tells of at one
instant between its call and its return, whatever the other clients do. -/
namespace Mercado.Storage
open Async Redis

variable {S T σ : Type}

/-- What an operation with this result has found in the store, and left there. -/
def Performs (traits : Traits S T σ) (store : KvRouterStore) (client : Nat) (key : String)
    (w w' : World) : KvOperation S σ → KvResult T → Prop
  | .hset field value _, .hset => w' = w.write client (.inHash key field) value
  | .hSetNx field value _, .hSetNx .keySet =>
    ∃ bytes, traits.encodeToVec value = .ok bytes ∧ w.keys.read (.inHash key field) = none ∧
      w' = w.write client (.inHash key field) bytes
  | .setNx value _, .setNx .keySet =>
    ∃ bytes, traits.encodeToVec value = .ok bytes ∧ w.keys.read (.plain key) = none ∧
      w' = { w.write client (.plain key) bytes with
        keys := (w.write client (.plain key) bytes).keys.setTtl key store.ttlForKv }
  | .hGet field, .hGet value =>
    w' = w ∧ ∃ bytes, w.keys.read (.inHash key field) = some bytes ∧ bytes ≠ "" ∧
      traits.parseStruct bytes = .ok value
  | .get, .get value =>
    w' = w ∧ ∃ bytes, w.keys.read (.plain key) = some bytes ∧ bytes ≠ "" ∧
      traits.parseStruct bytes = .ok value
  | .scan pattern, .scan values =>
    w' = w ∧ values ≠ [] ∧ ∃ page : List (String × String),
      page.Sublist ((w.keys.hashes key).filter fun x => traits.globMatches pattern x.1) ∧
      values = (page.map Prod.snd).filterMap fun value => (traits.parseStruct value).toOption
  | _, _ => False

def Missing (key : String) (w : World) : KvOperation S σ → Prop
  | .hGet field =>
    w.keys.read (.inHash key field) = none ∨ w.keys.read (.inHash key field) = some ""
  | .get => w.keys.read (.plain key) = none ∨ w.keys.read (.plain key) = some ""
  | _ => True

/- The command of an operation that its result comes from. -/

abbrev Answer := (c : Command) × Reply c

def Gives (traits : Traits S T σ) (store : KvRouterStore) (key : String) (x : Answer) :
    KvOperation S σ → KvResult T → Prop
  | .hset field value _, .hset => x = ⟨.hset key field value, .ok ()⟩
  | .hSetNx field value _, .hSetNx .keySet =>
    ∃ bytes, traits.encodeToVec value = .ok bytes ∧ x = ⟨.hsetnx key field bytes, .ok 1⟩
  | .setNx value _, .setNx .keySet =>
    ∃ bytes text, traits.encodeToVec value = .ok bytes ∧
      x = ⟨.setNxEx key bytes store.ttlForKv, .ok (some text)⟩
  | .hGet field, .hGet value =>
    ∃ bytes, x = ⟨.hget key field, .ok (some bytes)⟩ ∧ bytes ≠ "" ∧
      traits.parseStruct bytes = .ok value
  | .get, .get value =>
    ∃ bytes, x = ⟨.get key, .ok (some bytes)⟩ ∧ bytes ≠ "" ∧ traits.parseStruct bytes = .ok value
  | .scan pattern, .scan values =>
    values ≠ [] ∧ ∃ fields : List (String × String), x = ⟨.hscan key pattern, .ok fields⟩ ∧
      values = (fields.map Prod.snd).filterMap fun value => (traits.parseStruct value).toOption
  | _, _ => False

def GivesNothing (key : String) (x : Answer) : KvOperation S σ → Prop
  | .hGet field => x = ⟨.hget key field, .ok none⟩ ∨ x = ⟨.hget key field, .ok (some "")⟩
  | .get => x = ⟨.get key, .ok none⟩ ∨ x = ⟨.get key, .ok (some "")⟩
  | _ => True

def Explains (traits : Traits S T σ) (store : KvRouterStore) (key : String) (op : KvOperation S σ)
    (past : List Answer) : Except RedisError (KvResult T) → Prop
  | .ok result => ∃ x ∈ past, Gives traits store key x op result
  | .error .notFound => ∃ x ∈ past, GivesNothing key x op
  | .error _ => True

section Explains

variable {traits : Traits S T σ} {store : KvRouterStore} {key : String} {op : KvOperation S σ}
  {past : List Answer} {α : Type}

theorem Explains.other {e : RedisError} (other : e ≠ .notFound) :
    Explains traits store key op past (.error e) := by
  cases e <;> first | exact trivial | exact absurd rfl other

abbrev Leaves (P : List Answer → α → Prop) (past : List Answer) : Except RedisError α → Prop
  | .ok a => P past a
  | .error e => e ≠ .notFound

theorem explains_tryBind {t : Kv α} {f : α → Kv (KvResult T)} {P : List Answer → α → Prop}
    (first : t.run.ends (Leaves P) past)
    (rest : ∀ a now, P now a → (f a).run.ends (Explains traits store key op) now) :
    (t >>= f).run.ends (Explains traits store key op) past := by
  refine Task.ends_tryBind.mpr (first.mono fun now r left => ?_)
  cases r with
  | ok a => exact rest a now left
  | error e => exact .other left

theorem leaves_tryBind {β : Type} {t : Kv α} {f : α → Kv β} {P : List Answer → α → Prop}
    {P' : List Answer → β → Prop} (first : t.run.ends (Leaves P) past)
    (rest : ∀ a now, P now a → (f a).run.ends (Leaves P') now) :
    (t >>= f).run.ends (Leaves P') past := by
  refine Task.ends_tryBind.mpr (first.mono fun now r left => ?_)
  cases r with
  | ok a => exact rest a now left
  | error e => exact left

abbrev Passes (past : List Answer) (t : Kv α) : Prop :=
  ∀ now, past <+: now → t.run.ends (Leaves fun later _ => past <+: later) now

theorem passes_tryBind {β : Type} {t : Kv α} {f : α → Kv β} (first : Passes past t)
    (rest : ∀ a, Passes past (f a)) : Passes past (t >>= f) :=
  fun now grown => leaves_tryBind (first now grown) fun a later grown => rest a later grown

theorem passes_lift (t : KvTask α) : Passes past (ExceptT.lift t : Kv α) := by
  intro now grown
  exact Task.ends_bind.mpr ((Task.ends_extends t now).mono fun later a more => grown.trans more)

theorem passes_changeContext {e : RedisError} (other : e ≠ .notFound)
    (t : KvTask (Except Unit α)) : Passes past (Task.changeContext e t) := by
  intro now grown
  refine Task.ends_bind.mpr ((Task.ends_extends t now).mono fun later r more => ?_)
  cases r with
  | ok a => exact grown.trans more
  | error _ => exact other

theorem passes_orFail {e : RedisError} (other : e ≠ .notFound) (r : Except Unit α) :
    Passes past (Task.orFail e r) := by
  intro now grown
  cases r with
  | ok a => exact grown
  | error _ => exact other

theorem getRedisConn_passes : Passes past getRedisConn := by
  refine passes_tryBind (passes_lift _) fun available now grown => ?_
  cases available with
  | true => exact grown
  | false => exact (nofun : RedisError.redisConnectionError ≠ .notFound)

theorem setExpiry_passes (seconds : Nat) : Passes past (setExpiry key seconds) :=
  passes_changeContext (by decide) _

theorem pushToDrainerStream_passes (sql : σ) (partitionKey : PartitionKey) :
    Passes past (pushToDrainerStream traits store sql partitionKey) :=
  passes_tryBind (passes_lift _) fun _ => passes_tryBind (passes_orFail (by decide) _) fun _ =>
    passes_changeContext (by decide) _

theorem checkForConstraints_passes (value : S) :
    Passes past (checkForConstraints traits value) := by
  refine passes_tryBind (passes_changeContext (by decide) _) fun reply now grown => ?_
  cases reply with
  | keySet => exact grown
  | keyNotSet => exact (by decide : RedisError.setAddMembersFailed ≠ .notFound)

theorem setHashFields_leaves {config : RedisConfig} {field value : String} {ttl : Option Nat} :
    (setHashFields config key field value ttl).run.ends
      (Leaves fun now _ => ⟨.hset key field value, .ok ()⟩ ∈ now) past := by
  refine leaves_tryBind (P := fun now _ => ⟨.hset key field value, .ok ()⟩ ∈ now) ?_ ?_
  · intro reply
    cases reply with
    | ok => exact List.mem_append_right _ (List.mem_singleton_self _)
    | error _ => exact (by decide : RedisError.setHashFailed ≠ .notFound)
  · intro _ now asked
    refine (setExpiry_passes _ now List.prefix_rfl).mono fun later r left => ?_
    cases r with
    | ok => exact left.subset asked
    | error _ => exact left

theorem serializeAndSetHashFieldIfNotExist_leaves {config : RedisConfig} {field : String}
    {value : S} {ttl : Option Nat} :
    (serializeAndSetHashFieldIfNotExist traits config key field value ttl).run.ends
      (Leaves fun now reply => reply = .keySet → ∃ bytes, traits.encodeToVec value = .ok bytes ∧
        ⟨.hsetnx key field bytes, .ok 1⟩ ∈ now) past := by
  rw [serializeAndSetHashFieldIfNotExist]
  cases encoded : traits.encodeToVec value with
  | error _ => exact (by decide : RedisError.jsonSerializationFailed ≠ .notFound)
  | ok bytes =>
    change (setHashFieldIfNotExist config key field bytes ttl).run.ends _ past
    refine leaves_tryBind (P := fun now reply => reply = .keySet →
      ⟨.hsetnx key field bytes, .ok 1⟩ ∈ now) ?_ ?_
    · intro reply
      match reply with
      | .ok 1 => exact fun _ => List.mem_append_right _ (List.mem_singleton_self _)
      | .ok 0 => exact nofun
      | .ok (n + 2) | .error _ => exact (by decide : RedisError.setHashFieldFailed ≠ .notFound)
    · intro reply now asked
      refine leaves_tryBind (setExpiry_passes _ now List.prefix_rfl) fun _ later grown set => ?_
      exact ⟨bytes, rfl, grown.subset (asked set)⟩

theorem serializeAndSetKeyIfNotExist_leaves {config : RedisConfig} {value : S} {seconds : Nat} :
    (serializeAndSetKeyIfNotExist traits config key value (some seconds)).run.ends
      (Leaves fun now reply => reply = .keySet → ∃ bytes text,
        traits.encodeToVec value = .ok bytes ∧
        ⟨.setNxEx key bytes seconds, .ok (some text)⟩ ∈ now) past := by
  rw [serializeAndSetKeyIfNotExist]
  cases encoded : traits.encodeToVec value with
  | error _ => exact (by decide : RedisError.jsonSerializationFailed ≠ .notFound)
  | ok bytes =>
    intro reply
    match reply with
    | .ok (some text) =>
      exact fun _ => ⟨bytes, text, rfl, List.mem_append_right _ (List.mem_singleton_self _)⟩
    | .ok none => exact nofun
    | .error _ => exact (by decide : RedisError.setFailed ≠ .notFound)

theorem push_explains {sql : σ} {partitionKey : PartitionKey} {result : KvResult T} {x : Answer}
    (asked : x ∈ past) (gives : Gives traits store key x op result) :
    (pushToDrainerStream traits store sql partitionKey >>= fun _ =>
      (pure result : Kv (KvResult T))).run.ends (Explains traits store key op) past :=
  explains_tryBind (pushToDrainerStream_passes sql partitionKey past List.prefix_rfl)
    fun _ _ grown => ⟨x, grown.subset asked, gives⟩

theorem deserialized_explains (result : T → KvResult T) {value : Option String}
    (found : ∀ bytes v, value = some bytes → bytes ≠ "" → traits.parseStruct bytes = .ok v →
      ∃ x ∈ past, Gives traits store key x op (result v))
    (missing : value = none ∨ value = some "" → ∃ x ∈ past, GivesNothing key x op) :
    (deserialized traits value >>= fun v => (pure (result v) : Kv (KvResult T))).run.ends
      (Explains traits store key op) past := by
  refine Task.ends_tryBind.mpr ?_
  unfold deserialized
  split
  · exact missing (.inl rfl)
  · exact missing (.inr rfl)
  · rename_i bytes nonempty
    cases parsed : traits.parseStruct bytes with
    | error _ => trivial
    | ok v => exact found bytes v rfl nonempty parsed

/-- What an operation returns comes from one of its answers. -/
theorem kvWrapper_explains (traits : Traits S T σ) (store : KvRouterStore) (op : KvOperation S σ)
    (key : String) :
    (kvWrapper traits store op key).run.ends (Explains traits store key op) [] := by
  refine explains_tryBind (getRedisConn_passes [] List.prefix_rfl) fun _ past _ => ?_
  cases op with
  | hset field value sql =>
    exact explains_tryBind setHashFields_leaves fun _ now asked => push_explains asked rfl
  | hGet field =>
    intro reply
    cases reply with
    | error _ => trivial
    | ok value =>
      have asked : ⟨.hget key field, .ok value⟩ ∈ past ++ [⟨.hget key field, .ok value⟩] :=
        List.mem_append_right past (List.mem_singleton_self _)
      refine deserialized_explains .hGet ?_ fun missing => ⟨_, asked, ?_⟩
      · rintro bytes v rfl nonempty parsed
        exact ⟨_, asked, bytes, rfl, nonempty, parsed⟩
      · rcases missing with rfl | rfl
        · exact .inl rfl
        · exact .inr rfl
  | scan pattern =>
    intro reply
    cases reply with
    | error _ => exact ⟨_, List.mem_append_right _ (List.mem_singleton_self _), trivial⟩
    | ok fields =>
      have asked : (⟨.hscan key pattern, .ok fields⟩ : Answer) ∈
          past ++ [⟨.hscan key pattern, .ok fields⟩] :=
        List.mem_append_right past (List.mem_singleton_self _)
      let values := (fields.map Prod.snd).filterMap fun value => (traits.parseStruct value).toOption
      change ((if values.isEmpty then throw .notFound else pure (.scan values)) :
        Kv (KvResult T)).run.ends _ _
      split
      · exact ⟨_, asked, trivial⟩
      · rename_i some
        exact ⟨_, asked, fun none => some (by rw [none]; rfl), fields, rfl, rfl⟩
  | hSetNx field value sql =>
    refine explains_tryBind (checkForConstraints_passes value past List.prefix_rfl) fun _ now _ => ?_
    refine explains_tryBind serializeAndSetHashFieldIfNotExist_leaves fun reply later set => ?_
    cases reply with
    | keySet =>
      obtain ⟨bytes, encoded, asked⟩ := set rfl
      exact push_explains asked ⟨bytes, encoded, rfl⟩
    | keyNotSet => trivial
  | setNx value sql =>
    refine explains_tryBind serializeAndSetKeyIfNotExist_leaves fun reply later set => ?_
    refine explains_tryBind (checkForConstraints_passes value later List.prefix_rfl)
      fun _ now grown => ?_
    cases reply with
    | keySet =>
      obtain ⟨bytes, text, encoded, asked⟩ := set rfl
      exact push_explains (grown.subset asked) ⟨bytes, text, encoded, rfl⟩
    | keyNotSet => trivial
  | get =>
    intro reply
    cases reply with
    | error _ => trivial
    | ok value =>
      have asked : ⟨.get key, .ok value⟩ ∈ past ++ [⟨.get key, .ok value⟩] :=
        List.mem_append_right past (List.mem_singleton_self _)
      refine deserialized_explains .get ?_ fun missing => ⟨_, asked, ?_⟩
      · rintro bytes v rfl nonempty parsed
        exact ⟨_, asked, bytes, rfl, nonempty, parsed⟩
      · rcases missing with rfl | rfl
        · exact .inl rfl
        · exact .inr rfl

end Explains

section Instants

variable {traits : Traits S T σ} {store : KvRouterStore} {client : Nat} {key : String}
  {op : KvOperation S σ} {o : Choice} {w w' : World}

theorem Gives.performs {x : Answer} {result : KvResult T}
    (gives : Gives traits store key x op result)
    (carried : exec traits.globMatches client x.1 o w = (x.2, w')) :
    Performs traits store client key w w' op result := by
  have answer := congrArg Prod.fst carried
  have after := congrArg Prod.snd carried
  cases op with
  | hset field value sql =>
    cases result with
    | hset =>
      subst gives
      exact after.symm.trans (Delivery.through_ok answer).2
    | _ => exact gives.elim
  | hSetNx field value sql =>
    cases result with
    | hSetNx reply =>
      cases reply with
      | keyNotSet => exact gives.elim
      | keySet =>
        obtain ⟨bytes, encoded, rfl⟩ := gives
        obtain ⟨one, effect⟩ := Delivery.through_ok answer
        have free : w.keys.read (.inHash key field) = none := by
          cases present : w.keys.read (.inHash key field) with
          | none => rfl
          | some value => simp [present] at one
        refine ⟨bytes, encoded, free, after.symm.trans (effect.trans ?_)⟩
        simp [World.writeIfNotExists, free]
    | _ => exact gives.elim
  | setNx value sql =>
    cases result with
    | setNx reply =>
      cases reply with
      | keyNotSet => exact gives.elim
      | keySet =>
        obtain ⟨bytes, text, encoded, rfl⟩ := gives
        have positive : store.ttlForKv ≠ 0 := by
          intro zero
          simp [exec, zero] at answer
        simp only [exec, positive, if_false] at answer after
        obtain ⟨set, effect⟩ := Delivery.through_ok answer
        have free : w.keys.read (.plain key) = none := by
          cases present : w.keys.read (.plain key) with
          | none => rfl
          | some value => simp [present] at set
        refine ⟨bytes, encoded, free, after.symm.trans (effect.trans ?_)⟩
        simp [World.setNxEx, free]
    | _ => exact gives.elim
  | hGet field =>
    cases result with
    | hGet value =>
      obtain ⟨bytes, rfl, nonempty, parsed⟩ := gives
      obtain ⟨read, effect⟩ := Delivery.through_ok answer
      exact ⟨after.symm.trans effect, bytes, read.symm, nonempty, parsed⟩
    | _ => exact gives.elim
  | get =>
    cases result with
    | get value =>
      obtain ⟨bytes, rfl, nonempty, parsed⟩ := gives
      obtain ⟨read, effect⟩ := Delivery.through_ok answer
      exact ⟨after.symm.trans effect, bytes, read.symm, nonempty, parsed⟩
    | _ => exact gives.elim
  | scan pattern =>
    cases result with
    | scan values =>
      obtain ⟨nonempty, fields, rfl, told⟩ := gives
      obtain ⟨read, effect⟩ := Delivery.through_ok answer
      refine ⟨after.symm.trans effect, nonempty, fields, ?_, told⟩
      rw [read, ← List.filter_filter]
      exact List.filter_sublist
    | _ => exact gives.elim

theorem GivesNothing.missing {x : Answer} (gives : GivesNothing key x op)
    (carried : exec traits.globMatches client x.1 o w = (x.2, w')) : Missing key w op := by
  have answer := congrArg Prod.fst carried
  cases op with
  | hGet field =>
    rcases gives with rfl | rfl
    · exact .inl (Delivery.through_ok answer).1.symm
    · exact .inr (Delivery.through_ok answer).1.symm
  | get =>
    rcases gives with rfl | rfl
    · exact .inl (Delivery.through_ok answer).1.symm
    · exact .inr (Delivery.through_ok answer).1.symm
  | hset | setNx | hSetNx | scan => trivial

variable {ok : KvConfig S T σ → Action Choice String (Call S σ) → Prop} {start c : KvConfig S T σ}

/-- A step that the call makes, between its beginning and now. -/
structure Instant (traits : Traits S T σ) (store : KvRouterStore)
    (ok : KvConfig S T σ → Action Choice String (Call S σ) → Prop) (start now : KvConfig S T σ)
    (client : Nat) (call : Call S σ) (before after : KvConfig S T σ) : Prop where
  reached : Machine.Reach (kvMachine traits store) ok start before
  underway : ∃ cmd k, before.procs client = .live call (.await cmd k)
  step : ∃ o, (kvMachine traits store).step before (.step client o) = some after
  since : Machine.Reach (kvMachine traits store) ok after now

/-- An operation that has succeeded has found and done all that it tells of at one instant while it
was under way; one that has found nothing, there was an instant at which nothing was there. -/
theorem operations_atomic
    (reached : Machine.Reach (kvMachine traits store) ok (.initial w) c) {call : Call S σ}
    {r : Except RedisError (KvResult T)} (returned : c.procs client = .live call (.done r)) :
    (∀ result, r = .ok result → ∃ before after,
      Instant traits store ok (.initial w) c client call before after ∧
      Performs traits store client call.key before.world after.world call.op result) ∧
    (r = .error .notFound → ∃ before after,
      Instant traits store ok (.initial w) c client call before after ∧
      Missing call.key before.world call.op) := by
  obtain ⟨past, explains, told⟩ := reached.told (fun _ => rfl) returned
    (kvWrapper_explains traits store call.op call.key)
  have instant : ∀ x ∈ past, ∃ before after o,
      Instant traits store ok (.initial w) c client call before after ∧
      exec traits.globMatches client x.1 o before.world = (x.2, after.world) := by
    intro x mem
    obtain ⟨_, _, before, after, o, k, reached, live, rfl, step, carried, since⟩ := told x mem
    have world : after.world = (exec traits.globMatches client x.1 o before.world).2 := by
      obtain ⟨_, _, _, live', _, world⟩ := Machine.step_step step
      rw [live] at live'
      cases live'
      exact world
    refine ⟨before, after, o, ⟨reached, ⟨x.1, k, live⟩, ⟨o, step⟩, since⟩, ?_⟩
    rw [world]
    exact congrArg (·, _) (congrArg Prod.fst carried)
  refine ⟨?_, ?_⟩
  · rintro result rfl
    obtain ⟨x, mem, gives⟩ := explains
    obtain ⟨before, after, o, instant, carried⟩ := instant x mem
    exact ⟨before, after, instant, gives.performs carried⟩
  · rintro rfl
    obtain ⟨x, mem, gives⟩ := explains
    obtain ⟨before, after, o, instant, carried⟩ := instant x mem
    exact ⟨before, after, instant, gives.missing carried⟩

end Instants

/-- A client reads the field while the call that has written it is still under way. -/
theorem operations_atomic_overlapping : ∃ c : KvConfig String String String,
    (∃ call cmd k, c.procs 0 = .live call (.await cmd k)) ∧
    ∃ before after, Instant textTraits textStore Machine.anyStep (.initial .empty) c 1
        ⟨.hGet "f", "k"⟩ before after ∧
      Performs textTraits textStore 1 "k" before.world after.world (.hGet "f") (.hGet "1") := by
  have ran : (kvMachine textTraits textStore).run (.initial .empty)
      [.spawn 1 ⟨.hGet "f", "k"⟩, .step 1 {}, .spawn 0 ⟨.hset "f" "1" "sql1", "k"⟩, .step 0 {},
        .step 0 {}, .step 1 {}] = some _ := rfl
  exact ⟨_, ⟨_, _, _, rfl⟩, (operations_atomic (Machine.reach_of_run ran) rfl).1 _ rfl⟩

end Mercado.Storage
