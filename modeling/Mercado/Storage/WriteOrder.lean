import Mathlib.Data.List.Induction
import Mathlib.Data.List.Perm.Subperm
import Mercado.Async.History
import Mercado.Storage.KvStore

/-! The order in which writes take effect in Redis against the order of their
entries in the drainer stream. -/
namespace Mercado.Storage
open Async Redis

def Event.client : Event → Option Nat
  | .wrote client _ _ | .pushed client _ _ => some client
  | .expired _ => none

/-- The clients whose write took effect at the location, in the order of the effects. -/
def writers (location : Location) (log : List Event) : List Nat :=
  log.filterMap fun
    | .wrote client l _ => if l = location then some client else none
    | _ => none

def appenders (stream : String) (log : List Event) : List Nat :=
  log.filterMap fun
    | .pushed client s _ => if s = stream then some client else none
    | _ => none

def entriesOf (stream : String) (log : List Event) : List (Entry FieldValuePairs) :=
  log.filterMap fun
    | .pushed _ s entry => if s = stream then some entry else none
    | _ => none

section Order

variable {S T σ : Type} (traits : Traits S T σ) (store : KvRouterStore)

def streamOf (key : String) : String :=
  getDrainerStreamName store (shardKey traits (.merchantIdPaymentIdCombination key)
    store.drainerNumPartitions)

/-- The clients of the entries for the location, in the order of the stream. -/
def pushers (location : Location) (log : List Event) : List Nat :=
  (appenders (streamOf traits store location.redisKey) log).filter fun q =>
    q ∈ writers location log

abbrev KvConfig (S T σ : Type) :=
  Config Command Reply World (Call S σ) (Except RedisError (KvResult T))

/-- The client's write has taken effect and its entry is still to come. -/
def Pending (c : KvConfig S T σ) (location : Location) (client : Nat) : Prop :=
  (∃ call cmd k, c.procs client = .live call (.await cmd k)) ∧
    client ∈ writers location c.world.log ∧ client ∉ pushers traits store location c.world.log

/-- No write takes effect at the key or field while the entry of another write to it is still
to come. -/
def exclusive (location : Location) (c : KvConfig S T σ) :
    Action Choice String (Call S σ) → Prop
  | .step client o => ∀ call cmd k value,
    c.procs client = .live call (.await cmd k) →
    (exec traits.globMatches client cmd o c.world).2.log =
      c.world.log ++ [.wrote client location value] →
    ∀ other, other ≠ client → ¬ Pending traits store c location other
  | _ => True

end Order

variable {S T σ : Type} {traits : Traits S T σ} {store : KvRouterStore}

/- The log of a client: nothing, then its write, then its entry. -/

theorem clean_log {ε α : Type} (client : Nat) (d : Delivery) (err : ε) (w : World)
    (x : α × World) (grows : ∃ more, x.2.log = w.log ++ more ∧
      ∀ ev ∈ more, ev.client = some client ∨ ev.client = none) :
    ∃ more, (d.through err w x).2.log = w.log ++ more ∧
      ∀ ev ∈ more, ev.client = some client ∨ ev.client = none := by
  cases d with
  | answered | unanswered => exact grows
  | lost => exact ⟨[], (List.append_nil _).symm, nofun⟩

theorem expire_log (w : World) (key : String) (seconds : Nat) :
    (w.expire key seconds).log = w.log ∨ (w.expire key seconds).log = w.log ++ [.expired key] := by
  unfold World.expire
  split
  · exact .inr rfl
  · exact .inl rfl

theorem writeIfNotExists_log (w : World) (client : Nat) (location : Location) (value : String) :
    (w.writeIfNotExists client location value).log =
      if (w.keys.read location).isSome then w.log else w.log ++ [.wrote client location value] := by
  unfold World.writeIfNotExists
  split <;> rfl

theorem setNxEx_log (w : World) (client : Nat) (key value : String) (seconds : Nat) :
    (w.setNxEx client key value seconds).log =
      if (w.keys.read (.plain key)).isSome then w.log
      else w.log ++ [.wrote client (.plain key) value] := by
  unfold World.setNxEx
  split <;> rfl

theorem exec_log (globMatches : String → String → Bool) (client : Nat) (c : Command) (o : Choice)
    (w : World) : ∃ more, (exec globMatches client c o w).2.log = w.log ++ more ∧
      ∀ ev ∈ more, ev.client = some client ∨ ev.client = none := by
  have nothing : ∃ more, w.log = w.log ++ more ∧
      ∀ ev ∈ more, ev.client = some client ∨ ev.client = none :=
    ⟨[], (List.append_nil _).symm, nofun⟩
  have own : ∀ ev : Event, ev.client = some client ∨ ev.client = none → ∃ more,
      w.log ++ [ev] = w.log ++ more ∧ ∀ ev ∈ more, ev.client = some client ∨ ev.client = none := by
    intro ev owned
    refine ⟨[ev], rfl, fun x hx => ?_⟩
    rw [List.mem_singleton.mp hx]
    exact owned
  cases c with
  | isRedisAvailable | nowUnixTimestamp => exact nothing
  | hget | get | hscan => exact clean_log client o.redis _ w _ nothing
  | hset => exact clean_log client o.redis _ w _ (own _ (.inl rfl))
  | xadd => exact clean_log client o.redis _ w _ (own _ (.inl rfl))
  | expire key seconds =>
    refine clean_log client o.redis _ w _ ?_
    rcases expire_log w key seconds with h | h <;> simp only [h]
    · exact nothing
    · exact own _ (.inr rfl)
  | hsetnx key field value =>
    refine clean_log client o.redis _ w _ ?_
    simp only [writeIfNotExists_log]
    split
    · exact nothing
    · exact own _ (.inl rfl)
  | setNxEx key value seconds =>
    simp only [exec]
    split
    · exact nothing
    · refine clean_log client o.redis _ w _ ?_
      simp only [setNxEx_log]
      split
      · exact nothing
      · exact own _ (.inl rfl)
  | sadd key members =>
    simp only [exec]
    split
    · exact nothing
    · exact clean_log client o.redis _ w _ nothing

def kvHistory (traits : Traits S T σ) (store : KvRouterStore) :
    History (kvMachine traits store) Event where
  log := World.log
  owner := Event.client
  exec := exec_log traits.globMatches
  env := by
    intro key w w' moved
    cases Option.some.inj moved
    refine ⟨[.expired key], rfl, ?_⟩
    intro ev hev
    rw [List.mem_singleton.mp hev]
    rfl

abbrev Own (client : Nat) (events : List Event) (w : World) : Prop :=
  ownEvents Event.client client w.log = events

inductive Makes (streamOf : String → String) (client : Nat) (w w' : World) : Prop where
  | quiet (more : List Event) : w'.log = w.log ++ more →
      (∀ ev ∈ more, ∃ key, ev = .expired key) → Makes streamOf client w w'
  | writes (location : Location) (value : String) : Own client [] w →
      w'.log = w.log ++ [.wrote client location value] → Makes streamOf client w w'
  | pushes (location : Location) (value : String) (entry : Entry FieldValuePairs) :
      Own client [.wrote client location value] w →
      w'.log = w.log ++ [.pushed client (streamOf location.redisKey) entry] →
      Makes streamOf client w w'

def clientSetting (traits : Traits S T σ) (store : KvRouterStore) (client : Nat) :
    Setting Command Reply World Choice where
  exec := exec traits.globMatches client
  inv := fun _ => True
  rely := fun w w' => ownEvents Event.client client w'.log = ownEvents Event.client client w.log
  guar := fun _ => Makes (streamOf traits store) client
  allow := fun _ _ _ => True

/- What the client may rely on and what its commands make of its own log. -/

variable {client : Nat} {events : List Event} {w : World}

theorem own_stable : (clientSetting traits store client).Stable (Own client events) :=
  fun _ _ moved _ h => moved.trans h

theorem makes_nothing {streamOf : String → String} : Makes streamOf client w w :=
  .quiet [] (List.append_nil _).symm nofun

theorem makes_through {streamOf : String → String} {ε α : Type} (d : Delivery) (err : ε)
    {x : α × World} (makes : Makes streamOf client w x.2) :
    Makes streamOf client w (d.through err w x).2 := by
  cases d with
  | answered | unanswered => exact makes
  | lost => exact makes_nothing

theorem own_snoc {w' : World} {ev : Event} (own : Own client events w)
    (log : w'.log = w.log ++ [ev]) (mine : ev.client = some client) :
    Own client (events ++ [ev]) w' := by
  unfold Own at own ⊢
  rw [log, ownEvents_append, own, ownEvents_own mine]

def Command.quiet : Command → Bool
  | .hset .. | .hsetnx .. | .setNxEx .. | .xadd .. => false
  | _ => true

theorem quiet_log {globMatches : String → String → Bool} {c : Command} (quiet : c.quiet = true)
    (o : Choice) (w : World) : ∃ more, (exec globMatches client c o w).2.log = w.log ++ more ∧
      ∀ ev ∈ more, ∃ key, ev = .expired key := by
  have nothing : ∃ more, w.log = w.log ++ more ∧ ∀ ev ∈ more, ∃ key, ev = .expired key :=
    ⟨[], (List.append_nil _).symm, nofun⟩
  cases c with
  | isRedisAvailable | nowUnixTimestamp => exact nothing
  | hget | get | hscan =>
    simp only [exec]
    cases o.redis <;> exact nothing
  | expire key seconds =>
    simp only [exec]
    have dropped : ∃ more, (w.expire key seconds).log = w.log ++ more ∧
        ∀ ev ∈ more, ∃ key, ev = .expired key := by
      rcases expire_log w key seconds with h | h
      · exact ⟨[], by rw [h, List.append_nil], nofun⟩
      · exact ⟨_, h, fun ev hev => ⟨key, List.mem_singleton.mp hev⟩⟩
    cases o.redis with
    | answered | unanswered => exact dropped
    | lost => exact nothing
  | sadd key members =>
    simp only [exec]
    split
    · exact nothing
    · cases o.redis <;> exact nothing
  | hset | hsetnx | setNxEx | xadd => cases quiet

theorem quiet_step {c : Command} (quiet : c.quiet = true) :
    (clientSetting traits store client).Step (Own client events) c fun _ => Own client events := by
  intro w o _ _ own
  obtain ⟨more, log, expired⟩ := quiet_log quiet o w
  refine ⟨.quiet more log expired, trivial, ?_⟩
  have foreign : ∀ ev ∈ more, ev.client ≠ some client := by
    intro ev hev
    obtain ⟨key, rfl⟩ := expired ev hev
    nofun
  exact ((congrArg _ log).trans (ownEvents_append ..)).trans
    (by rw [ownEvents_foreign foreign, List.append_nil]; exact own)

theorem hset_step {key field value : String} :
    (clientSetting traits store client).Step (Own client []) (.hset key field value)
      fun r w => ∀ a, r = .ok a → Own client [.wrote client (.inHash key field) value] w := by
  intro w o _ _ own
  refine ⟨makes_through _ _ (.writes _ value own rfl), trivial, ?_⟩
  intro a ok
  obtain ⟨_, state⟩ := Delivery.through_ok ok
  exact state ▸ own_snoc own rfl rfl

theorem conditional_write {α : Type} {d : Delivery} {a : α} {effect : World}
    {location : Location} {value : String} (own : Own client [] w)
    (log : effect.log =
      if (w.keys.read location).isSome then w.log else w.log ++ [.wrote client location value]) :
    Makes (streamOf traits store) client w (d.through () w (a, effect)).2 ∧
      ∀ a', (d.through () w (a, effect)).1 = .ok a' → a' = a ∧
        ((w.keys.read location).isSome = true → Own client [] (d.through () w (a, effect)).2) ∧
        ((w.keys.read location).isSome = false →
          Own client [.wrote client location value] (d.through () w (a, effect)).2) := by
  cases present : (w.keys.read location).isSome with
  | true =>
    rw [present, if_pos rfl] at log
    refine ⟨makes_through d () (.quiet [] (by rw [log, List.append_nil]) fun _ none =>
      absurd none List.not_mem_nil), ?_⟩
    intro a' ok
    obtain ⟨same, state⟩ := Delivery.through_ok ok
    refine ⟨same, fun _ => ?_, fun missing => Bool.noConfusion missing⟩
    rw [state]
    exact (congrArg _ log).trans own
  | false =>
    rw [present, if_neg Bool.false_ne_true] at log
    refine ⟨makes_through d () (.writes location value own log), ?_⟩
    intro a' ok
    obtain ⟨same, state⟩ := Delivery.through_ok ok
    refine ⟨same, fun there => Bool.noConfusion there, fun _ => ?_⟩
    rw [state]
    exact own_snoc own log rfl

theorem hsetnx_step {key field value : String} :
    (clientSetting traits store client).Step (Own client []) (.hsetnx key field value)
      fun r w => ∀ n, r = .ok n → (n = 0 ∧ Own client [] w) ∨
        (n = 1 ∧ Own client [.wrote client (.inHash key field) value] w) := by
  intro w o _ _ own
  obtain ⟨makes, after⟩ := conditional_write own
    (writeIfNotExists_log w client (.inHash key field) value)
  refine ⟨makes, trivial, fun n ok => ?_⟩
  obtain ⟨same, there, missing⟩ := after n ok
  rcases Bool.eq_false_or_eq_true (w.keys.read (.inHash key field)).isSome with present | present
  · exact .inl ⟨by rw [same, present]; rfl, there present⟩
  · exact .inr ⟨by rw [same, present]; rfl, missing present⟩

theorem setNxEx_step {key value : String} {seconds : Nat} :
    (clientSetting traits store client).Step (Own client []) (.setNxEx key value seconds)
      fun r w => ∀ a, r = .ok a → (a = none ∧ Own client [] w) ∨
        (∃ text, a = some text ∧ Own client [.wrote client (.plain key) value] w) := by
  intro w o _ _ own
  by_cases zero : seconds = 0
  · simp only [clientSetting, exec, zero, if_true]
    exact ⟨makes_nothing, trivial, nofun⟩
  · simp only [clientSetting, exec, zero, if_false]
    obtain ⟨makes, after⟩ := conditional_write own (setNxEx_log w client key value seconds)
    refine ⟨makes, trivial, fun a ok => ?_⟩
    obtain ⟨same, there, missing⟩ := after a ok
    rcases Bool.eq_false_or_eq_true (w.keys.read (.plain key)).isSome with present | present
    · exact .inl ⟨by rw [same, present]; rfl, there present⟩
    · exact .inr ⟨"OK", by rw [same, present]; rfl, missing present⟩

theorem xadd_step {location : Location} {value : String} {fields : FieldValuePairs} :
    (clientSetting traits store client).Step (Own client [.wrote client location value])
      (.xadd (streamOf traits store location.redisKey) fields) fun _ _ => True := by
  intro w o _ _ own
  exact ⟨makes_through _ _ (.pushes location value _ own rfl), trivial, trivial⟩

/- The same for the functions between the commands and `kv_wrapper`. -/

theorem converted_holds {α β : Type} {fromValue : α → Except Unit β} {t : KvTask (Except Unit α)}
    {post : Except Unit β → World → Prop}
    (h : (clientSetting traits store client).Holds (fun r => post (r.bind fromValue)) t w) :
    (clientSetting traits store client).Holds post (converted fromValue t) w :=
  .bind h

theorem setExpiry_holds {key : String} {seconds : Nat} (own : Own client events w) :
    (clientSetting traits store client).Holds (fun _ => Own client events)
      (setExpiry key seconds).run w :=
  .changeContext (Setting.Holds.call own_stable (quiet_step rfl) own)

theorem setHashFields_holds {config : RedisConfig} {key field value : String} {ttl : Option Nat}
    (own : Own client [] w) :
    (clientSetting traits store client).Holds (fun r w => ∀ a, r = .ok a →
        Own client [.wrote client (.inHash key field) value] w)
      (setHashFields config key field value ttl).run w := by
  refine .bindExcept (.changeContext ((Setting.Holds.call own_stable hset_step own).mono ?_))
  intro r w own
  cases r with
  | ok a => exact (setExpiry_holds (own a rfl)).mono fun _ _ h _ _ => h
  | error e => nofun

theorem setHashFieldIfNotExist_holds {config : RedisConfig} {key field value : String}
    {ttl : Option Nat} (own : Own client [] w) :
    (clientSetting traits store client).Holds (fun r w =>
        (r = .ok .keySet → Own client [.wrote client (.inHash key field) value] w) ∧
          (r = .ok .keyNotSet → Own client [] w))
      (setHashFieldIfNotExist config key field value ttl).run w := by
  refine .bindExcept (.changeContext (converted_holds
    ((Setting.Holds.call own_stable hsetnx_step own).mono ?_)))
  intro r w own
  cases r with
  | error e => exact ⟨nofun, nofun⟩
  | ok n =>
    rcases own n rfl with ⟨rfl, own'⟩ | ⟨rfl, own'⟩
    · refine .bindExcept ((setExpiry_holds own').mono ?_)
      intro r w own
      cases r with
      | ok => exact ⟨nofun, fun _ => own⟩
      | error => exact ⟨nofun, nofun⟩
    · refine .bindExcept ((setExpiry_holds own').mono ?_)
      intro r w own
      cases r with
      | ok => exact ⟨fun _ => own, nofun⟩
      | error => exact ⟨nofun, nofun⟩

theorem setKeyIfNotExistsWithExpiry_holds {config : RedisConfig} {key value : String}
    {ttl : Option Nat} (own : Own client [] w) :
    (clientSetting traits store client).Holds (fun r w =>
        (r = .ok .keySet → Own client [.wrote client (.plain key) value] w) ∧
          (r = .ok .keyNotSet → Own client [] w))
      (setKeyIfNotExistsWithExpiry config key value ttl).run w := by
  refine .changeContext (converted_holds ((Setting.Holds.call own_stable setNxEx_step own).mono ?_))
  intro r w own
  cases r with
  | error e => exact ⟨nofun, nofun⟩
  | ok a =>
    rcases own a rfl with ⟨rfl, own'⟩ | ⟨text, rfl, own'⟩
    · exact ⟨nofun, fun _ => own'⟩
    · exact ⟨fun _ => own', nofun⟩

theorem checkForConstraints_holds {value : S} (own : Own client events w) :
    (clientSetting traits store client).Holds (fun _ => Own client events)
      (checkForConstraints traits value).run w := by
  refine .bindExcept (.changeContext (converted_holds
    ((Setting.Holds.call own_stable (quiet_step rfl) own).mono ?_)))
  intro r w own
  cases r with
  | error e => exact own
  | ok n =>
    match n with
    | 0 => exact own
    | 1 => exact own
    | n + 2 => exact own

theorem pushToDrainerStream_holds {location : Location} {value : String} {sql : σ}
    (own : Own client [.wrote client location value] w) :
    (clientSetting traits store client).Holds (fun _ _ => True)
      (pushToDrainerStream traits store sql
        (.merchantIdPaymentIdCombination location.redisKey)).run w := by
  refine .await own_stable (quiet_step rfl) ?_ own
  intro now w own
  have rest : (clientSetting traits store client).Holds (fun _ _ => True) (do
      let fields ← Task.orFail .jsonSerializationFailed
        (toFieldValuePairs traits sql (store.requestId.getD "") location.redisKey now)
      Task.changeContext .streamAppendFailed
        (call (.xadd (streamOf traits store location.redisKey) fields)) : Kv Unit).run w := by
    cases toFieldValuePairs traits sql (store.requestId.getD "") location.redisKey now with
    | error e => trivial
    | ok fields => exact .changeContext (Setting.Holds.call own_stable xadd_step own)
  exact rest

theorem getRedisConn_holds (own : Own client events w) :
    (clientSetting traits store client).Holds (fun _ => Own client events) getRedisConn.run w := by
  refine .await own_stable (quiet_step rfl) ?_ own
  intro available w own
  cases available <;> exact own

theorem push_return_holds (location : Location) {value : String} {sql : σ} {result : KvResult T}
    (own : Own client [.wrote client location value] w) :
    (clientSetting traits store client).Holds (fun _ _ => True) (do
      pushToDrainerStream traits store sql (.merchantIdPaymentIdCombination location.redisKey)
      return result : Kv (KvResult T)).run w := by
  refine .bindExcept ((pushToDrainerStream_holds own).mono ?_)
  intro r w _
  cases r <;> trivial

theorem hset_holds {key field value : String} {sql : σ} (own : Own client [] w) :
    (clientSetting traits store client).Holds (fun _ _ => True) (do
      setHashFields store.config key field value (some store.ttlForKv)
      pushToDrainerStream traits store sql (.merchantIdPaymentIdCombination key)
      return KvResult.hset : Kv (KvResult T)).run w := by
  refine .bindExcept ((setHashFields_holds own).mono ?_)
  intro r w own
  cases r with
  | error e => trivial
  | ok a => exact push_return_holds (.inHash key field) (own a rfl)

theorem hSetNx_holds {key field : String} {value : S} {sql : σ} (own : Own client [] w) :
    (clientSetting traits store client).Holds (fun _ _ => True) (do
      checkForConstraints traits value
      let result ← serializeAndSetHashFieldIfNotExist traits store.config key field value
        (some store.ttlForKv)
      match result with
      | .keySet =>
        pushToDrainerStream traits store sql (.merchantIdPaymentIdCombination key)
        return KvResult.hSetNx result
      | .keyNotSet => throw .setNxFailed : Kv (KvResult T)).run w := by
  refine .bindExcept ((checkForConstraints_holds own).mono ?_)
  intro r w own
  cases r with
  | error e => trivial
  | ok =>
    have set : (clientSetting traits store client).Holds (fun r w => r = .ok .keySet →
        ∃ bytes, Own client [.wrote client (.inHash key field) bytes] w)
        (serializeAndSetHashFieldIfNotExist traits store.config key field value
          (some store.ttlForKv)).run w := by
      unfold serializeAndSetHashFieldIfNotExist
      cases traits.encodeToVec value with
      | error e => nofun
      | ok bytes =>
        exact (setHashFieldIfNotExist_holds own).mono fun _ _ h same => ⟨bytes, h.1 same⟩
    refine .bindExcept (set.mono ?_)
    intro r w own
    cases r with
    | error e => trivial
    | ok reply =>
      cases reply with
      | keyNotSet => trivial
      | keySet =>
        obtain ⟨bytes, own⟩ := own rfl
        exact push_return_holds (.inHash key field) own

theorem setNx_holds {key : String} {value : S} {sql : σ} (own : Own client [] w) :
    (clientSetting traits store client).Holds (fun _ _ => True) (do
      let result ← serializeAndSetKeyIfNotExist traits store.config key value (some store.ttlForKv)
      checkForConstraints traits value
      match result with
      | .keySet =>
        pushToDrainerStream traits store sql (.merchantIdPaymentIdCombination key)
        return KvResult.setNx result
      | .keyNotSet => throw .setNxFailed : Kv (KvResult T)).run w := by
  have set : (clientSetting traits store client).Holds (fun r w =>
      (r = .ok .keySet → ∃ bytes, Own client [.wrote client (.plain key) bytes] w) ∧
        (r = .ok .keyNotSet → Own client [] w))
      (serializeAndSetKeyIfNotExist traits store.config key value (some store.ttlForKv)).run w := by
    unfold serializeAndSetKeyIfNotExist
    cases traits.encodeToVec value with
    | error e => exact ⟨nofun, nofun⟩
    | ok bytes =>
      refine (setKeyIfNotExistsWithExpiry_holds own).mono fun _ _ h => ⟨fun same => ?_, h.2⟩
      exact ⟨bytes, h.1 same⟩
  refine .bindExcept (set.mono ?_)
  intro r w own
  cases r with
  | error e => trivial
  | ok reply =>
    cases reply with
    | keyNotSet =>
      refine .bindExcept ((checkForConstraints_holds (own.2 rfl)).mono ?_)
      intro r w _
      cases r <;> trivial
    | keySet =>
      obtain ⟨bytes, wrote⟩ := own.1 rfl
      refine .bindExcept ((checkForConstraints_holds wrote).mono ?_)
      intro r w own
      cases r with
      | error e => trivial
      | ok => exact push_return_holds (.plain key) own

/- A read has nothing to show for itself, whatever comes of it. -/
theorem deserialized_holds {value : Option String} :
    (clientSetting traits store client).Holds (fun _ _ => True)
      (deserialized traits value : Kv T).run w := by
  unfold deserialized
  split <;> trivial

theorem lookup_holds {e : RedisError} {read : KvTask (Except Unit (Option String))}
    {found : T → KvResult T}
    (quiet : (clientSetting traits store client).Holds (fun _ => Own client events) read w) :
    (clientSetting traits store client).Holds (fun _ _ => True) (do
      let result ← (do
        let value ← Task.changeContext e read
        deserialized traits value : Kv T)
      return found result : Kv (KvResult T)).run w := by
  have looked : (clientSetting traits store client).Holds (fun _ _ => True) (do
      let value ← Task.changeContext e read
      deserialized traits value : Kv T).run w := by
    refine .bindExcept (.changeContext (quiet.mono ?_))
    intro r w _
    cases r with
    | error e => trivial
    | ok value => exact deserialized_holds
  refine .bindExcept (looked.mono ?_)
  intro r w _
  cases r <;> trivial

theorem hGet_holds {key field : String} (own : Own client events w) :
    (clientSetting traits store client).Holds (fun _ _ => True) (do
      let result ← getHashFieldAndDeserialize traits key field
      return KvResult.hGet result : Kv (KvResult T)).run w :=
  lookup_holds (.call own_stable (quiet_step rfl) own)

theorem get_holds {key : String} (own : Own client events w) :
    (clientSetting traits store client).Holds (fun _ _ => True) (do
      let result ← getAndDeserializeKey traits key
      return KvResult.get result : Kv (KvResult T)).run w :=
  lookup_holds (.call own_stable (quiet_step rfl) own)

theorem scan_holds {key pattern : String} (own : Own client events w) :
    (clientSetting traits store client).Holds (fun _ _ => True) (do
      let result ← hscanAndDeserialize traits key pattern
      if result.isEmpty then throw .notFound
      return KvResult.scan result : Kv (KvResult T)).run w := by
  have read : (clientSetting traits store client).Holds (fun _ _ => True)
      (hscanAndDeserialize traits key pattern : Kv (List T)).run w :=
    .await own_stable (quiet_step rfl) (fun _ _ _ => trivial) own
  refine .bindExcept (read.mono ?_)
  intro r w _
  cases r with
  | error e => trivial
  | ok result =>
    cases empty : result.isEmpty <;> simp only [empty, Bool.false_eq_true, if_true, if_false] <;>
      trivial

theorem kvWrapper_holds (op : KvOperation S σ) (key : String) (own : Own client [] w) :
    (clientSetting traits store client).Holds (fun _ _ => True)
      (kvWrapper traits store op key).run w := by
  refine .bindExcept ((getRedisConn_holds own).mono ?_)
  intro r w own
  cases r with
  | error e => trivial
  | ok =>
    cases op with
    | hset field value sql => exact hset_holds own
    | hSetNx field value sql => exact hSetNx_holds own
    | setNx value sql => exact setNx_holds own
    | hGet field => exact hGet_holds own
    | get => exact get_holds own
    | scan pattern => exact scan_holds own

theorem makes_foreign {streamOf : String → String} {w' : World}
    (makes : Makes streamOf client w w') {other : Nat} (differ : other ≠ client) :
    ownEvents Event.client other w'.log = ownEvents Event.client other w.log := by
  have foreign : ∀ more, w'.log = w.log ++ more →
      (∀ ev ∈ more, ev.client = some client ∨ ev.client = none) →
      ownEvents Event.client other w'.log = ownEvents Event.client other w.log := by
    intro more log owned
    have others : ∀ ev ∈ more, ev.client ≠ some other := by
      intro ev hev same
      rcases owned ev hev with own | nobody
      · exact differ (Option.some.inj (same.symm.trans own))
      · exact nomatch same.symm.trans nobody
    rw [log, ownEvents_append, ownEvents_foreign others, List.append_nil]
  cases makes with
  | quiet more log expired =>
    refine foreign more log fun ev hev => ?_
    obtain ⟨key, rfl⟩ := expired ev hev
    exact .inr rfl
  | writes location value _ log =>
    refine foreign _ log fun ev hev => ?_
    rw [List.mem_singleton.mp hev]
    exact .inl rfl
  | pushes location value entry _ log =>
    refine foreign _ log fun ev hev => ?_
    rw [List.mem_singleton.mp hev]
    exact .inl rfl

def writeThenPush (traits : Traits S T σ) (store : KvRouterStore)
    (ok : KvConfig S T σ → Action Choice String (Call S σ) → Prop) (keys : Keyspace) :
    Discipline (kvMachine traits store) ok (.initial ⟨keys, []⟩) where
  inv := fun _ => True
  rely := fun client w w' =>
    ownEvents Event.client client w'.log = ownEvents Event.client client w.log
  guar := fun client _ _ => Makes (streamOf traits store) client
  allow := fun _ _ _ _ => True
  post := fun _ _ _ _ => True
  rely_refl := fun _ _ => rfl
  rely_trans := fun _ _ _ _ h g => g.trans h
  starts := ⟨trivial, fun _ => rfl⟩
  allowed := fun _ _ => trivial
  spawned := by
    intro c client call reached _ idle _
    have silent := (kvHistory traits store).idle_silent reached (fun _ => rfl) client idle
    exact kvWrapper_holds call.op call.key silent
  others := fun _ _ _ differ _ makes => makes_foreign makes (Ne.symm differ)
  env := fun _ _ _ moved =>
    ⟨trivial, fun client _ _ _ _ => (kvHistory traits store).env_own moved client⟩
  kept := fun _ _ _ _ _ _ _ => trivial

/- The two orders, as the log grows. -/

theorem mem_writers {location : Location} {log : List Event} {q : Nat} :
    q ∈ writers location log ↔ ∃ value, .wrote q location value ∈ log := by
  constructor
  · intro h
    obtain ⟨ev, hev, out⟩ := List.mem_filterMap.mp h
    cases ev with
    | wrote p l value =>
      obtain ⟨rfl, same⟩ := Option.ite_none_right_eq_some.mp out
      exact ⟨value, Option.some.inj same ▸ hev⟩
    | pushed | expired => cases out
  · rintro ⟨value, hev⟩
    exact List.mem_filterMap.mpr ⟨_, hev, if_pos rfl⟩

theorem mem_appenders {stream : String} {log : List Event} {q : Nat} :
    q ∈ appenders stream log ↔ ∃ entry, .pushed q stream entry ∈ log := by
  constructor
  · intro h
    obtain ⟨ev, hev, out⟩ := List.mem_filterMap.mp h
    cases ev with
    | pushed p s entry =>
      obtain ⟨rfl, same⟩ := Option.ite_none_right_eq_some.mp out
      exact ⟨entry, Option.some.inj same ▸ hev⟩
    | wrote | expired => cases out
  · rintro ⟨entry, hev⟩
    exact List.mem_filterMap.mpr ⟨_, hev, if_pos rfl⟩

theorem own_writers {q : Nat} {location : Location} (own : Own q events w) :
    q ∈ writers location w.log ↔ ∃ value, .wrote q location value ∈ events := by
  rw [mem_writers, ← own]
  constructor
  · rintro ⟨value, hev⟩
    exact ⟨value, mem_ownEvents.mpr ⟨hev, rfl⟩⟩
  · rintro ⟨value, hev⟩
    exact ⟨value, (mem_ownEvents.mp hev).1⟩

theorem own_appenders {q : Nat} {stream : String} (own : Own q events w) :
    q ∈ appenders stream w.log ↔ ∃ entry, .pushed q stream entry ∈ events := by
  rw [mem_appenders, ← own]
  constructor
  · rintro ⟨entry, hev⟩
    exact ⟨entry, mem_ownEvents.mpr ⟨hev, rfl⟩⟩
  · rintro ⟨entry, hev⟩
    exact ⟨entry, (mem_ownEvents.mp hev).1⟩

theorem writers_quiet {location : Location} (log : List Event) {more : List Event}
    (expired : ∀ ev ∈ more, ∃ key, ev = .expired key) :
    writers location (log ++ more) = writers location log := by
  have nothing : writers location more = [] := by
    apply List.filterMap_eq_nil_iff.mpr
    intro ev hev
    obtain ⟨key, rfl⟩ := expired ev hev
    rfl
  unfold writers at nothing ⊢
  rw [List.filterMap_append, nothing, List.append_nil]

theorem pushers_quiet {location : Location} (log : List Event) {more : List Event}
    (expired : ∀ ev ∈ more, ∃ key, ev = .expired key) :
    pushers traits store location (log ++ more) = pushers traits store location log := by
  have nothing : appenders (streamOf traits store location.redisKey) more = [] := by
    apply List.filterMap_eq_nil_iff.mpr
    intro ev hev
    obtain ⟨key, rfl⟩ := expired ev hev
    rfl
  unfold pushers
  rw [writers_quiet log expired]
  unfold appenders at nothing ⊢
  rw [List.filterMap_append, nothing, List.append_nil]

theorem writers_wrote (location l : Location) (log : List Event) (p : Nat) (value : String) :
    writers location (log ++ [.wrote p l value]) =
      writers location log ++ if l = location then [p] else [] := by
  unfold writers
  rw [List.filterMap_append]
  congr 1
  by_cases same : l = location <;> simp [same]

theorem pushers_wrote (traits : Traits S T σ) (store : KvRouterStore) (location l : Location)
    {p : Nat} (value : String) (own : Own p [] w) :
    pushers traits store location (w.log ++ [.wrote p l value]) =
      pushers traits store location w.log := by
  have appends : appenders (streamOf traits store location.redisKey)
      (w.log ++ [.wrote p l value]) =
        appenders (streamOf traits store location.redisKey) w.log :=
    (List.filterMap_append).trans (List.append_nil _)
  unfold pushers
  rw [appends]
  apply List.filter_congr
  intro q hq
  have other : q ≠ p := by
    rintro rfl
    obtain ⟨entry, hev⟩ := (own_appenders own).mp hq
    cases hev
  rw [writers_wrote]
  by_cases same : l = location <;> simp [same, other]

theorem pushers_pushed (traits : Traits S T σ) (store : KvRouterStore) (location : Location)
    {l : Location} {p : Nat} {value : String} (entry : Entry FieldValuePairs) (own : Own p [.wrote p l value] w) :
    pushers traits store location
        (w.log ++ [.pushed p (streamOf traits store l.redisKey) entry]) =
      pushers traits store location w.log ++ if l = location then [p] else [] := by
  have same : writers location (w.log ++ [.pushed p (streamOf traits store l.redisKey) entry]) =
      writers location w.log := (List.filterMap_append).trans (List.append_nil _)
  have appends : appenders (streamOf traits store location.redisKey)
      (w.log ++ [.pushed p (streamOf traits store l.redisKey) entry]) =
        appenders (streamOf traits store location.redisKey) w.log ++
          if streamOf traits store l.redisKey = streamOf traits store location.redisKey then [p]
          else [] := by
    unfold appenders
    rw [List.filterMap_append]
    congr 1
    by_cases same : streamOf traits store l.redisKey = streamOf traits store location.redisKey <;>
      simp [same]
  have wrote : p ∈ writers location w.log ↔ l = location := by
    rw [own_writers own]
    constructor
    · rintro ⟨value', hev⟩
      cases List.mem_singleton.mp hev
      rfl
    · rintro rfl
      exact ⟨value, List.mem_singleton.mpr rfl⟩
  unfold pushers
  rw [same, appends, List.filter_append]
  congr 1
  by_cases here : l = location
  · subst here
    simp [wrote.mpr rfl]
  · have not : p ∉ writers location w.log := fun mem => here (wrote.mp mem)
    rw [if_neg here]
    split <;> simp [not]

def Awaits (c : KvConfig S T σ) (client : Nat) : Prop :=
  ∃ call cmd k, c.procs client = .live call (.await cmd k)

/-- The entries follow the writes; a write whose entry is to come is the last one. -/
structure InStep (traits : Traits S T σ) (store : KvRouterStore) (c : KvConfig S T σ)
    (location : Location) : Prop where
  nodup : (writers location c.world.log).Nodup
  order : (pushers traits store location c.world.log).Sublist (writers location c.world.log)
  last : ∀ q, Pending traits store c location q → ∃ before,
    writers location c.world.log = before ++ [q] ∧
      (pushers traits store location c.world.log).Sublist before

variable {c d : KvConfig S T σ} {location : Location}

theorem InStep.same (inStep : InStep traits store c location)
    (wrote : writers location d.world.log = writers location c.world.log)
    (pushed : pushers traits store location d.world.log =
      pushers traits store location c.world.log)
    (awaits : ∀ q, q ∈ writers location c.world.log → Awaits d q → Awaits c q) :
    InStep traits store d location := by
  refine ⟨wrote ▸ inStep.nodup, ?_, ?_⟩
  · rw [wrote, pushed]
    exact inStep.order
  · rintro q ⟨await, mem, notPushed⟩
    rw [wrote] at mem
    rw [pushed] at notPushed
    rw [wrote, pushed]
    exact inStep.last q ⟨awaits q mem await, mem, notPushed⟩

theorem InStep.quiet {more : List Event} (inStep : InStep traits store c location)
    (log : d.world.log = c.world.log ++ more) (expired : ∀ ev ∈ more, ∃ key, ev = .expired key)
    (awaits : ∀ q, Awaits d q → Awaits c q) : InStep traits store d location := by
  refine inStep.same ?_ ?_ fun q _ await => awaits q await
  · rw [log, writers_quiet _ expired]
  · rw [log, pushers_quiet _ expired]

theorem InStep.wrote {p : Nat} {value : String} (inStep : InStep traits store c location)
    (own : Own p [] c.world) (log : d.world.log = c.world.log ++ [.wrote p location value])
    (awaits : ∀ q, Awaits d q → Awaits c q)
    (alone : ∀ q, q ≠ p → ¬ Pending traits store c location q) :
    InStep traits store d location := by
  have wrote := writers_wrote location location c.world.log p value
  rw [if_pos rfl] at wrote
  have pushed := pushers_wrote traits store location location value own
  have fresh : p ∉ writers location c.world.log := by
    intro mem
    obtain ⟨value, hev⟩ := (own_writers own).mp mem
    cases hev
  refine ⟨?_, ?_, ?_⟩ <;> rw [log, wrote]
  · exact inStep.nodup.append (List.nodup_singleton p) (by simpa using fresh)
  · rw [pushed]
    exact inStep.order.trans (List.sublist_append_left _ _)
  · rintro q ⟨await, mem, notPushed⟩
    rw [log, wrote] at mem
    rw [log, pushed] at notPushed
    rw [pushed]
    by_cases same : q = p
    · subst same
      exact ⟨_, rfl, inStep.order⟩
    · have before : q ∈ writers location c.world.log := by simpa [same] using mem
      exact absurd ⟨awaits q await, before, notPushed⟩ (alone q same)

theorem InStep.pushed {p : Nat} {value : String} {entry : Entry FieldValuePairs}
    (inStep : InStep traits store c location)
    (own : Own p [.wrote p location value] c.world)
    (log : d.world.log =
      c.world.log ++ [.pushed p (streamOf traits store location.redisKey) entry])
    (await : Awaits c p) (awaits : ∀ q, Awaits d q → Awaits c q) :
    InStep traits store d location := by
  have wrote : writers location d.world.log = writers location c.world.log := by
    rw [log]
    exact (List.filterMap_append).trans (List.append_nil _)
  have pushed := pushers_pushed traits store location entry own
  rw [if_pos rfl, ← log] at pushed
  have mem : p ∈ writers location c.world.log :=
    (own_writers own).mpr ⟨value, List.mem_singleton.mpr rfl⟩
  have notPushed : p ∉ pushers traits store location c.world.log := by
    intro hp
    obtain ⟨entry, hev⟩ := (own_appenders own).mp (List.mem_of_mem_filter hp)
    cases List.mem_singleton.mp hev
  obtain ⟨before, split, order⟩ := inStep.last p ⟨await, mem, notPushed⟩
  refine ⟨wrote ▸ inStep.nodup, ?_, ?_⟩ <;> rw [wrote, pushed]
  · rw [split]
    exact order.append (List.Sublist.refl _)
  · rintro q ⟨await', mem', notPushed'⟩
    rw [wrote] at mem'
    rw [pushed] at notPushed'
    have other : q ∉ pushers traits store location c.world.log := fun h =>
      notPushed' (List.mem_append_left _ h)
    obtain ⟨_, split', _⟩ := inStep.last q ⟨awaits q await', mem', other⟩
    obtain ⟨_, same⟩ := List.append_inj' (split'.symm.trans split) rfl
    exact absurd (List.mem_append_right _ (List.mem_singleton.mpr (List.singleton_inj.mp same)))
      notPushed'

variable {keys : Keyspace}

theorem awaits_before {act : Action Choice String (Call S σ)}
    (h : (kvMachine traits store).step c act = some d) (old : ∀ p call, act ≠ .spawn p call)
    (q : Nat) : Awaits d q → Awaits c q := by
  rintro ⟨call, cmd, k, live⟩
  exact ⟨call, (Machine.step_awaits h live).resolve_left fun spawned => old q call spawned.1⟩

theorem step_inStep {act : Action Choice String (Call S σ)}
    (reached : Machine.Reach (kvMachine traits store) (exclusive traits store location)
      (.initial ⟨keys, []⟩) c) (inStep : InStep traits store c location)
    (met : exclusive traits store location c act)
    (h : (kvMachine traits store).step c act = some d) : InStep traits store d location := by
  have sound := (writeThenPush traits store (exclusive traits store location) keys).sound reached
  cases act with
  | spawn p call =>
    obtain ⟨idle, rfl⟩ := Machine.step_spawn h
    refine inStep.same rfl rfl ?_
    intro q mem await
    have silent := (kvHistory traits store).idle_silent reached (fun _ => rfl) p idle
    have other : q ≠ p := by
      rintro rfl
      obtain ⟨value, hev⟩ := (own_writers silent).mp mem
      cases hev
    obtain ⟨call', cmd, k, live⟩ := await
    rw [Config.setProc_other other] at live
    exact ⟨call', cmd, k, live⟩
  | crash p =>
    have awaits := awaits_before h nofun
    obtain ⟨_, _, _, _, rfl⟩ := Machine.step_crash h
    exact inStep.same rfl rfl fun q _ await => awaits q await
  | env key =>
    obtain ⟨moved, _⟩ := Machine.step_env h
    have log : d.world.log = c.world.log ++ [.expired key] := by
      rw [← Option.some.inj moved]
      rfl
    have expired : ∀ ev ∈ [Event.expired key], ∃ key, ev = .expired key :=
      fun ev hev => ⟨key, List.mem_singleton.mp hev⟩
    exact inStep.quiet log expired (awaits_before h nofun)
  | step p o =>
    have awaits := awaits_before h nofun
    obtain ⟨call, cmd, k, live, _, world⟩ := Machine.step_step h
    obtain ⟨_, _, _, _, _, makes, _⟩ := sound.own_step met h
    cases makes with
    | quiet more log expired => exact inStep.quiet log expired awaits
    | writes l value own log =>
      by_cases here : l = location
      · subst here
        exact inStep.wrote own log awaits (met call cmd k value live (world ▸ log))
      · refine inStep.same ?_ ?_ fun q _ await => awaits q await
        · rw [log, writers_wrote, if_neg here, List.append_nil]
        · rw [log, pushers_wrote traits store location l value own]
    | pushes l value entry own log =>
      by_cases here : l = location
      · subst here
        exact inStep.pushed own log ⟨call, cmd, k, live⟩ awaits
      · refine inStep.same ?_ ?_ fun q _ await => awaits q await
        · rw [log]
          exact (List.filterMap_append).trans (List.append_nil _)
        · rw [log, pushers_pushed traits store location entry own, if_neg here, List.append_nil]

theorem reach_inStep
    (reached : Machine.Reach (kvMachine traits store) (exclusive traits store location)
      (.initial ⟨keys, []⟩) c) : InStep traits store c location := by
  refine reached.invariant ?_ fun c act d before inStep met h => step_inStep before inStep met h
  refine ⟨.nil, List.Sublist.slnil, ?_⟩
  rintro q ⟨⟨_, _, _, live⟩, _⟩
  cases live

/- What Redis holds at a location is what the log says. -/

def valueAfter (initial : Option String) (location : Location) (log : List Event) : Option String :=
  log.foldl (fun value ev => match ev with
    | .wrote _ l x => if l = location then some x else value
    | .expired key => if key = location.redisKey then none else value
    | .pushed .. => value) initial

theorem lookup_filter {f g : String} (fields : List (String × String)) (differ : g ≠ f) :
    (fields.filter fun x => x.1 ≠ f).lookup g = fields.lookup g := by
  induction fields with
  | nil => rfl
  | cons x fields ih =>
    obtain ⟨name, value⟩ := x
    by_cases same : name = f
    · subst same
      rw [List.filter_cons_of_neg (by simp), ih, List.lookup_cons, beq_eq_false_iff_ne.mpr differ]
    · rw [List.filter_cons_of_pos (by simpa using same), List.lookup_cons, List.lookup_cons, ih]

theorem write_read (k : Keyspace) (l location : Location) (value : String) :
    (k.write l value).read location =
      if l = location then some value else k.read location := by
  cases l with
  | plain key =>
    cases location with
    | plain key' =>
      by_cases same : key = key'
      · subst same
        simp [Keyspace.write, Keyspace.read]
      · have other : key' ≠ key := fun h => same h.symm
        simp [Keyspace.write, Keyspace.read, same, Function.update_of_ne other]
    | inHash key' field => simp [Keyspace.write, Keyspace.read]
  | inHash key field =>
    cases location with
    | plain key' => simp [Keyspace.write, Keyspace.read]
    | inHash key' field' =>
      by_cases same : key = key'
      · subst same
        by_cases field_same : field = field'
        · subst field_same
          simp [Keyspace.write, Keyspace.read]
        · have other : field' ≠ field := fun h => field_same h.symm
          have found := lookup_filter (k.hashes key) other
          simp only [Keyspace.write, Keyspace.read, Function.update_self, List.lookup_cons,
            beq_eq_false_iff_ne.mpr other, found, Location.inHash.injEq, true_and,
            if_neg field_same]
      · have other : key' ≠ key := fun h => same h.symm
        simp [Keyspace.write, Keyspace.read, same, Function.update_of_ne other]

theorem drop_read (k : Keyspace) (key : String) (location : Location) :
    (k.drop key).read location = if key = location.redisKey then none else k.read location := by
  cases location with
  | plain key' =>
    by_cases same : key = key'
    · subst same
      simp [Keyspace.drop, Keyspace.read, Location.redisKey]
    · have other : key' ≠ key := fun h => same h.symm
      simp [Keyspace.drop, Keyspace.read, Location.redisKey, same, Function.update_of_ne other]
  | inHash key' field =>
    by_cases same : key = key'
    · subst same
      simp [Keyspace.drop, Keyspace.read, Location.redisKey]
    · have other : key' ≠ key := fun h => same h.symm
      simp [Keyspace.drop, Keyspace.read, Location.redisKey, same, Function.update_of_ne other]

structure Recorded (keys : Keyspace) (w : World) : Prop where
  value : ∀ location, w.keys.read location = valueAfter (keys.read location) location w.log
  stream : ∀ stream, (w.keys.streams stream).entries =
    (keys.streams stream).entries ++ entriesOf stream w.log

theorem Recorded.logged (h : Recorded keys w) {w' : World} {ev : Event}
    (log : w'.log = w.log ++ [ev])
    (read : ∀ location, w'.keys.read location =
      valueAfter (w.keys.read location) location [ev])
    (streams : ∀ stream, (w'.keys.streams stream).entries =
      (w.keys.streams stream).entries ++ entriesOf stream [ev]) : Recorded keys w' where
  value location := by
    rw [read location, h.value location, log, valueAfter, valueAfter, valueAfter,
      List.foldl_append]
  stream stream := by
    rw [streams stream, h.stream stream, log, List.append_assoc, entriesOf, entriesOf, entriesOf,
      List.filterMap_append]

theorem Recorded.write (h : Recorded keys w) (client : Nat) (location : Location)
    (value : String) : Recorded keys (w.write client location value) := by
  apply h.logged rfl
  · exact fun l => write_read w.keys location l value
  · intro stream
    cases location <;> exact (List.append_nil _).symm

theorem Recorded.drop (h : Recorded keys w) (key : String) : Recorded keys (w.drop key) :=
  h.logged rfl (drop_read w.keys key) fun _ => (List.append_nil _).symm

theorem Recorded.keep (h : Recorded keys w) {k : Keyspace} (read : k.read = w.keys.read)
    (streams : k.streams = w.keys.streams) : Recorded keys { w with keys := k } :=
  ⟨fun l => (congrFun read l).trans (h.value l), fun s => streams ▸ h.stream s⟩

theorem Recorded.xadd (h : Recorded keys w) (client : Nat) (stream : String) (gap : Nat)
    (fields : FieldValuePairs) : Recorded keys (w.xadd client stream gap fields) := by
  apply h.logged rfl
  · intro l
    cases l <;> rfl
  · intro s
    simp only [World.xadd, Keyspace.append, entriesOf, List.filterMap_cons, List.filterMap_nil]
    by_cases same : stream = s
    · subst same
      simp only [Function.update_self, Stream.xadd_entries, if_true]
    · have other : s ≠ stream := fun e => same e.symm
      simp only [Function.update_of_ne other, if_neg same, List.append_nil]

theorem Recorded.through {ε α : Type} (h : Recorded keys w) (d : Delivery) (err : ε)
    {x : α × World} (effect : Recorded keys x.2) : Recorded keys (d.through err w x).2 := by
  cases d with
  | answered | unanswered => exact effect
  | lost => exact h

theorem Recorded.exec (h : Recorded keys w) (globMatches : String → String → Bool) (client : Nat)
    (c : Command) (o : Choice) : Recorded keys (exec globMatches client c o w).2 := by
  cases c with
  | isRedisAvailable | nowUnixTimestamp => exact h
  | hget | get | hscan => exact h.through o.redis _ h
  | hset key field value => exact h.through o.redis _ (h.write client _ value)
  | xadd stream fields => exact h.through o.redis _ (h.xadd client stream o.gap fields)
  | hsetnx key field value =>
    refine h.through o.redis _ ?_
    simp only [World.writeIfNotExists]
    split
    · exact h
    · exact h.write client _ value
  | setNxEx key value seconds =>
    simp only [Storage.exec]
    split
    · exact h
    · refine h.through o.redis _ ?_
      simp only [World.setNxEx]
      split
      · exact h
      · exact (h.write client (.plain key) value).keep (by funext l; cases l <;> rfl) rfl
  | expire key seconds =>
    refine h.through o.redis _ ?_
    simp only [World.expire]
    split
    · exact h.drop key
    · exact h.keep (by funext l; cases l <;> rfl) rfl
  | sadd key members =>
    simp only [Storage.exec]
    split
    · exact h
    · exact h.through o.redis _ (h.keep (by funext l; cases l <;> rfl) rfl)

theorem reach_recorded {ok : KvConfig S T σ → Action Choice String (Call S σ) → Prop}
    (reached : Machine.Reach (kvMachine traits store) ok (.initial ⟨keys, []⟩) c) :
    Recorded keys c.world := by
  refine reached.world_invariant (I := Recorded keys) ⟨fun _ => rfl, fun s => ?_⟩ ?_ ?_
  · exact (List.append_nil _).symm
  · intro p cmd o w h
    exact h.exec traits.globMatches p cmd o
  · intro key w w' moved h
    exact Option.some.inj moved ▸ h.drop key

/-- With no expiry, a location that was written holds what its last writer wrote. -/
theorem valueAfter_last {log : List Event} {initial : Option String} {before : List Nat} {q : Nat}
    (unexpired : .expired location.redisKey ∉ log) (split : writers location log = before ++ [q]) :
    ∃ value, .wrote q location value ∈ log ∧ valueAfter initial location log = some value := by
  induction log using List.reverseRecOn with
  | nil => simp [writers] at split
  | append_singleton log ev ih =>
    have unexpired' : .expired location.redisKey ∉ log := fun h =>
      unexpired (List.mem_append_left _ h)
    have fold : ∀ x, valueAfter initial location (log ++ [ev]) = x ↔
        valueAfter (valueAfter initial location log) location [ev] = x := by
      intro x
      unfold valueAfter
      rw [List.foldl_append]
    have earlier : writers location [ev] = [] →
        valueAfter (valueAfter initial location log) location [ev] =
          valueAfter initial location log →
        ∃ value, .wrote q location value ∈ log ++ [ev] ∧
          valueAfter initial location (log ++ [ev]) = some value := by
      intro none same
      unfold writers at split none
      rw [List.filterMap_append, none, List.append_nil] at split
      obtain ⟨value, mem, holds⟩ := ih unexpired' split
      exact ⟨value, List.mem_append_left _ mem, (fold _).mpr (same.trans holds)⟩
    cases ev with
    | pushed p s entry => exact earlier rfl rfl
    | expired key =>
      have other : key ≠ location.redisKey := by
        rintro rfl
        exact unexpired (List.mem_append_right _ (List.mem_singleton.mpr rfl))
      exact earlier rfl (if_neg other)
    | wrote p l value =>
      by_cases here : l = location
      · subst here
        rw [writers_wrote, if_pos rfl] at split
        obtain ⟨_, same⟩ := List.append_inj' split rfl
        cases List.singleton_inj.mp same
        exact ⟨value, List.mem_append_right _ (List.mem_singleton.mpr rfl),
          (fold _).mpr (if_pos rfl)⟩
      · refine earlier ?_ (if_neg here)
        have nothing := writers_wrote location l [] p value
        rw [if_neg here] at nothing
        exact nothing

/-- As long as no write takes effect at a key or field while the entry of another write to it is
still to come, its entries follow its writes. Once every write has its entry, the last entry is
that of the value in Redis. -/
theorem entries_follow_writes
    (reached : Machine.Reach (kvMachine traits store) (exclusive traits store location)
      (.initial ⟨keys, []⟩) c) :
    (c.world.keys.streams (streamOf traits store location.redisKey)).entries =
        (keys.streams (streamOf traits store location.redisKey)).entries ++
          entriesOf (streamOf traits store location.redisKey) c.world.log ∧
      (pushers traits store location c.world.log).Sublist (writers location c.world.log) ∧
      ((∀ q ∈ writers location c.world.log, q ∈ pushers traits store location c.world.log) →
        pushers traits store location c.world.log = writers location c.world.log ∧
        ∀ q, (pushers traits store location c.world.log).getLast? = some q →
          .expired location.redisKey ∉ c.world.log →
          ∃ value, .wrote q location value ∈ c.world.log ∧
            c.world.keys.read location = some value) := by
  have inStep := reach_inStep reached
  have recorded := reach_recorded reached
  refine ⟨recorded.stream _, inStep.order, ?_⟩
  intro all
  have same : pushers traits store location c.world.log = writers location c.world.log := by
    have covered := (inStep.nodup.subperm all).length_le
    exact inStep.order.eq_of_length_le covered
  refine ⟨same, ?_⟩
  intro q last unexpired
  rw [same] at last
  obtain ⟨before, split⟩ := List.getLast?_eq_some_iff.mp last
  rw [recorded.value location]
  exact valueAfter_last unexpired split

/-- Two clients write one field; the entry of the first comes after that of the second. -/
theorem entries_reversed :
    ∃ c : KvConfig String String String,
      Machine.Reach (kvMachine textTraits textStore) Machine.anyStep (.initial .empty) c ∧
      writers (.inHash "k" "f") c.world.log = [0, 1] ∧
      pushers textTraits textStore (.inHash "k" "f") c.world.log = [1, 0] ∧
      .wrote 0 (.inHash "k" "f") "1" ∈ c.world.log ∧
      c.world.keys.read (.inHash "k" "f") = some "2" := by
  have ran : (kvMachine textTraits textStore).run (.initial .empty)
      [.spawn 0 ⟨.hset "f" "1" "sql1", "k"⟩, .spawn 1 ⟨.hset "f" "2" "sql2", "k"⟩,
        .step 0 {}, .step 1 {}, .step 0 {}, .step 1 {}, .step 1 {}, .step 1 {}, .step 1 {},
        .step 0 {}, .step 0 {}, .step 0 {}] = some _ := rfl
  exact ⟨_, Machine.reach_of_run ran, rfl, by decide, by decide, rfl⟩

def excludes (traits : Traits S T σ) (store : KvRouterStore) (location : Location)
    (c : KvConfig S T σ) : Action Choice String (Call S σ) → Bool
  | .step client o =>
    match c.procs client with
    | .live _ (.await cmd _) =>
      writers location (exec traits.globMatches client cmd o c.world).2.log =
          writers location c.world.log ||
        (writers location c.world.log).all
          (pushers traits store location c.world.log).contains
    | _ => true
  | _ => true

theorem exclusive_of_excludes {act : Action Choice String (Call S σ)}
    (checked : excludes traits store location c act = true) :
    exclusive traits store location c act := by
  cases act with
  | step client o =>
    intro call cmd k value live log other _ pending
    obtain ⟨_, wrote, unpushed⟩ := pending
    simp only [excludes, live, log, writers_wrote, if_true, Bool.or_eq_true, decide_eq_true_eq,
      List.append_right_eq_self, List.cons_ne_nil, false_or, List.all_eq_true] at checked
    exact unpushed (List.contains_iff_mem.mp (checked other wrote))
  | spawn | crash | env => trivial

/-- Two clients write a field one after the other, while two others write a second field at
once: the entries of the first field are in order, those of the second are reversed. -/
theorem entries_follow_writes_elsewhere :
    ∃ c : KvConfig String String String,
      pushers textTraits textStore (.inHash "k" "f") c.world.log = [0, 1] ∧
      pushers textTraits textStore (.inHash "k" "f") c.world.log =
        writers (.inHash "k" "f") c.world.log ∧
      writers (.inHash "k" "g") c.world.log = [2, 3] ∧
      pushers textTraits textStore (.inHash "k" "g") c.world.log = [3, 2] ∧
      ∃ value, .wrote 1 (.inHash "k" "f") value ∈ c.world.log ∧
        c.world.keys.read (.inHash "k" "f") = some value := by
  let actions : List (Action Choice String (Call String String)) :=
    [.spawn 0 ⟨.hset "f" "1" "sql1", "k"⟩, .spawn 1 ⟨.hset "f" "2" "sql2", "k"⟩,
      .spawn 2 ⟨.hset "g" "1" "sql3", "k"⟩, .spawn 3 ⟨.hset "g" "2" "sql4", "k"⟩,
      .step 2 {}, .step 3 {}, .step 0 {}, .step 2 {}, .step 0 {}, .step 3 {}, .step 0 {},
      .step 0 {}, .step 0 {}, .step 1 {}, .step 1 {}, .step 3 {}, .step 3 {}, .step 1 {},
      .step 3 {}, .step 1 {}, .step 2 {}, .step 2 {}, .step 2 {}, .step 1 {}]
  have ran : (kvMachine textTraits textStore).run (.initial .empty) actions = some _ := rfl
  have checked : (kvMachine textTraits textStore).checks
      (excludes textTraits textStore (.inHash "k" "f")) (.initial .empty) actions = true := by
    decide
  have reached := (Machine.reach_of_meets (Machine.meets_of_checks checked) ran).mono
    fun _ _ => exclusive_of_excludes
  obtain ⟨_, _, equal⟩ := entries_follow_writes reached
  obtain ⟨same, last⟩ := equal (by decide)
  exact ⟨_, by decide, same, by decide, by decide, last 1 (by decide) (by decide)⟩

end Mercado.Storage
