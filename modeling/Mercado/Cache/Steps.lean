import Mercado.Cache.Functions

/-! What the single steps of the cache functions do to the shared state, given what
their client has seen and done so far. -/
namespace Mercado.Cache
open Async Redis

variable {V : Type}

def Call.readKey : Call V → Option String
  | .getOrPopulateRedis _ key | .getOrPopulateInMemory _ _ key => some key
  | _ => none

def Event.seen : Event → Option Nat
  | .hit version | .fetched version => some version
  | .read text => some text.version
  | _ => none

def Cacheable.takes (type : Cacheable V) (text : Dated String) : Option Nat :=
  (parsed type (some text)).toOption.map Dated.version

def taken (type : Cacheable V) : List Event → Option Nat
  | .read text :: _ => type.takes text
  | .fetched version :: _ => some version
  | .set :: rest => taken type rest
  | _ => none

theorem taken_seen {type : Cacheable V} {trace : List Event} {v : Nat}
    (took : taken type trace = some v) : ∃ ev ∈ trace, ev.seen = some v := by
  induction trace with
  | nil => cases took
  | cons ev rest ih =>
    cases ev with
    | read text =>
      refine ⟨_, List.mem_cons_self, ?_⟩
      simp only [taken, Cacheable.takes, parsed] at took
      split at took
      · cases took
      · split at took <;> cases took
        rfl
    | fetched version => exact ⟨_, List.mem_cons_self, took⟩
    | set =>
      obtain ⟨ev, mem, seen⟩ := ih took
      exact ⟨ev, List.mem_cons_of_mem _ mem, seen⟩
    | hit | updated | invalidated | deleted | published | received => cases took

/- What holds of every step. -/

def Stamped (w : World V) : Prop :=
  ∀ process, ∀ message ∈ w.inbox process, ∀ key, message.versions key ≤ w.versions key

theorem through_keeps {ε α : Type} {P : World V → Prop} {w : World V} (d : Delivery) (err : ε)
    (x : α × World V) (same : P w) (effect : P x.2) : P (d.through err w x).2 := by
  cases d with
  | answered | unanswered => exact effect
  | lost => exact same

theorem note_other {client r : Nat} (differ : r ≠ client) (w : World V) (ev : Event) :
    (w.note client ev).trace r = w.trace r :=
  Function.update_of_ne differ ..

theorem noteFound_other {α : Type} {client r : Nat} (differ : r ≠ client) (w : World V)
    (ev : α → Event) (x : Option α) : (w.noteFound client ev x).trace r = w.trace r := by
  cases x with
  | none => rfl
  | some x => exact note_other differ w _

theorem exec_other {client r : Nat} (differ : r ≠ client) (c : Command V) (o : Choice)
    (w : World V) : (exec client c o w).2.trace r = w.trace r := by
  cases c with
  | isRedisAvailable | insertInMemory => rfl
  | getInMemory => exact noteFound_other differ ..
  | invalidate => exact note_other differ ..
  | get =>
    exact through_keeps (P := fun u => u.trace r = w.trace r) _ _ _ rfl
      (noteFound_other differ ..)
  | set | del | fetch | update | publish =>
    exact through_keeps (P := fun u => u.trace r = w.trace r) _ _ _ rfl (note_other differ ..)
  | recv process =>
    simp only [exec]
    split
    · rfl
    · split
      · rfl
      · exact note_other differ ..

theorem setRow_versions (w : World V) (key : String) (value : V) (k : String) :
    w.versions k ≤ (w.setRow key value).versions k := by
  unfold World.setRow World.newRow
  by_cases same : k = key
  · subst same
    simp [World.versions]
  · simp [World.versions, Function.update_of_ne same]

theorem noteFound_rows {α : Type} (client : Nat) (w : World V) (ev : α → Event) (x : Option α) :
    (w.noteFound client ev x).rows = w.rows ∧ (w.noteFound client ev x).inbox = w.inbox := by
  cases x with
  | none | some => exact ⟨rfl, rfl⟩

theorem exec_versions (client : Nat) (c : Command V) (o : Choice) (w : World V) (k : String) :
    w.versions k ≤ (exec client c o w).2.versions k := by
  have same : ∀ u : World V, u.rows = w.rows → w.versions k ≤ u.versions k := by
    intro u rows
    simp [World.versions, rows]
  cases c with
  | isRedisAvailable | insertInMemory | invalidate => exact Nat.le_refl _
  | getInMemory => exact same _ (noteFound_rows ..).1
  | get =>
    exact through_keeps (P := fun u => w.versions k ≤ u.versions k) _ _ _ (Nat.le_refl _)
      (same _ (noteFound_rows ..).1)
  | update key value =>
    exact through_keeps (P := fun u => w.versions k ≤ u.versions k) _ _ _ (Nat.le_refl _)
      (setRow_versions w key value k)
  | set | del | fetch | publish =>
    exact through_keeps (P := fun u => w.versions k ≤ u.versions k) _ _ _ (Nat.le_refl _)
      (Nat.le_refl _)
  | recv process =>
    simp only [exec]
    split
    · exact Nat.le_refl _
    · split <;> exact Nat.le_refl _

theorem Stamped.of_inbox {w u : World V} (stamped : Stamped w) (inbox : u.inbox = w.inbox)
    (versions : ∀ key, w.versions key ≤ u.versions key) : Stamped u := by
  intro process message mem key
  rw [inbox] at mem
  exact Nat.le_trans (stamped process message mem key) (versions key)

theorem Stamped.send {w : World V} (stamped : Stamped w) (value : RedisValue)
    (subscribers : List Nat) : Stamped (w.send value subscribers) := by
  intro process message mem key
  simp only [World.send] at mem
  split at mem
  · rcases List.mem_append.mp mem with mem | mem
    · exact stamped process message mem key
    · rw [List.mem_singleton.mp mem]
      exact Nat.le_refl _
  · exact stamped process message mem key

theorem Stamped.dequeue {w : World V} (stamped : Stamped w) (process : Nat) :
    Stamped (w.dequeue process) := by
  intro p message mem key
  simp only [World.dequeue] at mem
  by_cases same : p = process
  · subst same
    rw [Function.update_self] at mem
    exact stamped p message (List.mem_of_mem_tail mem) key
  · rw [Function.update_of_ne same] at mem
    exact stamped p message mem key

theorem Stamped.exec {w : World V} (stamped : Stamped w) (client : Nat) (c : Command V)
    (o : Choice) : Stamped (exec client c o w).2 := by
  have grown : ∀ key, w.versions key ≤ (Cache.exec client c o w).2.versions key :=
    exec_versions client c o w
  have kept : (Cache.exec client c o w).2.inbox = w.inbox → Stamped (Cache.exec client c o w).2 :=
    fun inbox => stamped.of_inbox inbox grown
  cases c with
  | isRedisAvailable | insertInMemory | invalidate => exact kept rfl
  | getInMemory => exact kept (noteFound_rows ..).2
  | get =>
    exact kept (through_keeps (P := fun u => u.inbox = w.inbox) _ _ _ rfl (noteFound_rows ..).2)
  | set | del | fetch | update =>
    exact kept (through_keeps (P := fun u => u.inbox = w.inbox) _ _ _ rfl rfl)
  | publish value => exact through_keeps _ _ _ stamped (stamped.send value o.subscribers)
  | recv process =>
    simp only [Cache.exec]
    split
    · exact stamped
    · split
      · exact stamped
      · exact stamped.dequeue process

theorem Stamped.change {w : World V} (stamped : Stamped w) (e : Env V) : Stamped (change e w) := by
  cases e with
  | evicted | expired => exact stamped
  | stored key value => exact stamped.of_inbox rfl (setRow_versions w key value)
  | sent value subscribers => exact stamped.send value subscribers

theorem change_versions (e : Env V) (w : World V) (k : String) :
    w.versions k ≤ (change e w).versions k := by
  cases e with
  | evicted | expired | sent => exact Nat.le_refl _
  | stored key value => exact setRow_versions w key value k

/- What a client does, in terms of what it has seen. -/

inductive Sees (call : Call V) (w w' : World V) : Event → Prop where
  | hit (type : Cacheable V) (place : Place) (key : String) (value : Dated V) :
      call = .getOrPopulateInMemory type place key → w.memory (place, key) = some value →
      Sees call w w' (.hit value.version)
  | read (key : String) (text : Dated String) : call.readKey = some key →
      w.redis key = some text → Sees call w w' (.read text)
  | fetched (key : String) : call.readKey = some key → Sees call w w' (.fetched (w.versions key))
  | updated (key : String) : Sees call w w' (.updated key (w'.versions key))
  | published (message : Message) : Sees call w w' (.published message)
  | received (message : Message) : (∀ key, message.versions key ≤ w'.versions key) →
      Sees call w w' (.received message)

inductive Makes (client : Nat) (call : Call V) (w w' : World V) : Prop where
  | quiet : w'.redis = w.redis → w'.memory = w.memory → w'.trace client = w.trace client →
      Makes client call w w'
  | sees (ev : Event) : w'.redis = w.redis → w'.memory = w.memory →
      w'.trace client = ev :: w.trace client → Sees call w w' ev → Makes client call w w'
  | sets (key : String) (text : Dated String) (rest : List Event) : call.readKey = some key →
      w.trace client = .fetched text.version :: rest →
      w'.redis = Function.update w.redis key (some text) → w'.memory = w.memory →
      w'.trace client = .set :: w.trace client → Makes client call w w'
  | inserts (type : Cacheable V) (place : Place) (key : String) (value : Dated V) :
      call = .getOrPopulateInMemory type place key →
      taken type (w.trace client) = some value.version → w'.redis = w.redis →
      w'.memory = Function.update w.memory (place, key) (some value) →
      w'.trace client = w.trace client → Makes client call w w'
  | invalidates (place : Place) (key : String) : w'.redis = w.redis →
      w'.memory = Function.update w.memory (place, key) none →
      w'.trace client = .invalidated place key :: w.trace client → Makes client call w w'
  | deletes (key : String) : w'.redis = Function.update w.redis key none →
      w'.memory = w.memory → w'.trace client = .deleted key :: w.trace client →
      Makes client call w w'

structure Moves (client : Nat) (call : Call V) (w w' : World V) : Prop where
  others : ∀ r, r ≠ client → w'.trace r = w.trace r
  versions : ∀ key, w.versions key ≤ w'.versions key
  makes : Makes client call w w'

def clientSetting (client : Nat) (call : Call V) :
    Setting (Command V) (Reply V) (World V) Choice where
  exec := exec client
  inv := Stamped
  rely := fun w w' => w'.trace client = w.trace client ∧ ∀ key, w.versions key ≤ w'.versions key
  guar := fun _ => Moves client call
  allow := fun _ _ _ => True

abbrev Own (client : Nat) (trace : List Event) (w : World V) : Prop := w.trace client = trace

variable {client : Nat} {a : Call V} {trace : List Event} {w : World V}

theorem own_stable : (clientSetting client a).Stable (Own client trace) :=
  fun _ _ moved _ own => moved.1.trans own

theorem step_of {c : Command V} {I : World V → Prop} {Q : Reply V c → World V → Prop}
    (step : ∀ w o, Stamped w → I w → Makes client a w (exec client c o w).2 ∧
      Q (exec client c o w).1 (exec client c o w).2) :
    (clientSetting client a).Step I c Q := by
  intro w o stamped _ holds
  obtain ⟨makes, after⟩ := step w o stamped holds
  exact ⟨⟨fun r differ => exec_other differ c o w, exec_versions client c o w, makes⟩,
    stamped.exec client c o, after⟩

theorem makes_through {ε α : Type} (d : Delivery) (err : ε) {x : α × World V}
    (makes : Makes client a w x.2) : Makes client a w (d.through err w x).2 :=
  through_keeps d err x (.quiet rfl rfl rfl) makes

theorem through_answered {ε α : Type} {d : Delivery} {err : ε} {x : α × World V}
    {Q : α → World V → Prop} (effect : Q x.1 x.2) :
    ∀ r, (d.through err w x).1 = .ok r → Q r (d.through err w x).2 := by
  intro r ok
  obtain ⟨rfl, state⟩ := Delivery.through_ok ok
  exact state ▸ effect

theorem note_own (w : World V) (ev : Event) : (w.note client ev).trace client = ev :: w.trace client :=
  Function.update_self ..

theorem own_note {u : World V} (own : Own client trace w) (ev : Event)
    (same : u.trace client = w.trace client) : Own client (ev :: trace) (u.note client ev) :=
  (note_own u ev).trans (by rw [same, own])

theorem isRedisAvailable_step {I : World V → Prop} :
    (clientSetting client a).Step I .isRedisAvailable fun _ => I :=
  step_of fun _ _ _ holds => ⟨.quiet rfl rfl rfl, holds⟩

theorem getInMemory_step {type : Cacheable V} {place : Place} {key : String}
    (reads : a = .getOrPopulateInMemory type place key) :
    (clientSetting client a).Step (Own client trace) (.getInMemory place key) fun r w =>
      ∀ value, r = some value → Own client (.hit value.version :: trace) w := by
  refine step_of fun w o _ own => ?_
  cases found : w.memory (place, key) with
  | none =>
    simp only [exec, found]
    exact ⟨.quiet rfl rfl rfl, nofun⟩
  | some value =>
    simp only [exec, found]
    refine ⟨.sees _ rfl rfl (note_own w _) (.hit type place key value reads found), ?_⟩
    intro value' same
    cases same
    exact own_note own _ rfl

theorem get_step {key : String} (reads : a.readKey = some key) :
    (clientSetting client a).Step (Own client trace) (.get key) fun r w =>
      ∀ text, r = .ok (some text) → Own client (.read text :: trace) w := by
  refine step_of fun w o _ own => ?_
  cases found : w.redis key with
  | none =>
    simp only [exec, found]
    refine ⟨makes_through _ _ (.quiet rfl rfl rfl), ?_⟩
    exact fun text ok => through_answered (Q := fun r _ => r = some text → _) nofun _ ok rfl
  | some text =>
    simp only [exec, found]
    refine ⟨makes_through _ _ (.sees _ rfl rfl (note_own w _) (.read key text reads found)), ?_⟩
    intro text' ok
    refine through_answered (Q := fun r u => r = some text' → Own client (.read text' :: trace) u)
      (fun same => ?_) _ ok rfl
    cases same
    exact own_note own _ rfl

theorem fetch_step {key : String} (reads : a.readKey = some key) :
    (clientSetting client a).Step (Own client trace) (.fetch key) fun r w =>
      ∀ row, r = .ok row → Own client (.fetched row.version :: trace) w := by
  refine step_of fun w o _ own => ⟨makes_through _ _ ?_, through_answered ?_⟩
  · exact .sees _ rfl rfl (note_own w _) (.fetched key reads)
  · exact own_note own _ rfl

theorem set_step {key : String} (text : Dated String) {rest : List Event}
    (reads : a.readKey = some key) :
    (clientSetting client a).Step (Own client (.fetched text.version :: rest)) (.set key text)
      fun r w => r = .ok () → Own client (.set :: .fetched text.version :: rest) w := by
  refine step_of fun w o _ own => ⟨makes_through _ _ ?_, through_answered
    (Q := fun _ u => Own client (.set :: .fetched text.version :: rest) u) ?_ ()⟩
  · exact .sets key text rest reads own rfl rfl (note_own _ _)
  · exact own_note own _ rfl

theorem insertInMemory_step {type : Cacheable V} {place : Place} {key : String}
    {value : Dated V} (reads : a = .getOrPopulateInMemory type place key)
    (took : taken type trace = some value.version) :
    (clientSetting client a).Step (Own client trace) (.insertInMemory place key value)
      fun _ => Own client trace := by
  refine step_of fun w o _ own => ⟨?_, own⟩
  exact .inserts type place key value reads (by rw [own]; exact took) rfl rfl rfl

theorem sees_updated {w w' : World V} {key : String} {v : Nat} (version : w'.versions key = v) :
    Sees a w w' (.updated key v) :=
  version ▸ .updated key

theorem update_step {key : String} {value : V} :
    (clientSetting client a).Step (Own client trace) (.update key value) fun r w =>
      ∀ row, r = .ok row → Own client (.updated key row.version :: trace) w ∧
        row.version ≤ w.versions key := by
  refine step_of fun w o _ own => ⟨makes_through _ _ ?_, through_answered
    (Q := fun (row : Dated V) u => Own client (.updated key row.version :: trace) u ∧
      row.version ≤ u.versions key) ⟨?_, ?_⟩⟩
  · have version : ((w.setRow key value).note client
        (.updated key (w.newRow key value).version)).versions key =
          (w.newRow key value).version := by
      simp [World.versions, World.note, World.setRow]
    exact .sees _ rfl rfl (note_own _ _) (sees_updated version)
  · exact own_note own _ rfl
  · simp [World.versions, World.note, World.setRow]

theorem invalidate_step {place : Place} {key : String} :
    (clientSetting client a).Step (Own client trace) (.invalidate place key) fun _ =>
      Own client (.invalidated place key :: trace) := by
  refine step_of fun w o _ own => ⟨?_, own_note own _ rfl⟩
  exact .invalidates place key rfl rfl (note_own _ _)

theorem del_step {key : String} :
    (clientSetting client a).Step (Own client trace) (.del key) fun r w =>
      ∀ n, r = .ok n → Own client (.deleted key :: trace) w := by
  refine step_of fun w o _ own => ⟨makes_through _ _ ?_, through_answered ?_⟩
  · exact .deletes key rfl rfl (note_own _ _)
  · exact own_note own _ rfl

theorem publish_step {value : RedisValue} {key : String} {version : Nat} :
    (clientSetting client a).Step
      (fun w => Own client trace w ∧ version ≤ w.versions key) (.publish value) fun r w =>
      ∀ n, r = .ok n → ∃ message : Message, Own client (.published message :: trace) w ∧
        message.value = value ∧ version ≤ message.versions key := by
  refine step_of fun w o _ holds => ⟨makes_through _ _ ?_, through_answered
    (Q := fun _ u => ∃ message : Message, Own client (.published message :: trace) u ∧
      message.value = value ∧ version ≤ message.versions key) ?_⟩
  · exact .sees _ rfl rfl (note_own _ _) (.published _)
  · exact ⟨_, own_note holds.1 _ rfl, rfl, holds.2⟩

theorem recv_step {process : Nat} :
    (clientSetting client a).Step (fun _ => True) (.recv process) fun _ _ => True := by
  refine step_of fun w o stamped _ => ⟨?_, trivial⟩
  simp only [exec]
  split
  · exact .quiet rfl rfl rfl
  · rename_i message _ queued
    split
    · exact .quiet rfl rfl rfl
    · refine .sees _ rfl rfl (note_own _ _) (.received _ fun key => ?_)
      exact stamped process message (by rw [queued]; exact List.mem_cons_self) key

/- The functions. -/

theorem redisConn_holds {I : World V → Prop} (stable : (clientSetting client a).Stable I)
    (holds : I w) : (clientSetting client a).Holds (fun _ => I) redisConn.run w := by
  refine .bindExcept (.lift ((Setting.Holds.call stable isRedisAvailable_step holds).mono ?_))
  intro available w holds
  cases available <;> exact holds

theorem available_holds {I : World V → Prop} (stable : (clientSetting client a).Stable I)
    (holds : I w) : (clientSetting client a).Holds (fun _ => I)
      (Task.changeContext (StorageError.redisError .redisConnectionError) redisConn.run).run w :=
  .changeContext (redisConn_holds stable holds)

abbrev Carries (client : Nat) (type : Cacheable V) {ε : Type} (r : Except ε (Dated V))
    (w : World V) : Prop :=
  ∀ val, r = .ok val → taken type (w.trace client) = some val.version

theorem getAndDeserializeCached_holds (type : Cacheable V) {key : String}
    (reads : a.readKey = some key) :
    (clientSetting client a).Holds (Carries client type)
      (getAndDeserializeCached type key).run w := by
  refine .bindExcept (.changeContext
    ((Setting.Holds.call own_stable (get_step reads) (rfl : Own client _ w)).mono ?_))
  intro r w own
  cases r with
  | error e => exact nofun
  | ok text =>
    intro val parses
    cases text with
    | none => cases parses
    | some text =>
      have read := own text rfl
      have parses : parsed type (some text) = .ok val := parses
      rw [read]
      simp only [taken, Cacheable.takes, parses]
      rfl

theorem getDataSetRedis_holds (type : Cacheable V) {key : String} (reads : a.readKey = some key) :
    (clientSetting client a).Holds (Carries client type) (getDataSetRedis type key).run w := by
  refine .bindExcept
    ((Setting.Holds.call own_stable (fetch_step reads) (rfl : Own client _ w)).mono ?_)
  intro r w own
  cases r with
  | error e => exact nofun
  | ok row =>
    have fetched := own row rfl
    have stored : (clientSetting client a).Holds
        (fun r u => r = .ok () → taken type (u.trace client) = some row.version)
        (Task.changeContext StorageError.kvError (serializeAndSetKey type key row).run).run w := by
      refine .changeContext ?_
      unfold serializeAndSetKey
      cases type.encodeToVec row.value with
      | error e => exact nofun
      | ok text =>
        refine .changeContext
          ((Setting.Holds.call own_stable (set_step ⟨text, row.version⟩ reads) fetched).mono ?_)
        intro r u own ok
        cases r with
        | error e => cases ok
        | ok => rw [own rfl]; rfl
    refine .bindExcept (stored.mono ?_)
    intro r u took
    cases r with
    | error e => exact nofun
    | ok =>
      intro val same
      cases same
      exact took rfl

theorem getOrPopulateRedis_holds (type : Cacheable V) {key : String}
    (reads : a.readKey = some key) :
    (clientSetting client a).Holds (Carries client type) (getOrPopulateRedis type key).run w := by
  refine .bindExcept ((available_holds (I := fun _ => True) (fun _ _ _ _ _ => trivial)
    trivial).mono ?_)
  intro r w _
  cases r with
  | error e => exact nofun
  | ok =>
    refine .bindExcept (.lift ((getAndDeserializeCached_holds type reads).mono ?_))
    intro r w took
    have fetches : (clientSetting client a).Holds (Carries client type)
        (getDataSetRedis type key).run w := getDataSetRedis_holds type reads
    cases r with
    | ok val =>
      intro val' same
      cases same
      exact took val rfl
    | error e =>
      cases e with
      | notFound | jsonDeserializationFailed => exact fetches
      | _ => exact nofun

abbrev Saw (client : Nat) (val : Dated V) (w : World V) : Prop :=
  ∃ ev ∈ w.trace client, ev.seen = some val.version

theorem getOrPopulateInMemory_holds {type : Cacheable V} {place : Place} {key : String}
    (reads : a = .getOrPopulateInMemory type place key) :
    (clientSetting client a).Holds (fun r w => ∀ val, r = .ok val → Saw client val w)
      (getOrPopulateInMemory type place key).run w := by
  have readKey : a.readKey = some key := by rw [reads]; rfl
  refine .bindExcept (.lift (.bind
    ((Setting.Holds.call own_stable (getInMemory_step reads) (rfl : Own client _ w)).mono ?_)))
  intro found w own
  have populates : (clientSetting client a).Holds (fun r w => ∀ val, r = .ok val → Saw client val w)
      (do
        let val ← getOrPopulateRedis type key
        ExceptT.lift (call (.insertInMemory place key val))
        return val : ExceptT StorageError (CacheTask V) (Dated V)).run w := by
    refine .bindExcept ((getOrPopulateRedis_holds type readKey).mono ?_)
    intro r w took
    cases r with
    | error e => exact nofun
    | ok val =>
      refine .bindExcept (.lift ((Setting.Holds.call own_stable
        (insertInMemory_step reads (took val rfl)) (rfl : Own client _ w)).mono ?_))
      intro _ u own val' same
      cases same
      unfold Saw
      rw [own]
      exact taken_seen (took val rfl)
  cases found with
  | none => exact populates
  | some val =>
    by_cases typed : type.downcastRef val.value = true
    · have kept : (some val).filter (fun val => type.downcastRef val.value) = some val := by
        simp [Option.filter, typed]
      rw [kept]
      intro val' same
      cases same
      exact ⟨_, by rw [own val rfl]; exact List.mem_cons_self, rfl⟩
    · have dropped : (some val).filter (fun val => type.downcastRef val.value) = none := by
        simp [Option.filter, typed]
      rw [dropped]
      exact populates

theorem deleteKey_holds {key : String} (own : Own client trace w) :
    (clientSetting client a).Holds
      (fun r w => ∀ reply, r = .ok reply → Own client (.deleted key :: trace) w)
      (deleteKey key).run w := by
  refine .changeContext (.bind ((Setting.Holds.call own_stable del_step own).mono ?_))
  intro r w own
  cases r with
  | error e => exact nofun
  | ok n => exact fun _ _ => own n rfl

def invalidations (process : Nat) (key : String) (inMemory : Option CacheName) : List Event :=
  inMemory.toList.map fun cache => .invalidated ⟨process, cache⟩ key

theorem redactCache_holds {process : Nat} {key : String} {value : V}
    {inMemory : Option CacheName} (own : Own client [] w) :
    (clientSetting client a).Holds (fun r w => ∀ data, r = .ok data → Own client
        (.deleted key :: (invalidations process key inMemory ++ [.updated key data.version])) w)
      (redactCache process key value inMemory).run w := by
  refine .bindExcept ((Setting.Holds.call own_stable update_step own).mono ?_)
  intro r w own
  cases r with
  | error e => exact nofun
  | ok data =>
    have updated := (own data rfl).1
    have emptied : (clientSetting client a).Holds
        (fun _ => Own client (invalidations process key inMemory ++ [.updated key data.version]))
        (invalidateIn process key inMemory) w := by
      cases inMemory with
      | none => exact updated
      | some cache => exact Setting.Holds.call own_stable invalidate_step updated
    refine .bindExcept (.lift (emptied.mono ?_))
    intro _ w own
    refine .bindExcept ((available_holds own_stable own).mono ?_)
    intro r w own
    cases r with
    | error e => exact nofun
    | ok =>
      refine .bindExcept (.changeContext ((deleteKey_holds own).mono ?_))
      intro r w own
      cases r with
      | error e => exact nofun
      | ok reply =>
        intro data' same
        cases same
        exact own reply rfl

theorem publishAndRedact_holds {kind : CacheKind} {value : V} (own : Own client [] w) :
    (clientSetting client a).Holds (fun r w => ∀ data, r = .ok data → ∃ message : Message,
        Own client [.published message, .updated kind.key data.version] w ∧
        message.value = kind.toRedisValue ∧ data.version ≤ message.versions kind.key)
      (publishAndRedact kind value).run w := by
  refine .bindExcept ((Setting.Holds.call own_stable update_step own).mono ?_)
  intro r w own
  cases r with
  | error e => exact nofun
  | ok data =>
    have updated := own data rfl
    have stable : (clientSetting client a).Stable fun w =>
        Own client [.updated kind.key data.version] w ∧ data.version ≤ w.versions kind.key :=
      fun _ _ moved _ holds =>
        ⟨moved.1.trans holds.1, Nat.le_trans holds.2 (moved.2 kind.key)⟩
    have published : (clientSetting client a).Holds (fun r w => ∀ n, r = .ok n →
        ∃ message : Message, Own client [.published message, .updated kind.key data.version] w ∧
          message.value = kind.toRedisValue ∧ data.version ≤ message.versions kind.key)
        (publishIntoRedactChannel kind).run w := by
      refine .bindExcept ((available_holds stable updated).mono ?_)
      intro r w holds
      cases r with
      | error e => exact nofun
      | ok =>
        refine .changeContext ((Setting.Holds.call stable publish_step holds).mono ?_)
        intro r w sent n ok
        cases r with
        | error e => cases ok
        | ok n' => exact sent n' rfl
    refine .bindExcept (published.mono ?_)
    intro r w sent
    cases r with
    | error e => exact nofun
    | ok n =>
      intro data' same
      cases same
      exact sent n rfl

theorem anything_stable : (clientSetting client a).Stable fun _ => True :=
  fun _ _ _ _ _ => trivial

theorem onMessage_holds {process messages : Nat} :
    (clientSetting client a).Holds (fun _ _ => True) (onMessage process messages).run w := by
  induction messages generalizing w with
  | zero => trivial
  | succ messages ih =>
    refine .bindExcept (.lift ((Setting.Holds.call anything_stable recv_step trivial).mono ?_))
    intro message w _
    cases message with
    | none => trivial
    | some message =>
      have emptied : ∀ place key w, (clientSetting client a).Holds (fun _ _ => True)
          (call (.invalidate place key)) w := by
        intro place key w
        exact (Setting.Holds.call own_stable invalidate_step (rfl : Own client _ w)).mono
          fun _ _ _ => trivial
      have deletes : ∀ key w, (clientSetting client a).Holds (fun _ _ => True)
          (do
            let _ ← ExceptT.lift (deleteKey key).run
            onMessage process messages : ExceptT RedisError (CacheTask V) Unit).run w := by
        intro key w
        refine .bindExcept (.lift ((deleteKey_holds (rfl : Own client _ w)).mono ?_))
        exact fun _ _ _ => ih
      cases kind : CacheKind.tryFrom message.value with
      | error e =>
        simp only [kind]
        exact ih
      | ok kind' =>
        simp only [kind]
        cases kind' with
        | config key | accounts key =>
          exact .bindExcept (.bindExcept (.lift ((emptied _ _ w).mono
            fun _ _ _ => deletes key _)))
        | all key =>
          exact .bindExcept (.bindExcept (.lift ((emptied _ _ w).mono fun _ _ _ =>
            .bindExcept (.lift ((emptied _ _ _).mono fun _ _ _ => deletes key _)))))

end Mercado.Cache
