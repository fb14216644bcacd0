import Mercado.Cache.Steps

/-! Reads after an invalidation: what a reader gets once a writer or a subscriber has
emptied the caches of its process and deleted the key in Redis. -/
namespace Mercado.Cache
open Async Redis

variable {V : Type}

abbrev CacheConfig (V : Type) :=
  Config (Command V) (Reply V) (World V) (Call V) (Result V)

/- Invalidations, as the trace of their client shows them, the latest event first. -/

/-- The version that an invalidation of the key is about, and the memories it has
emptied so far. -/
def opened (key : String) : List Event → Option (Nat × List Place)
  | .updated k version :: _ => if k = key then some (version, []) else none
  | .received message :: _ => some (message.versions key, [])
  | .invalidated place k :: rest =>
    (opened key rest).map fun x => (x.1, if k = key then place :: x.2 else x.2)
  | _ => none

/-- The trace that the invalidation under way began with: its update or its message comes first. -/
def origin : List Event → List Event
  | .invalidated _ _ :: rest => origin rest
  | trace => trace

def Call.readsThrough : Call V → String → List Place → Prop
  | .getOrPopulateRedis _ k, key, _ => k = key
  | .getOrPopulateInMemory _ place k, key, places => k = key ∧ place ∈ places
  | _, _, _ => False

/-- The subscriber has emptied the memories the message names and deleted the key, after this
trace, at whose end it received the message. -/
def Handled (process : Nat) (message : Message) (began trace : List Event) : Prop :=
  ∃ kind rest, CacheKind.tryFrom message.value = .ok kind ∧ began = .received message :: rest ∧
    .deleted kind.key :: ((kind.caches.map fun cache =>
      .invalidated ⟨process, cache⟩ kind.key).reverse ++ began) <:+ trace

def fetchedOnly : List Event → Option Nat
  | .fetched version :: _ => some version
  | _ => none

section Runs

variable (c : CacheConfig V)

def Awaits (client : Nat) (a : Call V) : Prop := ∃ cmd k, c.procs client = .live a (.await cmd k)

/-- A read through this memory carries the version and has yet to insert it. -/
def Took (place : Place) (key : String) (reader version : Nat) : Prop :=
  ∃ type, Awaits c reader (.getOrPopulateInMemory type place key) ∧
    taken type (c.world.trace reader) = some version

/-- A read of any process has the version from the database and has yet to set it. -/
def Fetched (key : String) (reader version : Nat) : Prop :=
  ∃ a, Awaits c reader a ∧ a.readKey = some key ∧
    fetchedOnly (c.world.trace reader) = some version

/-- The invalidation has emptied the memory and not yet deleted the key; it is about the version. -/
def Clearing (began : List Event) (place : Place) (key : String) (client version : Nat) : Prop :=
  ∃ a places, Awaits c client a ∧ origin (c.world.trace client) = began ∧
    opened key (c.world.trace client) = some (version, places) ∧ place ∈ places

/-- No read interferes with what the invalidator does about the key in the one invalidation that
began with this trace: when it empties a memory, no read through that carries an older version;
until it deletes the key, none takes one from Redis; when it deletes the key, no read has yet to
set one in Redis. -/
def harmless (invalidator : Nat) (key : String) (began : List Event) (client : Nat)
    (a : Call V) : Event → Prop
  | .invalidated place k => client = invalidator → k = key →
    origin (c.world.trace client) = began → ∀ version places,
    opened key (c.world.trace client) = some (version, places) →
    ∀ reader x, Took c place key reader x → version ≤ x
  | .read text => ∀ type place, a = .getOrPopulateInMemory type place key →
    ∀ x, type.takes text = some x → ∀ version, Clearing c began place key invalidator version →
    version ≤ x
  | .deleted k => client = invalidator → k = key →
    origin (c.world.trace client) = began → ∀ version places,
    opened key (c.world.trace client) = some (version, places) →
    ∀ reader x, Fetched c key reader x → version ≤ x
  | _ => True

def undisturbed (invalidator : Nat) (key : String) (began : List Event) :
    Action Choice (Env V) (Call V) → Prop
  | .step client o => ∀ a cmd k ev, c.procs client = .live a (.await cmd k) →
    (exec client cmd o c.world).2.trace client = ev :: c.world.trace client →
    harmless c invalidator key began client a ev
  | _ => True

end Runs

/- The results of the calls. -/

def returns : Call V → Result V → List Event → Prop
  | .getOrPopulateRedis _ _, .data (.ok val), trace
  | .getOrPopulateInMemory _ _ _, .data (.ok val), trace =>
    ∃ ev ∈ trace, ev.seen = some val.version
  | .redactCache process key _ inMemory, .data (.ok data), trace =>
    trace = .deleted key :: (invalidations process key inMemory ++ [.updated key data.version])
  | .publishAndRedact kind _, .data (.ok data), trace => ∃ message : Message,
      trace = [.published message, .updated kind.key data.version] ∧
      message.value = kind.toRedisValue ∧ data.version ≤ message.versions kind.key
  | _, _, _ => True

theorem program_holds {client : Nat} {a : Call V} {w : World V} (own : Own client [] w) :
    (clientSetting client a).Holds (fun r w => returns a r (w.trace client)) a.program w := by
  cases a with
  | getOrPopulateRedis type key =>
    refine .bind ((getOrPopulateRedis_holds type rfl).mono ?_)
    intro r w took
    cases r with
    | error e => trivial
    | ok val => exact taken_seen (took val rfl)
  | getOrPopulateInMemory type place key =>
    refine .bind ((getOrPopulateInMemory_holds rfl).mono ?_)
    intro r w saw
    cases r with
    | error e => trivial
    | ok val => exact saw val rfl
  | redactCache process key value inMemory =>
    refine .bind ((redactCache_holds own).mono ?_)
    intro r w after
    cases r with
    | error e => trivial
    | ok data => exact after data rfl
  | publishAndRedact kind value =>
    refine .bind ((publishAndRedact_holds own).mono ?_)
    intro r w after
    cases r with
    | error e => trivial
    | ok data => exact after data rfl
  | onMessage process messages => exact .bind (onMessage_holds.mono fun _ _ _ => trivial)

section Discipline

variable {ok : CacheConfig V → Action Choice (Env V) (Call V) → Prop}
  {rows : String → Dated V} {redis : String → Option (Dated String)}
  {memory : Place × String → Option (Dated V)} {c d : CacheConfig V}

theorem idle_trace (reached : Machine.Reach (machine V) ok (.initial (.start rows redis memory)) c)
    (client : Nat) (idle : c.procs client = .idle) : c.world.trace client = [] := by
  refine reached.invariant (I := fun c => c.procs client = .idle → c.world.trace client = [])
    (fun _ => rfl) ?_ idle
  intro c act d _ before _ hs idle
  obtain ⟨other, wasIdle⟩ := Machine.step_idle hs idle
  rcases Machine.step_world hs with same | ⟨q, o, _, cmd, _, rfl, _, world⟩ | ⟨e, rfl, moved⟩
  · rw [same]
    exact before wasIdle
  · have differ : client ≠ q := fun same => other (same ▸ rfl)
    rw [world]
    exact (exec_other differ cmd o c.world).trans (before wasIdle)
  · rw [← Option.some.inj moved]
    cases e <;> exact before wasIdle

def clients (ok : CacheConfig V → Action Choice (Env V) (Call V) → Prop)
    (rows : String → Dated V) (redis : String → Option (Dated String))
    (memory : Place × String → Option (Dated V)) :
    Discipline (machine V) ok (.initial (.start rows redis memory)) where
  inv := Stamped
  rely := fun client w w' =>
    w'.trace client = w.trace client ∧ ∀ key, w.versions key ≤ w'.versions key
  guar := fun client a _ => Moves client a
  allow := fun _ _ _ _ => True
  post := fun client a r w => returns a r (w.trace client)
  rely_refl := fun _ _ => ⟨rfl, fun _ => Nat.le_refl _⟩
  rely_trans := fun _ _ _ _ h g =>
    ⟨g.1.trans h.1, fun key => Nat.le_trans (h.2 key) (g.2 key)⟩
  starts := ⟨nofun, fun _ => rfl⟩
  allowed := fun _ _ => trivial
  spawned := fun reached _ idle _ => program_holds (idle_trace reached _ idle)
  others := fun _ _ _ differ _ moves => ⟨moves.others _ (Ne.symm differ), moves.versions⟩
  env := by
    intro c e t _ _ stamped moved
    cases Option.some.inj moved
    refine ⟨stamped.change e, fun q _ _ _ _ => ⟨?_, change_versions e c.world⟩⟩
    cases e <;> rfl
  kept := by
    intro q b r c act d _ _ hs _ _ live after
    have other := Machine.step_done hs live
    rcases Machine.step_world hs with same | ⟨p, o, _, cmd, _, rfl, _, world⟩ | ⟨e, rfl, moved⟩
    · rw [same]
      exact after
    · have differ : q ≠ p := fun same => other (same ▸ rfl)
      have same := exec_other differ cmd o c.world
      rw [world]
      exact same ▸ after
    · rw [← Option.some.inj moved]
      cases e <;> exact after

/- One step of a run. -/

structure Settles (w w' : World V) : Prop where
  trace : w'.trace = w.trace
  versions : ∀ key, w.versions key ≤ w'.versions key
  redis : ∀ key text, w'.redis key = some text → w.redis key = some text
  memory : ∀ place val, w'.memory place = some val → w.memory place = some val

theorem settles_refl (w : World V) : Settles w w :=
  ⟨rfl, fun _ => Nat.le_refl _, fun _ _ h => h, fun _ _ h => h⟩

theorem update_none_some {α β : Type} [DecidableEq α] {f : α → Option β} {x y : α} {b : β}
    (h : Function.update f x none y = some b) : f y = some b := by
  by_cases same : y = x
  · subst same
    rw [Function.update_self] at h
    cases h
  · rwa [Function.update_of_ne same] at h

theorem change_settles (e : Env V) (w : World V) : Settles w (change e w) := by
  have versions := change_versions e w
  cases e with
  | evicted place key => exact ⟨rfl, versions, fun _ _ h => h, fun _ _ h => update_none_some h⟩
  | expired key => exact ⟨rfl, versions, fun _ _ h => update_none_some h, fun _ _ h => h⟩
  | stored | sent => exact ⟨rfl, versions, fun _ _ h => h, fun _ _ h => h⟩

structure Moved (c : CacheConfig V) (act : Action Choice (Env V) (Call V)) (d : CacheConfig V)
    (client : Nat) (a : Call V) : Prop where
  acts : ∃ o, act = .step client o
  live : Awaits c client a
  moves : Moves client a c.world d.world
  harmless : ∀ invalidator key began, undisturbed c invalidator key began act → ∀ ev,
    d.world.trace client = ev :: c.world.trace client →
    harmless c invalidator key began client a ev

theorem step_cases {act : Action Choice (Env V) (Call V)}
    (reached : Machine.Reach (machine V) ok (.initial (.start rows redis memory)) c)
    (allowed : ok c act) (hs : (machine V).step c act = some d) :
    Settles c.world d.world ∨ ∃ client a, Moved c act d client a := by
  rcases Machine.step_world hs with same | ⟨client, o, _, _, _, rfl, _, _⟩ | ⟨e, _, moved⟩
  · rw [same]
    exact .inl (settles_refl _)
  · have sound := (clients ok rows redis memory).sound reached
    obtain ⟨a, cmd, k, live, world, moves, _⟩ := sound.own_step allowed hs
    refine .inr ⟨client, a, ⟨o, rfl⟩, ⟨cmd, k, live⟩, moves, ?_⟩
    intro invalidator key began met ev trace
    exact met a cmd k ev live (world ▸ trace)
  · rw [← Option.some.inj moved]
    exact .inl (change_settles e _)

theorem awaits_before {act : Action Choice (Env V) (Call V)} {client : Nat} {a : Call V}
    (reached : Machine.Reach (machine V) ok (.initial (.start rows redis memory)) c)
    (allowed : ok c act) (hs : (machine V).step c act = some d) (awaits : Awaits d client a) :
    d.world.trace client = [] ∨
      Awaits c client a ∧ (d.world.trace client = c.world.trace client ∨
        Moved c act d client a) := by
  obtain ⟨cmd, k, live⟩ := awaits
  rcases Machine.step_awaits hs live with ⟨rfl, idle⟩ | ⟨cmd, k, live'⟩
  · obtain ⟨_, rfl⟩ := Machine.step_spawn hs
    exact .inl (idle_trace reached client idle)
  · refine .inr ⟨⟨cmd, k, live'⟩, ?_⟩
    rcases step_cases reached allowed hs with settles | ⟨p, b, moved⟩
    · exact .inl (congrFun settles.trace client)
    · by_cases same : client = p
      · subst same
        obtain ⟨cmd', k', live''⟩ := moved.live
        rw [live'] at live''
        cases live''
        exact .inr moved
      · exact .inl (moved.moves.others client same)

/- Memories and Redis stay as fresh as an invalidation has made them. -/

structure RedisFresh (c : CacheConfig V) (key : String) (v : Nat) : Prop where
  row : v ≤ c.world.versions key
  redis : ∀ text, c.world.redis key = some text → v ≤ text.version
  readers : ∀ reader x, Fetched c key reader x → v ≤ x

structure MemoryFresh (c : CacheConfig V) (place : Place) (key : String) (v : Nat) : Prop where
  memory : ∀ val, c.world.memory (place, key) = some val → v ≤ val.version
  readers : ∀ reader x, Took c place key reader x → v ≤ x

variable {act : Action Choice (Env V) (Call V)} {place : Place} {key : String} {v : Nat}

theorem versions_grow
    (reached : Machine.Reach (machine V) ok (.initial (.start rows redis memory)) c)
    (allowed : ok c act) (hs : (machine V).step c act = some d) (key : String) :
    c.world.versions key ≤ d.world.versions key := by
  rcases step_cases reached allowed hs with settles | ⟨_, _, moved⟩
  · exact settles.versions key
  · exact moved.moves.versions key

theorem fetched_next
    (reached : Machine.Reach (machine V) ok (.initial (.start rows redis memory)) c)
    (allowed : ok c act) (hs : (machine V).step c act = some d)
    (row : v ≤ c.world.versions key) (before : ∀ reader x, Fetched c key reader x → v ≤ x) :
    ∀ reader x, Fetched d key reader x → v ≤ x := by
  rintro reader x ⟨a, awaits, reads, fetched⟩
  rcases awaits_before reached allowed hs awaits with fresh | ⟨awaited, same | moved⟩
  · rw [fresh] at fetched
    cases fetched
  · exact before reader x ⟨a, awaited, reads, same ▸ fetched⟩
  · cases moved.moves.makes with
    | quiet _ _ same | inserts _ _ _ _ _ _ _ _ same =>
      exact before reader x ⟨a, awaited, reads, same ▸ fetched⟩
    | sees ev _ _ trace sees =>
      rw [trace] at fetched
      cases sees with
      | fetched key' reads' =>
        cases Option.some.inj (reads.symm.trans reads')
        cases fetched
        exact row
      | hit | read | updated | published | received => cases fetched
    | sets _ _ _ _ _ _ _ trace | invalidates _ _ _ _ trace | deletes _ _ _ trace =>
      rw [trace] at fetched
      cases fetched

/-- The versions that reads through a memory carry, when none takes an older one from
Redis. -/
theorem took_next
    (reached : Machine.Reach (machine V) ok (.initial (.start rows redis memory)) c)
    (allowed : ok c act) (hs : (machine V).step c act = some d)
    (row : v ≤ c.world.versions key) (before : ∀ reader x, Took c place key reader x → v ≤ x)
    (read : ∀ reader type text x, Moved c act d reader (.getOrPopulateInMemory type place key) →
      d.world.trace reader = .read text :: c.world.trace reader →
      c.world.redis key = some text → type.takes text = some x → v ≤ x) :
    ∀ reader x, Took d place key reader x → v ≤ x := by
  rintro reader x ⟨type, awaits, took⟩
  rcases awaits_before reached allowed hs awaits with fresh | ⟨awaited, same | moved⟩
  · rw [fresh] at took
    cases took
  · exact before reader x ⟨type, awaited, same ▸ took⟩
  · cases moved.moves.makes with
    | quiet _ _ same | inserts _ _ _ _ _ _ _ _ same =>
      exact before reader x ⟨type, awaited, same ▸ took⟩
    | sees ev _ _ trace sees =>
      rw [trace] at took
      cases sees with
      | fetched key' reads =>
        cases reads
        cases took
        exact row
      | read key' text reads found =>
        cases reads
        exact read reader type text x moved trace found took
      | hit | updated | published | received => cases took
    | sets _ _ _ _ _ _ _ trace =>
      rw [trace] at took
      exact before reader x ⟨type, awaited, took⟩
    | invalidates _ _ _ _ trace | deletes _ _ _ trace =>
      rw [trace] at took
      cases took

theorem RedisFresh.next (fresh : RedisFresh c key v)
    (reached : Machine.Reach (machine V) ok (.initial (.start rows redis memory)) c)
    (allowed : ok c act) (hs : (machine V).step c act = some d) : RedisFresh d key v := by
  refine ⟨Nat.le_trans fresh.row (versions_grow reached allowed hs key), ?_,
    fetched_next reached allowed hs fresh.row fresh.readers⟩
  intro text found
  rcases step_cases reached allowed hs with settles | ⟨client, a, moved⟩
  · exact fresh.redis text (settles.redis key text found)
  · cases moved.moves.makes with
    | quiet same | sees _ same | inserts _ _ _ _ _ _ same | invalidates _ _ same =>
      exact fresh.redis text (same ▸ found)
    | deletes key' dropped =>
      rw [dropped] at found
      exact fresh.redis text (update_none_some found)
    | sets key' text' rest reads trace stored =>
      rw [stored] at found
      by_cases here : key = key'
      · subst here
        rw [Function.update_self] at found
        cases found
        refine fresh.readers client text.version ⟨a, moved.live, reads, ?_⟩
        rw [trace]
        rfl
      · rw [Function.update_of_ne here] at found
        exact fresh.redis text found

theorem MemoryFresh.next (fresh : MemoryFresh c place key v) (row : v ≤ c.world.versions key)
    (reached : Machine.Reach (machine V) ok (.initial (.start rows redis memory)) c)
    (allowed : ok c act) (hs : (machine V).step c act = some d)
    (read : ∀ reader type text x, Moved c act d reader (.getOrPopulateInMemory type place key) →
      d.world.trace reader = .read text :: c.world.trace reader →
      c.world.redis key = some text → type.takes text = some x → v ≤ x) :
    MemoryFresh d place key v := by
  refine ⟨?_, took_next reached allowed hs row fresh.readers read⟩
  intro val found
  rcases step_cases reached allowed hs with settles | ⟨client, a, moved⟩
  · exact fresh.memory val (settles.memory _ val found)
  · cases moved.moves.makes with
    | quiet _ same | sees _ _ same | sets _ _ _ _ _ _ same | deletes _ _ same =>
      exact fresh.memory val (same ▸ found)
    | invalidates place' key' _ dropped =>
      rw [dropped] at found
      exact fresh.memory val (update_none_some found)
    | inserts type place' key' val' reads took _ inserted =>
      rw [inserted] at found
      by_cases here : (place, key) = (place', key')
      · cases here
        rw [Function.update_self] at found
        cases found
        exact fresh.readers client _ ⟨type, reads ▸ moved.live, took⟩
      · rw [Function.update_of_ne here] at found
        exact fresh.memory val found

theorem takes_version {type : Cacheable V} {text : Dated String} {x : Nat}
    (takes : type.takes text = some x) : x = text.version := by
  simp only [Cacheable.takes, parsed] at takes
  split at takes
  · cases takes
  · split at takes <;> cases takes
    rfl

/-- What the invalidation has achieved: in a memory as soon as it has emptied it, in
Redis once it has deleted the key. -/
structure Coherent (invalidator : Nat) (key : String) (began : List Event) (c : CacheConfig V) :
    Prop where
  clearing : ∀ a v places, Awaits c invalidator a →
    origin (c.world.trace invalidator) = began →
    opened key (c.world.trace invalidator) = some (v, places) →
    v ≤ c.world.versions key ∧ ∀ place ∈ places, MemoryFresh c place key v
  settled : ∀ v places rest, .deleted key :: rest <:+ c.world.trace invalidator →
    origin rest = began → opened key rest = some (v, places) →
    RedisFresh c key v ∧ ∀ place ∈ places, MemoryFresh c place key v

variable {invalidator : Nat} {began : List Event}

theorem clearing_next (coherent : Coherent invalidator key began c)
    (reached : Machine.Reach (machine V) ok (.initial (.start rows redis memory)) c)
    (allowed : ok c act) (met : undisturbed c invalidator key began act)
    (hs : (machine V).step c act = some d) {a : Call V} {places : List Place}
    (awaited : Awaits c invalidator a) (ours : origin (c.world.trace invalidator) = began)
    (opens : opened key (c.world.trace invalidator) = some (v, places)) :
    v ≤ d.world.versions key ∧ ∀ place ∈ places, MemoryFresh d place key v := by
  obtain ⟨row, emptied⟩ := coherent.clearing a v places awaited ours opens
  refine ⟨Nat.le_trans row (versions_grow reached allowed hs key), fun place mem => ?_⟩
  refine (emptied place mem).next row reached allowed hs ?_
  intro reader type text x moved trace _ takes
  exact moved.harmless _ _ _ met _ trace type place rfl x takes v
    ⟨a, places, awaited, ours, opens, mem⟩

theorem clearing_step (coherent : Coherent invalidator key began c)
    (reached : Machine.Reach (machine V) ok (.initial (.start rows redis memory)) c)
    (allowed : ok c act) (met : undisturbed c invalidator key began act)
    (hs : (machine V).step c act = some d) {a : Call V} {places : List Place}
    (awaits : Awaits d invalidator a) (ours : origin (d.world.trace invalidator) = began)
    (opens : opened key (d.world.trace invalidator) = some (v, places)) :
    v ≤ d.world.versions key ∧ ∀ place ∈ places, MemoryFresh d place key v := by
  have kept := @clearing_next V ok rows redis memory c d act
  rcases awaits_before reached allowed hs awaits with fresh | ⟨awaited, same | moved⟩
  · rw [fresh] at opens
    cases opens
  · exact kept coherent reached allowed met hs awaited (same ▸ ours) (same ▸ opens)
  · cases moved.moves.makes with
    | quiet _ _ same | inserts _ _ _ _ _ _ _ _ same =>
      exact kept coherent reached allowed met hs awaited (same ▸ ours) (same ▸ opens)
    | sees ev _ _ trace sees =>
      rw [trace] at opens
      cases sees with
      | updated key' =>
        simp only [opened] at opens
        split at opens
        · rename_i here
          subst here
          cases opens
          exact ⟨Nat.le_refl _, nofun⟩
        · cases opens
      | received message older =>
        cases opens
        exact ⟨older key, nofun⟩
      | hit | read | fetched | published => cases opens
    | sets _ _ _ _ _ _ _ trace | deletes _ _ _ trace =>
      rw [trace] at opens
      cases opens
    | invalidates place' key' _ dropped trace =>
      rw [trace] at ours opens
      simp only [opened, Option.map_eq_some_iff] at opens
      obtain ⟨⟨v', places'⟩, opens, same⟩ := opens
      cases same
      obtain ⟨row, emptied⟩ := kept coherent reached allowed met hs awaited ours opens
      refine ⟨row, fun place mem => ?_⟩
      by_cases here : key' = key
      · subst here
        rw [if_pos rfl] at mem
        rcases List.mem_cons.mp mem with same | mem
        · subst same
          obtain ⟨before, _⟩ := coherent.clearing a v' places' awaited ours opens
          refine ⟨?_, took_next reached allowed hs before
            (moved.harmless _ _ _ met _ trace rfl rfl ours v' places' opens) ?_⟩
          · intro val found
            rw [dropped, Function.update_self] at found
            cases found
          · intro reader type text x other seen _ _
            obtain ⟨o, acts⟩ := moved.acts
            obtain ⟨o', acts'⟩ := other.acts
            cases acts.symm.trans acts'
            exact nomatch trace.symm.trans seen
        · exact emptied place mem
      · rw [if_neg here] at mem
        exact emptied place mem

theorem settled_next
    (reached : Machine.Reach (machine V) ok (.initial (.start rows redis memory)) c)
    (allowed : ok c act) (hs : (machine V).step c act = some d) {places : List Place}
    (fresh : RedisFresh c key v ∧ ∀ place ∈ places, MemoryFresh c place key v) :
    RedisFresh d key v ∧ ∀ place ∈ places, MemoryFresh d place key v := by
  refine ⟨fresh.1.next reached allowed hs, fun place mem => ?_⟩
  refine (fresh.2 place mem).next fresh.1.row reached allowed hs ?_
  intro reader type text x _ _ found takes
  rw [takes_version takes]
  exact fresh.1.redis text found

theorem settled_step (coherent : Coherent invalidator key began c)
    (reached : Machine.Reach (machine V) ok (.initial (.start rows redis memory)) c)
    (allowed : ok c act) (met : undisturbed c invalidator key began act)
    (hs : (machine V).step c act = some d) {places : List Place} {rest : List Event}
    (deleted : .deleted key :: rest <:+ d.world.trace invalidator) (ours : origin rest = began)
    (opens : opened key rest = some (v, places)) :
    RedisFresh d key v ∧ ∀ place ∈ places, MemoryFresh d place key v := by
  have before : .deleted key :: rest <:+ c.world.trace invalidator →
      RedisFresh d key v ∧ ∀ place ∈ places, MemoryFresh d place key v := fun suffix =>
    settled_next reached allowed hs (coherent.settled v places rest suffix ours opens)
  rcases step_cases reached allowed hs with settles | ⟨p, a, moved⟩
  · rw [settles.trace] at deleted
    exact before deleted
  by_cases own : invalidator = p
  · subst own
    have grown : ∀ ev, d.world.trace invalidator = ev :: c.world.trace invalidator →
        ev ≠ .deleted key → RedisFresh d key v ∧ ∀ place ∈ places, MemoryFresh d place key v := by
      intro ev trace other
      rw [trace] at deleted
      rcases List.suffix_cons_iff.mp deleted with same | suffix
      · exact absurd (List.cons.inj same).1.symm other
      · exact before suffix
    cases moved.moves.makes with
    | quiet _ _ same | inserts _ _ _ _ _ _ _ _ same => exact before (same ▸ deleted)
    | sees ev _ _ trace sees =>
      refine grown ev trace ?_
      cases sees <;> nofun
    | sets _ _ _ _ _ _ _ trace | invalidates _ _ _ _ trace => exact grown _ trace nofun
    | deletes key' dropped memory' trace =>
      rw [trace] at deleted
      rcases List.suffix_cons_iff.mp deleted with same | suffix
      · obtain ⟨here, rfl⟩ := List.cons.inj same
        cases here
        obtain ⟨row, emptied⟩ := clearing_next coherent reached allowed met hs moved.live ours opens
        obtain ⟨old, _⟩ := coherent.clearing a v places moved.live ours opens
        refine ⟨⟨row, ?_, fetched_next reached allowed hs old
          (moved.harmless _ _ _ met _ trace rfl rfl ours v places opens)⟩, emptied⟩
        intro text found
        rw [dropped, Function.update_self] at found
        cases found
      · exact before suffix
  · rw [moved.moves.others invalidator own] at deleted
    exact before deleted

theorem reach_coherent
    (reached : Machine.Reach (machine V) (undisturbed · invalidator key began)
      (.initial (.start rows redis memory)) c) : Coherent invalidator key began c := by
  refine reached.invariant ⟨?_, ?_⟩ ?_
  · rintro a _ _ ⟨_, _, live⟩
    cases live
  · intro v places rest suffix
    exact absurd suffix.length_le (by simp [World.start, Config.initial])
  · intro c act d reached coherent met hs
    exact ⟨fun _ _ _ awaits ours opens => clearing_step coherent reached met met hs awaits ours opens,
      fun _ _ _ suffix ours opens => settled_step coherent reached met met hs suffix ours opens⟩

/- A reader that begins after an invalidation. -/

structure Later (reader : Nat) (key : String) (v : Nat) (places : List Place)
    (c : CacheConfig V) : Prop where
  fresh : RedisFresh c key v ∧ ∀ place ∈ places, MemoryFresh c place key v
  seen : ∀ a t, c.procs reader = .live a t → a.readsThrough key places →
    ∀ ev ∈ c.world.trace reader, ∀ x, ev.seen = some x → v ≤ x

theorem sees_fresh {a : Call V} {places : List Place} {w' : World V} {ev : Event} {x : Nat}
    (fresh : RedisFresh c key v ∧ ∀ place ∈ places, MemoryFresh c place key v)
    (reads : a.readsThrough key places) (sees : Sees a c.world w' ev)
    (seen : ev.seen = some x) : v ≤ x := by
  have readKey : ∀ key', a.readKey = some key' → key' = key := by
    intro key' same
    cases a with
    | getOrPopulateRedis => exact (Option.some.inj same).symm.trans reads
    | getOrPopulateInMemory => exact (Option.some.inj same).symm.trans reads.1
    | redactCache | publishAndRedact | onMessage => cases same
  cases sees with
  | hit type place key' val call found =>
    subst call
    obtain ⟨rfl, mem⟩ := reads
    cases seen
    exact (fresh.2 place mem).memory val found
  | read key' text same found =>
    cases readKey key' same
    cases seen
    exact fresh.1.redis text found
  | fetched key' same =>
    cases readKey key' same
    cases seen
    exact fresh.1.row
  | updated | published | received => cases seen

theorem Later.next {reader : Nat} {places : List Place} (later : Later reader key v places c)
    (reached : Machine.Reach (machine V) ok (.initial (.start rows redis memory)) c)
    (allowed : ok c act) (hs : (machine V).step c act = some d) :
    Later reader key v places d := by
  refine ⟨settled_next reached allowed hs later.fresh, ?_⟩
  intro a t live reads ev mem x seen
  rcases Machine.step_live hs live with ⟨idle, rfl⟩ | ⟨u, live'⟩
  · obtain ⟨_, rfl⟩ := Machine.step_spawn hs
    rw [Config.setProc_world, idle_trace reached reader idle] at mem
    cases mem
  have before := later.seen a u live' reads
  rcases step_cases reached allowed hs with settles | ⟨p, b, moved⟩
  · rw [settles.trace] at mem
    exact before ev mem x seen
  by_cases own : reader = p
  · subst own
    obtain ⟨_, _, live''⟩ := moved.live
    rw [live'] at live''
    cases live''
    have grown : ∀ ev', d.world.trace reader = ev' :: c.world.trace reader →
        (ev'.seen = some x → v ≤ x) → v ≤ x := by
      intro ev' trace older
      rw [trace] at mem
      rcases List.mem_cons.mp mem with same | mem
      · exact older (same ▸ seen)
      · exact before ev mem x seen
    cases moved.moves.makes with
    | quiet _ _ same | inserts _ _ _ _ _ _ _ _ same => exact before ev (same ▸ mem) x seen
    | sees ev' _ _ trace sees => exact grown ev' trace (sees_fresh later.fresh reads sees)
    | sets _ _ _ _ _ _ _ trace | invalidates _ _ _ _ trace | deletes _ _ _ trace =>
      exact grown _ trace nofun
  · rw [moved.moves.others reader own] at mem
    exact before ev mem x seen

theorem read_after {reader : Nat} {a : Call V} {val : Dated V} {places : List Place}
    {rest : List Event}
    (reached : Machine.Reach (machine V) (undisturbed · invalidator key began)
      (.initial (.start rows redis memory)) c)
    (later : Machine.Reach (machine V) Machine.anyStep c d) (idle : c.procs reader = .idle)
    (read : d.procs reader = .live a (.done (.data (.ok val))))
    (reads : a.readsThrough key places)
    (deleted : .deleted key :: rest <:+ c.world.trace invalidator) (ours : origin rest = began)
    (opens : opened key rest = some (v, places)) : v ≤ val.version := by
  have start' := reached.mono fun c a _ => (trivial : Machine.anyStep c a)
  have fresh := (reach_coherent reached).settled v places rest deleted ours opens
  have all : Later reader key v places d := by
    refine later.invariant ⟨fresh, ?_⟩ ?_
    · intro a t live
      rw [idle] at live
      cases live
    · intro c act d reached' later met hs
      exact later.next (start'.trans reached') met hs
  have returned := ((clients Machine.anyStep rows redis memory).sound
    (start'.trans later)).holds reader a _ read
  have saw : ∃ ev ∈ d.world.trace reader, ev.seen = some val.version := by
    cases a with
    | getOrPopulateRedis | getOrPopulateInMemory => exact returned
    | redactCache | publishAndRedact | onMessage => exact reads.elim
  obtain ⟨ev, mem, seen⟩ := saw
  exact all.seen a _ read reads ev mem _ seen

end Discipline

theorem opened_redacted (process : Nat) (key : String) (inMemory : Option CacheName) (v : Nat) :
    opened key (invalidations process key inMemory ++ [.updated key v]) =
      some (v, inMemory.toList.map (Place.mk process)) := by
  cases inMemory with
  | none | some => simp [invalidations, opened]

theorem opened_handled (process : Nat) (kind : CacheKind) (message : Message) (rest : List Event) :
    opened kind.key ((kind.caches.map fun cache =>
      .invalidated ⟨process, cache⟩ kind.key).reverse ++ .received message :: rest) =
      some (message.versions kind.key, (kind.caches.map (Place.mk process)).reverse) := by
  cases kind with
  | config | accounts | all => simp [CacheKind.key, CacheKind.caches, opened]

variable {rows : String → Dated V} {redis : String → Option (Dated String)}
  {memory : Place × String → Option (Dated V)} {c d : CacheConfig V}

theorem origin_redacted (process : Nat) (key : String) (inMemory : Option CacheName) (v : Nat) :
    origin (invalidations process key inMemory ++ [.updated key v]) = [.updated key v] := by
  cases inMemory with
  | none | some => rfl

theorem origin_handled (process : Nat) (kind : CacheKind) (message : Message) (rest : List Event) :
    origin ((kind.caches.map fun cache =>
      .invalidated ⟨process, cache⟩ kind.key).reverse ++ .received message :: rest) =
      .received message :: rest := by
  cases kind with
  | config | accounts | all => rfl

/-- As long as no read interferes with one invalidation, a read that begins after the
`redact_cache` in its process, or after the published message has been handled there,
returns nothing older than the update. -/
theorem reads_follow_invalidation {invalidator reader : Nat} {key : String} {began : List Event}
    {a : Call V} {val : Dated V}
    (reached : Machine.Reach (machine V) (undisturbed · invalidator key began)
      (.initial (.start rows redis memory)) c)
    (later : Machine.Reach (machine V) Machine.anyStep c d) (idle : c.procs reader = .idle)
    (read : d.procs reader = .live a (.done (.data (.ok val)))) :
    (∀ process value inMemory data, began = [.updated key data.version] →
      c.procs invalidator =
        .live (.redactCache process key value inMemory) (.done (.data (.ok data))) →
      a.readsThrough key (inMemory.toList.map (Place.mk process)) →
      data.version ≤ val.version) ∧
    ∀ process publisher kind value data message, kind.key = key →
      c.procs publisher = .live (.publishAndRedact kind value) (.done (.data (.ok data))) →
      .published message ∈ c.world.trace publisher →
      Handled process message began (c.world.trace invalidator) →
      a.readsThrough key (kind.caches.map (Place.mk process)) →
      data.version ≤ val.version := by
  have sound := (clients (undisturbed · invalidator key began) rows redis memory).sound reached
  constructor
  · rintro process value inMemory data ours live reads
    have trace := sound.holds invalidator _ _ live
    have deleted : .deleted key :: (invalidations process key inMemory ++
        [.updated key data.version]) <:+ c.world.trace invalidator := trace ▸ List.suffix_rfl
    exact read_after reached later idle read reads deleted
      ((origin_redacted process key inMemory data.version).trans ours.symm)
      (opened_redacted process key inMemory data.version)
  · intro process publisher kind value data message same live published handled reads
    subst same
    obtain ⟨message', trace, sent, newer⟩ := sound.holds publisher _ _ live
    have same : message = message' := by
      rw [trace] at published
      simpa using published
    subst same
    obtain ⟨kind', rest, decoded, rfl, suffix⟩ := handled
    rw [sent, tryFrom_toRedisValue] at decoded
    cases decoded
    have through : a.readsThrough kind.key (kind.caches.map (Place.mk process)).reverse := by
      cases a with
      | getOrPopulateRedis => exact reads
      | getOrPopulateInMemory => exact ⟨reads.1, List.mem_reverse.mpr reads.2⟩
      | redactCache | publishAndRedact | onMessage => exact reads
    have newest := read_after reached later idle read through suffix
      (origin_handled process kind message rest) (opened_handled process kind message rest)
    exact Nat.le_trans newer newest

/- Texts that are their own encodings, and a configuration row with a first value. -/
def textType : Cacheable String := ⟨fun _ => true, .ok, .ok⟩

def oneRow : World String :=
  .start (fun _ => ⟨"old", 0⟩) (fun _ => none) (fun _ => none)

def awaiting : Proc (Command V) (Reply V) (Call V) (Result V) → Bool
  | .live _ (.await _ _) => true
  | _ => false

/-- Only these clients read, and none of them awaits anything while the invalidation that began
with so many events is under way. -/
def calm (readers : List Nat) (invalidator events : Nat) (c : CacheConfig V) :
    Action Choice (Env V) (Call V) → Bool
  | .spawn p a => a.readKey.isNone || readers.contains p
  | .step _ _ => (origin (c.world.trace invalidator)).length ≠ events ||
      readers.all fun r => !awaiting (c.procs r)
  | _ => true

theorem undisturbed_of_calm {readers : List Nat} {invalidator : Nat} {began : List Event}
    {w : World V} (key : String)
    (reached : Machine.Reach (machine V) (calm readers invalidator began.length · · = true)
      (.initial w) c) :
    Machine.Reach (machine V) (undisturbed · invalidator key began) (.initial w) c := by
  refine reached.strengthen fun c act reached quiet => ?_
  have known : ∀ p a t, c.procs p = .live a t → a.readKey = none ∨ p ∈ readers := by
    refine reached.invariant (I := fun c => ∀ p a t, c.procs p = .live a t →
      a.readKey = none ∨ p ∈ readers) nofun ?_
    intro c act d _ before quiet hs p a t live
    rcases Machine.step_live hs live with ⟨_, rfl⟩ | ⟨u, live'⟩
    · simpa [calm] using quiet
    · exact before p a u live'
  cases act with
  | spawn | crash | env => trivial
  | step client o =>
    have nobody : origin (c.world.trace invalidator) = began → ∀ reader a key,
        Awaits c reader a → a.readKey ≠ some key := by
      rintro ours reader a key ⟨cmd, k, live⟩ reads
      have mem := (known reader a _ live).resolve_left (by simp [reads])
      simp only [calm, ours, ne_eq, not_true, decide_false, Bool.false_or, List.all_eq_true] at quiet
      have still := quiet reader mem
      simp [live, awaiting] at still
    intro a cmd k ev live _
    cases ev with
    | invalidated place =>
      rintro rfl _ ours _ _ _ reader x ⟨type, awaits, _⟩
      exact absurd rfl (nobody ours reader _ key awaits)
    | read text =>
      rintro type place rfl _ _ _ ⟨_, _, _, ours, _⟩
      exact absurd rfl (nobody ours client _ key ⟨cmd, k, live⟩)
    | deleted =>
      rintro rfl _ ours _ _ _ reader x ⟨b, awaits, reads, _⟩
      exact absurd reads (nobody ours reader b key awaits)
    | hit | fetched | set | updated | published | received => trivial

/-- A read disturbs the first message that a subscriber handles. It handles a second one, the row
is updated once more in its process, and then it is read. -/
theorem reads_follow_invalidation_second : ∃ (c d : CacheConfig String)
    (published redacted val : Dated String),
    c.procs 0 = .live (.publishAndRedact (.config "k") "newer") (.done (.data (.ok published))) ∧
    c.procs 3 = .live (.redactCache 0 "k" "newest" (some .configCache))
      (.done (.data (.ok redacted))) ∧
    d.procs 2 = .live (.getOrPopulateInMemory textType ⟨0, .configCache⟩ "k")
      (.done (.data (.ok val))) ∧
    published.version ≤ val.version ∧ redacted.version ≤ val.version := by
  let before : List (Action Choice (Env String) (Call String)) :=
    [.spawn 4 (.getOrPopulateInMemory textType ⟨0, .configCache⟩ "k"), .step 4 {}, .step 4 {},
      .step 4 {}, .step 4 {}, .spawn 5 (.publishAndRedact (.config "k") "new"), .step 5 {},
      .step 5 {}, .step 5 { subscribers := [0] }, .spawn 1 (.onMessage 0 2), .step 1 {},
      .step 1 {}, .step 1 {}, .step 4 {}, .step 4 {},
      .spawn 0 (.publishAndRedact (.config "k") "newer"), .step 0 {}, .step 0 {},
      .step 0 { subscribers := [0] }, .step 1 {}, .step 1 {}, .step 1 {},
      .spawn 3 (.redactCache 0 "k" "newest" (some .configCache)), .step 3 {}, .step 3 {},
      .step 3 {}, .step 3 {}]
  let after : List (Action Choice (Env String) (Call String)) :=
    [.spawn 2 (.getOrPopulateInMemory textType ⟨0, .configCache⟩ "k"), .step 2 {}, .step 2 {},
      .step 2 {}, .step 2 {}, .step 2 {}, .step 2 {}]
  obtain ⟨c, ran, publishes, redacts, idle, message, began, sent, fourth, handled⟩ :
      ∃ c, (machine String).run (.initial oneRow) before = some c ∧
        c.procs 0 = .live (.publishAndRedact (.config "k") "newer")
          (.done (.data (.ok ⟨"newer", 2⟩))) ∧
        c.procs 3 = .live (.redactCache 0 "k" "newest" (some .configCache))
          (.done (.data (.ok ⟨"newest", 3⟩))) ∧ c.procs 2 = .idle ∧
        ∃ message began, .published message ∈ c.world.trace 0 ∧ began.length = 4 ∧
          Handled 0 message began (c.world.trace 1) :=
    ⟨_, rfl, rfl, rfl, rfl, _, _, List.mem_cons_self, rfl,
      .config "k", _, tryFrom_toRedisValue (.config "k"), rfl, List.suffix_rfl⟩
  obtain ⟨d, whole, reads⟩ :
      ∃ d, (machine String).run (.initial oneRow) (before ++ after) = some d ∧
        d.procs 2 = .live (.getOrPopulateInMemory textType ⟨0, .configCache⟩ "k")
          (.done (.data (.ok ⟨"newest", 3⟩))) := ⟨_, rfl, rfl⟩
  have calmly : ∀ invalidator began, (machine String).checks
      (calm [4] invalidator (List.length began)) (.initial oneRow) before = true →
      Machine.Reach (machine String) (undisturbed · invalidator "k" began) (.initial oneRow) c :=
    fun _ _ checked => undisturbed_of_calm "k"
      (Machine.reach_of_meets (Machine.meets_of_checks checked) ran)
  have later := Machine.reach_of_run (Machine.run_rest ran whole)
  obtain ⟨_, handle⟩ :=
    reads_follow_invalidation (calmly 1 began (by rw [fourth]; decide)) later idle reads
  obtain ⟨redact, _⟩ :=
    reads_follow_invalidation (calmly 3 [.updated "k" 3] (by decide)) later idle reads
  exact ⟨c, d, _, _, _, publishes, redacts, reads,
    handle 0 0 (.config "k") "newer" _ message rfl publishes sent handled ⟨rfl, .head _⟩,
    redact 0 "newest" (some .configCache) _ rfl redacts ⟨rfl, .head _⟩⟩

/-- A read that fetched before the update fills the memory after the invalidation. -/
theorem read_stale : ∃ (c d : CacheConfig String) (data val : Dated String),
    Machine.Reach (machine String) Machine.anyStep (.initial oneRow) c ∧
    c.procs 1 = .live (.redactCache 0 "k" "new" (some .configCache)) (.done (.data (.ok data))) ∧
    Machine.Reach (machine String) Machine.anyStep c d ∧ c.procs 2 = .idle ∧
    d.procs 2 = .live (.getOrPopulateInMemory textType ⟨0, .configCache⟩ "k")
      (.done (.data (.ok val))) ∧ val.version < data.version := by
  let before : List (Action Choice (Env String) (Call String)) :=
    [.spawn 0 (.getOrPopulateInMemory textType ⟨0, .configCache⟩ "k"), .step 0 {}, .step 0 {},
      .step 0 {}, .step 0 {}, .spawn 1 (.redactCache 0 "k" "new" (some .configCache)),
      .step 1 {}, .step 1 {}, .step 1 {}, .step 1 {}]
  let after : List (Action Choice (Env String) (Call String)) := [.step 0 {}, .step 0 {},
    .spawn 2 (.getOrPopulateInMemory textType ⟨0, .configCache⟩ "k"), .step 2 {}]
  have ran : (machine String).run (.initial oneRow) before = some _ := rfl
  have whole : (machine String).run (.initial oneRow) (before ++ after) = some _ := rfl
  exact ⟨_, _, ⟨"new", 1⟩, ⟨"old", 0⟩, Machine.reach_of_run ran, rfl,
    Machine.reach_of_run (Machine.run_rest ran whole), rfl, rfl, by decide⟩

end Mercado.Cache
