import Mercado.Async.Ghost
import Mercado.Cache.Coherence

/-! No read makes a value up: what a read returns was the row at some earlier point of the run,
with just that many updates behind it. Every key is read as one type, whose values come back
from their encodings. -/
namespace Mercado.Cache
open Async Redis

variable {V : Type}

abbrev RowHistory (V : Type) := String → List (Dated V)

def rowHistory (V : Type) : Ghost (machine V) (RowHistory V) where
  exec := fun client c o w seen key => (exec client c o w).2.rows key :: seen key
  env := fun e w seen key => (change e w).rows key :: seen key

def typed (types : String → Cacheable V) : Action Choice (Env V) (Call V) → Prop
  | .spawn _ (.getOrPopulateRedis type key) => type = types key
  | .spawn _ (.getOrPopulateInMemory type _ key) => type = types key
  | _ => True

section Provenance

variable (types : String → Cacheable V)

def Encodes (seen : RowHistory V) (key : String) (text : Dated String) : Prop :=
  ∃ val ∈ seen key, (types key).encodeToVec val.value = .ok text.value ∧
    val.version = text.version

structure Known (w : World V × RowHistory V) : Prop where
  row : ∀ key, w.1.rows key ∈ w.2 key
  redis : ∀ key text, w.1.redis key = some text → Encodes types w.2 key text
  memory : ∀ place key val, w.1.memory (place, key) = some val → val ∈ w.2 key

def Grows (w w' : World V × RowHistory V) : Prop := ∀ key, w.2 key ⊆ w'.2 key

end Provenance

/-- What a command leaves in the caches was there before, or the command puts it there. -/
def Puts (c : Command V) (w u : World V) : Prop :=
  (∀ key text, u.redis key = some text → w.redis key = some text ∨ c = .set key text) ∧
    ∀ place key val, u.memory (place, key) = some val →
      w.memory (place, key) = some val ∨ c = .insertInMemory place key val

theorem Puts.same {c : Command V} {w u : World V} (redis : u.redis = w.redis)
    (memory : u.memory = w.memory) : Puts c w u := by
  constructor
  · intro key text found
    exact .inl (redis ▸ found)
  · intro place key val found
    exact .inl (memory ▸ found)

theorem noteFound_caches {α : Type} (client : Nat) (w : World V) (ev : α → Event) (x : Option α) :
    (w.noteFound client ev x).redis = w.redis ∧ (w.noteFound client ev x).memory = w.memory := by
  cases x with
  | none | some => exact ⟨rfl, rfl⟩

theorem setRedis_cases {w : World V} {key key' : String} {text : Dated String}
    {put : Option (Dated String)} (found : (w.setRedis key put).redis key' = some text) :
    w.redis key' = some text ∨ key' = key ∧ put = some text := by
  by_cases here : key' = key
  · subst here
    have stored : (w.setRedis key' put).redis key' = put := Function.update_self ..
    exact .inr ⟨rfl, stored.symm.trans found⟩
  · exact .inl ((Function.update_of_ne here ..).symm.trans found)

theorem setMemory_cases {w : World V} {x y : Place × String} {val : Dated V}
    {put : Option (Dated V)} (found : (w.setMemory x.1 x.2 put).memory y = some val) :
    w.memory y = some val ∨ y = x ∧ put = some val := by
  by_cases here : y = x
  · subst here
    have stored : (w.setMemory y.1 y.2 put).memory y = put := Function.update_self ..
    exact .inr ⟨rfl, stored.symm.trans found⟩
  · exact .inl ((Function.update_of_ne here ..).symm.trans found)

theorem exec_puts (client : Nat) (c : Command V) (o : Choice) (w : World V) :
    Puts c w (exec client c o w).2 := by
  have same : Puts c w w := .same rfl rfl
  cases c with
  | isRedisAvailable => exact same
  | getInMemory place key => exact .same (noteFound_caches ..).1 (noteFound_caches ..).2
  | insertInMemory place key value =>
    refine ⟨fun _ _ found => .inl found, fun place' key' val found => ?_⟩
    rcases setMemory_cases (x := (place, key)) found with before | ⟨here, put⟩
    · exact .inl before
    · cases here
      cases put
      exact .inr rfl
  | invalidate place key =>
    refine ⟨fun _ _ found => .inl found, fun place' key' val found => ?_⟩
    rcases setMemory_cases (x := (place, key)) found with before | ⟨_, put⟩
    · exact .inl before
    · cases put
  | get key =>
    exact through_keeps _ _ _ same (.same (noteFound_caches ..).1 (noteFound_caches ..).2)
  | set key text =>
    refine through_keeps _ _ _ same ⟨fun key' text' found => ?_, fun _ _ _ found => .inl found⟩
    rcases setRedis_cases found with before | ⟨rfl, put⟩
    · exact .inl before
    · cases put
      exact .inr rfl
  | del key =>
    refine through_keeps _ _ _ same ⟨fun key' text' found => ?_, fun _ _ _ found => .inl found⟩
    rcases setRedis_cases found with before | ⟨_, put⟩
    · exact .inl before
    · cases put
  | fetch | update | publish => exact through_keeps _ _ _ same (.same rfl rfl)
  | recv process =>
    simp only [exec]
    split
    · exact same
    · split
      · exact same
      · exact .same rfl rfl

section Steps

variable {types : String → Cacheable V}

theorem Encodes.grow {seen seen' : RowHistory V} {key : String} {text : Dated String}
    (grown : seen key ⊆ seen' key) : Encodes types seen key text → Encodes types seen' key text
  | ⟨val, mem, encoded, version⟩ => ⟨val, grown mem, encoded, version⟩

theorem Known.puts {w w' : World V × RowHistory V} {c : Command V} (known : Known types w)
    (grown : Grows w w') (row : ∀ key, w'.1.rows key ∈ w'.2 key) (puts : Puts c w.1 w'.1)
    (sets : ∀ key text, c = .set key text → Encodes types w.2 key text)
    (inserts : ∀ place key val, c = .insertInMemory place key val → val ∈ w.2 key) :
    Known types w' := by
  refine ⟨row, fun key text found => ?_, fun place key val found => ?_⟩
  · rcases puts.1 key text found with before | put
    · exact (known.redis key text before).grow (grown key)
    · exact (sets key text put).grow (grown key)
  · rcases puts.2 place key val found with before | put
    · exact grown key (known.memory place key val before)
    · exact grown key (inserts place key val put)

theorem Known.change {w : World V} {seen : RowHistory V} (known : Known types (w, seen))
    (e : Env V) : Known types (Cache.change e w, (rowHistory V).env e w seen) := by
  refine known.puts (c := .isRedisAvailable) (fun _ => List.subset_cons_self ..)
    (fun _ => List.mem_cons_self) ?_ nofun nofun
  cases e with
  | evicted place key =>
    refine ⟨fun _ _ found => .inl found, fun place' key' val found => ?_⟩
    rcases setMemory_cases (x := (place, key)) found with before | ⟨_, put⟩
    · exact .inl before
    · cases put
  | expired key =>
    refine ⟨fun key' text' found => ?_, fun _ _ _ found => .inl found⟩
    rcases setRedis_cases found with before | ⟨_, put⟩
    · exact .inl before
    · cases put
  | stored | sent => exact .same rfl rfl

def Allowed (types : String → Cacheable V) (w : World V × RowHistory V) (c : Command V) : Prop :=
  (∀ key text, c = .set key text → Encodes types w.2 key text) ∧
    ∀ place key val, c = .insertInMemory place key val → val ∈ w.2 key

def Command.fills : Command V → Bool
  | .set .. | .insertInMemory .. => true
  | _ => false

theorem allowed_quiet {c : Command V} (quiet : c.fills = false) (w : World V × RowHistory V) :
    Allowed types w c := by
  cases c with
  | set | insertInMemory => cases quiet
  | _ => exact ⟨nofun, nofun⟩

variable (types)

def rowSetting (client : Nat) :
    Setting (Command V) (Reply V) (World V × RowHistory V) Choice where
  exec := (rowHistory V).machine.exec client
  inv := Known types
  rely := Grows
  guar := fun _ => Grows
  allow := fun _ _ _ => True

variable {types} {client : Nat} {w : World V × RowHistory V} {key : String}

theorem grows_exec (client : Nat) (c : Command V) (o : Choice) (w : World V × RowHistory V) :
    Grows w ((rowHistory V).machine.exec client c o w).2 := fun _ => List.subset_cons_self ..

theorem row_step {c : Command V} {I : World V × RowHistory V → Prop}
    {Q : Reply V c → World V × RowHistory V → Prop} (allowed : ∀ w, I w → Allowed types w c)
    (after : ∀ w o, Known types w → I w →
      Q ((rowHistory V).machine.exec client c o w).1 ((rowHistory V).machine.exec client c o w).2) :
    (rowSetting types client).Step I c Q := by
  intro w o known _ holds
  have grown := grows_exec client c o w
  obtain ⟨sets, inserts⟩ := allowed w holds
  exact ⟨grown, known.puts grown (fun _ => List.mem_cons_self) (exec_puts client c o w.1) sets
    inserts, after w o known holds⟩

theorem true_stable : (rowSetting types client).Stable fun _ => True := fun _ _ _ _ _ => trivial

theorem row_stable (val : Dated V) :
    (rowSetting types client).Stable fun w => val ∈ w.2 key :=
  fun _ _ grown _ mem => grown key mem

theorem quiet_step {c : Command V} (quiet : c.fills = false) {I : World V × RowHistory V → Prop}
    (stable : ∀ w w', Grows w w' → I w → I w') :
    (rowSetting types client).Step I c fun _ => I :=
  row_step (fun w _ => allowed_quiet quiet w) fun w o _ holds =>
    stable w _ (grows_exec client c o w) holds

theorem getInMemory_row {place : Place} : (rowSetting types client).Step (fun _ => True)
    (.getInMemory place key) fun r w => ∀ val, r = some val → val ∈ w.2 key :=
  row_step (fun w _ => allowed_quiet rfl w) fun _ _ known _ val found =>
    List.mem_cons_of_mem _ (known.memory place key val found)

theorem get_row : (rowSetting types client).Step (fun _ => True) (.get key)
    fun r w => ∀ text, r = .ok (some text) → Encodes types w.2 key text := by
  refine row_step (fun w _ => allowed_quiet rfl w) fun w o known _ text found => ?_
  change (o.redis.through () w.1 (w.1.redis key, _)).1 = _ at found
  have answered := (Delivery.through_ok found).1
  exact (known.redis key text answered.symm).grow (List.subset_cons_self ..)

theorem fetch_row : (rowSetting types client).Step (fun _ => True) (.fetch key)
    fun r w => ∀ val, r = .ok val → val ∈ w.2 key := by
  refine row_step (fun w _ => allowed_quiet rfl w) fun w o known _ val found => ?_
  change (o.database.through o.failure w.1 (w.1.rows key, _)).1 = _ at found
  rw [(Delivery.through_ok found).1]
  exact List.mem_cons_of_mem _ (known.row key)

theorem set_row {val : Dated V} {text : String}
    (encoded : (types key).encodeToVec val.value = .ok text) :
    (rowSetting types client).Step (fun w => val ∈ w.2 key) (.set key ⟨text, val.version⟩)
      fun _ w => val ∈ w.2 key := by
  refine row_step (fun w mem => ⟨?_, nofun⟩) fun w o _ mem => List.mem_cons_of_mem _ mem
  rintro _ _ ⟨⟩
  exact ⟨val, mem, encoded, rfl⟩

theorem insertInMemory_row {place : Place} {val : Dated V} :
    (rowSetting types client).Step (fun w => val ∈ w.2 key) (.insertInMemory place key val)
      fun _ w => val ∈ w.2 key := by
  refine row_step (fun w mem => ⟨nofun, ?_⟩) fun w o _ mem => List.mem_cons_of_mem _ mem
  rintro _ _ _ ⟨⟩
  exact mem

/- The readers. -/

abbrev Returns {ε : Type} (key : String) (r : Except ε (Dated V))
    (w : World V × RowHistory V) : Prop := ∀ val, r = .ok val → val ∈ w.2 key

/-- Values of the type of the key come back from their encodings. -/
def RoundTrip (types : String → Cacheable V) (key : String) : Prop :=
  ∀ value text, (types key).encodeToVec value = .ok text → (types key).parseStruct text = .ok value

theorem redisConn_row :
    (rowSetting types client).Holds (fun _ _ => True)
      (redisConn : ExceptT _ (CacheTask V) _).run w := by
  refine .await true_stable (quiet_step rfl fun _ _ _ h => h) ?_ trivial
  intro available w _
  cases available <;> trivial

theorem parsed_row (roundTrip : RoundTrip types key) {text : Dated String}
    (encodes : Encodes types w.2 key text) : Returns key (parsed (types key) (some text)) w := by
  obtain ⟨row, mem, encoded, version⟩ := encodes
  have decoded := roundTrip row.value text.value encoded
  intro val ok
  simp only [parsed, decoded] at ok
  split at ok
  · cases ok
  · rw [← Except.ok.inj ok, ← version]
    exact mem

theorem getAndDeserializeCached_row (roundTrip : RoundTrip types key) :
    (rowSetting types client).Holds (Returns key)
      (getAndDeserializeCached (types key) key).run w := by
  refine .bindExcept (.changeContext ((Setting.Holds.call true_stable get_row trivial).mono ?_))
  intro r w found
  cases r with
  | error e => exact fun _ ok => nomatch ok
  | ok text =>
    cases text with
    | none => exact fun _ ok => nomatch ok
    | some text => exact parsed_row roundTrip (found text rfl)

theorem getDataSetRedis_row :
    (rowSetting types client).Holds (Returns key) (getDataSetRedis (types key) key).run w := by
  refine .bindExcept ((Setting.Holds.call true_stable fetch_row trivial).mono ?_)
  intro r w fetched
  cases r with
  | error e => exact fun _ ok => nomatch ok
  | ok val =>
    have stored : (rowSetting types client).Holds (fun _ w => val ∈ w.2 key)
        (serializeAndSetKey (types key) key val).run w := by
      unfold serializeAndSetKey
      cases encoded : (types key).encodeToVec val.value with
      | error e => exact fetched val rfl
      | ok text =>
        exact .changeContext (.call (row_stable val) (set_row encoded) (fetched val rfl))
    refine .bindExcept (.changeContext (stored.mono ?_))
    intro r w mem
    cases r with
    | error e => exact fun _ ok => nomatch ok
    | ok => exact fun _ ok => Except.ok.inj ok ▸ mem

theorem getOrPopulateRedis_row (roundTrip : RoundTrip types key) :
    (rowSetting types client).Holds (Returns key) (getOrPopulateRedis (types key) key).run w := by
  refine .bindExcept (.changeContext (redisConn_row.mono ?_))
  intro r w _
  cases r with
  | error e => exact fun _ ok => nomatch ok
  | ok =>
    refine .bindExcept (.lift ((getAndDeserializeCached_row roundTrip).mono ?_))
    intro r w read
    cases r with
    | ok val => exact fun _ ok => Except.ok.inj ok ▸ read val rfl
    | error e =>
      cases e with
      | notFound | jsonDeserializationFailed => exact getDataSetRedis_row
      | _ => exact fun _ ok => nomatch ok

theorem getOrPopulateInMemory_row (roundTrip : RoundTrip types key) (place : Place) :
    (rowSetting types client).Holds (Returns key)
      (getOrPopulateInMemory (types key) place key).run w := by
  have looked : (rowSetting types client).Holds (fun r w => ∀ val, r = some val → val ∈ w.2 key)
      (getVal (types key) place key) w := by
    refine .bind ((Setting.Holds.call true_stable getInMemory_row trivial).mono ?_)
    intro r w found val kept
    exact found val (Option.filter_eq_some_iff.mp kept).1
  refine .bindExcept (.lift (looked.mono ?_))
  intro r w found
  cases r with
  | some val => exact fun _ ok => Except.ok.inj ok ▸ found val rfl
  | none =>
    refine .bindExcept ((getOrPopulateRedis_row roundTrip).mono ?_)
    intro r w read
    cases r with
    | error e => exact fun _ ok => nomatch ok
    | ok val =>
      refine .bindExcept (.lift ((Setting.Holds.call (row_stable val) insertInMemory_row
        (read val rfl)).mono ?_))
      intro _ w mem
      exact fun _ ok => Except.ok.inj ok ▸ mem

end Steps

/- The writers and the subscribers fill nothing. -/
theorem redisConn_quiet : (redisConn : ExceptT _ (CacheTask V) _).run.every (·.fills = false) := by
  refine ⟨rfl, fun available => ?_⟩
  cases available <;> trivial

theorem deleteKey_quiet (key : String) :
    (deleteKey key : ExceptT _ (CacheTask V) _).run.every (·.fills = false) :=
  Task.every_changeContext ⟨rfl, fun _ => trivial⟩

theorem redactCache_quiet (process : Nat) (key : String) (value : V)
    (inMemory : Option CacheName) :
    (redactCache process key value inMemory).run.every (·.fills = false) := by
  refine Task.every_tryBind ⟨rfl, fun _ => trivial⟩ fun data => ?_
  refine Task.every_tryBind (Task.every_lift ?_) fun _ => ?_
  · cases inMemory with
    | none => trivial
    | some cache => exact ⟨rfl, fun _ => trivial⟩
  refine Task.every_tryBind (Task.every_changeContext redisConn_quiet) fun _ => ?_
  exact Task.every_tryBind (Task.every_changeContext (deleteKey_quiet key)) fun _ => trivial

theorem publishAndRedact_quiet (key : CacheKind) (value : V) :
    (publishAndRedact key value).run.every (·.fills = false) := by
  refine Task.every_tryBind ⟨rfl, fun _ => trivial⟩ fun data => ?_
  refine Task.every_tryBind ?_ fun _ => trivial
  refine Task.every_tryBind (Task.every_changeContext redisConn_quiet) fun _ => ?_
  exact Task.every_changeContext ⟨rfl, fun _ => trivial⟩

theorem onMessage_quiet (process messages : Nat) :
    (onMessage process messages : ExceptT _ (CacheTask V) _).run.every (·.fills = false) := by
  induction messages with
  | zero => trivial
  | succ messages ih =>
    have invalidates (cache : CacheName) (key : String) :
        (ExceptT.lift (call (.invalidate ⟨process, cache⟩ key)) :
          ExceptT RedisError (CacheTask V) Unit).run.every (·.fills = false) :=
      Task.every_lift ⟨rfl, fun _ => trivial⟩
    refine Task.every_tryBind ⟨rfl, fun _ => trivial⟩ fun message => ?_
    cases message with
    | none => trivial
    | some message =>
      cases kind : CacheKind.tryFrom message.value with
      | error e =>
        simp only [kind]
        exact ih
      | ok kind' =>
        simp only [kind]
        have rest (key : String) : (do
            let key ← pure key
            let _ ← ExceptT.lift (deleteKey key).run
            onMessage process messages : ExceptT RedisError (CacheTask V) Unit).run.every
              (·.fills = false) :=
          Task.every_tryBind trivial fun key =>
            Task.every_tryBind (Task.every_lift (deleteKey_quiet key)) fun _ => ih
        cases kind' with
        | config key | accounts key =>
          exact Task.every_tryBind (invalidates ..) fun _ => rest key
        | all key =>
          exact Task.every_tryBind (invalidates ..) fun _ =>
            Task.every_tryBind (invalidates ..) fun _ => rest key

section Runs

variable {types : String → Cacheable V} {rows : String → Dated V}

theorem program_rows (roundTrip : ∀ key, RoundTrip types key) {client : Nat} {a : Call V}
    (agreed : typed types (.spawn client a)) {w : World V × RowHistory V} :
    (rowSetting types client).Holds
      (fun r w => ∀ key val, a.readKey = some key → r = .data (.ok val) → val ∈ w.2 key)
      a.program w := by
  have quiet {ε α : Type} {wrap : Except ε α → Result V} {t : ExceptT ε (CacheTask V) α}
      (fills : t.run.every (·.fills = false)) {post : Result V → World V × RowHistory V → Prop}
      (holds : ∀ r w, post r w) :
      (rowSetting types client).Holds post (t.run.bind (.done ∘ wrap)) w :=
    .bind ((Setting.Holds.every (I := fun _ => True) true_stable
      (fun c allowed => quiet_step allowed fun _ _ _ h => h) fills trivial).mono
      fun r w _ => holds (wrap r) w)
  cases a with
  | getOrPopulateRedis type key =>
    cases agreed
    refine .bind ((getOrPopulateRedis_row (roundTrip key)).mono ?_)
    rintro r w returns _ val ⟨⟩ ok
    cases ok
    exact returns val rfl
  | getOrPopulateInMemory type place key =>
    cases agreed
    refine .bind ((getOrPopulateInMemory_row (roundTrip key) place).mono ?_)
    rintro r w returns _ val ⟨⟩ ok
    cases ok
    exact returns val rfl
  | redactCache process key value inMemory =>
    exact quiet (redactCache_quiet process key value inMemory) fun _ _ _ _ none => nomatch none
  | publishAndRedact key value =>
    exact quiet (publishAndRedact_quiet key value) fun _ _ _ _ none => nomatch none
  | onMessage process messages =>
    exact quiet (onMessage_quiet process messages) fun _ _ _ _ none => nomatch none

abbrev emptyCaches (rows : String → Dated V) : World V := .start rows (fun _ => none) fun _ => none

def provenance (types : String → Cacheable V) (roundTrip : ∀ key, RoundTrip types key)
    (rows : String → Dated V) :
    Discipline (rowHistory V).machine (fun _ => typed types)
      ((Config.initial (emptyCaches rows) : CacheConfig V).withGhost fun key => [rows key]) where
  inv := Known types
  rely := fun _ => Grows
  guar := fun _ _ _ => Grows
  allow := fun _ _ _ _ => True
  post := fun _ a r w => ∀ key val, a.readKey = some key → r = .data (.ok val) → val ∈ w.2 key
  rely_refl := fun _ _ _ => List.Subset.refl _
  rely_trans := fun _ _ _ _ first next key => List.Subset.trans (first key) (next key)
  starts := by
    refine ⟨⟨fun _ => List.mem_cons_self, ?_, ?_⟩, fun _ => rfl⟩
    · exact fun _ _ found => nomatch (found : none = some _)
    · exact fun _ _ _ found => nomatch (found : none = some _)
  allowed := fun _ _ => trivial
  spawned := fun _ _ _ agreed => program_rows roundTrip agreed
  others := fun _ _ _ _ _ kept => kept
  env := by
    intro c e t _ _ known moved
    cases Option.some.inj moved
    exact ⟨known.change e, fun _ _ _ _ _ _ => List.subset_cons_self ..⟩
  kept := by
    intro q a r c act d _ _ stepped _ _ _ returned key val reads data
    have mem := returned key val reads data
    rcases Machine.step_world stepped with same | ⟨p, o, b, cmd, k, _, _, world⟩ | ⟨e, _, moved⟩
    · rw [same]
      exact mem
    · rw [world]
      exact List.mem_cons_of_mem _ mem
    · have world : d.world = (change e c.world.1, (rowHistory V).env e c.world.1 c.world.2) :=
        (Option.some.inj moved).symm
      rw [world]
      exact List.mem_cons_of_mem _ mem

variable {c : CacheConfig V}

theorem reach_rowHistory {ok : CacheConfig V → Action Choice (Env V) (Call V) → Prop}
    {start : CacheConfig V}
    {d : Config (Command V) (Reply V) (World V × RowHistory V) (Call V) (Result V)}
    (reached : Machine.Reach (rowHistory V).machine (fun c act => ok c.forget act)
      (start.withGhost fun key => [start.world.rows key]) d) :
    Machine.Reach (machine V) ok start d.forget ∧
      ∀ key, ∀ val ∈ d.world.2 key, ∃ b, Machine.Reach (machine V) ok start b ∧
        Machine.Reach (machine V) ok b d.forget ∧ b.world.rows key = val := by
  induction reached with
  | start =>
    refine ⟨.start, fun key val mem => ⟨start, .start, .start, ?_⟩⟩
    exact (List.mem_singleton.mp mem).symm
  | @next c d act _ met hs ih =>
    obtain ⟨before, rows⟩ := ih
    have stepped := (rowHistory V).step_forget hs
    have after := before.next act met stepped
    refine ⟨after, ?_⟩
    have earlier : ∀ key, ∀ val ∈ c.world.2 key, ∃ b, Machine.Reach (machine V) ok start b ∧
        Machine.Reach (machine V) ok b d.forget ∧ b.world.rows key = val := by
      intro key val mem
      obtain ⟨b, first, rest, row⟩ := rows key val mem
      exact ⟨b, first, rest.next act met stepped, row⟩
    -- the rows of a configuration come first in its history
    have new : (∀ key, d.world.2 key = d.world.1.rows key :: c.world.2 key) → ∀ key,
        ∀ val ∈ d.world.2 key, ∃ b, Machine.Reach (machine V) ok start b ∧
          Machine.Reach (machine V) ok b d.forget ∧ b.world.rows key = val := by
      intro history key val mem
      rw [history] at mem
      rcases List.mem_cons.mp mem with rfl | mem
      · exact ⟨d.forget, after, .start, rfl⟩
      · exact earlier key val mem
    rcases Machine.step_world hs with same | ⟨p, o, a, cmd, k, _, _, world⟩ | ⟨e, _, moved⟩
    · rw [same]
      exact earlier
    · exact new fun key => by rw [world]; rfl
    · refine new fun key => ?_
      have world : d.world = (change e c.world.1, (rowHistory V).env e c.world.1 c.world.2) :=
        (Option.some.inj moved).symm
      rw [world]
      rfl

/-- A read returns what was the row of its key at some earlier point of the run, value and
version, whatever was read, written, invalidated, dropped or lost meanwhile. -/
theorem reads_return_rows (roundTrip : ∀ key, RoundTrip types key)
    (reached : Machine.Reach (machine V) (fun _ => typed types)
      (.initial (emptyCaches rows)) c) {reader : Nat} {a : Call V} {key : String} {val : Dated V}
    (read : c.procs reader = .live a (.done (.data (.ok val)))) (reads : a.readKey = some key) :
    ∃ b, Machine.Reach (machine V) (fun _ => typed types) (.initial (emptyCaches rows)) b ∧
      Machine.Reach (machine V) (fun _ => typed types) b c ∧ b.world.rows key = val := by
  obtain ⟨seen, recorded⟩ := (rowHistory V).reach (fun key => [rows key]) reached
  have sound := (provenance types roundTrip rows).sound recorded
  have returned : ∀ key' val', a.readKey = some key' →
      (.data (.ok val) : Result V) = .data (.ok val') → val' ∈ seen key' :=
    sound.holds reader a _ read
  have mem := returned key val reads rfl
  exact (@reach_rowHistory V (fun _ => typed types) (.initial (emptyCaches rows))
    (c.withGhost seen) recorded).2 key val mem

end Runs

/-- A row is read, updated behind the caches, and read again from the memory. -/
theorem reads_return_rows_stale : ∃ b c : CacheConfig String,
    c.procs 1 = .live (.getOrPopulateInMemory textType ⟨0, .configCache⟩ "k")
      (.done (.data (.ok ⟨"old", 0⟩))) ∧
    c.world.rows "k" = ⟨"new", 1⟩ ∧ Machine.Reach (machine String) (fun _ => typed fun _ => textType)
      b c ∧ b.world.rows "k" = ⟨"old", 0⟩ := by
  let actions : List (Action Choice (Env String) (Call String)) :=
    [.spawn 0 (.getOrPopulateInMemory textType ⟨0, .configCache⟩ "k"), .step 0 {}, .step 0 {},
      .step 0 {}, .step 0 {}, .step 0 {}, .step 0 {}, .env (.stored "k" "new"),
      .spawn 1 (.getOrPopulateInMemory textType ⟨0, .configCache⟩ "k"), .step 1 {}]
  obtain ⟨c, ran, read, row⟩ : ∃ c, (machine String).run
      (.initial (emptyCaches fun _ => ⟨"old", 0⟩)) actions = some c ∧
      c.procs 1 = .live (.getOrPopulateInMemory textType ⟨0, .configCache⟩ "k")
        (.done (.data (.ok ⟨"old", 0⟩))) ∧ c.world.rows "k" = ⟨"new", 1⟩ := ⟨_, rfl, rfl, rfl⟩
  have met : (machine String).Meets (fun _ => typed fun _ => textType)
      (.initial (emptyCaches fun _ => ⟨"old", 0⟩)) actions := by
    refine Machine.meets_each fun act mem _ => ?_
    simp only [actions, List.mem_cons, List.not_mem_nil, or_false] at mem
    rcases mem with rfl | rfl | rfl | rfl | rfl | rfl | rfl | rfl | rfl | rfl <;>
      first | rfl | trivial
  obtain ⟨b, _, later, before⟩ := reads_return_rows
    (fun _ _ _ encoded => congrArg Except.ok (Except.ok.inj encoded).symm)
    (Machine.reach_of_meets met ran) read rfl
  exact ⟨b, c, read, row, later, before⟩

end Mercado.Cache
