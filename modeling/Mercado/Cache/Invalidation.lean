import Mercado.Cache.Functions

/-! The messages of the invalidation channel, and a subscriber that goes through any number
of them, whatever they are. -/
namespace Mercado.Cache
open Async Redis

theorem splitOnce_some {text before after : String} {c : Char}
    (split : splitOnce text c = some (before, after)) :
    text = before ++ String.singleton c ++ after := by
  have whole := List.takeWhile_append_dropWhile (p := fun x => decide (x ≠ c)) (l := text.toList)
  unfold splitOnce at split
  split at split
  · cases split
  · rename_i x rest front
    rw [front] at whole
    have cut : x = c := by
      have first := List.head?_dropWhile_not (fun x => decide (x ≠ c)) text.toList
      rw [front] at first
      simpa using first
    subst cut
    cases split
    apply String.toList_inj.mp
    apply whole.symm.trans
    simp

theorem tryFrom_ok_iff {value : RedisValue} {kind : CacheKind} :
    CacheKind.tryFrom value = .ok kind ↔ value = kind.toRedisValue := by
  constructor
  · intro decoded
    unfold CacheKind.tryFrom at decoded
    cases value with
    | null => cases decoded
    | string text =>
      simp only [RedisValue.asString] at decoded
      cases split : splitOnce text ',' with
      | none =>
        rw [split] at decoded
        cases decoded
      | some cut =>
        obtain ⟨name, key⟩ := cut
        have whole : text = name ++ "," ++ key := splitOnce_some split
        simp only [split] at decoded
        split at decoded
        · rename_i accounts
          cases decoded
          rw [whole, accounts, CacheKind.toRedisValue]
        · split at decoded
          · rename_i config
            cases decoded
            rw [whole, config, CacheKind.toRedisValue]
          · split at decoded
            · rename_i all
              cases decoded
              rw [whole, all, CacheKind.toRedisValue]
            · cases decoded
  · intro sent
    rw [sent]
    exact tryFrom_toRedisValue kind

theorem tryFrom_other {value : RedisValue}
    (other : ∀ kind : CacheKind, value ≠ kind.toRedisValue) :
    CacheKind.tryFrom value = .error () := by
  cases decoded : CacheKind.tryFrom value with
  | error e => rfl
  | ok kind => exact absurd (tryFrom_ok_iff.mp decoded) (other kind)

variable {V : Type}

def invalidateAll (process : Nat) (key : String) :
    List CacheName → CacheTask V (Except RedisError Unit) → CacheTask V (Except RedisError Unit)
  | [], next => next
  | cache :: caches, next =>
    .await (.invalidate ⟨process, cache⟩ key) fun _ => invalidateAll process key caches next

theorem onMessage_message {process messages : Nat} :
    (onMessage (V := V) process (messages + 1)).run = .await (.recv process) fun
      | none => .done (.ok ())
      | some message => match CacheKind.tryFrom message.value with
        | .error _ => (onMessage process messages).run
        | .ok kind => invalidateAll process kind.key kind.caches
          (.await (.del kind.key) fun _ => (onMessage process messages).run) := by
  apply congrArg (Task.await (Command.recv process))
  funext received
  cases received with
  | none => rfl
  | some message =>
    change ((match CacheKind.tryFrom message.value with
      | .error _ => onMessage process messages
      | .ok kind => _) : ExceptT RedisError (CacheTask V) Unit).run = _
    cases decoded : CacheKind.tryFrom message.value with
    | error e => simp only [decoded]
    | ok kind =>
      simp only [decoded]
      cases kind with
      | config key => rfl
      | accounts key => rfl
      | all key => rfl

/- The steps of the loop. -/

def RedisValue.steps (process : Nat) (value : RedisValue) : List (Command V) :=
  match CacheKind.tryFrom value with
  | .error _ => []
  | .ok kind => kind.caches.map (.invalidate ⟨process, ·⟩ kind.key) ++ [.del kind.key]

def arrived : (c : Command V) × Reply V c → Option Message
  | ⟨.recv _, message⟩ => message
  | _ => none

def Message.steps (process : Nat) (message : Message) : List (Command V) :=
  .recv process :: message.value.steps process

/-- Message after message has been received and followed. The loop has ended for want of
further ones, or with the last that it was to receive. -/
structure Listened (process messages : Nat) (past : List ((c : Command V) × Reply V c))
    (r : Except RedisError Unit) : Prop where
  ok : r = .ok ()
  steps : past.map Sigma.fst = (past.filterMap arrived).flatMap (Message.steps process) ++
    if (past.filterMap arrived).length < messages then [.recv process] else []
  most : (past.filterMap arrived).length ≤ messages
  ended : (past.filterMap arrived).length < messages →
    past.getLast? = some ⟨.recv process, none⟩

theorem Listened.cons {process messages : Nat} {new : List ((c : Command V) × Reply V c)}
    {r : Except RedisError Unit} (rest : Listened process messages new r) {message : Message}
    {first : List ((c : Command V) × Reply V c)}
    (steps : first.map Sigma.fst = message.steps process)
    (received : first.filterMap arrived = [message]) :
    Listened process (messages + 1) (first ++ new) r := by
  have all : (first ++ new).filterMap arrived = message :: new.filterMap arrived := by
    rw [List.filterMap_append, received, List.singleton_append]
  have length : ((first ++ new).filterMap arrived).length < messages + 1 ↔
      (new.filterMap arrived).length < messages := by
    rw [all, List.length_cons]
    omega
  constructor
  · exact rest.ok
  · rw [List.map_append, steps, rest.steps, if_congr length rfl rfl, all, List.flatMap_cons,
      List.append_assoc]
  · rw [all, List.length_cons]
    exact Nat.succ_le_succ rest.most
  · intro fewer
    rw [List.getLast?_append, rest.ended (length.mp fewer), Option.some_or]

theorem invalidateAll_ends {process : Nat} {key : String} {caches : List CacheName}
    {next : CacheTask V (Except RedisError Unit)}
    {Q : List ((c : Command V) × Reply V c) → Except RedisError Unit → Prop}
    {past : List ((c : Command V) × Reply V c)}
    (rest : next.ends Q (past ++ caches.map fun cache =>
      ⟨Command.invalidate ⟨process, cache⟩ key, ()⟩)) :
    (invalidateAll process key caches next).ends Q past := by
  induction caches generalizing past with
  | nil => simpa [invalidateAll] using rest
  | cons cache caches ih =>
    intro _
    apply ih
    simpa using rest

theorem onMessage_listens {process messages : Nat} (past : List ((c : Command V) × Reply V c)) :
    (onMessage (V := V) process messages).run.ends
      (fun now r => ∃ new, now = past ++ new ∧ Listened process messages new r) past := by
  induction messages generalizing past with
  | zero => exact ⟨[], (List.append_nil past).symm, rfl, rfl, Nat.le_refl 0, nofun⟩
  | succ messages ih =>
    rw [onMessage_message]
    intro received
    cases received with
    | none => exact ⟨[⟨.recv process, none⟩], rfl, rfl, rfl, Nat.zero_le _, fun _ => rfl⟩
    | some message =>
      -- the steps of this message, and what the loop does after them
      have goesOn : ∀ first : List ((c : Command V) × Reply V c),
          first.map Sigma.fst = message.steps process → first.filterMap arrived = [message] →
          (onMessage (V := V) process messages).run.ends (fun now r =>
            ∃ new, now = past ++ new ∧ Listened process (messages + 1) new r) (past ++ first) := by
        intro first steps received
        apply (ih (past ++ first)).mono
        rintro now r ⟨new, rfl, rest⟩
        exact ⟨first ++ new, List.append_assoc .., rest.cons steps received⟩
      cases decoded : CacheKind.tryFrom message.value with
      | error e =>
        simp only [decoded]
        apply goesOn
        · simp [Message.steps, RedisValue.steps, decoded]
        · rfl
      | ok kind =>
        simp only [decoded]
        apply invalidateAll_ends
        intro reply
        rw [List.append_assoc, List.append_assoc]
        apply goesOn
        · simp [Message.steps, RedisValue.steps, decoded]
        · simp [arrived, List.filterMap_append]

/- A subscriber alone, with the messages that have been sent. -/

def RedisValue.Names (value : RedisValue) (cache : CacheName) (key : String) : Prop :=
  ∃ kind, CacheKind.tryFrom value = .ok kind ∧ cache ∈ kind.caches ∧ kind.key = key

/-- The deletion that follows the message has reached Redis, and is of this key. -/
def Deletes (key : String) (x : Message × Delivery) : Prop :=
  x.2 ≠ .lost ∧ ∃ kind, CacheKind.tryFrom x.1.value = .ok kind ∧ kind.key = key

def Emptied {α : Type} (named : Prop) (before after : Option α) : Prop :=
  (named → after = none) ∧ (¬ named → after = before)

/-- What has become of everything once these messages have been handled, each with how its
deletion went. -/
structure Handles (process : Nat) (handled : List (Message × Delivery)) (w w' : World V) :
    Prop where
  inbox : w.inbox process = handled.map Prod.fst ++ w'.inbox process
  inboxes : ∀ q, q ≠ process → w'.inbox q = w.inbox q
  rows : w'.rows = w.rows
  memory : ∀ place key, Emptied
    (place.process = process ∧ ∃ x ∈ handled, x.1.value.Names place.cache key)
    (w.memory (place, key)) (w'.memory (place, key))
  redis : ∀ key, Emptied (∃ x ∈ handled, Deletes key x) (w.redis key) (w'.redis key)

theorem Emptied.trans {α : Type} {p q : Prop} {a b c : Option α} (first : Emptied p a b)
    (second : Emptied q b c) : Emptied (p ∨ q) a c := by
  by_cases later : q
  · exact ⟨fun _ => second.1 later, fun neither => absurd (.inr later) neither⟩
  · have same := second.2 later
    constructor
    · intro named
      rw [same, first.1 (named.resolve_right later)]
    · intro neither
      rw [same, first.2 fun named => neither (.inl named)]

theorem Emptied.congr {α : Type} {p q : Prop} {a b : Option α} (same : p ↔ q)
    (h : Emptied p a b) : Emptied q a b := propext same ▸ h

theorem Emptied.same {α : Type} {p : Prop} {a : Option α} (absent : ¬ p) : Emptied p a a :=
  ⟨fun named => absurd named absent, fun _ => rfl⟩

theorem emptied_update {α β : Type} [DecidableEq α] {f : α → Option β} {x y : α} :
    Emptied (y = x) (f y) (Function.update f x none y) := by
  constructor
  · intro same
    rw [same, Function.update_self]
  · intro other
    rw [Function.update_of_ne other]

theorem Handles.nil (process : Nat) (w : World V) : Handles process [] w w where
  inbox := rfl
  inboxes _ _ := rfl
  rows := rfl
  memory _ _ := .same (by simp)
  redis _ := .same (by simp)

theorem Handles.cons {process : Nat} {x : Message × Delivery} {handled : List (Message × Delivery)}
    {w m w' : World V} (first : Handles process [x] w m) (rest : Handles process handled m w') :
    Handles process (x :: handled) w w' where
  inbox := by
    rw [first.inbox, rest.inbox]
    rfl
  inboxes q other := (rest.inboxes q other).trans (first.inboxes q other)
  rows := rest.rows.trans first.rows
  memory place key := by
    apply ((first.memory place key).trans (rest.memory place key)).congr
    simp [and_or_left]
  redis key := by
    apply ((first.redis key).trans (rest.redis key)).congr
    simp

def promptly (client : Nat) (c : Command V) (redis : Delivery) (w : World V) :
    Reply V c × World V := exec client c { redis := redis } w

variable {client process : Nat} {w w' : World V} {r : Except RedisError Unit}

theorem invalidateAll_outcome {key : String} {caches : List CacheName}
    {next : CacheTask V (Except RedisError Unit)}
    (h : Task.Outcome (promptly client) (invalidateAll process key caches next) w r w') :
    ∃ m : World V, Task.Outcome (promptly client) next m r w' ∧
      m.inbox = w.inbox ∧ m.rows = w.rows ∧ m.redis = w.redis ∧
      ∀ place k, Emptied (place.process = process ∧ place.cache ∈ caches ∧ key = k)
        (w.memory (place, k)) (m.memory (place, k)) := by
  induction caches generalizing w with
  | nil => exact ⟨w, h, rfl, rfl, rfl, fun place k => .same (by simp)⟩
  | cons cache caches ih =>
    obtain ⟨_, h⟩ := h
    obtain ⟨m, rest, inbox, rows, redis, memory⟩ := ih h
    refine ⟨m, rest, inbox, rows, redis, ?_⟩
    intro place k
    apply (emptied_update.trans (memory place k)).congr
    obtain ⟨p, name⟩ := place
    simp only [Prod.mk.injEq, Place.mk.injEq, List.mem_cons]
    constructor
    · rintro (⟨⟨rfl, rfl⟩, rfl⟩ | ⟨rfl, mem, rfl⟩)
      · exact ⟨rfl, .inl rfl, rfl⟩
      · exact ⟨rfl, .inr mem, rfl⟩
    · rintro ⟨rfl, rfl | mem, rfl⟩
      · exact .inl ⟨⟨rfl, rfl⟩, rfl⟩
      · exact .inr ⟨rfl, mem, rfl⟩

theorem del_emptied (client : Nat) (key : String) (redis : Delivery) (w : World V) :
    (promptly client (.del key) redis w).2.inbox = w.inbox ∧
      (promptly client (.del key) redis w).2.rows = w.rows ∧
      (promptly client (.del key) redis w).2.memory = w.memory ∧
      ∀ k, Emptied (redis ≠ .lost ∧ key = k) (w.redis k)
        ((promptly client (.del key) redis w).2.redis k) := by
  cases redis with
  | lost => exact ⟨rfl, rfl, rfl, fun k => .same (by simp)⟩
  | answered | unanswered =>
    refine ⟨rfl, rfl, rfl, fun k => emptied_update.congr ?_⟩
    simp [eq_comm]

theorem Handles.malformed {message : Message}
    (malformed : CacheKind.tryFrom message.value = .error ())
    (inbox : w.inbox process = message :: w'.inbox process)
    (inboxes : ∀ q, q ≠ process → w'.inbox q = w.inbox q) (rows : w'.rows = w.rows)
    (memory : w'.memory = w.memory) (redis : w'.redis = w.redis) :
    Handles process [(message, .answered)] w w' where
  inbox := inbox
  inboxes := inboxes
  rows := rows
  memory place key := by
    rw [memory]
    apply Emptied.same
    simp [RedisValue.Names, malformed]
  redis key := by
    rw [redis]
    apply Emptied.same
    simp [Deletes, malformed]

theorem Handles.wellFormed {message : Message} {kind : CacheKind} {redis : Delivery}
    (decoded : CacheKind.tryFrom message.value = .ok kind)
    (inbox : w.inbox process = message :: w'.inbox process)
    (inboxes : ∀ q, q ≠ process → w'.inbox q = w.inbox q) (rows : w'.rows = w.rows)
    (memory : ∀ place k, Emptied (place.process = process ∧ place.cache ∈ kind.caches ∧
      kind.key = k) (w.memory (place, k)) (w'.memory (place, k)))
    (deleted : ∀ k, Emptied (redis ≠ .lost ∧ kind.key = k) (w.redis k) (w'.redis k)) :
    Handles process [(message, redis)] w w' where
  inbox := inbox
  inboxes := inboxes
  rows := rows
  memory place key := (memory place key).congr (by simp [RedisValue.Names, decoded])
  redis key := (deleted key).congr (by simp [Deletes, decoded])

theorem onMessage_first {messages : Nat} {message : Message} {rest : List Message}
    (waiting : w.inbox process = message :: rest)
    (h : Task.Outcome (promptly client) (onMessage process (messages + 1)).run w r w') :
    ∃ (redis : Delivery) (m : World V), Handles process [(message, redis)] w m ∧
      m.inbox process = rest ∧
      Task.Outcome (promptly client) (onMessage process messages).run m r w' := by
  rw [onMessage_message] at h
  obtain ⟨_, h⟩ := h
  simp only [promptly, exec, waiting, Bool.false_eq_true, if_false] at h
  have taken : ((w.dequeue process).note client (.received message)).inbox process = rest := by
    change Function.update w.inbox process (w.inbox process).tail process = rest
    rw [Function.update_self, waiting]
    rfl
  have others : ∀ q, q ≠ process →
      ((w.dequeue process).note client (.received message)).inbox q = w.inbox q :=
    fun q other => Function.update_of_ne other ..
  cases decoded : CacheKind.tryFrom message.value with
  | error e =>
    rw [decoded] at h
    refine ⟨_, _, .malformed decoded ?_ others rfl rfl rfl, taken, h⟩
    rw [waiting, taken]
  | ok kind =>
    rw [decoded] at h
    obtain ⟨m, ⟨redis, h⟩, inbox, rows, same, memory⟩ := invalidateAll_outcome h
    obtain ⟨inbox', rows', memory', deleted⟩ := del_emptied client kind.key redis m
    have left := congrFun (inbox'.trans inbox) process
    refine ⟨redis, _, .wellFormed decoded ?_ ?_ (rows'.trans rows) ?_ ?_, left.trans taken, h⟩
    · rw [waiting, left, taken]
    · intro q other
      rw [inbox', inbox]
      exact others q other
    · intro place k
      rw [memory']
      exact memory place k
    · rw [same] at deleted
      exact deleted

theorem onMessage_handles {messages : Nat}
    (h : Task.Outcome (promptly client) (onMessage process messages).run w r w') :
    r = .ok () ∧ ∃ handled, Handles process handled w w' ∧
      handled.length = min messages (w.inbox process).length := by
  induction messages generalizing w with
  | zero =>
    obtain ⟨rfl, rfl⟩ := h
    exact ⟨rfl, [], .nil process w, (Nat.zero_min _).symm⟩
  | succ messages ih =>
    cases waiting : w.inbox process with
    | nil =>
      rw [onMessage_message] at h
      obtain ⟨_, h⟩ := h
      simp only [promptly, exec, waiting] at h
      obtain ⟨rfl, rfl⟩ := h
      exact ⟨rfl, [], .nil process w, rfl⟩
    | cons message rest =>
      obtain ⟨redis, m, first, left, later⟩ := onMessage_first waiting h
      obtain ⟨ok, handled, after, number⟩ := ih later
      refine ⟨ok, _ :: handled, first.cons after, ?_⟩
      rw [List.length_cons, number, left, List.length_cons, Nat.succ_min_succ]

/-- What is published is what is handled, and nothing else is: whatever the answers are, a
subscriber follows the messages it receives, and those alone; where nobody else steps in, it
leaves every other entry as it was. -/
theorem invalidates_what_was_published :
    (∀ kind : CacheKind, CacheKind.tryFrom kind.toRedisValue = .ok kind) ∧
    (∀ value : RedisValue, (∀ kind : CacheKind, value ≠ kind.toRedisValue) →
      CacheKind.tryFrom value = .error ()) ∧
    (∀ process messages, (onMessage (V := V) process messages).run.ends
      (Listened process messages) []) ∧
    ∀ (client process messages : Nat) (w w' : World V) (r : Except RedisError Unit),
      Task.Outcome (promptly client) (onMessage process messages).run w r w' →
      r = .ok () ∧ ∃ handled, Handles process handled w w' ∧
        handled.length = min messages (w.inbox process).length := by
  refine ⟨tryFrom_toRedisValue, fun _ => tryFrom_other, ?_, fun _ _ _ _ _ _ => onMessage_handles⟩
  intro process messages
  apply (onMessage_listens []).mono
  rintro now r ⟨new, rfl, listened⟩
  exact listened

end Mercado.Cache
