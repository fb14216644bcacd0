import Mercado.Drainer.Fleet

/-! The shutdown of one drainer process. Its listener decides from a counter that a handler
raises only once it runs, and the loop goes on until the listener has decided. -/
namespace Mercado.Drainer.Fleet
open Async Redis

variable {φ δ π : Type}

/-- Every handler of the process has been begun, and no loop has been granted a stream and
not yet spawned its handler. -/
def Settled (h : Nat) (w : World φ) : Prop :=
  (∀ q, w.granted q ≠ some h) ∧
    ∀ q streamIndex, w.spawned q = some (h, streamIndex) → w.begun q = true

structure Idle (h : Nat) (w : World φ) : Prop where
  settled : Settled h w
  counted : w.counted h = []
  flags : ∀ key held, w.keys key = some held → held.setBy ≠ some h

/-- A step after which the listener of the process can rely on the counter: it sees no
active tasks only when the process is settled, from then on no flag is asked for, and
Redis loses no deletion of a flag and answers when it has set one. -/
def gracefulStep (h p : Nat) (cmd : Command φ δ) (o : Choice) (w : World φ) : Prop :=
  (cmd = .loadActiveTasks h → w.activeTasks h = 0 → Settled h w) ∧
    (∀ key value seconds, cmd = .setNxEx h key value seconds →
      (∀ q, w.sawIdle q ≠ some h) ∧ o.redis ≠ .unanswered) ∧
    ∀ key, cmd = .del key → p ∈ w.counted h → o.redis ≠ .lost

def graceful (h : Nat) (c : FleetConfig φ δ) (act : Action Choice (Env φ) Call) : Prop :=
  scheduled c act ∧ match act with
    | .step p o => ∀ call cmd k, c.procs p = .live call (.await cmd k) →
      gracefulStep h p cmd o c.world
    | .env (.dropped task) => ∀ streamIndex, c.world.spawned task ≠ some (h, streamIndex)
    | _ => True

theorem graceful_step {h p : Nat} {o : Choice} {c : FleetConfig φ δ} {call : Call}
    {cmd : Command φ δ} {k : Reply φ δ cmd → FleetTask φ δ (Except DrainerError Unit)}
    (live : c.procs p = .live call (.await cmd k))
    (runtime : ∀ handler streamIndex, cmd = .spawnTask handler streamIndex →
      c.procs o.task = .idle ∧ c.world.spawned o.task = none)
    (met : gracefulStep h p cmd o c.world) : graceful h c (.step p o) := by
  refine ⟨fun call' handler streamIndex k' live' => ?_, fun call' cmd' k' live' => ?_⟩
  · cases live.symm.trans live'
    exact runtime handler streamIndex rfl
  · cases live.symm.trans live'
    exact met

/-- Whose a flag of the process is: of a loop that has been granted it, or of the handler
spawned for it, which is counted once it has begun. -/
def Accounted (conf : DrainerSettings) (h : Nat) (key : String) (held : Held) (w : World φ) :
    Prop :=
  (∃ q, held.holder = some (.loop q) ∧ w.granted q = some h) ∨
    ∃ q streamIndex, held.holder = some (.handler q) ∧ w.spawned q = some (h, streamIndex) ∧
      key = getStreamKeyFlag conf streamIndex ∧ (w.begun q = true → q ∈ w.counted h)

structure Ledger (conf : DrainerSettings) (h : Nat) (w : World φ) : Prop where
  active : w.activeTasks h = (w.counted h).length
  flags : ∀ key held, w.keys key = some held → held.setBy = some h → Accounted conf h key held w
  begun : ∀ q, w.begun q = true → w.spawned q ≠ none

structure Keeps (h p : Nat) (w w' : World φ) : Prop where
  spawned : ∀ x, w.spawned p = some x → w'.spawned p = some x
  begun : w'.begun p = w.begun p
  granted : w'.granted p = w.granted p
  sawIdle : w'.sawIdle p = w.sawIdle p
  counted : p ∈ w.counted h → p ∈ w'.counted h
  loopFlags : ∀ key held, w'.keys key = some held → held.holder = some (.loop p) →
    w.keys key = some held
  handlerFlags : w.spawned p ≠ none → ∀ key held, w'.keys key = some held →
    held.holder = some (.handler p) → w.keys key = some held
  idle : w.sawIdle p = some h → Idle h w → Idle h w'

variable {conf : DrainerSettings} {h p q : Nat} {w w' : World φ}

theorem Keeps.apart (keys : w'.keys = w.keys) (spawned : w'.spawned p = w.spawned p)
    (begun : w'.begun p = w.begun p) (granted : w'.granted p = w.granted p)
    (sawIdle : w'.sawIdle p = w.sawIdle p) (counted : p ∈ w.counted h → p ∈ w'.counted h)
    (idle : Idle h w → Idle h w') : Keeps h p w w' where
  spawned := fun _ before => spawned.trans before
  begun := begun
  granted := granted
  sawIdle := sawIdle
  counted := counted
  loopFlags := fun key _ found _ => (congrFun keys key).symm.trans found
  handlerFlags := fun _ key _ found _ => (congrFun keys key).symm.trans found
  idle := fun _ => idle

theorem Keeps.refl (h p : Nat) (w : World φ) : Keeps h p w w :=
  .apart rfl rfl rfl rfl rfl id id

theorem Keeps.spawned_ne {x : World φ} (k : Keeps h p w x) (some : w.spawned p ≠ none) :
    x.spawned p ≠ none := by
  obtain ⟨y, spawned⟩ := Option.ne_none_iff_exists'.mp some
  rw [k.spawned y spawned]
  exact Option.some_ne_none y

theorem Keeps.trans {w₁ w₂ w₃ : World φ} (k : Keeps h p w₁ w₂) (l : Keeps h p w₂ w₃) :
    Keeps h p w₁ w₃ where
  spawned := fun x spawned => l.spawned x (k.spawned x spawned)
  begun := l.begun.trans k.begun
  granted := l.granted.trans k.granted
  sawIdle := l.sawIdle.trans k.sawIdle
  counted := fun mem => l.counted (k.counted mem)
  loopFlags := fun key held found mine => k.loopFlags key held (l.loopFlags key held found mine) mine
  handlerFlags := fun some key held found mine =>
    k.handlerFlags some key held (l.handlerFlags (k.spawned_ne some) key held found mine) mine
  idle := fun saw idle => l.idle (k.sawIdle.trans saw) (k.idle saw idle)

/- Changes of the flags alone. -/

theorem Idle.setKey {key : String} {held : Option Held} (idle : Idle h w)
    (other : ∀ x, held = some x → x.setBy ≠ some h) : Idle h (w.setKey key held) where
  settled := idle.settled
  counted := idle.counted
  flags := by
    intro key' held' found
    rcases World.setKey_found found with ⟨_, new⟩ | ⟨_, found⟩
    · exact other held' new
    · exact idle.flags key' held' found

theorem Keeps.setKey {key : String} {held : Option Held}
    (foreign : ∀ x, held = some x → x.holder ≠ some (.loop p) ∧
      (w.spawned p ≠ none → x.holder ≠ some (.handler p)))
    (idle : w.sawIdle p = some h → ∀ x, held = some x → x.setBy ≠ some h) :
    Keeps h p w (w.setKey key held) where
  spawned := fun _ spawned => spawned
  begun := rfl
  granted := rfl
  sawIdle := rfl
  counted := id
  loopFlags := by
    intro key' held' found mine
    rcases World.setKey_found found with ⟨_, new⟩ | ⟨_, found⟩
    · exact absurd mine (foreign held' new).1
    · exact found
  handlerFlags := by
    intro some key' held' found mine
    rcases World.setKey_found found with ⟨_, new⟩ | ⟨_, found⟩
    · exact absurd mine ((foreign held' new).2 some)
    · exact found
  idle := fun saw before => before.setKey (idle saw)

theorem Ledger.setKey {key : String} {held : Option Held} (ledger : Ledger conf h w)
    (accounted : ∀ x, held = some x → x.setBy = some h → Accounted conf h key x w) :
    Ledger conf h (w.setKey key held) where
  active := ledger.active
  flags := by
    intro key' held' found setBy
    rcases World.setKey_found found with ⟨rfl, new⟩ | ⟨_, found⟩
    · exact accounted held' new setBy
    · exact ledger.flags key' held' found setBy
  begun := ledger.begun

theorem Ledger.no_loop_flag (ledger : Ledger conf h w) (none : w.granted p = none) {key : String}
    {held : Held} (found : w.keys key = some held) (setBy : held.setBy = some h) :
    held.holder ≠ some (.loop p) := by
  intro mine
  rcases ledger.flags key held found setBy with ⟨q, other, granted⟩ | ⟨q, _, other, _⟩
  · cases mine.symm.trans other
    exact nomatch none.symm.trans granted
  · cases mine.symm.trans other

theorem Ledger.idle (ledger : Ledger conf h w) (settled : Settled h w)
    (none : w.activeTasks h = 0) : Idle h w where
  settled := settled
  counted := List.eq_nil_of_length_eq_zero (ledger.active.symm.trans none)
  flags := by
    have counted := List.eq_nil_of_length_eq_zero (ledger.active.symm.trans none)
    intro key held found setBy
    rcases ledger.flags key held found setBy with
      ⟨q, _, granted⟩ | ⟨q, streamIndex, _, spawned, _, active⟩
    · exact settled.1 q granted
    · have mem := active (settled.2 q streamIndex spawned)
      rw [counted] at mem
      cases mem

/- The commands. -/

section Steps

variable (conf h p)

def duty (call : Call) (cmd : Command φ δ) (w : World φ) : Prop :=
  (∀ streamIndex, call = .drainerHandler h streamIndex →
    w.spawned p = some (h, streamIndex) ∧ w.begun p = false ∨ p ∈ w.counted h) ∧
    (cmd = .storeRunning h false → Idle h w)

def shutdownSetting (call : Call) : Setting (Command φ δ) (Reply φ δ) (World φ) Choice where
  exec := exec conf p
  inv := Ledger conf h
  rely := Keeps h p
  guar := fun cmd w w' => duty h p call cmd w ∧ ∀ q, q ≠ p → Keeps h q w w'
  allow := fun cmd o w => gracefulStep h p cmd o w ∧
    ∀ handler streamIndex, cmd = .spawnTask handler streamIndex → w.spawned o.task = none

variable {conf h p} {call : Call}

abbrev Rule (conf : DrainerSettings) (h p : Nat) (call : Call) (I : World φ → Prop)
    (cmd : Command φ δ) (Q : Reply φ δ cmd → World φ → Prop) : Prop :=
  (shutdownSetting conf h p call).Step I cmd Q

theorem unaccounted_step {cmd : Command φ δ} {I : World φ → Prop}
    (mine : ∀ w, I w → duty h p call cmd w)
    (ledger : ∀ w o, Ledger conf h w → Ledger conf h (exec conf p cmd o w).2)
    (others : ∀ w o q, q ≠ p → Keeps h q w (exec conf p cmd o w).2)
    (kept : ∀ w o, I w → I (exec conf p cmd o w).2) : Rule conf h p call I cmd fun _ => I :=
  fun w o inv _ holds => ⟨⟨mine w holds, others w o⟩, ledger w o inv, kept w o holds⟩

theorem Ledger.grant {handler : Nat} {key value : String} (ledger : Ledger conf h w)
    (none : w.granted p = none) : Ledger conf h (w.grant handler key value p) where
  active := ledger.active
  flags := by
    intro key' held found setBy
    rcases World.setKey_found found with ⟨_, new⟩ | ⟨_, before⟩
    · cases new
      cases setBy
      exact .inl ⟨p, rfl, World.grant_self ..⟩
    · rcases ledger.flags key' held before setBy with ⟨q, mine, granted⟩ | handed
      · have differ : q ≠ p := by
          rintro rfl
          exact nomatch none.symm.trans granted
        exact .inl ⟨q, mine, (World.grant_other differ ..).trans granted⟩
      · exact .inr handed
  begun := ledger.begun

theorem Keeps.grant {handler : Nat} {key value : String} (differ : q ≠ p)
    (foreign : w.sawIdle q = some h → handler ≠ h) :
    Keeps h q w (w.grant handler key value p) := by
  have set : Keeps h q w (w.setKey key (some ⟨value, some handler, some (.loop p)⟩)) := by
    refine .setKey (fun x new => ?_) fun saw x new => ?_
    · cases new
      exact ⟨fun same => differ (Holder.loop.inj (Option.some.inj same)).symm, fun _ => nofun⟩
    · cases new
      exact fun same => foreign saw (Option.some.inj same)
  have settled : w.sawIdle q = some h → Settled h w → Settled h (w.grant handler key value p) := by
    refine fun saw before => ⟨fun r granted => ?_, before.2⟩
    by_cases own : r = p
    · rw [own, World.grant_self] at granted
      exact foreign saw (Option.some.inj granted)
    · rw [World.grant_other own] at granted
      exact before.1 r granted
  exact { set with
    granted := World.grant_other differ ..
    idle := fun saw before =>
      ⟨settled saw before.settled, before.counted, (set.idle saw before).flags⟩ }

theorem setNxEx_rule {handler rounds seconds : Nat} {key value : String} :
    Rule conf h p (.spawn handler rounds) (fun w : World φ => w.granted p = none)
      (.setNxEx handler key value seconds : Command φ δ) fun r w =>
        (∀ text, r = .ok (some text) → w.granted p = some handler ∧
          ∀ key' held, w.keys key' = some held → held.setBy = some h →
            held.holder = some (.loop p) → key' = key) ∧
        ((∀ text, r ≠ .ok (some text)) → w.granted p = none) := by
  intro w o inv allowed none
  have mine : duty h p (.spawn handler rounds) (.setNxEx handler key value seconds : Command φ δ) w :=
    ⟨nofun, nofun⟩
  have foreign : ∀ q, w.sawIdle q = some h → handler ≠ h := by
    rintro q saw rfl
    exact (allowed.1.2.1 key value seconds rfl).1 q saw
  rcases setNxEx_cases (δ := δ) conf p handler seconds key value o w with
    ⟨same, refused⟩ | ⟨free, _, same⟩ | ⟨free, sent, same⟩
  · refine ⟨⟨mine, fun q _ => ?_⟩, ?_, fun text ok => absurd ok (refused text), fun _ => ?_⟩ <;>
      simp only [shutdownSetting, same]
    · exact .refl h q w
    · exact inv
    · exact none
  · simp only [shutdownSetting, same]
    refine ⟨⟨mine, fun q differ => .grant differ (foreign q)⟩, inv.grant none,
      fun text _ => ⟨World.grant_self .., fun key' held found setBy holder => ?_⟩,
      fun refused => absurd rfl (refused "OK")⟩
    rcases World.setKey_found found with ⟨same, _⟩ | ⟨_, before⟩
    · exact same
    · exact absurd holder (inv.no_loop_flag none before setBy)
  · have other : handler ≠ h := by
      rintro rfl
      exact (allowed.1.2.1 key value seconds rfl).2 sent
    simp only [shutdownSetting, same]
    refine ⟨⟨mine, fun q _ => .setKey (fun x new => ?_) fun _ x new => ?_⟩,
      inv.setKey fun x new setBy => ?_, nofun, fun _ => none⟩
    · cases new
      exact ⟨nofun, fun _ => nofun⟩
    · cases new
      exact fun same => other (Option.some.inj same)
    · cases new
      exact absurd (Option.some.inj setBy) other

theorem Ledger.spawnTask {handler task : Nat} {streamIndex : UInt8} (ledger : Ledger conf h w)
    (granted : w.granted p = some handler) (fresh : w.spawned task = none)
    (only : ∀ key held, w.keys key = some held → held.setBy = some h →
      held.holder = some (.loop p) → key = getStreamKeyFlag conf streamIndex) :
    Ledger conf h
      (w.spawnTask handler streamIndex (getStreamKeyFlag conf streamIndex) p task) := by
  obtain ⟨begun, _, counted, activeTasks⟩ :=
    w.spawnTask_rest handler streamIndex (getStreamKeyFlag conf streamIndex) p task
  have notYet : w.begun task = false := by
    cases begunTask : w.begun task with
    | false => rfl
    | true => exact absurd fresh (ledger.begun task begunTask)
  -- an entry of the ledger that is not the one handed over
  have kept : ∀ key held, w.keys key = some held → held.setBy = some h →
      held.holder ≠ some (.loop p) → Accounted conf h key held
        (w.spawnTask handler streamIndex (getStreamKeyFlag conf streamIndex) p task) := by
    intro key held found setBy other
    rcases ledger.flags key held found setBy with
      ⟨q, mine, granted⟩ | ⟨q, i, mine, waits, flag, active⟩
    · have differ : q ≠ p := by
        rintro rfl
        exact other mine
      exact .inl ⟨q, mine, (w.spawnTask_granted_other _ _ _ _ differ).trans granted⟩
    · have differ : q ≠ task := by
        rintro rfl
        exact Option.some_ne_none _ (waits.symm.trans fresh)
      refine .inr ⟨q, i, mine, (w.spawnTask_spawned_other _ _ _ _ differ).trans waits, flag, ?_⟩
      rw [begun, counted]
      exact active
  refine ⟨?_, fun key held found setBy => ?_, fun q begunTask => ?_⟩
  · rw [activeTasks, counted]
    exact ledger.active
  · rcases spawnTask_keys found with ⟨before, other⟩ | ⟨rfl, old, atKey, mine, rfl⟩
    · exact kept key held before setBy fun own => other own (only key held before setBy own)
    · have own : handler = h := by
        rcases ledger.flags _ old atKey setBy with ⟨q, theirs, granted'⟩ | ⟨q, _, theirs, _⟩
        · cases mine.symm.trans theirs
          exact Option.some.inj (granted.symm.trans granted')
        · cases mine.symm.trans theirs
      refine .inr ⟨task, streamIndex, rfl, ?_, rfl, fun running => ?_⟩
      · rw [← own]
        exact w.spawnTask_spawned_self ..
      · rw [begun, notYet] at running
        cases running
  · by_cases new : q = task
    · rw [new, w.spawnTask_spawned_self]
      exact Option.some_ne_none _
    · rw [begun] at begunTask
      rw [w.spawnTask_spawned_other _ _ _ _ new]
      exact ledger.begun q begunTask

theorem Idle.spawnTask {handler task : Nat} {streamIndex : UInt8} {key : String}
    (granted : w.granted p = some handler) (idle : Idle h w) :
    Idle h (w.spawnTask handler streamIndex key p task) := by
  obtain ⟨begun, _, counted, _⟩ := w.spawnTask_rest handler streamIndex key p task
  refine ⟨⟨fun r grantedNow => ?_, fun r i spawned => ?_⟩, ?_, fun key' held found => ?_⟩
  · by_cases own : r = p
    · rw [own, w.spawnTask_granted_self] at grantedNow
      cases grantedNow
    · rw [w.spawnTask_granted_other _ _ _ _ own] at grantedNow
      exact idle.settled.1 r grantedNow
  · by_cases new : r = task
    · rw [new, w.spawnTask_spawned_self] at spawned
      cases spawned
      exact absurd granted (idle.settled.1 p)
    · rw [w.spawnTask_spawned_other _ _ _ _ new] at spawned
      rw [begun]
      exact idle.settled.2 r i spawned
  · rw [counted]
    exact idle.counted
  · rcases spawnTask_keys found with ⟨before, _⟩ | ⟨rfl, old, atKey, _, rfl⟩
    · exact idle.flags key' held before
    · exact idle.flags key' old atKey

theorem Keeps.spawnTask {handler task : Nat} {streamIndex : UInt8} {key : String}
    (granted : w.granted p = some handler) (fresh : w.spawned task = none) (differ : q ≠ p) :
    Keeps h q w (w.spawnTask handler streamIndex key p task) := by
  obtain ⟨begun, sawIdle, counted, _⟩ := w.spawnTask_rest handler streamIndex key p task
  have stays : ∀ r, w.spawned r ≠ none → r ≠ task := by
    rintro r some rfl
    exact some fresh
  exact {
    spawned := by
      intro x spawned
      have other := stays q (spawned ▸ Option.some_ne_none x)
      exact (w.spawnTask_spawned_other _ _ _ _ other).trans spawned
    begun := congrFun begun q
    granted := w.spawnTask_granted_other _ _ _ _ differ
    sawIdle := congrFun sawIdle q
    counted := fun mem => counted ▸ mem
    loopFlags := by
      intro key' held found mine
      rcases spawnTask_keys found with ⟨before, _⟩ | ⟨_, _, _, _, rfl⟩
      · exact before
      · cases mine
    handlerFlags := by
      intro some key' held found mine
      rcases spawnTask_keys found with ⟨before, _⟩ | ⟨_, _, _, _, rfl⟩
      · exact before
      · cases mine
        exact absurd rfl (stays q some)
    idle := fun _ => .spawnTask granted }

theorem spawnTask_rule {handler rounds : Nat} {streamIndex : UInt8} :
    Rule conf h p (.spawn handler rounds)
      (fun w : World φ => w.granted p = some handler ∧ ∀ key held, w.keys key = some held →
        held.setBy = some h → held.holder = some (.loop p) → key = getStreamKeyFlag conf streamIndex)
      (.spawnTask handler streamIndex : Command φ δ) fun _ w => w.granted p = none := by
  intro w o inv allowed ⟨granted, only⟩
  have fresh := allowed.2 handler streamIndex rfl
  exact ⟨⟨⟨nofun, nofun⟩, fun q differ => .spawnTask granted fresh differ⟩,
    inv.spawnTask granted fresh only, Function.update_self ..⟩

/- The handlers. -/

theorem handler_duty {handler : Nat} {streamIndex : UInt8} {cmd : Command φ δ}
    (other : cmd ≠ .storeRunning h false)
    (mine : handler = h → w.spawned p = some (h, streamIndex) ∧ w.begun p = false ∨
      p ∈ w.counted h) : duty h p (.drainerHandler handler streamIndex) cmd w := by
  refine ⟨?_, fun same => absurd same other⟩
  rintro _ ⟨⟩
  exact mine rfl

theorem fetchAdd_rule {handler : Nat} {streamIndex : UInt8} :
    Rule conf h p (.drainerHandler handler streamIndex)
      (fun w : World φ => w.spawned p = some (handler, streamIndex) ∧ w.begun p = false)
      (.fetchAdd handler : Command φ δ) fun _ w =>
        w.spawned p = some (handler, streamIndex) ∧ (handler = h → p ∈ w.counted h) := by
  intro w o inv _ ⟨spawned, notYet⟩
  have more : ∀ q, q ∈ w.counted h → q ∈ (w.beginTask handler p).counted h := by
    intro q mem
    by_cases own : h = handler
    · subst own
      simp [World.beginTask, mem]
    · simpa [World.beginTask, own] using mem
  have mine : handler = h → p ∈ (w.beginTask handler p).counted h := by
    rintro rfl
    simp [World.beginTask]
  refine ⟨⟨handler_duty nofun ?_, fun q differ => ?_⟩, ⟨?_, fun key held found setBy => ?_,
    fun q begun => ?_⟩, spawned, mine⟩
  · rintro rfl
    exact .inl ⟨spawned, notYet⟩
  · have begun : (w.beginTask handler p).begun q = w.begun q := Function.update_of_ne differ ..
    refine .apart rfl rfl begun rfl rfl (more q) fun idle =>
      ⟨⟨idle.settled.1, fun r i waits => ?_⟩, ?_, idle.flags⟩
    · by_cases own : r = p
      · rw [own]
        exact Function.update_self ..
      · exact (Function.update_of_ne own ..).trans (idle.settled.2 r i waits)
    · have other : h ≠ handler := by
        rintro rfl
        exact nomatch notYet.symm.trans (idle.settled.2 p streamIndex spawned)
      exact (Function.update_of_ne other ..).trans idle.counted
  · by_cases own : h = handler
    · subst own
      simpa [shutdownSetting, exec, World.beginTask] using inv.active
    · simpa [shutdownSetting, exec, World.beginTask, own] using inv.active
  · rcases inv.flags key held found setBy with granted | ⟨q, i, theirs, waits, flag, active⟩
    · exact .inl granted
    · refine .inr ⟨q, i, theirs, waits, flag, fun begun => ?_⟩
      by_cases own : q = p
      · subst own
        cases spawned.symm.trans waits
        exact mine rfl
      · exact more q (active ((Function.update_of_ne own ..).symm.trans begun))
  · by_cases own : q = p
    · rw [own]
      exact spawned ▸ Option.some_ne_none _
    · exact inv.begun q ((Function.update_of_ne own ..).symm.trans begun)

theorem del_rule {handler : Nat} {streamIndex : UInt8} :
    Rule conf h p (.drainerHandler handler streamIndex)
      (fun w : World φ => w.spawned p = some (handler, streamIndex) ∧
        (handler = h → p ∈ w.counted h))
      (.del (getStreamKeyFlag conf streamIndex) : Command φ δ) fun _ w =>
        (w.spawned p = some (handler, streamIndex) ∧ (handler = h → p ∈ w.counted h)) ∧
          ∀ key held, w.keys key = some held → held.setBy = some h →
            held.holder ≠ some (.handler p) := by
  intro w o inv allowed ⟨spawned, mine⟩
  have duty : duty h p (.drainerHandler handler streamIndex)
      (.del (getStreamKeyFlag conf streamIndex) : Command φ δ) w :=
    handler_duty nofun fun own => .inr (mine own)
  have own : ∀ key held, w.keys key = some held → held.setBy = some h →
      held.holder = some (.handler p) → handler = h ∧ key = getStreamKeyFlag conf streamIndex := by
    intro key held found setBy theirs
    rcases inv.flags key held found setBy with ⟨q, loop, _⟩ | ⟨q, i, holder, waits, flag, _⟩
    · cases theirs.symm.trans loop
    · cases theirs.symm.trans holder
      cases spawned.symm.trans waits
      exact ⟨rfl, flag⟩
  rcases del_cases (δ := δ) conf p (getStreamKeyFlag conf streamIndex) o w with ⟨same, lost⟩ | same
    <;> simp only [shutdownSetting, same]
  · refine ⟨⟨duty, fun q _ => .refl h q w⟩, inv, ⟨spawned, mine⟩, fun key held found setBy theirs => ?_⟩
    exact allowed.1.2.2 _ rfl (mine (own key held found setBy theirs).1) lost
  · refine ⟨⟨duty, fun q _ => .setKey nofun fun _ => nofun⟩, inv.setKey nofun, ⟨spawned, mine⟩,
      fun key held found setBy theirs => ?_⟩
    rcases World.setKey_found found with ⟨_, new⟩ | ⟨differ, before⟩
    · cases new
    · exact differ (own key held before setBy theirs).2

theorem fetchSub_rule {handler : Nat} {streamIndex : UInt8} :
    Rule conf h p (.drainerHandler handler streamIndex)
      (fun w : World φ => (w.spawned p = some (handler, streamIndex) ∧
        (handler = h → p ∈ w.counted h)) ∧ ∀ key held, w.keys key = some held →
          held.setBy = some h → held.holder ≠ some (.handler p))
      (.fetchSub handler : Command φ δ) fun _ _ => True := by
  intro w o inv _ ⟨⟨spawned, mine⟩, released⟩
  have stays : ∀ q, q ≠ p → q ∈ w.counted h → q ∈ (w.endTask handler p).counted h := by
    intro q differ mem
    by_cases own : h = handler
    · subst own
      simpa [World.endTask, List.mem_erase_of_ne differ] using mem
    · simpa [World.endTask, own] using mem
  refine ⟨⟨handler_duty nofun fun own => .inr (mine own), fun q differ => ?_⟩,
    ⟨?_, fun key held found setBy => ?_, inv.begun⟩, trivial⟩
  · refine .apart rfl rfl rfl rfl rfl (stays q differ) fun idle => ⟨idle.settled, ?_, idle.flags⟩
    by_cases own : h = handler
    · subst own
      simp [shutdownSetting, exec, World.endTask, idle.counted]
    · simpa [shutdownSetting, exec, World.endTask, own] using idle.counted
  · by_cases own : h = handler
    · subst own
      have shorter := List.length_erase_of_mem (mine rfl)
      have := inv.active
      simp only [shutdownSetting, exec, World.endTask, Function.update_self]
      omega
    · simpa [shutdownSetting, exec, World.endTask, own] using inv.active
  · rcases inv.flags key held found setBy with granted | ⟨q, i, theirs, waits, flag, active⟩
    · exact .inl granted
    · have differ : q ≠ p := by
        rintro rfl
        exact released key held found setBy theirs
      exact .inr ⟨q, i, theirs, waits, flag, fun begun => stays q differ (active begun)⟩

/- The listener. -/

theorem listener_duty {handler polls signals : Nat} {cmd : Command φ δ}
    (mine : cmd = .storeRunning h false → Idle h w) :
    duty h p (.shutdownListener handler polls signals) cmd w := ⟨nofun, mine⟩

theorem loadActiveTasks_rule {handler polls signals : Nat} :
    Rule conf h p (.shutdownListener handler polls signals) (fun _ : World φ => True)
      (.loadActiveTasks handler : Command φ δ) fun r w =>
        r = 0 → handler = h → w.sawIdle p = some h ∧ Idle h w := by
  intro w o inv allowed _
  have mine : duty h p (.shutdownListener handler polls signals)
      (.loadActiveTasks handler : Command φ δ) w :=
    listener_duty fun stores => by cases stores
  by_cases none : w.activeTasks handler = 0
  · simp only [shutdownSetting, exec, none, if_true]
    refine ⟨⟨mine, fun q differ => ?_⟩, ⟨inv.active, inv.flags, inv.begun⟩, ?_⟩
    · exact .apart rfl rfl rfl rfl (Function.update_of_ne differ ..) id
        fun idle => ⟨idle.1, idle.2, idle.3⟩
    · rintro _ rfl
      have idle := inv.idle (allowed.1.1 rfl none) none
      exact ⟨Function.update_self .., ⟨idle.1, idle.2, idle.3⟩⟩
  · simp only [shutdownSetting, exec, none, if_false]
    exact ⟨⟨mine, fun q _ => .refl h q w⟩, inv, False.elim⟩

theorem storeRunning_rule {handler polls signals : Nat} :
    Rule conf h p (.shutdownListener handler polls signals)
      (fun w : World φ => handler = h → w.sawIdle p = some h ∧ Idle h w)
      (.storeRunning handler false : Command φ δ) fun _ _ => True := by
  intro w o inv _ idle
  refine ⟨⟨listener_duty ?_, fun q differ => ?_⟩, ⟨inv.active, inv.flags, inv.begun⟩, trivial⟩
  · rintro ⟨⟩
    exact (idle rfl).2
  · exact .apart rfl rfl rfl rfl (Function.update_of_ne differ ..) id
      fun idle => ⟨idle.1, idle.2, idle.3⟩

/- The functions. -/

variable {π : Type} {fromHashmap : φ → Except π δ}

theorem kept_spawned {handler : Nat} {streamIndex : UInt8} :
    (shutdownSetting conf h p call : Setting (Command φ δ) _ _ _).Stable fun w =>
      w.spawned p = some (handler, streamIndex) ∧ (handler = h → p ∈ w.counted h) :=
  fun _ _ moved _ holds => ⟨moved.spawned _ holds.1, fun own => moved.counted (holds.2 own)⟩

theorem onShard_shutdown {α : Type} {handler : Nat} {streamIndex : UInt8} (t : DrainerTask φ δ α)
    (holds : w.spawned p = some (handler, streamIndex) ∧ (handler = h → p ∈ w.counted h)) :
    (shutdownSetting conf h p (.drainerHandler handler streamIndex)).Holds
      (fun _ w => w.spawned p = some (handler, streamIndex) ∧ (handler = h → p ∈ w.counted h))
      (onShard streamIndex t) w := by
  induction t generalizing w with
  | done a => exact holds
  | await c k ih =>
    refine .await kept_spawned (unaccounted_step ?_ ?_ ?_ ?_) (fun r _ holds => ih r holds) holds
    · exact fun w holds => handler_duty nofun fun own => .inr (holds.2 own)
    · exact fun w o ledger => ⟨ledger.active, ledger.flags, ledger.begun⟩
    · exact fun w o q _ => .apart rfl rfl rfl rfl rfl id fun idle => ⟨idle.1, idle.2, idle.3⟩
    · exact fun w o holds => holds

theorem drainerHandler_shutdown {handler : Nat} {streamIndex : UInt8}
    (begins : w.spawned p = some (handler, streamIndex) ∧ w.begun p = false) :
    (shutdownSetting conf h p (.drainerHandler handler streamIndex)).Holds (fun _ _ => True)
      (drainerHandler conf fromHashmap handler streamIndex) w := by
  refine .await (fun _ _ moved _ waits => ⟨moved.spawned _ waits.1, moved.begun.trans waits.2⟩)
    fetchAdd_rule (fun _ w holds => ?_) begins
  rw [Task.bind_done]
  refine .bind ((onShard_shutdown _ holds).mono fun _ w holds => ?_)
  refine .bind (.bind (.bind ((Setting.Holds.call kept_spawned del_rule holds).mono ?_)))
  intro reply w holds
  have rest : ∀ output : Except DrainerError Unit,
      (shutdownSetting conf h p (.drainerHandler handler streamIndex)).Holds (fun _ _ => True)
        (Task.await (.fetchSub handler) fun _ => .done output : FleetTask φ δ _) w := by
    intro output
    refine .await (fun _ _ moved _ holds => ?_) fetchSub_rule (fun _ _ _ => trivial) holds
    refine ⟨⟨moved.spawned _ holds.1.1, fun own => moved.counted (holds.1.2 own)⟩,
      fun key held found setBy theirs => ?_⟩
    have before := moved.handlerFlags (holds.1.1 ▸ Option.some_ne_none _) key held found theirs
    exact holds.2 key held before setBy theirs
  cases (reply.bind DelReply.fromValue).mapError fun _ => RedisError.deleteFailed with
  | error e => exact rest _
  | ok resp => cases resp <;> exact rest _

theorem kept_granted {x : Option Nat} :
    (shutdownSetting conf h p call : Setting (Command φ δ) _ _ _).Stable fun w => w.granted p = x :=
  fun _ _ moved _ granted => moved.granted.trans granted

theorem isStreamAvailable_shutdown {handler rounds : Nat} {streamIndex : UInt8}
    (free : w.granted p = none) :
    (shutdownSetting conf h p (.spawn handler rounds) : Setting (Command φ δ) _ _ _).Holds
      (fun available w => if available then w.granted p = some handler ∧ ∀ key held,
          w.keys key = some held → held.setBy = some h → held.holder = some (.loop p) →
            key = getStreamKeyFlag conf streamIndex
        else w.granted p = none)
      (isStreamAvailable conf handler streamIndex) w := by
  refine .bind (.bind ((Setting.Holds.call kept_granted setNxEx_rule free).mono ?_))
  intro reply w ⟨granted, refused⟩
  match reply with
  | .error () => exact refused nofun
  | .ok none => exact refused nofun
  | .ok (some text) => exact granted text rfl

theorem spawn_shutdown {handler rounds later : Nat} {streamIndex : UInt8}
    (free : w.granted p = none) :
    (shutdownSetting conf h p (.spawn handler rounds) : Setting (Command φ δ) _ _ _).Holds
      (fun _ _ => True) (spawn conf handler later streamIndex) w := by
  induction later generalizing streamIndex w with
  | zero => trivial
  | succ later ih =>
    refine .await kept_granted (unaccounted_step (fun _ _ => ⟨nofun, nofun⟩)
      (fun _ _ ledger => ledger) (fun w _ q _ => .refl h q w) fun _ _ free => free)
      (fun running w free => ?_) free
    cases running with
    | false => trivial
    | true =>
      simp only [Task.bind_done, if_true]
      refine .bind ((isStreamAvailable_shutdown free).mono fun available w granted => ?_)
      cases available with
      | false => exact ih granted
      | true =>
        refine .await (fun _ _ moved _ holds => ⟨moved.granted.trans holds.1, ?_⟩) spawnTask_rule
          (fun _ _ free => ih free) granted
        intro key held found setBy theirs
        exact holds.2 key held (moved.loopFlags key held found theirs) setBy theirs

theorem unconcerned_stable :
    (shutdownSetting conf h p call : Setting (Command φ δ) _ _ _).Stable fun _ => True :=
  fun _ _ _ _ _ => trivial

theorem awaitIdle_shutdown {handler polls signals looks : Nat} :
    (shutdownSetting conf h p (.shutdownListener handler polls signals) :
      Setting (Command φ δ) _ _ _).Holds
      (fun idle w => idle = true → handler = h → w.sawIdle p = some h ∧ Idle h w)
      (awaitIdle handler looks) w := by
  induction looks generalizing w with
  | zero => nofun
  | succ looks ih =>
    refine .await unconcerned_stable loadActiveTasks_rule (fun active w saw => ?_) trivial
    rw [Task.bind_done]
    split
    · rename_i none
      exact fun _ => saw none
    · exact ih

theorem shutdownListener_shutdown {handler polls signals later : Nat} :
    (shutdownSetting conf h p (.shutdownListener handler polls signals) :
      Setting (Command φ δ) _ _ _).Holds (fun _ _ => True)
      (shutdownListener handler polls later) w := by
  induction later generalizing w with
  | zero => trivial
  | succ later ih =>
    refine .await unconcerned_stable (unaccounted_step (fun _ _ => listener_duty nofun)
      (fun _ _ ledger => ledger) (fun w _ q _ => .refl h q w) fun _ _ _ => trivial)
      (fun signal w _ => ?_) trivial
    cases signal with
    | none => trivial
    | some signal =>
      rw [Task.bind_done]
      refine .bind (awaitIdle_shutdown.mono fun idle w saw => ?_)
      cases idle with
      | false => trivial
      | true =>
        refine .await (fun _ _ moved _ holds => ?_) storeRunning_rule (fun _ _ _ => ih) (saw rfl)
        intro own
        obtain ⟨saw, idle⟩ := holds own
        exact ⟨moved.sawIdle.trans saw, moved.idle saw idle⟩

end Steps

/- Whole runs. -/

variable {fromHashmap : φ → Except π δ} {keys : String → Option String}
  {shards : UInt8 → Shard φ}

theorem start_ledger : Ledger conf h (World.start keys shards) where
  active := rfl
  flags := by
    intro key held found setBy
    obtain ⟨value, _, rfl⟩ := Option.map_eq_some_iff.mp found
    cases setBy
  begun := nofun

/-- A task that has not begun is dropped, and it was of another process. -/
theorem Ledger.drop {task : Nat} (ledger : Ledger conf h w) (notYet : ¬ w.begun task = true)
    (other : ∀ streamIndex, w.spawned task ≠ some (h, streamIndex)) :
    Ledger conf h { w with spawned := Function.update w.spawned task none } ∧
      ∀ q, q ≠ task → Keeps h q w { w with spawned := Function.update w.spawned task none } := by
  have spawned : ∀ q, q ≠ task → Function.update w.spawned task none q = w.spawned q :=
    fun q differ => Function.update_of_ne differ ..
  refine ⟨⟨ledger.active, fun key held found setBy => ?_, fun q begun => ?_⟩, fun q differ => ?_⟩
  · rcases ledger.flags key held found setBy with granted | ⟨q, i, theirs, waits, flag, active⟩
    · exact .inl granted
    · have differ : q ≠ task := by
        rintro rfl
        exact other i waits
      exact .inr ⟨q, i, theirs, (spawned q differ).trans waits, flag, active⟩
  · have differ : q ≠ task := by
      rintro rfl
      exact notYet begun
    exact fun none => ledger.begun q begun ((spawned q differ).symm.trans none)
  · refine ⟨fun x waits => (spawned q differ).trans waits, rfl, rfl, rfl, id,
      fun _ _ found _ => found, fun _ _ _ found _ => found,
      fun _ idle => ⟨⟨idle.settled.1, fun r i waits => ?_⟩, idle.counted, idle.flags⟩⟩
    by_cases own : r = task
    · rw [own] at waits
      cases (Function.update_self ..).symm.trans waits
    · exact idle.settled.2 r i ((spawned r own).symm.trans waits)

def processes (conf : DrainerSettings) (fromHashmap : φ → Except π δ)
    (keys : String → Option String) (shards : UInt8 → Shard φ) (h : Nat) :
    Discipline (machine conf fromHashmap) (graceful h) (fleetStart keys shards) where
  inv := Ledger conf h
  rely := Keeps h
  guar := fun p call cmd w w' => duty h p call cmd w ∧ ∀ q, q ≠ p → Keeps h q w w'
  allow := fun p cmd o w => gracefulStep h p cmd o w ∧
    ∀ handler streamIndex, cmd = .spawnTask handler streamIndex → w.spawned o.task = none
  post := fun _ _ _ _ => True
  rely_refl := Keeps.refl h
  rely_trans := fun _ _ _ _ k l => k.trans l
  starts := ⟨start_ledger, fun _ => rfl⟩
  allowed := by
    rintro c p o call cmd k live ⟨runtime, met⟩
    refine ⟨met call cmd k live, ?_⟩
    rintro handler streamIndex rfl
    exact (runtime call handler streamIndex k live).2
  spawned := by
    rintro c p call reached _ idle ⟨runtime, _⟩
    have fresh := idle_unrecorded reached (fun _ => ⟨rfl, rfl, rfl⟩) p idle
    cases call with
    | spawn handler rounds => exact spawn_shutdown fresh.2.1
    | drainerHandler handler streamIndex => exact drainerHandler_shutdown ⟨runtime, fresh.1⟩
    | shutdownListener handler polls signals => exact shutdownListener_shutdown
  others := fun _ _ _ differ _ kept => kept.2 _ (Ne.symm differ)
  env := by
    rintro c e w _ ⟨runtime, met⟩ inv moved
    cases e with
    | expired key =>
      cases Option.some.inj moved
      exact ⟨inv.setKey nofun, fun q _ _ _ _ => .setKey nofun fun _ => nofun⟩
    | dropped task =>
      simp only [machine, env] at moved
      split at moved
      · cases moved
      rename_i notYet
      cases Option.some.inj moved
      obtain ⟨ledger, keeps⟩ := inv.drop notYet met
      refine ⟨ledger, fun q call cmd k live => keeps q ?_⟩
      rintro rfl
      exact nomatch (runtime : c.procs q = .idle).symm.trans live
    | appended streamIndex a =>
      simp only [machine, env, Option.map_eq_some_iff] at moved
      obtain ⟨shard, _, rfl⟩ := moved
      exact ⟨⟨inv.active, inv.flags, inv.begun⟩, fun q _ _ _ _ => ⟨fun _ spawned => spawned, rfl, rfl,
        rfl, id, fun _ _ found _ => found, fun _ _ _ found _ => found,
        fun _ idle => ⟨idle.1, idle.2, idle.3⟩⟩⟩
  kept := fun _ _ _ _ _ _ _ => trivial

abbrev GracefulReach (conf : DrainerSettings) (fromHashmap : φ → Except π δ)
    (keys : String → Option String) (shards : UInt8 → Shard φ) (h : Nat) :
    FleetConfig φ δ → Prop :=
  Machine.Reach (machine conf fromHashmap) (graceful h) (fleetStart keys shards)

def handlerCommand : Command φ δ → Prop
  | .fetchAdd _ | .drain _ _ | .del _ | .fetchSub _ => True
  | _ => False

theorem onShard_every {α : Type} {streamIndex : UInt8} (t : DrainerTask φ δ α) :
    (onShard streamIndex t).every handlerCommand := by
  induction t with
  | done a => trivial
  | await c k ih => exact ⟨trivial, ih⟩

theorem drainerHandler_every (handler : Nat) (streamIndex : UInt8) :
    (drainerHandler conf fromHashmap handler streamIndex).every handlerCommand := by
  refine ⟨trivial, fun _ => ?_⟩
  simp only [Task.bind_done]
  refine Task.every_bind (onShard_every _) fun _ => ?_
  refine Task.every_bind (Task.every_bind (Task.every_bind (Task.every_call trivial)
    fun _ => trivial) fun reply => ?_) fun _ => ⟨trivial, fun _ => trivial⟩
  cases reply with
  | error e => trivial
  | ok resp => cases resp <;> trivial

theorem reach_duty {c : FleetConfig φ δ} {call : Call} {cmd : Command φ δ}
    {k : Reply φ δ cmd → FleetTask φ δ (Except DrainerError Unit)}
    (reached : GracefulReach conf fromHashmap keys shards h c)
    (live : c.procs p = .live call (.await cmd k))
    (own : handlerCommand cmd ∨ cmd = .storeRunning h false) : duty h p call cmd c.world := by
  have sound := (processes conf fromHashmap keys shards h).sound reached
  have allowed : gracefulStep h p cmd {} c.world ∧
      ∀ handler streamIndex, cmd = .spawnTask handler streamIndex →
        c.world.spawned ({} : Choice).task = none := by
    refine ⟨⟨?_, ?_, fun _ _ _ => nofun⟩, ?_⟩
    all_goals
      intros
      subst cmd
      rcases own with own | own <;> cases own
  exact (sound.holds p call _ live c.world (.refl h p _) sound.inv {} allowed).1.1

theorem handler_recorded {c : FleetConfig φ δ} {streamIndex : UInt8} {cmd : Command φ δ}
    {k : Reply φ δ cmd → FleetTask φ δ (Except DrainerError Unit)}
    (reached : GracefulReach conf fromHashmap keys shards h c)
    (live : c.procs p = .live (.drainerHandler h streamIndex) (.await cmd k)) :
    c.world.spawned p = some (h, streamIndex) ∧ c.world.begun p = false ∨
      p ∈ c.world.counted h := by
  have all := Machine.Reach.every (M := machine conf fromHashmap)
    (P := fun call cmd => ∀ handler streamIndex, call = .drainerHandler handler streamIndex →
      handlerCommand cmd) reached (fun _ => rfl) ?_ live
  · exact (reach_duty reached live (.inl (all.1 h streamIndex rfl))).1 streamIndex rfl
  · intro call
    cases call with
    | drainerHandler handler streamIndex =>
      exact (drainerHandler_every handler streamIndex).mono fun cmd own _ _ _ => own
    | spawn | shutdownListener => exact Task.every_of_all fun _ => nofun

theorem crashed_counted {c : FleetConfig φ δ} {streamIndex : UInt8}
    (reached : GracefulReach conf fromHashmap keys shards h c)
    (crashed : c.procs p = .crashed (.drainerHandler h streamIndex)) :
    p ∈ c.world.counted h := by
  induction reached with
  | start => cases crashed
  | @next c d act before met hs ih =>
    by_cases own : act.process = some p
    · cases act with
      | spawn q call =>
        cases own
        obtain ⟨_, rfl⟩ := Machine.step_spawn hs
        rw [Config.setProc_self] at crashed
        cases crashed
      | step q o =>
        cases own
        obtain ⟨call, cmd, k, _, procs, _⟩ := Machine.step_step hs
        rw [procs, Config.setProc_self] at crashed
        cases crashed
      | crash q =>
        cases own
        obtain ⟨call, cmd, k, live, rfl⟩ := Machine.step_crash hs
        rw [Config.setProc_self] at crashed
        cases crashed
        have begun := met.1 h streamIndex _ live
        rcases handler_recorded before live with ⟨_, notYet⟩ | mem
        · exact nomatch notYet.symm.trans begun
        · exact mem
      | env e => cases own
    · have mem := ih ((Machine.step_other hs own).symm.trans crashed)
      rcases Machine.step_world hs with same | ⟨q, o, call, cmd, k, rfl, _, _⟩ | ⟨e, rfl, moved⟩
      · rw [same]
        exact mem
      · obtain ⟨_, _, _, _, _, kept, _⟩ :=
          ((processes conf fromHashmap keys shards h).sound before).own_step met hs
        exact (kept.2 p fun same => own (congrArg some same.symm)).counted mem
      · obtain ⟨_, _, _, counted⟩ := env_records moved
        rw [counted]
        exact mem

/-- When the listener stops the loop after a graceful run, every handler of the process has
returned, none waits to be begun, and no flag that the process has set is left. -/
theorem shutdown_graceful {c : FleetConfig φ δ} (listener : Nat) {call : Call}
    {k : Unit → FleetTask φ δ (Except DrainerError Unit)}
    (reached : Machine.Reach (machine conf fromHashmap) (graceful h) (fleetStart keys shards) c)
    (stops : c.procs listener = .live call (.await (.storeRunning h false) k)) :
    (∀ p streamIndex, (c.procs p).call = some (.drainerHandler h streamIndex) →
      ∃ r, c.procs p = .live (.drainerHandler h streamIndex) (.done r)) ∧
    (∀ p streamIndex, c.world.spawned p = some (h, streamIndex) → c.world.begun p = true) ∧
    ∀ key held, c.world.keys key = some held → held.setBy ≠ some h := by
  have idle : Idle h c.world := (reach_duty reached stops (.inr rfl)).2 rfl
  refine ⟨fun p streamIndex called => ?_, idle.settled.2, idle.flags⟩
  cases proc : c.procs p with
  | idle =>
    rw [proc] at called
    cases called
  | crashed call =>
    rw [proc] at called
    cases called
    have mem := crashed_counted reached proc
    rw [idle.counted] at mem
    cases mem
  | live call t =>
    rw [proc] at called
    cases called
    cases t with
    | done r => exact ⟨r, rfl⟩
    | await cmd k =>
      rcases handler_recorded reached proc with ⟨waits, notYet⟩ | mem
      · exact nomatch notYet.symm.trans (idle.settled.2 p streamIndex waits)
      · rw [idle.counted] at mem
        cases mem

/-- The one handler of the process drains and gives its flag back before the signal. -/
theorem shutdown_graceful_after_drain : ∃ (c : FleetConfig Unit Unit) (call : Call)
    (k : Unit → FleetTask Unit Unit (Except DrainerError Unit)),
    c.procs 2 = .live call (.await (.storeRunning 0 false) k) ∧
    c.world.spawned 1 = some (0, 0) ∧ c.world.begun 1 = true ∧
    (∃ r, c.procs 1 = .live (.drainerHandler 0 0) (.done r)) ∧
    ∀ key held, c.world.keys key = some held → held.setBy ≠ some 0 := by
  let steps : List (Action Choice (Env Unit) Call) :=
    [.spawn 0 (.spawn 0 1), .step 0 {}, .step 0 {}, .step 0 { task := 1 },
      .spawn 1 (.drainerHandler 0 0), .step 1 {}, .step 1 {}, .step 1 {}, .step 1 {},
      .spawn 2 (.shutdownListener 0 1 1), .step 2 { signal := some () }, .step 2 {}]
  have ran : sampleFleet.run (fleetStart (fun _ => none) emptyShards) steps = some _ := rfl
  have met : sampleFleet.Meets (graceful 0) (fleetStart (fun _ => none) emptyShards) steps := by
    refine Machine.meets_cons ⟨rfl, trivial⟩ rfl (Machine.meets_cons (graceful_step rfl ?_ ?_) rfl
      (Machine.meets_cons (graceful_step rfl ?_ ?_) rfl
      (Machine.meets_cons (graceful_step rfl ?_ ?_) rfl
      (Machine.meets_cons ⟨rfl, trivial⟩ rfl (Machine.meets_cons (graceful_step rfl ?_ ?_) rfl
      (Machine.meets_cons (graceful_step rfl ?_ ?_) rfl
      (Machine.meets_cons (graceful_step rfl ?_ ?_) rfl
      (Machine.meets_cons (graceful_step rfl ?_ ?_) rfl
      (Machine.meets_cons ⟨rfl, trivial⟩ rfl (Machine.meets_cons (graceful_step rfl ?_ ?_) rfl
      (Machine.meets_cons (graceful_step rfl ?_ ?_) rfl trivial)))))))))))
    case refine_1 | refine_3 | refine_7 | refine_9 | refine_11 | refine_13 | refine_15 | refine_17 =>
      intro handler streamIndex same
      cases same
    case refine_5 => exact fun _ _ _ => ⟨rfl, rfl⟩
    case refine_2 | refine_6 | refine_8 | refine_10 | refine_14 | refine_16 =>
      exact ⟨nofun, fun _ _ _ => nofun, fun _ => nofun⟩
    case refine_4 => exact ⟨nofun, fun _ _ _ _ => ⟨nofun, nofun⟩, fun _ => nofun⟩
    case refine_12 => exact ⟨nofun, fun _ _ _ => nofun, fun _ _ _ => nofun⟩
    case refine_18 =>
      refine ⟨fun _ _ => ⟨fun q => ?_, fun q => ?_⟩, fun _ _ _ => nofun, fun _ => nofun⟩
      · change Function.update (Function.update (fun _ => none) 0 (some 0)) 0 none q ≠ some 0
        by_cases loop : q = 0 <;> simp [loop]
      · change ∀ i, Function.update (fun _ : Nat => none) 1 (some (0, 0)) q = some (0, i) →
          Function.update (fun _ : Nat => false) 1 true q = true
        by_cases handler : q = 1 <;> simp [handler]
  have sound := shutdown_graceful 2 (Machine.reach_of_meets met ran) rfl
  exact ⟨_, _, _, rfl, rfl, sound.2.1 1 0 rfl, sound.1 1 0 rfl, sound.2.2⟩

/-- The listener sees no active tasks while a handler waits to be begun. The handler drains
after the process has been told that it has stopped. -/
theorem shutdown_early : ∃ c d : FleetConfig Unit Unit,
    Machine.Reach sampleFleet scheduled (fleetStart (fun _ => none) emptyShards) c ∧
    (∃ call k, c.procs 2 = .live call (.await (.storeRunning 0 false) k)) ∧
    c.world.spawned 1 = some (0, 0) ∧ c.world.begun 1 = false ∧
    c.world.keys (getStreamKeyFlag sampleSettings 0) =
      some ⟨"true", some 0, some (.handler 1)⟩ ∧
    Machine.Reach sampleFleet scheduled c d ∧ d.world.running 0 = false ∧
    ∃ cmd k, d.procs 1 = .live (.drainerHandler 0 0) (.await (.drain 0 cmd) k) := by
  let before : List (Action Choice (Env Unit) Call) :=
    [.spawn 0 (.spawn 0 1), .step 0 {}, .step 0 {}, .step 0 { task := 1 },
      .spawn 2 (.shutdownListener 0 1 1), .step 2 { signal := some () }, .step 2 {}]
  let after : List (Action Choice (Env Unit) Call) :=
    [.step 2 {}, .spawn 1 (.drainerHandler 0 0), .step 1 {}]
  have ran : sampleFleet.run (fleetStart (fun _ => none) emptyShards) before = some _ := rfl
  have met : sampleFleet.Meets scheduled (fleetStart (fun _ => none) emptyShards) before := by
    refine Machine.meets_cons rfl rfl (Machine.meets_cons ?_ rfl (Machine.meets_cons ?_ rfl
      (Machine.meets_cons ?_ rfl (Machine.meets_cons rfl rfl (Machine.meets_cons ?_ rfl
      (Machine.meets_cons ?_ rfl trivial))))))
    all_goals
      intro call handler streamIndex k live
      cases live
    exact ⟨rfl, rfl⟩
  refine ⟨_, _, Machine.reach_of_meets met ran, ⟨_, _, rfl⟩, rfl, rfl, rfl,
    .next (.step 1 {}) (.next (.spawn 1 (.drainerHandler 0 0)) (.next (.step 2 {}) .start ?_ rfl)
      rfl rfl) ?_ rfl, rfl, _, _, rfl⟩
  all_goals
    intro call handler streamIndex k live
    cases live

end Mercado.Drainer.Fleet
