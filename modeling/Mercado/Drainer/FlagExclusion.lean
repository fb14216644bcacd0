import Mercado.Drainer.Fleet

/-! In whose hands the flag of a stream is, and what that says about the handlers. -/
namespace Mercado.Drainer.Fleet
open Async Redis

variable {φ δ π : Type}

def Has (holder : Holder) (key : String) (w : World φ) : Prop :=
  ∃ held, w.keys key = some held ∧ held.holder = some holder

def Draining (c : FleetConfig φ δ) (p : Nat) (streamIndex : UInt8) : Prop :=
  ∃ call cmd k, c.procs p = .live call (.await (.drain streamIndex cmd) k)

def Over (c : FleetConfig φ δ) (p : Nat) : Prop :=
  (c.world.spawned p = none ∨ c.world.begun p = true) ∧
    ∀ call cmd k, c.procs p ≠ .live call (.await cmd k)

/-- The flag stays as long as the task that has it is not over. -/
def flagPersists (c : FleetConfig φ δ) : Action Choice (Env φ) Call → Prop
  | .env (.expired key) => ∀ holder, Has holder key c.world → Over c holder.task
  | _ => True

/-- What a task may only do with the flag of the stream in its hands. -/
def permitted (conf : DrainerSettings) (p : Nat) (w : World φ) : Command φ δ → Prop
  | .drain streamIndex _ => Has (.handler p) (getStreamKeyFlag conf streamIndex) w
  | .del key => Has (.handler p) key w
  | _ => True

def Undisturbed (p : Nat) (w w' : World φ) : Prop :=
  (∀ holder key, holder.task = p → Has holder key w → Has holder key w') ∧
    (∀ x, w.spawned p = some x → w'.spawned p = some x) ∧ w'.begun p = w.begun p

theorem Undisturbed.refl (p : Nat) (w : World φ) : Undisturbed p w w :=
  ⟨fun _ _ _ has => has, fun _ spawned => spawned, rfl⟩

theorem Undisturbed.trans {p : Nat} {w₁ w₂ w₃ : World φ} (h : Undisturbed p w₁ w₂)
    (g : Undisturbed p w₂ w₃) : Undisturbed p w₁ w₃ :=
  ⟨fun holder key own has => g.1 holder key own (h.1 holder key own has),
    fun x spawned => g.2.1 x (h.2.1 x spawned), g.2.2.trans h.2.2⟩

theorem undisturbed_of_same {p : Nat} {w w' : World φ} (keys : w'.keys = w.keys)
    (spawned : w'.spawned = w.spawned) (begun : w'.begun = w.begun) : Undisturbed p w w' := by
  refine ⟨fun holder key _ has => ?_, fun x => ?_, congrFun begun p⟩
  · unfold Has at has ⊢
    rw [keys]
    exact has
  · rw [spawned]
    exact id

theorem holder_unique {key : String} {w : World φ} {a b : Holder} (ha : Has a key w)
    (hb : Has b key w) : a = b := by
  obtain ⟨held, found, mine⟩ := ha
  obtain ⟨held', found', yours⟩ := hb
  cases found.symm.trans found'
  exact Option.some.inj (mine.symm.trans yours)

theorem has_setKey_other {key key' : String} {held : Option Held} {w : World φ} {holder : Holder}
    (differ : key' ≠ key) (has : Has holder key' w) : Has holder key' (w.setKey key held) := by
  obtain ⟨held', found, mine⟩ := has
  exact ⟨held', (Function.update_of_ne differ ..).trans found, mine⟩

theorem has_setKey {key : String} {held : Held} {w : World φ} {holder : Holder}
    (mine : held.holder = some holder) : Has holder key (w.setKey key (some held)) :=
  ⟨held, Function.update_self .., mine⟩

theorem has_setKey_free {key key' : String} {held : Option Held} {w : World φ} {holder : Holder}
    (free : w.keys key = none) (has : Has holder key' w) : Has holder key' (w.setKey key held) := by
  refine has_setKey_other ?_ has
  rintro rfl
  obtain ⟨held', found, _⟩ := has
  rw [free] at found
  cases found

/- Handing a flag over takes it away from the loop only. -/

theorem has_handOver {key key' : String} {w : World φ} {loop task : Nat} {holder : Holder}
    (other : holder ≠ .loop loop) (has : Has holder key' w) :
    Has holder key' (w.handOver key loop task) := by
  rcases handOver_cases w key loop task with ⟨same, _⟩ | ⟨held, found, mine, same⟩ <;> rw [same]
  · exact has
  · refine has_setKey_other ?_ has
    rintro rfl
    exact other (holder_unique has ⟨held, found, mine⟩)

theorem handOver_has {key : String} {w : World φ} {loop task : Nat} (has : Has (.loop loop) key w) :
    Has (.handler task) key (w.handOver key loop task) := by
  rcases handOver_cases w key loop task with ⟨_, nobody⟩ | ⟨_, _, _, same⟩
  · obtain ⟨held, found, mine⟩ := has
    exact absurd mine (nobody held found)
  · rw [same]
    exact has_setKey rfl

section Holds

variable (conf : DrainerSettings) (p : Nat)

def WaitingHas (w : World φ) : Prop :=
  ∀ q handler streamIndex, w.spawned q = some (handler, streamIndex) → w.begun q = false →
    Has (.handler q) (getStreamKeyFlag conf streamIndex) w

def flagSetting : Setting (Command φ δ) (Reply φ δ) (World φ) Choice where
  exec := exec conf p
  inv := WaitingHas conf
  rely := Undisturbed p
  guar := fun cmd w w' => permitted conf p w cmd ∧ ∀ q, q ≠ p → Undisturbed q w w'
  allow := fun cmd o w => ∀ handler streamIndex, cmd = .spawnTask handler streamIndex →
    w.spawned o.task = none

variable {conf p} {w : World φ}

theorem waitingHas_of_same {w' : World φ} (keys : w'.keys = w.keys)
    (spawned : w'.spawned = w.spawned) (begun : w'.begun = w.begun) (inv : WaitingHas conf w) :
    WaitingHas conf w' := by
  intro q handler streamIndex waits notYet
  rw [spawned] at waits
  rw [begun] at notYet
  obtain ⟨held, found, mine⟩ := inv q handler streamIndex waits notYet
  exact ⟨held, keys ▸ found, mine⟩

theorem untouched_step {cmd : Command φ δ} {I : World φ → Prop}
    (mine : ∀ w, I w → permitted conf p w cmd)
    (kept : ∀ w o, (exec conf p cmd o w).2.keys = w.keys ∧
      (exec conf p cmd o w).2.spawned = w.spawned ∧ (exec conf p cmd o w).2.begun = w.begun)
    (stays : ∀ w w', Undisturbed p w w' → I w → I w') :
    (flagSetting conf p).Step I cmd fun _ => I := by
  intro w o inv _ holds
  obtain ⟨keys, spawned, begun⟩ := kept w o
  exact ⟨⟨mine w holds, fun q _ => undisturbed_of_same keys spawned begun⟩,
    waitingHas_of_same keys spawned begun inv,
    stays _ _ (undisturbed_of_same keys spawned begun) holds⟩

theorem anything_stable : (flagSetting conf p : Setting (Command φ δ) _ _ _).Stable fun _ => True :=
  fun _ _ _ _ _ => trivial

theorem has_stable {holder : Holder} {key : String} (own : holder.task = p) :
    (flagSetting conf p : Setting (Command φ δ) _ _ _).Stable (Has holder key) :=
  fun _ _ moved _ has => moved.1 holder key own has

theorem setNxEx_step {handler seconds : Nat} {key value : String} :
    (flagSetting conf p : Setting (Command φ δ) _ _ _).Step (fun _ => True)
      (.setNxEx handler key value seconds) fun r w =>
        ∀ text, r = .ok (some text) → Has (.loop p) key w := by
  intro w o inv _ _
  rcases setNxEx_cases (δ := δ) conf p handler seconds key value o w with
    ⟨same, refused⟩ | ⟨free, _, same⟩ | ⟨free, _, same⟩
  · refine ⟨⟨trivial, fun q _ => ?_⟩, ?_, fun text ok => absurd ok (refused text)⟩
    · simp only [flagSetting, same]
      exact .refl q w
    · simp only [flagSetting, same]
      exact inv
  · simp only [flagSetting, same]
    refine ⟨⟨trivial, fun q _ => ⟨fun _ _ _ has => has_setKey_free free has, fun _ spawned => spawned,
      rfl⟩⟩, fun q handler streamIndex waits notYet => ?_, fun _ _ => has_setKey rfl⟩
    exact has_setKey_free free (inv q handler streamIndex waits notYet)
  · simp only [flagSetting, same]
    refine ⟨⟨trivial, fun q _ => ⟨fun _ _ _ has => has_setKey_free free has, fun _ spawned => spawned,
      rfl⟩⟩, fun q handler streamIndex waits notYet => ?_, nofun⟩
    exact has_setKey_free free (inv q handler streamIndex waits notYet)

theorem spawnTask_step {handler : Nat} {streamIndex : UInt8} :
    (flagSetting conf p : Setting (Command φ δ) _ _ _).Step
      (Has (.loop p) (getStreamKeyFlag conf streamIndex)) (.spawnTask handler streamIndex)
      fun _ _ => True := by
  intro w o inv fresh has
  have unused := fresh handler streamIndex rfl
  obtain ⟨begun, _⟩ := w.spawnTask_rest handler streamIndex (getStreamKeyFlag conf streamIndex) p o.task
  have stays : ∀ q x, w.spawned q = some x →
      Function.update w.spawned o.task (some (handler, streamIndex)) q = some x := by
    intro q x spawned
    have differ : q ≠ o.task := by
      rintro rfl
      rw [unused] at spawned
      cases spawned
    exact (Function.update_of_ne differ ..).trans spawned
  refine ⟨⟨trivial, fun q differ => ⟨fun holder key own has' => has_handOver ?_ has', stays q,
    congrFun begun q⟩⟩, fun q handler' streamIndex' waits notYet => ?_, trivial⟩
  · rintro rfl
    exact differ own.symm
  · replace notYet := (congrFun begun q).symm.trans notYet
    by_cases new : q = o.task
    · rw [new] at waits ⊢
      cases (Function.update_self ..).symm.trans waits
      exact handOver_has has
    · have before := (Function.update_of_ne new ..).symm.trans waits
      exact has_handOver nofun (inv q handler' streamIndex' before notYet)

theorem fetchAdd_step {handler : Nat} {streamIndex : UInt8} :
    (flagSetting conf p : Setting (Command φ δ) _ _ _).Step
      (fun w => w.spawned p = some (handler, streamIndex) ∧ w.begun p = false)
      (.fetchAdd handler) fun _ w =>
        Has (.handler p) (getStreamKeyFlag conf streamIndex) w ∧ w.begun p = true := by
  intro w o inv _ waits
  refine ⟨⟨trivial, fun q differ => ⟨fun _ _ _ has => has, fun _ spawned => spawned, ?_⟩⟩, ?_, ?_⟩
  · exact Function.update_of_ne differ ..
  · intro q handler' streamIndex' waits' notYet
    by_cases own : q = p
    · subst own
      have marked : Function.update w.begun q true q = true := Function.update_self ..
      cases marked.symm.trans notYet
    · exact inv q handler' streamIndex' waits' ((Function.update_of_ne own ..).symm.trans notYet)
  · exact ⟨inv p handler streamIndex waits.1 waits.2, Function.update_self ..⟩

theorem del_step {key : String} :
    (flagSetting conf p : Setting (Command φ δ) _ _ _).Step
      (fun w => Has (.handler p) key w ∧ w.begun p = true) (.del key) fun _ _ => True := by
  intro w o inv _ ⟨has, begun⟩
  have removed : ∀ holder key', holder ≠ .handler p → Has holder key' w →
      Has holder key' (w.setKey key none) := by
    intro holder key' other has'
    refine has_setKey_other ?_ has'
    rintro rfl
    exact other (holder_unique has' has)
  have waiting : WaitingHas conf (w.setKey key none) := by
    intro q handler streamIndex waits notYet
    refine removed _ _ ?_ (inv q handler streamIndex waits notYet)
    rintro ⟨⟩
    exact nomatch begun.symm.trans notYet
  have others : ∀ q, q ≠ p → Undisturbed q w (w.setKey key none) := by
    intro q differ
    refine ⟨fun holder key' own has' => removed holder key' ?_ has', fun _ spawned => spawned, rfl⟩
    rintro rfl
    exact differ own.symm
  rcases del_cases (δ := δ) conf p key o w with ⟨same, _⟩ | same <;> simp only [flagSetting, same]
  · exact ⟨⟨has, fun q _ => .refl q w⟩, inv, trivial⟩
  · exact ⟨⟨has, others⟩, waiting, trivial⟩

theorem onShard_holds {α : Type} {streamIndex : UInt8} (t : DrainerTask φ δ α)
    (holds : Has (.handler p) (getStreamKeyFlag conf streamIndex) w ∧ w.begun p = true) :
    (flagSetting conf p).Holds
      (fun _ w => Has (.handler p) (getStreamKeyFlag conf streamIndex) w ∧ w.begun p = true)
      (onShard streamIndex t) w := by
  have stays : ∀ w w' : World φ, Undisturbed p w w' →
      Has (.handler p) (getStreamKeyFlag conf streamIndex) w ∧ w.begun p = true →
      Has (.handler p) (getStreamKeyFlag conf streamIndex) w' ∧ w'.begun p = true :=
    fun _ _ moved holds => ⟨moved.1 _ _ rfl holds.1, moved.2.2.trans holds.2⟩
  induction t generalizing w with
  | done a => exact holds
  | await c k ih =>
    exact .await (fun w w' moved _ => stays w w' moved)
      (untouched_step (fun _ holds => holds.1) (fun _ _ => ⟨rfl, rfl, rfl⟩) stays)
      (fun r _ holds => ih r holds) holds

theorem makeStreamAvailable_holds {key : String} (holds : Has (.handler p) key w ∧ w.begun p = true) :
    (flagSetting conf p : Setting (Command φ δ) _ _ _).Holds (fun _ _ => True)
      (makeStreamAvailable key) w := by
  have stable : (flagSetting conf p : Setting (Command φ δ) _ _ _).Stable
      fun w => Has (.handler p) key w ∧ w.begun p = true :=
    fun _ _ moved _ holds => ⟨moved.1 _ _ rfl holds.1, moved.2.2.trans holds.2⟩
  refine .bind (.bind ((Setting.Holds.call stable del_step holds).mono ?_))
  intro reply w _
  cases (reply.bind DelReply.fromValue).mapError fun _ => RedisError.deleteFailed with
  | error e => trivial
  | ok resp => cases resp <;> trivial

theorem drainerHandler_holds {fromHashmap : φ → Except π δ} {handler : Nat} {streamIndex : UInt8}
    (waits : w.spawned p = some (handler, streamIndex) ∧ w.begun p = false) :
    (flagSetting conf p).Holds (fun _ _ => True)
      (drainerHandler conf fromHashmap handler streamIndex) w := by
  have stable : (flagSetting conf p : Setting (Command φ δ) _ _ _).Stable
      fun w => w.spawned p = some (handler, streamIndex) ∧ w.begun p = false :=
    fun _ _ moved _ waits => ⟨moved.2.1 _ waits.1, moved.2.2.trans waits.2⟩
  refine .await stable fetchAdd_step (fun _ w holds => ?_) waits
  rw [Task.bind_done]
  refine .bind ((onShard_holds _ holds).mono fun _ w holds => ?_)
  refine .bind ((makeStreamAvailable_holds holds).mono fun output w _ => ?_)
  exact .await anything_stable (untouched_step (fun _ _ => trivial) (fun _ _ => ⟨rfl, rfl, rfl⟩)
    fun _ _ _ _ => trivial) (fun _ _ _ => trivial) trivial

theorem isStreamAvailable_holds {handler : Nat} {streamIndex : UInt8} :
    (flagSetting conf p : Setting (Command φ δ) _ _ _).Holds
      (fun available w => available = true → Has (.loop p) (getStreamKeyFlag conf streamIndex) w)
      (isStreamAvailable conf handler streamIndex) w := by
  refine .bind (.bind ((Setting.Holds.call anything_stable setNxEx_step trivial).mono ?_))
  intro reply w granted
  match reply with
  | .error () => nofun
  | .ok none => nofun
  | .ok (some text) => exact fun _ => granted text rfl

theorem spawn_holds {handler rounds : Nat} {streamIndex : UInt8} :
    (flagSetting conf p : Setting (Command φ δ) _ _ _).Holds (fun _ _ => True)
      (spawn conf handler rounds streamIndex) w := by
  induction rounds generalizing streamIndex w with
  | zero => trivial
  | succ rounds ih =>
    refine .await anything_stable (untouched_step (fun _ _ => trivial)
      (fun _ _ => ⟨rfl, rfl, rfl⟩) fun _ _ _ _ => trivial) (fun running w _ => ?_) trivial
    cases running with
    | false => trivial
    | true =>
      simp only [Task.bind_done, if_true]
      refine .bind (isStreamAvailable_holds.mono fun available w granted => ?_)
      cases available with
      | false => exact ih
      | true => exact .await (has_stable rfl) spawnTask_step (fun _ _ _ => ih) (granted rfl)

theorem awaitIdle_holds {handler polls : Nat} :
    (flagSetting conf p : Setting (Command φ δ) _ _ _).Holds (fun _ _ => True)
      (awaitIdle handler polls) w := by
  induction polls generalizing w with
  | zero => trivial
  | succ polls ih =>
    refine .await anything_stable (untouched_step (fun _ _ => trivial) (fun w o => ?_)
      fun _ _ _ _ => trivial) (fun active w _ => ?_) trivial
    · by_cases idle : w.activeTasks handler = 0 <;> simp [exec, idle]
    · rw [Task.bind_done]
      split
      · trivial
      · exact ih

theorem shutdownListener_holds {handler polls signals : Nat} :
    (flagSetting conf p : Setting (Command φ δ) _ _ _).Holds (fun _ _ => True)
      (shutdownListener handler polls signals) w := by
  induction signals generalizing w with
  | zero => trivial
  | succ signals ih =>
    refine .await anything_stable (untouched_step (fun _ _ => trivial)
      (fun _ _ => ⟨rfl, rfl, rfl⟩) fun _ _ _ _ => trivial) (fun signal w _ => ?_) trivial
    cases signal with
    | none => trivial
    | some signal =>
      rw [Task.bind_done]
      refine .bind (awaitIdle_holds.mono fun idle w _ => ?_)
      cases idle with
      | false => trivial
      | true =>
        exact .await anything_stable (untouched_step (fun _ _ => trivial)
          (fun _ _ => ⟨rfl, rfl, rfl⟩) fun _ _ _ _ => trivial) (fun _ _ _ => ih) trivial

end Holds

variable {conf : DrainerSettings} {fromHashmap : φ → Except π δ} {keys : String → Option String}
  {shards : UInt8 → Shard φ}

def persisting (c : FleetConfig φ δ) (act : Action Choice (Env φ) Call) : Prop :=
  scheduled c act ∧ flagPersists c act

theorem expired_persisting {c : FleetConfig φ δ} {key : String}
    (persists : flagPersists c (.env (.expired key))) (inv : WaitingHas conf c.world) :
    WaitingHas conf (c.world.setKey key none) ∧ ∀ q call cmd k,
      c.procs q = .live call (.await cmd k) →
        Undisturbed q c.world (c.world.setKey key none) := by
  have kept : ∀ holder key', Has holder key' c.world → ¬ Over c holder.task →
      Has holder key' (c.world.setKey key none) := by
    intro holder key' has busy
    refine has_setKey_other ?_ has
    rintro rfl
    exact busy (persists holder has)
  refine ⟨fun q handler streamIndex waits notYet => ?_, fun q call cmd k live => ?_⟩
  · refine kept _ _ (inv q handler streamIndex waits notYet) fun ended => ?_
    rcases ended.1 with dropped | begun
    · exact nomatch dropped.symm.trans waits
    · exact nomatch begun.symm.trans notYet
  · refine ⟨fun holder key' own has => kept _ _ has fun ended => ?_, fun _ spawned => spawned, rfl⟩
    exact ended.2 call cmd k (own ▸ live)

theorem dropped_waiting {w : World φ} (task : Nat) (inv : WaitingHas conf w) :
    WaitingHas conf { w with spawned := Function.update w.spawned task none } ∧
      ∀ q, q ≠ task →
        Undisturbed q w { w with spawned := Function.update w.spawned task none } := by
  refine ⟨fun q handler streamIndex waits notYet => ?_, fun q differ => ?_⟩
  · by_cases own : q = task
    · subst own
      cases (Function.update_self ..).symm.trans waits
    · exact inv q handler streamIndex ((Function.update_of_ne own ..).symm.trans waits) notYet
  · refine ⟨fun _ _ _ has => has, fun x spawned => ?_, rfl⟩
    exact (Function.update_of_ne differ ..).trans spawned

def tasks (conf : DrainerSettings) (fromHashmap : φ → Except π δ) (keys : String → Option String)
    (shards : UInt8 → Shard φ) :
    Discipline (machine conf fromHashmap) persisting (fleetStart keys shards) where
  inv := WaitingHas conf
  rely := Undisturbed
  guar := fun p _ cmd w w' => permitted conf p w cmd ∧ ∀ q, q ≠ p → Undisturbed q w w'
  allow := fun _ cmd o w => ∀ handler streamIndex, cmd = .spawnTask handler streamIndex →
    w.spawned o.task = none
  post := fun _ _ _ _ => True
  rely_refl := Undisturbed.refl
  rely_trans := fun _ _ _ _ h g => h.trans g
  starts := ⟨nofun, fun _ => rfl⟩
  allowed := by
    rintro c p o call cmd k live ⟨runtime, _⟩ handler streamIndex rfl
    exact (runtime call handler streamIndex k live).2
  spawned := by
    rintro c p call reached _ idle ⟨runtime, _⟩
    cases call with
    | spawn handler rounds => exact spawn_holds
    | drainerHandler handler streamIndex =>
      have fresh := idle_unrecorded reached (fun _ => ⟨rfl, rfl, rfl⟩) p idle
      exact drainerHandler_holds ⟨runtime, fresh.1⟩
    | shutdownListener handler polls signals => exact shutdownListener_holds
  others := fun _ _ _ differ _ kept => kept.2 _ (Ne.symm differ)
  env := by
    rintro c e w _ ⟨runtime, persists⟩ inv moved
    cases e with
    | expired key =>
      cases Option.some.inj moved
      exact expired_persisting persists inv
    | dropped task =>
      simp only [machine, env] at moved
      split at moved
      · cases moved
      cases Option.some.inj moved
      obtain ⟨waiting, undisturbed⟩ := dropped_waiting task inv
      refine ⟨waiting, fun q call cmd k live => undisturbed q ?_⟩
      rintro rfl
      exact nomatch (runtime : c.procs q = .idle).symm.trans live
    | appended streamIndex a =>
      simp only [machine, env, Option.map_eq_some_iff] at moved
      obtain ⟨shard, _, rfl⟩ := moved
      exact ⟨waitingHas_of_same rfl rfl rfl inv, fun q _ _ _ _ => undisturbed_of_same rfl rfl rfl⟩
  kept := fun _ _ _ _ _ _ _ => trivial

theorem reach_permitted {c : FleetConfig φ δ} {p : Nat} {call : Call} {cmd : Command φ δ}
    {k : Reply φ δ cmd → FleetTask φ δ (Except DrainerError Unit)}
    (reached : Machine.Reach (machine conf fromHashmap) persisting (fleetStart keys shards) c)
    (live : c.procs p = .live call (.await cmd k))
    (other : ∀ handler streamIndex, cmd ≠ .spawnTask handler streamIndex) :
    permitted conf p c.world cmd := by
  have sound := (tasks conf fromHashmap keys shards).sound reached
  have step := sound.holds p call _ live c.world (.refl p _) sound.inv {}
    fun handler streamIndex same => absurd same (other handler streamIndex)
  exact step.1.1

/-- As long as no flag expires in the hands of a task that is not over, at most one handler
drains a stream, and a handler only ever frees the flag that it has been given. -/
theorem drainers_exclusive {c : FleetConfig φ δ}
    (reached : Machine.Reach (machine conf fromHashmap) persisting (fleetStart keys shards) c) :
    (∀ p q streamIndex, Draining c p streamIndex → Draining c q streamIndex → p = q) ∧
      ∀ p call key k, c.procs p = .live call (.await (.del key) k) →
        Has (.handler p) key c.world := by
  constructor
  · rintro p q streamIndex ⟨_, _, _, liveP⟩ ⟨_, _, _, liveQ⟩
    have mine : Has (.handler p) (getStreamKeyFlag conf streamIndex) c.world :=
      reach_permitted reached liveP nofun
    have yours : Has (.handler q) (getStreamKeyFlag conf streamIndex) c.world :=
      reach_permitted reached liveQ nofun
    cases holder_unique mine yours
    rfl
  · intro p call key k live
    exact reach_permitted reached live nofun

/-- One process has spawned a handler for shard 0 that drains it; the loop of a second one
has found the flag set. -/
theorem drainers_exclusive_contended : ∃ c : FleetConfig Unit Unit, Draining c 1 0 ∧
    c.procs 2 = .live (.spawn 1 1) (.done (.ok ())) ∧
    ∀ p q streamIndex, Draining c p streamIndex → Draining c q streamIndex → p = q := by
  let steps : List (Action Choice (Env Unit) Call) :=
    [.spawn 0 (.spawn 0 1), .step 0 {}, .step 0 {}, .step 0 { task := 1 },
      .spawn 1 (.drainerHandler 0 0), .step 1 {}, .spawn 2 (.spawn 1 1), .step 2 {}, .step 2 {}]
  have ran : sampleFleet.run (fleetStart (fun _ => none) emptyShards) steps = some _ := rfl
  have met : sampleFleet.Meets persisting (fleetStart (fun _ => none) emptyShards) steps := by
    refine Machine.meets_cons ⟨rfl, trivial⟩ rfl (Machine.meets_cons ⟨?_, trivial⟩ rfl
      (Machine.meets_cons ⟨?_, trivial⟩ rfl (Machine.meets_cons ⟨?_, trivial⟩ rfl
      (Machine.meets_cons ⟨rfl, trivial⟩ rfl (Machine.meets_cons ⟨?_, trivial⟩ rfl
      (Machine.meets_cons ⟨rfl, trivial⟩ rfl (Machine.meets_cons ⟨?_, trivial⟩ rfl
      (Machine.meets_cons ⟨?_, trivial⟩ rfl trivial))))))))
    all_goals
      intro call handler streamIndex k live
      cases live
    exact ⟨rfl, rfl⟩
  exact ⟨_, ⟨_, _, _, rfl⟩, rfl, (drainers_exclusive (Machine.reach_of_meets met ran)).1⟩

/-- The flag expires while its handler drains: two handlers drain shard 0, and the first of
them frees the flag of the second. -/
theorem drainers_overlap : ∃ c d e : FleetConfig Unit Unit,
    Machine.Reach sampleFleet scheduled (fleetStart (fun _ => none) emptyShards) c ∧
    Draining c 1 0 ∧ Draining c 3 0 ∧ Machine.Reach sampleFleet scheduled c d ∧
    (∃ call k, d.procs 1 = .live call (.await (.del (getStreamKeyFlag sampleSettings 0)) k)) ∧
    Has (.handler 3) (getStreamKeyFlag sampleSettings 0) d.world ∧
    sampleFleet.step d (.step 1 {}) = some e ∧
    e.world.keys (getStreamKeyFlag sampleSettings 0) = none ∧ Draining e 3 0 := by
  let before : List (Action Choice (Env Unit) Call) :=
    [.spawn 0 (.spawn 0 1), .step 0 {}, .step 0 {}, .step 0 { task := 1 },
      .spawn 1 (.drainerHandler 0 0), .step 1 {}, .env (.expired (getStreamKeyFlag sampleSettings 0)),
      .spawn 2 (.spawn 1 1), .step 2 {}, .step 2 {}, .step 2 { task := 3 },
      .spawn 3 (.drainerHandler 1 0), .step 3 {}]
  have ran : sampleFleet.run (fleetStart (fun _ => none) emptyShards) before = some _ := rfl
  have met : sampleFleet.Meets scheduled (fleetStart (fun _ => none) emptyShards) before := by
    refine Machine.meets_cons rfl rfl (Machine.meets_cons ?_ rfl (Machine.meets_cons ?_ rfl
      (Machine.meets_cons ?_ rfl (Machine.meets_cons rfl rfl (Machine.meets_cons ?_ rfl
      (Machine.meets_cons trivial rfl (Machine.meets_cons rfl rfl (Machine.meets_cons ?_ rfl
      (Machine.meets_cons ?_ rfl (Machine.meets_cons ?_ rfl (Machine.meets_cons rfl rfl
      (Machine.meets_cons ?_ rfl trivial))))))))))))
    all_goals
      intro call handler streamIndex k live
      cases live
    · exact ⟨rfl, rfl⟩
    · exact ⟨rfl, rfl⟩
  refine ⟨_, _, _, Machine.reach_of_meets met ran, ⟨_, _, _, rfl⟩, ⟨_, _, _, rfl⟩,
    .next (.step 1 {}) .start ?_ rfl, ⟨_, _, rfl⟩, ⟨_, rfl, rfl⟩, rfl, rfl, ⟨_, _, _, rfl⟩⟩
  intro call handler streamIndex k live
  cases live

end Mercado.Drainer.Fleet
