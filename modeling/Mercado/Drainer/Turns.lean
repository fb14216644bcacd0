import Mercado.Drainer.Loss

/-! Overlapping drainers execute nothing out of turn: the query of an entry is executed only
after all entries before it have been applied, by whichever run. An entry that does not decode
is never applied, so nothing behind it is executed. -/
namespace Mercado.Drainer
open Async Redis

variable {φ δ π : Type}

def Due (w : Shard φ) (entry : Entry φ) : Prop :=
  ∀ x ∈ appendedEntries w.log, x.id < entry.id → Applied w.log x

def ExecutesDue (w : Shard φ) (c : Command φ δ) : Prop :=
  ∀ entry data, c = .executeQuery entry data → entry.id ≤ w.stream.lastId ∧ Due w entry

section Outline

variable {P : Setting (Command φ δ) (Reply φ δ) (Shard φ) Choice} {fromHashmap : φ → Except π δ}
  {maxReadCount : Nat} {streamName : String} {post : Except DrainerError Unit → Shard φ → Prop}

def Outline.guarantee (O : Outline P fromHashmap maxReadCount streamName post)
    (execute : ∀ batch xs entry rest data w, batch = xs.map Prod.fst ++ entry :: rest →
      (∀ x ∈ xs, x.2.processed = true) → P.inv w → O.looping batch xs w →
      ExecutesDue w (.executeQuery entry data : Command φ δ)) :
    Outline { P with guar := fun c w w' => P.guar c w w' ∧ ExecutesDue w c } fromHashmap
      maxReadCount streamName post where
  begun := O.begun
  looping := O.looping
  trimmed := O.trimmed
  deleted := O.deleted
  begun_stable := O.begun_stable
  looping_stable := O.looping_stable
  trimmed_stable := O.trimmed_stable
  deleted_stable := O.deleted_stable
  read := by
    intro w o inv allowed begun
    obtain ⟨kept, rest⟩ := O.read w o inv allowed begun
    exact ⟨⟨kept, nofun⟩, rest⟩
  execute := by
    intro batch xs entry rest data split gone parsed w o inv allowed holds
    obtain ⟨kept, after⟩ := O.execute batch xs entry rest data split gone parsed w o inv allowed
      holds
    exact ⟨⟨kept, execute batch xs entry rest data w split gone inv holds⟩, after⟩
  nothing := O.nothing
  trim := by
    intro batch xs id stops last w o inv allowed holds
    obtain ⟨kept, rest⟩ := O.trim batch xs id stops last w o inv allowed holds
    exact ⟨⟨kept, nofun⟩, rest⟩
  delete := by
    intro batch xs id n stops last w o inv allowed holds
    obtain ⟨kept, rest⟩ := O.delete batch xs id n stops last w o inv allowed holds
    exact ⟨⟨kept, nofun⟩, rest⟩
  finish := O.finish
  report := by
    intro batch xs n stops some_processed differ w o inv allowed holds
    obtain ⟨kept, rest⟩ := O.report batch xs n stops some_processed differ w o inv allowed holds
    exact ⟨⟨kept, nofun⟩, rest⟩

end Outline

variable {fromHashmap : φ → Except π δ} {streamName : String}

/-- What stands before an entry of the batch has been executed, or was applied when the batch
was read. -/
theorem Looping.due {run : Nat} {batch rest : StreamEntries φ} {xs : List (Entry φ × QueryResult)}
    {entry : Entry φ} {w : Shard φ} (split : batch = xs.map Prod.fst ++ entry :: rest)
    (gone : ∀ x ∈ xs, x.2.processed = true) (intact : Intact fromHashmap w)
    (looping : Looping run batch xs w) : entry.id ≤ w.stream.lastId ∧ Due w entry := by
  have member : entry ∈ batch := by simp [split]
  refine ⟨looping.covers.issued entry member, fun x appended lt => ?_⟩
  rcases intact.kept x appended with still | applied
  · have inBatch := looping.covers.upTo x still entry member (Nat.le_of_lt lt)
    have sorted := looping.covers.sorted
    rw [split] at inBatch sorted
    rcases List.mem_append.mp inBatch with before | behind
    · obtain ⟨y, mem, rfl⟩ := List.mem_map.mp before
      exact ⟨run, y.2, mem_executions.mp (looping.own ▸ mem), gone y mem⟩
    · have above := (List.pairwise_append.mp sorted).2.1
      rcases List.mem_cons.mp behind with rfl | later
      · exact absurd lt (Nat.lt_irrefl _)
      · exact absurd ((List.pairwise_cons.mp above).1 x later) (Nat.lt_asymm lt)
  · exact applied

def inTurn (fromHashmap : φ → Except π δ) (streamName : String) :
    Discipline (machine fromHashmap streamName) Machine.anyStep (.initial Shard.empty) :=
  { lossless fromHashmap streamName with
    guar := fun run _ c w w' => Drains run w w' ∧ ExecutesDue w c
    spawned := by
      intro c run maxReadCount reached _ idle _
      have silent :=
        (shardHistory fromHashmap streamName).idle_silent reached (fun _ => rfl) run idle
      refine drainer_holds ((losslessOutline fromHashmap run maxReadCount streamName).guarantee ?_)
        silent
      rintro batch xs entry rest data w split gone intact looping _ _ ⟨⟩
      exact looping.due split gone intact
    others := by
      intro c p q a b cmd k cmd' k' o reached live live' differ intact kept
      exact (lossless fromHashmap streamName).others reached live live' differ intact kept.1 }

structure Turns (w : Shard φ) : Prop where
  sorted : (appendedEntries w.log).Pairwise fun a b => a.id < b.id
  issued : ∀ x ∈ appendedEntries w.log, x.id ≤ w.stream.lastId
  executed : ∀ run e r, .executed run e r ∈ w.log → e.id ≤ w.stream.lastId
  turn : ∀ before run e r after, w.log = before ++ .executed run e r :: after →
    ∀ x ∈ appendedEntries w.log, x.id < e.id → Applied before x

theorem Turns.push {w w' : Shard φ} {ev : Event φ} (h : Turns w)
    (lastId : w'.stream.lastId = w.stream.lastId) (log : w'.log = w.log ++ [ev])
    (silent : appendedEntries [ev] = [])
    (due : ∀ run e r, ev = .executed run e r → e.id ≤ w.stream.lastId ∧ Due w e) : Turns w' := by
  have same : appendedEntries w'.log = appendedEntries w.log := by
    rw [log, appendedEntries_append, silent, List.append_nil]
  refine ⟨same ▸ h.sorted, ?_, ?_, ?_⟩
  · rw [same, lastId]
    exact h.issued
  · intro run e r mem
    rw [log] at mem
    rw [lastId]
    rcases List.mem_append.mp mem with before | new
    · exact h.executed run e r before
    · exact (due run e r (List.mem_singleton.mp new).symm).1
  · intro before run e r after split
    rw [same]
    rcases snoc_split (log.symm.trans split) with ⟨rfl, rfl⟩ | ⟨after', earlier⟩
    · exact (due run e r rfl).2
    · exact h.turn before run e r after' earlier

theorem Turns.append {w w' : Shard φ} {a : Append φ} (h : Turns w) (moved : append a w = some w') :
    Turns w' := by
  cases Option.some.inj moved
  have grown : w.stream.lastId ≤ (w.stream.xadd a.gap a.fields).lastId := by
    rw [Stream.xadd_lastId]
    omega
  have above : w.stream.lastId < (w.stream.added a.gap a.fields).id := by
    simp only [Stream.added]
    omega
  have all : appendedEntries (w.log ++ [.appended (w.stream.added a.gap a.fields)]) =
      appendedEntries w.log ++ [w.stream.added a.gap a.fields] := appendedEntries_append ..
  refine ⟨?_, ?_, ?_, ?_⟩ <;> simp only [all]
  · refine List.pairwise_append.mpr ⟨h.sorted, List.pairwise_singleton _ _, ?_⟩
    intro x mem y new
    rw [List.mem_singleton.mp new]
    exact Nat.lt_of_le_of_lt (h.issued x mem) above
  · intro x mem
    rcases List.mem_append.mp mem with before | new
    · exact Nat.le_trans (h.issued x before) grown
    · rw [List.mem_singleton.mp new]
      exact Nat.le_refl _
  · intro run e r mem
    rcases List.mem_append.mp mem with before | new
    · exact Nat.le_trans (h.executed run e r before) grown
    · cases List.mem_singleton.mp new
  · intro before run e r after split x mem lt
    rcases snoc_split split with ⟨_, new⟩ | ⟨after', earlier⟩
    · cases new
    · rcases List.mem_append.mp mem with old | new
      · exact h.turn before run e r after' earlier x old lt
      · have executed := h.executed run e r (by simp [earlier])
        rw [List.mem_singleton.mp new] at lt
        omega

theorem Turns.pushOther {w w' : Shard φ} {ev : Event φ} (h : Turns w)
    (lastId : w'.stream.lastId = w.stream.lastId) (log : w'.log = w.log ++ [ev])
    (silent : appendedEntries [ev] = []) (other : executions [ev] = []) : Turns w' := by
  refine h.push lastId log silent ?_
  rintro run e r rfl
  cases other

theorem Turns.exec {w : Shard φ} {run : Nat} {c : Command φ δ} {o : Choice} (h : Turns w)
    (due : ExecutesDue w c) : Turns (exec run c o w).2 := by
  cases c with
  | streamReadEntries name id count =>
    cases answer : o.redis with
    | answered =>
      simp only [Drainer.exec, answer]
      exact h.pushOther rfl rfl rfl rfl
    | lost | unanswered =>
      simp only [Drainer.exec, answer]
      exact h
  | executeQuery entry data =>
    refine h.push rfl rfl rfl ?_
    rintro _ _ _ ⟨⟩
    exact due entry data rfl
  | streamTrimEntries name id =>
    simp only [Drainer.exec]
    rcases Delivery.through_cases o.redis _ w _ with kept | lost | cut
    · rw [kept]
      exact h.pushOther rfl rfl rfl rfl
    · rw [lost]
      exact h
    · rw [cut]
      exact h.pushOther rfl rfl rfl rfl
  | streamDeleteEntries name id =>
    simp only [Drainer.exec]
    rcases Delivery.through_cases o.redis _ w _ with kept | lost | cut
    · rw [kept]
      exact h.pushOther rfl rfl rfl rfl
    · rw [lost]
      exact h
    · rw [cut]
      exact h.pushOther rfl rfl rfl rfl
  | assertionFailed n m => exact h.pushOther rfl rfl rfl rfl

variable {c : Config (Command φ δ) (Reply φ δ) (Shard φ) Nat (Except DrainerError Unit)}

theorem reach_turns
    (reached : Machine.Reach (machine fromHashmap streamName) Machine.anyStep
      (.initial Shard.empty) c) : Turns c.world := by
  refine reached.invariant (I := fun c => Turns c.world) ?_ ?_
  · refine ⟨.nil, nofun, nofun, fun before _ _ _ _ split => ?_⟩
    simp [Config.initial, Shard.empty] at split
  · intro c act d before turns met h
    rcases Machine.step_world h with same | ⟨run, o, _, cmd, _, rfl, live, world⟩ | ⟨a, _, moved⟩
    · rw [same]
      exact turns
    · have sound := (inTurn fromHashmap streamName).sound before
      obtain ⟨_, cmd', _, live', _, guaranteed, _⟩ := sound.own_step met h
      rw [live] at live'
      cases live'
      rw [world]
      exact turns.exec guaranteed.2
    · exact turns.append moved

/-- All that was appended before an entry has been applied before the entry is executed. It has
been decoded then, so that an entry that does not decode keeps back everything behind it. -/
theorem drainer_in_turn
    (reached : Machine.Reach (machine fromHashmap streamName) Machine.anyStep
      (.initial Shard.empty) c) {front back : StreamEntries φ} {e : Entry φ}
    (appended : appendedEntries c.world.log = front ++ e :: back) {run : Nat} {r : QueryResult}
    {before after : List (Event φ)} (executed : c.world.log = before ++ .executed run e r :: after) :
    ∀ x ∈ front, Applied before x ∧ ∃ data, fromHashmap x.fields = .ok data := by
  intro x mem
  have turns := reach_turns reached
  have sorted := turns.sorted
  rw [appended] at sorted
  have lt : x.id < e.id := (List.pairwise_append.mp sorted).2.2 x mem e List.mem_cons_self
  have applied : Applied before x :=
    turns.turn before run e r after executed x (by simp [appended, mem]) lt
  refine ⟨applied, ?_⟩
  obtain ⟨by', result, done, _⟩ := applied
  have intact : Intact fromHashmap c.world := ((lossless fromHashmap streamName).sound reached).inv
  refine intact.parsed (x, result) (List.mem_filterMap.mpr ⟨.executed by' x result, ?_, rfl⟩)
  rw [executed]
  exact List.mem_append_left _ done

/-- Two overlapping runs: the second one goes on to the second entry. -/
theorem drainer_in_turn_overlapping :
    ∃ before : List (Event Nat), (.executed 0 ⟨1, 7⟩ .ok) ∈ before ∧
      ∀ x ∈ [(⟨1, 7⟩ : Entry Nat)], Applied before x ∧
        ∃ data, (.ok x.fields : Except Unit Nat) = .ok data := by
  obtain ⟨c, ran, appended, log⟩ :
      ∃ c : Config (Command Nat Nat) (Reply Nat Nat) (Shard Nat) Nat (Except DrainerError Unit),
        (machine (fun n => (.ok n : Except Unit Nat)) "s").run (.initial Shard.empty)
          [.env ⟨0, 7⟩, .env ⟨0, 8⟩, .spawn 0 10, .spawn 1 10, .step 0 {}, .step 1 {}, .step 0 {},
            .step 1 {}, .step 1 {}] = some c ∧
        appendedEntries c.world.log = [] ++ [⟨1, 7⟩] ++ ⟨2, 8⟩ :: [] ∧
        c.world.log =
          [.appended ⟨1, 7⟩, .appended ⟨2, 8⟩, .read 0 [⟨1, 7⟩, ⟨2, 8⟩],
            .read 1 [⟨1, 7⟩, ⟨2, 8⟩], .executed 0 ⟨1, 7⟩ .ok, .executed 1 ⟨1, 7⟩ .ok] ++
          .executed 1 ⟨2, 8⟩ .ok :: [] := ⟨_, rfl, rfl, rfl⟩
  exact ⟨_, by simp, drainer_in_turn (Machine.reach_of_run ran) appended log⟩

end Mercado.Drainer
