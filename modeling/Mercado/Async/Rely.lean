import Mercado.Async.Machine

/-! Reasoning about one process at a time. Between two of its steps the others may
move the shared state along `rely`; its own steps must stay inside `guar`. The two
are matched against each other once, for all processes and all interleavings. -/
namespace Async

/-- What one process may count on and what each of its commands must keep to. `inv`
holds of the shared state between any two steps; `allow` are the steps the run permits. -/
structure Setting (C : Type) (R : C → Type) (S O : Type) where
  exec : (c : C) → O → S → R c × S
  inv : S → Prop
  rely : S → S → Prop
  guar : C → S → S → Prop
  allow : C → O → S → Prop

variable {C : Type} {R : C → Type} {S O E A β : Type}

namespace Setting

variable {P : Setting C R S O} {α γ : Type}

/-- From state `s` on, every permitted step of the task keeps the invariant and
the guarantee, whatever the others do in between, and it ends with `post`. -/
def Holds (P : Setting C R S O) (post : α → S → Prop) : Task C R α → S → Prop
  | .done a, s => post a s
  | .await c k, s => ∀ s', P.rely s s' → P.inv s' → ∀ o, P.allow c o s' →
      P.guar c s' (P.exec c o s').2 ∧ P.inv (P.exec c o s').2 ∧
        Holds P post (k (P.exec c o s').1) (P.exec c o s').2

theorem Holds.mono {post post' : α → S → Prop} (weaker : ∀ a s, post a s → post' a s)
    {t : Task C R α} {s : S} (h : P.Holds post t s) : P.Holds post' t s := by
  induction t generalizing s with
  | done a => exact weaker a s h
  | await c k ih =>
    intro s' moved inv o allowed
    obtain ⟨kept, inv', rest⟩ := h s' moved inv o allowed
    exact ⟨kept, inv', ih _ rest⟩

theorem Holds.weaken {guar : C → S → S → Prop} {post : α → S → Prop}
    (weaker : ∀ c s t, P.guar c s t → guar c s t) {t : Task C R α} {s : S} (h : P.Holds post t s) :
    Setting.Holds { P with guar := guar } post t s := by
  induction t generalizing s with
  | done a => exact h
  | await c k ih =>
    intro s' moved inv o allowed
    obtain ⟨kept, inv', rest⟩ := h s' moved inv o allowed
    exact ⟨weaker _ _ _ kept, inv', ih _ rest⟩

theorem Holds.bind {post : γ → S → Prop} {f : α → Task C R γ} {t : Task C R α} {s : S}
    (h : P.Holds (fun a u => P.Holds post (f a) u) t s) : P.Holds post (t.bind f) s := by
  induction t generalizing s with
  | done a => exact h
  | await c k ih =>
    intro s' moved inv o allowed
    obtain ⟨kept, inv', rest⟩ := h s' moved inv o allowed
    exact ⟨kept, inv', ih _ rest⟩

theorem Holds.bindExcept {ε : Type} {post : Except ε γ → S → Prop}
    {t : ExceptT ε (Task C R) α} {f : α → ExceptT ε (Task C R) γ} {s : S}
    (h : P.Holds (fun r u => match r with
      | .ok a => P.Holds post (f a).run u
      | .error e => post (.error e) u) t.run s) : P.Holds post (t >>= f).run s := by
  rw [Task.run_bind]
  refine Holds.bind (h.mono ?_)
  intro r u after
  cases r <;> exact after

theorem Holds.lift {ε : Type} {post : Except ε α → S → Prop} {t : Task C R α} {s : S}
    (h : P.Holds (fun r => post (.ok r)) t s) :
    P.Holds post (ExceptT.lift t : ExceptT ε (Task C R) α).run s := .bind h

theorem Holds.changeContext {ε η : Type} {e : ε} {post : Except ε α → S → Prop}
    {t : Task C R (Except η α)} {s : S} (h : P.Holds (fun r => post (r.mapError fun _ => e)) t s) :
    P.Holds post (Task.changeContext e t).run s := .bind h

def Stable (P : Setting C R S O) (I : S → Prop) : Prop :=
  ∀ s s', P.rely s s' → P.inv s' → I s → I s'

/-- What a command makes of an assertion, whichever way it goes. -/
def Step (P : Setting C R S O) (I : S → Prop) (c : C) (Q : R c → S → Prop) : Prop :=
  ∀ s o, P.inv s → P.allow c o s → I s →
    P.guar c s (P.exec c o s).2 ∧ P.inv (P.exec c o s).2 ∧ Q (P.exec c o s).1 (P.exec c o s).2

theorem Holds.await {post : α → S → Prop} {c : C} {k : R c → Task C R α} {I : S → Prop}
    {Q : R c → S → Prop} {s : S} (stable : P.Stable I) (step : P.Step I c Q)
    (rest : ∀ r s, Q r s → P.Holds post (k r) s) (holds : I s) : P.Holds post (.await c k) s := by
  intro s' moved inv o allowed
  obtain ⟨kept, inv', after⟩ := step s' o inv allowed (stable s s' moved inv holds)
  exact ⟨kept, inv', rest _ _ after⟩

theorem Holds.call {c : C} {I : S → Prop} {Q : R c → S → Prop} {s : S} (stable : P.Stable I)
    (step : P.Step I c Q) (holds : I s) : P.Holds Q (Task.call c) s :=
  .await stable step (fun _ _ h => h) holds

theorem Holds.every {A : C → Prop} {I : S → Prop} (stable : P.Stable I)
    (step : ∀ c, A c → P.Step I c fun _ => I) {t : Task C R α} {s : S} (h : t.every A)
    (holds : I s) : P.Holds (fun _ => I) t s := by
  induction t generalizing s with
  | done a => exact holds
  | await c k ih => exact .await stable (step c h.1) (fun r s holds => ih r (h.2 r) holds) holds

theorem Holds.stable (trans : ∀ s t u, P.rely s t → P.rely t u → P.rely s u)
    {post : α → S → Prop} {c : C} {k : R c → Task C R α} {s u : S}
    (h : P.Holds post (.await c k) s) (moved : P.rely s u) : P.Holds post (.await c k) u :=
  fun s' later inv o allowed => h s' (trans s u s' moved later) inv o allowed

theorem Holds.outcome (alone : ∀ s, P.rely s s) (all : ∀ c o s, P.allow c o s)
    {post : α → S → Prop} {t : Task C R α} {s u : S} {a : α} (inv : P.inv s)
    (h : P.Holds post t s) (ran : Task.Outcome P.exec t s a u) : post a u ∧ P.inv u := by
  induction t generalizing s with
  | done b =>
    obtain ⟨rfl, rfl⟩ := ran
    exact ⟨h, inv⟩
  | await c k ih =>
    obtain ⟨o, ran⟩ := ran
    obtain ⟨_, inv', rest⟩ := h s (alone s) inv o (all c o s)
    exact ih _ inv' rest ran

end Setting

/-- A rely and a guarantee for every process, with the proofs that the guarantees
of the others and of the environment stay inside the rely. `post` describes the
results; it must survive whatever happens after the call has returned. -/
structure Discipline (M : Machine C R S O E A β)
    (ok : Config C R S A β → Action O E A → Prop) (start : Config C R S A β) where
  inv : S → Prop
  rely : Nat → S → S → Prop
  guar : Nat → A → C → S → S → Prop
  allow : Nat → C → O → S → Prop
  post : Nat → A → β → S → Prop
  rely_refl : ∀ p s, rely p s s
  rely_trans : ∀ p s t u, rely p s t → rely p t u → rely p s u
  starts : inv start.world ∧ ∀ p, start.procs p = .idle
  allowed : ∀ {c p o a cmd k}, c.procs p = .live a (.await cmd k) → ok c (.step p o) →
    allow p cmd o c.world
  spawned : ∀ {c p a}, Machine.Reach M ok start c → inv c.world → c.procs p = .idle →
    ok c (.spawn p a) →
    Setting.Holds ⟨M.exec p, inv, rely p, guar p a, allow p⟩ (post p a) (M.program a) c.world
  others : ∀ {c p q a b cmd k cmd' k' o}, Machine.Reach M ok start c →
    c.procs p = .live a (.await cmd k) → c.procs q = .live b (.await cmd' k') → p ≠ q →
    inv c.world → guar p a cmd c.world (M.exec p cmd o c.world).2 →
    rely q c.world (M.exec p cmd o c.world).2
  env : ∀ {c e t}, Machine.Reach M ok start c → ok c (.env e) → inv c.world →
    M.env e c.world = some t →
    inv t ∧ ∀ q b cmd k, c.procs q = .live b (.await cmd k) → rely q c.world t
  kept : ∀ {q b r c act d}, Machine.Reach M ok start c → ok c act → M.step c act = some d →
    inv c.world → inv d.world → c.procs q = .live b (.done r) →
    post q b r c.world → post q b r d.world

namespace Discipline

variable {M : Machine C R S O E A β} {ok : Config C R S A β → Action O E A → Prop}
  {start c d : Config C R S A β} (D : Discipline M ok start)

def setting (p : Nat) (a : A) : Setting C R S O :=
  ⟨M.exec p, D.inv, D.rely p, D.guar p a, D.allow p⟩

structure Sound (c : Config C R S A β) : Prop where
  inv : D.inv c.world
  holds : ∀ p a t, c.procs p = .live a t → (D.setting p a).Holds (D.post p a) t c.world

variable {D}

theorem Sound.own_step {p : Nat} {o : O} (sound : D.Sound c) (met : ok c (.step p o))
    (h : M.step c (.step p o) = some d) :
    ∃ a cmd k, c.procs p = .live a (.await cmd k) ∧ d.world = (M.exec p cmd o c.world).2 ∧
      D.guar p a cmd c.world d.world ∧ D.inv d.world ∧
      (D.setting p a).Holds (D.post p a) (k (M.exec p cmd o c.world).1) d.world ∧
      d.procs = (c.setProc p (.live a (k (M.exec p cmd o c.world).1))).procs := by
  obtain ⟨a, cmd, k, live, procs, world⟩ := Machine.step_step h
  obtain ⟨kept, inv, rest⟩ := sound.holds p a _ live c.world (D.rely_refl p _) sound.inv o
    (D.allowed live met)
  refine ⟨a, cmd, k, live, world, ?_, ?_, ?_, procs⟩ <;> rw [world]
  · exact kept
  · exact inv
  · exact rest

theorem Sound.next {act : Action O E A} (reached : Machine.Reach M ok start c)
    (sound : D.Sound c) (met : ok c act) (h : M.step c act = some d) : D.Sound d := by
  -- a finished call only has its postcondition to keep, an awaiting one its whole rest
  have other : ∀ {q b u}, D.inv d.world → c.procs q = .live b u →
      (∀ cmd k, u = .await cmd k → D.rely q c.world d.world) →
      (D.setting q b).Holds (D.post q b) u d.world := by
    intro q b u inv live moved
    cases u with
    | done r => exact D.kept reached met h sound.inv inv live (sound.holds q b _ live)
    | await cmd k =>
      exact (sound.holds q b _ live).stable (D.rely_trans q) (moved cmd k rfl)
  cases act with
  | spawn p a =>
    obtain ⟨idle, rfl⟩ := Machine.step_spawn h
    refine ⟨sound.inv, fun q b u live => ?_⟩
    by_cases same : q = p
    · subst same
      rw [Config.setProc_self] at live
      cases live
      have begun := D.spawned reached sound.inv idle met
      exact begun
    · rw [Config.setProc_other same] at live
      exact sound.holds q b u live
  | step p o =>
    obtain ⟨a, cmd, k, before, world, kept, inv, rest, procs⟩ := sound.own_step met h
    refine ⟨inv, fun q b u live => ?_⟩
    rw [procs] at live
    by_cases same : q = p
    · subst same
      rw [Config.setProc_self] at live
      cases live
      exact rest
    · rw [Config.setProc_other same] at live
      refine other inv live fun cmd' k' await => ?_
      subst await
      rw [world] at kept ⊢
      exact D.others reached before live (Ne.symm same) sound.inv kept
  | crash p =>
    obtain ⟨a, cmd, k, before, rfl⟩ := Machine.step_crash h
    refine ⟨sound.inv, fun q b u live => ?_⟩
    by_cases same : q = p
    · subst same
      rw [Config.setProc_self] at live
      cases live
    · rw [Config.setProc_other same] at live
      exact sound.holds q b u live
  | env e =>
    obtain ⟨moved, procs⟩ := Machine.step_env h
    obtain ⟨inv, relied⟩ := D.env reached met sound.inv moved
    refine ⟨inv, fun q b u live => ?_⟩
    rw [procs] at live
    refine other inv live fun cmd k await => ?_
    subst await
    exact relied q b cmd k live

/-- Every run of the machine keeps every process inside its discipline. -/
theorem sound (D : Discipline M ok start) (h : Machine.Reach M ok start c) : D.Sound c := by
  induction h with
  | start =>
    refine ⟨D.starts.1, fun p a t live => ?_⟩
    rw [D.starts.2 p] at live
    cases live
  | next act reached met hs ih => exact ih.next reached met hs

end Discipline
end Async
