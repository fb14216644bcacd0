import Mathlib.Logic.Function.Basic
import Mercado.Async.Task

/-! Any number of processes over one shared state. A process runs one call; the
calls are interleaved at their await points, any of them may crash there, and the
environment may change the shared state between two steps. -/
namespace Async

/-- The answers and effects of the commands, the changes the environment makes by
itself, and the code that a call runs. The process number reaches `exec` so that
the shared state can remember who did what. -/
structure Machine (C : Type) (R : C → Type) (S O E A β : Type) where
  exec : Nat → (c : C) → O → S → R c × S
  env : E → S → Option S
  program : A → Task C R β

inductive Proc (C : Type) (R : C → Type) (A β : Type) where
  | idle
  | live (call : A) (task : Task C R β)
  | crashed (call : A)

structure Config (C : Type) (R : C → Type) (S A β : Type) where
  world : S
  procs : Nat → Proc C R A β

inductive Action (O E A : Type) where
  | spawn (p : Nat) (call : A)
  | step (p : Nat) (o : O)
  | crash (p : Nat)
  | env (e : E)

def Action.process {O E A : Type} : Action O E A → Option Nat
  | .spawn p _ | .step p _ | .crash p => some p
  | .env _ => none

variable {C : Type} {R : C → Type} {S O E A β : Type}

def Proc.call : Proc C R A β → Option A
  | .idle => none
  | .live a _ | .crashed a => some a

namespace Config

def initial (s : S) : Config C R S A β := ⟨s, fun _ => .idle⟩

def setProc (c : Config C R S A β) (p : Nat) (x : Proc C R A β) : Config C R S A β :=
  { c with procs := Function.update c.procs p x }

@[simp] theorem setProc_world (c : Config C R S A β) (p : Nat) (x : Proc C R A β) :
    (c.setProc p x).world = c.world := rfl

@[simp] theorem setProc_self (c : Config C R S A β) (p : Nat) (x : Proc C R A β) :
    (c.setProc p x).procs p = x := Function.update_self ..

theorem setProc_other {c : Config C R S A β} {p q : Nat} (h : q ≠ p) (x : Proc C R A β) :
    (c.setProc p x).procs q = c.procs q := Function.update_of_ne h ..

end Config

namespace Machine

def step (M : Machine C R S O E A β) (c : Config C R S A β) : Action O E A → Option (Config C R S A β)
  | .spawn p a =>
    match c.procs p with
    | .idle => some (c.setProc p (.live a (M.program a)))
    | _ => none
  | .step p o =>
    match c.procs p with
    | .live a (.await cmd k) =>
      let x := M.exec p cmd o c.world
      some { (c.setProc p (.live a (k x.1))) with world := x.2 }
    | _ => none
  | .crash p =>
    match c.procs p with
    | .live a (.await _ _) => some (c.setProc p (.crashed a))
    | _ => none
  | .env e => (M.env e c.world).map fun s => { c with world := s }

def run (M : Machine C R S O E A β) (c : Config C R S A β) : List (Action O E A) → Option (Config C R S A β)
  | [] => some c
  | a :: as => (M.step c a).bind fun d => run M d as

/-- The configurations that runs reach when every step meets `ok`, a condition on
the configuration before the step and on the step. -/
inductive Reach (M : Machine C R S O E A β) (ok : Config C R S A β → Action O E A → Prop)
    (start : Config C R S A β) : Config C R S A β → Prop where
  | start : Reach M ok start start
  | next {c d : Config C R S A β} (a : Action O E A) : Reach M ok start c → ok c a →
      M.step c a = some d → Reach M ok start d

abbrev anyStep (_ : Config C R S A β) (_ : Action O E A) : Prop := True

def Meets (M : Machine C R S O E A β) (ok : Config C R S A β → Action O E A → Prop) :
    Config C R S A β → List (Action O E A) → Prop
  | _, [] => True
  | c, a :: as => ok c a ∧ ∀ d, M.step c a = some d → Meets M ok d as

variable {M : Machine C R S O E A β} {c d : Config C R S A β}

/- What each kind of action can do, once and for all. -/
theorem step_spawn {p : Nat} {a : A} (h : M.step c (.spawn p a) = some d) :
    c.procs p = .idle ∧ d = c.setProc p (.live a (M.program a)) := by
  simp only [step] at h
  split at h
  · rename_i idle
    exact ⟨idle, (Option.some.inj h).symm⟩
  · contradiction

theorem step_step {p : Nat} {o : O} (h : M.step c (.step p o) = some d) :
    ∃ a cmd k, c.procs p = .live a (.await cmd k) ∧
      d.procs = (c.setProc p (.live a (k (M.exec p cmd o c.world).1))).procs ∧
      d.world = (M.exec p cmd o c.world).2 := by
  simp only [step] at h
  split at h
  · rename_i a cmd k live
    cases Option.some.inj h
    exact ⟨a, cmd, k, live, rfl, rfl⟩
  · contradiction

theorem step_crash {p : Nat} (h : M.step c (.crash p) = some d) :
    ∃ a cmd k, c.procs p = .live a (.await cmd k) ∧ d = c.setProc p (.crashed a) := by
  simp only [step] at h
  split at h
  · rename_i a cmd k live
    exact ⟨a, cmd, k, live, (Option.some.inj h).symm⟩
  · contradiction

theorem step_env {e : E} (h : M.step c (.env e) = some d) :
    M.env e c.world = some d.world ∧ d.procs = c.procs := by
  simp only [step, Option.map_eq_some_iff] at h
  obtain ⟨s, hs, rfl⟩ := h
  exact ⟨hs, rfl⟩

variable {ok : Config C R S A β → Action O E A → Prop} {start : Config C R S A β}

theorem Reach.trans {e : Config C R S A β} (h : Reach M ok start c) (g : Reach M ok c e) :
    Reach M ok start e := by
  induction g with
  | start => exact h
  | next a _ met hs ih => exact .next a ih met hs

theorem Reach.mono {ok' : Config C R S A β → Action O E A → Prop}
    (weaker : ∀ c a, ok c a → ok' c a) (h : Reach M ok start c) : Reach M ok' start c := by
  induction h with
  | start => exact .start
  | next a _ met hs ih => exact .next a ih (weaker _ _ met) hs

theorem Reach.strengthen {ok' : Config C R S A β → Action O E A → Prop} (h : Reach M ok start c)
    (met : ∀ c a, Reach M ok start c → ok c a → ok' c a) : Reach M ok' start c := by
  induction h with
  | start => exact .start
  | next a before allowed hs ih => exact .next a ih (met _ a before allowed) hs

theorem Reach.invariant {I : Config C R S A β → Prop} (h : Reach M ok start c) (initial : I start)
    (preserved : ∀ c a d, Reach M ok start c → I c → ok c a → M.step c a = some d → I d) :
    I c := by
  induction h with
  | start => exact initial
  | next a before met hs ih => exact preserved _ _ _ before ih met hs

theorem reach_of_meets {as : List (Action O E A)} (met : M.Meets ok c as)
    (h : M.run c as = some d) : Reach M ok c d := by
  induction as generalizing c with
  | nil => cases Option.some.inj h; exact .start
  | cons a as ih =>
    simp only [run, Option.bind_eq_some_iff] at h
    obtain ⟨m, hm, rest⟩ := h
    exact .trans (.next a .start met.1 hm) (ih (met.2 m hm) rest)

theorem meets_any (M : Machine C R S O E A β) (c : Config C R S A β)
    (as : List (Action O E A)) : M.Meets anyStep c as := by
  induction as generalizing c with
  | nil => trivial
  | cons a as ih => exact ⟨trivial, fun d _ => ih d⟩

theorem reach_of_run {as : List (Action O E A)} (h : M.run c as = some d) :
    Reach M anyStep c d :=
  reach_of_meets (meets_any M c as) h

theorem run_rest {m : Config C R S A β} {as bs : List (Action O E A)} (first : M.run c as = some m)
    (whole : M.run c (as ++ bs) = some d) : M.run m bs = some d := by
  induction as generalizing c with
  | nil =>
    cases Option.some.inj first
    exact whole
  | cons a as ih =>
    simp only [run, List.cons_append, Option.bind_eq_some_iff] at first whole
    obtain ⟨m₁, h₁, first⟩ := first
    obtain ⟨m₂, h₂, whole⟩ := whole
    cases h₁.symm.trans h₂
    exact ih first whole

theorem step_other {p : Nat} {act : Action O E A} (h : M.step c act = some d)
    (other : act.process ≠ some p) : d.procs p = c.procs p := by
  have differ : ∀ q, act.process = some q → p ≠ q := fun q acts same => other (same ▸ acts)
  cases act with
  | spawn q b =>
    obtain ⟨_, rfl⟩ := step_spawn h
    exact Config.setProc_other (differ q rfl) _
  | step q o =>
    obtain ⟨b, cmd, k, _, procs, _⟩ := step_step h
    rw [procs]
    exact Config.setProc_other (differ q rfl) _
  | crash q =>
    obtain ⟨b, cmd, k, _, rfl⟩ := step_crash h
    exact Config.setProc_other (differ q rfl) _
  | env e => exact congrFun (step_env h).2 p

theorem meets_each {as : List (Action O E A)} (met : ∀ a ∈ as, ∀ c : Config C R S A β, ok c a) :
    M.Meets ok c as := by
  induction as generalizing c with
  | nil => trivial
  | cons a as ih =>
    exact ⟨met a List.mem_cons_self c, fun d _ => ih fun b mem => met b (List.mem_cons_of_mem _ mem)⟩

theorem step_idle {p : Nat} {act : Action O E A} (h : M.step c act = some d)
    (idle : d.procs p = .idle) : act.process ≠ some p ∧ c.procs p = .idle := by
  have other : act.process ≠ some p := by
    intro own
    cases act with
    | spawn q b =>
      obtain ⟨_, rfl⟩ := step_spawn h
      cases own
      rw [Config.setProc_self] at idle
      cases idle
    | step q o =>
      obtain ⟨b, cmd, k, _, procs, _⟩ := step_step h
      cases own
      rw [procs, Config.setProc_self] at idle
      cases idle
    | crash q =>
      obtain ⟨b, cmd, k, _, rfl⟩ := step_crash h
      cases own
      rw [Config.setProc_self] at idle
      cases idle
    | env e => cases own
  exact ⟨other, (step_other h other).symm.trans idle⟩

theorem step_world {act : Action O E A} (h : M.step c act = some d) :
    d.world = c.world ∨
      (∃ p o a cmd k, act = .step p o ∧ c.procs p = .live a (.await cmd k) ∧
        d.world = (M.exec p cmd o c.world).2) ∨
      ∃ e, act = .env e ∧ M.env e c.world = some d.world := by
  cases act with
  | spawn q b =>
    obtain ⟨_, rfl⟩ := step_spawn h
    exact .inl rfl
  | step q o =>
    obtain ⟨b, cmd, k, live, _, world⟩ := step_step h
    exact .inr (.inl ⟨q, o, b, cmd, k, rfl, live, world⟩)
  | crash q =>
    obtain ⟨b, cmd, k, _, rfl⟩ := step_crash h
    exact .inl rfl
  | env e => exact .inr (.inr ⟨e, rfl, (step_env h).1⟩)

theorem step_call {p : Nat} {a : A} {act : Action O E A} (h : M.step c act = some d)
    (called : (c.procs p).call = some a) : (d.procs p).call = some a := by
  by_cases own : act.process = some p
  · cases act with
    | spawn q b =>
      cases own
      rw [(step_spawn h).1] at called
      cases called
    | step q o =>
      cases own
      obtain ⟨b, cmd, k, live, procs, _⟩ := step_step h
      rw [live] at called
      rw [procs, Config.setProc_self]
      exact called
    | crash q =>
      cases own
      obtain ⟨b, cmd, k, live, rfl⟩ := step_crash h
      rw [live] at called
      rw [Config.setProc_self]
      exact called
    | env e => cases own
  · rw [step_other h own]
    exact called

theorem Reach.world_invariant {I : S → Prop} (h : Reach M ok start c) (initial : I start.world)
    (exec : ∀ p cmd o s, I s → I (M.exec p cmd o s).2)
    (env : ∀ e s t, M.env e s = some t → I s → I t) : I c.world := by
  refine h.invariant (I := fun c => I c.world) initial ?_
  intro c act d _ before _ hs
  rcases step_world hs with same | ⟨p, o, a, cmd, k, _, _, world⟩ | ⟨e, _, moved⟩
  · rw [same]
    exact before
  · rw [world]
    exact exec p cmd o _ before
  · exact env e _ _ moved before

theorem step_done {p : Nat} {a : A} {r : β} {act : Action O E A} (h : M.step c act = some d)
    (returned : c.procs p = .live a (.done r)) : act.process ≠ some p := by
  intro own
  cases act with
  | spawn q b =>
    cases own
    rw [(step_spawn h).1] at returned
    cases returned
  | step q o =>
    obtain ⟨b, cmd, k, live, _⟩ := step_step h
    cases own
    rw [live] at returned
    cases returned
  | crash q =>
    obtain ⟨b, cmd, k, live, _⟩ := step_crash h
    cases own
    rw [live] at returned
    cases returned
  | env e => cases own

theorem step_live_cases {p : Nat} {a : A} {t : Task C R β} {act : Action O E A}
    (h : M.step c act = some d) (live : d.procs p = .live a t) :
    (act = .spawn p a ∧ c.procs p = .idle ∧ t = M.program a) ∨
      (∃ cmd k reply, c.procs p = .live a (.await cmd k) ∧ t = k reply) ∨
      c.procs p = .live a t := by
  by_cases own : act.process = some p
  · cases act with
    | spawn q b =>
      cases own
      obtain ⟨idle, rfl⟩ := step_spawn h
      rw [Config.setProc_self] at live
      cases live
      exact .inl ⟨rfl, idle, rfl⟩
    | step q o =>
      cases own
      obtain ⟨b, cmd, k, before, procs, _⟩ := step_step h
      rw [procs, Config.setProc_self] at live
      cases live
      exact .inr (.inl ⟨cmd, k, _, before, rfl⟩)
    | crash q =>
      cases own
      obtain ⟨b, cmd, k, _, rfl⟩ := step_crash h
      rw [Config.setProc_self] at live
      cases live
    | env e => cases own
  · rw [step_other h own] at live
    exact .inr (.inr live)

theorem step_awaits {p : Nat} {a : A} {cmd : C} {k : R cmd → Task C R β} {act : Action O E A}
    (h : M.step c act = some d) (awaits : d.procs p = .live a (.await cmd k)) :
    (act = .spawn p a ∧ c.procs p = .idle) ∨ ∃ cmd k, c.procs p = .live a (.await cmd k) := by
  rcases step_live_cases h awaits with ⟨own, idle, _⟩ | ⟨cmd', k', _, before, _⟩ | before
  · exact .inl ⟨own, idle⟩
  · exact .inr ⟨cmd', k', before⟩
  · exact .inr ⟨cmd, k, before⟩

/-- Calls one after the other: nobody calls while another call awaits something. -/
def oneAtATime (c : Config C R S A β) : Action O E A → Prop
  | .spawn _ _ => ∀ p a cmd k, c.procs p ≠ .live a (.await cmd k)
  | _ => True

theorem Reach.alone (h : Reach M oneAtATime start c) (idle : ∀ p, start.procs p = .idle)
    {p q : Nat} {a b : A} {cmd cmd' : C} {k : R cmd → Task C R β} {k' : R cmd' → Task C R β}
    (hp : c.procs p = .live a (.await cmd k)) (hq : c.procs q = .live b (.await cmd' k')) :
    p = q := by
  induction h generalizing p q a b cmd cmd' k k' with
  | start =>
    rw [idle p] at hp
    cases hp
  | next act _ met hs ih =>
    rcases step_awaits hs hp with ⟨rfl, _⟩ | ⟨c₁, k₁, hp'⟩ <;>
      rcases step_awaits hs hq with ⟨own, _⟩ | ⟨c₂, k₂, hq'⟩
    · cases own
      rfl
    · exact absurd hq' (met q b c₂ k₂)
    · subst own
      exact absurd hp' (met p a c₁ k₁)
    · exact ih hp' hq'

theorem meets_cons {a : Action O E A} {as : List (Action O E A)} (met : ok c a)
    (h : M.step c a = some d) (rest : M.Meets ok d as) : M.Meets ok c (a :: as) := by
  refine ⟨met, fun d' hs => ?_⟩
  rw [h] at hs
  cases hs
  exact rest

theorem step_live {p : Nat} {a : A} {t : Task C R β} {act : Action O E A}
    (h : M.step c act = some d) (live : d.procs p = .live a t) :
    (c.procs p = .idle ∧ act = .spawn p a) ∨ ∃ u, c.procs p = .live a u := by
  rcases step_live_cases h live with ⟨own, idle, _⟩ | ⟨cmd, k, _, before, _⟩ | before
  · exact .inl ⟨idle, own⟩
  · exact .inr ⟨.await cmd k, before⟩
  · exact .inr ⟨t, before⟩

theorem Reach.every {P : A → C → Prop} (h : Reach M ok start c)
    (idle : ∀ p, start.procs p = .idle) (all : ∀ a, (M.program a).every (P a)) {p : Nat} {a : A}
    {t : Task C R β} (live : c.procs p = .live a t) : t.every (P a) := by
  induction h generalizing t with
  | start =>
    rw [idle p] at live
    cases live
  | @next c d act _ _ hs ih =>
    rcases step_live_cases hs live with ⟨_, _, rfl⟩ | ⟨_, _, _, before, rfl⟩ | before
    · exact all a
    · exact (ih before).2 _
    · exact ih before

def Quiet (c : Config C R S A β) : Prop := ∀ p a cmd k, c.procs p ≠ .live a (.await cmd k)

theorem quiet_initial (s : S) : Quiet (.initial s : Config C R S A β) :=
  fun _ _ _ _ live => nomatch live

/-- The configuration after a call that has run to its end with nobody in between. -/
def afterCall (c : Config C R S A β) (p : Nat) (a : A) (b : β) (s : S) : Config C R S A β :=
  ⟨s, Function.update c.procs p (.live a (.done b))⟩

@[simp] theorem afterCall_self (c : Config C R S A β) (p : Nat) (a : A) (b : β) (s : S) :
    (afterCall c p a b s).procs p = .live a (.done b) := Function.update_self ..

theorem afterCall_other {p q : Nat} (h : q ≠ p) (a : A) (b : β) (s : S) :
    (afterCall c p a b s).procs q = c.procs q := Function.update_of_ne h ..

theorem quiet_afterCall {p : Nat} {a : A} {b : β} {s : S} (quiet : Quiet c) :
    Quiet (afterCall c p a b s) := by
  intro q a' cmd k live
  by_cases same : q = p
  · rw [same, afterCall_self] at live
    cases live
  · rw [afterCall_other same] at live
    exact quiet q a' cmd k live

theorem reach_steps {p : Nat} {a : A} {t : Task C R β} {os : List O} {b : β} {s : S}
    (steps : ∀ c o, ok c (.step p o)) (live : c.procs p = .live a t)
    (ran : Task.replay (M.exec p) t os c.world = some (b, s)) :
    Reach M ok c (afterCall c p a b s) := by
  induction t generalizing c os with
  | done r =>
    cases os with
    | nil =>
      cases Option.some.inj ran
      rw [afterCall, ← live, Function.update_eq_self]
      exact .start
    | cons o os => cases ran
  | await cmd k ih =>
    cases os with
    | nil => cases ran
    | cons o os =>
      let d : Config C R S A β := { c.setProc p (.live a (k (M.exec p cmd o c.world).1)) with
        world := (M.exec p cmd o c.world).2 }
      have next : M.step c (.step p o) = some d := by simp [step, live, d]
      have rest : Reach M ok d (afterCall d p a b s) := ih _ (Config.setProc_self ..) ran
      simp only [d, afterCall, Config.setProc, Function.update_idem] at rest
      exact .trans (.next _ .start (steps c o) next) rest

theorem reach_call {p : Nat} {a : A} {os : List O} {b : β} {s : S} (spawn : ok c (.spawn p a))
    (steps : ∀ c o, ok c (.step p o)) (idle : c.procs p = .idle)
    (ran : Task.replay (M.exec p) (M.program a) os c.world = some (b, s)) :
    Reach M ok c (afterCall c p a b s) := by
  have next : M.step c (.spawn p a) = some (c.setProc p (.live a (M.program a))) := by
    simp [step, idle]
  have rest := reach_steps steps (Config.setProc_self c p (.live a (M.program a))) ran
  simp only [afterCall, Config.setProc, Function.update_idem] at rest
  exact .trans (.next _ .start spawn next) rest

def apart (kind : A → Prop) (c : Config C R S A β) : Action O E A → Prop
  | .spawn _ a => kind a → ∀ p b cmd k, c.procs p = .live b (.await cmd k) → ¬ kind b
  | _ => True

theorem Reach.apart {kind : A → Prop} (h : Reach M ok start c) (idle : ∀ p, start.procs p = .idle)
    (met : ∀ (c : Config C R S A β) (act : Action O E A), ok c act → Machine.apart kind c act)
    {p q : Nat} {a b : A} {cmd cmd' : C} {k : R cmd → Task C R β} {k' : R cmd' → Task C R β}
    (hp : c.procs p = .live a (.await cmd k)) (hq : c.procs q = .live b (.await cmd' k'))
    (ha : kind a) (hb : kind b) : p = q := by
  induction h generalizing p q a b cmd cmd' k k' with
  | start =>
    rw [idle p] at hp
    cases hp
  | next act _ allowed hs ih =>
    rcases step_awaits hs hp with ⟨rfl, _⟩ | ⟨c₁, k₁, hp'⟩ <;>
      rcases step_awaits hs hq with ⟨own, _⟩ | ⟨c₂, k₂, hq'⟩
    · cases own
      rfl
    · exact absurd hb (met _ _ allowed ha q b c₂ k₂ hq')
    · subst own
      exact absurd ha (met _ _ allowed hb p a c₁ k₁ hp')
    · exact ih hp' hq' ha hb

def atEnd : Proc C R A β → Bool
  | .live _ (.done _) | .crashed _ => true
  | .idle | .live _ (.await _ _) => false

theorem step_atEnd {p : Nat} {act : Action O E A} (h : M.step c act = some d)
    (ended : atEnd (c.procs p) = true) : d.procs p = c.procs p := by
  refine step_other h fun own => ?_
  cases act with
  | spawn q b =>
    cases own
    rw [(step_spawn h).1] at ended
    cases ended
  | step q o =>
    cases own
    obtain ⟨_, _, _, live, _⟩ := step_step h
    rw [live] at ended
    cases ended
  | crash q =>
    cases own
    obtain ⟨_, _, _, live, _⟩ := step_crash h
    rw [live] at ended
    cases ended
  | env e => cases own

def checks (M : Machine C R S O E A β) (check : Config C R S A β → Action O E A → Bool) :
    Config C R S A β → List (Action O E A) → Bool
  | _, [] => true
  | c, a :: as => check c a && ((M.step c a).map fun d => checks M check d as).getD true

theorem meets_of_checks {check : Config C R S A β → Action O E A → Bool}
    {as : List (Action O E A)} (checked : M.checks check c as = true) :
    M.Meets (fun c a => check c a = true) c as := by
  induction as generalizing c with
  | nil => trivial
  | cons a as ih =>
    obtain ⟨now, later⟩ := Bool.and_eq_true_iff.mp checked
    refine ⟨now, fun d hs => ih ?_⟩
    rw [hs] at later
    exact later

end Machine
end Async
