import Mathlib.Logic.Basic

/-! Asynchronous functions as their await points. A task has returned or awaits
the answer to one command; what the command does to the shared state is not part
of it. Everything else an async function computes happens between two awaits. -/
namespace Async

inductive Task (C : Type) (R : C → Type) (α : Type) where
  | done (a : α)
  | await (c : C) (k : R c → Task C R α)

namespace Task

variable {C : Type} {R : C → Type} {S O α β γ ε : Type}

def bind : Task C R α → (α → Task C R β) → Task C R β
  | .done a, f => f a
  | .await c k, f => .await c fun r => (k r).bind f

instance : Monad (Task C R) where
  pure := .done
  bind := bind

def call (c : C) : Task C R (R c) := .await c .done

@[simp] theorem pure_eq (a : α) : (pure a : Task C R α) = .done a := rfl
@[simp] theorem bind_eq (t : Task C R α) (f : α → Task C R β) : t >>= f = t.bind f := rfl
@[simp] theorem bind_done (a : α) (f : α → Task C R β) : (done a).bind f = f a := rfl
@[simp] theorem bind_await (c : C) (k : R c → Task C R α) (f : α → Task C R β) :
    (await c k).bind f = await c fun r => (k r).bind f := rfl
@[simp] theorem call_bind (c : C) (f : R c → Task C R α) : (call c).bind f = await c f := rfl

theorem bind_assoc (t : Task C R α) (f : α → Task C R β) (g : β → Task C R γ) :
    (t.bind f).bind g = t.bind fun a => (f a).bind g := by
  induction t with
  | done a => rfl
  | await c k ih => exact congrArg (await c) (funext fun r => ih r)

theorem bind_done_right (t : Task C R α) : t.bind .done = t := by
  induction t with
  | done a => rfl
  | await c k ih => exact congrArg (await c) (funext fun r => ih r)

/- Functions that may return an error are `ExceptT` over tasks: their bind is the
question mark of the source. -/

theorem run_bind (t : ExceptT ε (Task C R) α) (f : α → ExceptT ε (Task C R) β) :
    (t >>= f).run = t.run.bind fun
      | .ok a => (f a).run
      | .error e => .done (.error e) := by
  have cont : ExceptT.bindCont f = fun
      | .ok a => (f a).run
      | .error e => .done (.error e) := by
    funext r
    cases r <;> rfl
  exact congrArg (Task.bind t.run) cont

/-- `change_context`: the error of the call becomes this one. -/
def changeContext {η : Type} (e : ε) (t : Task C R (Except η α)) : ExceptT ε (Task C R) α :=
  .mk (t.bind fun r => .done (r.mapError fun _ => e))

def orFail {η : Type} (e : ε) (r : Except η α) : ExceptT ε (Task C R) α :=
  .mk (.done (r.mapError fun _ => e))

def interpret {m : Type → Type} [Monad m] (impl : (c : C) → m (R c)) : Task C R α → m α
  | .done a => pure a
  | .await c k => impl c >>= fun r => (k r).interpret impl

/-- Some answers lead the task to a command with this property. -/
def may (P : C → Prop) : Task C R α → Prop
  | .done _ => False
  | .await c k => P c ∨ ∃ r, (k r).may P

/-- Whatever the answers, the task issues only commands with this property. -/
def every (P : C → Prop) : Task C R α → Prop
  | .done _ => True
  | .await c k => P c ∧ ∀ r, (k r).every P

variable {P : C → Prop}

theorem every_call {c : C} (h : P c) : (call c : Task C R (R c)).every P := ⟨h, fun _ => trivial⟩

theorem every_of_all {t : Task C R α} (all : ∀ c, P c) : t.every P := by
  induction t with
  | done a => trivial
  | await c k ih => exact ⟨all c, ih⟩

theorem every.mono {P' : C → Prop} {t : Task C R α} (h : t.every P) (weaker : ∀ c, P c → P' c) :
    t.every P' := by
  induction t with
  | done a => trivial
  | await c k ih => exact ⟨weaker c h.1, fun r => ih r (h.2 r)⟩

theorem every_bind {t : Task C R α} {f : α → Task C R β} (ht : t.every P)
    (hf : ∀ a, (f a).every P) : (t.bind f).every P := by
  induction t with
  | done a => exact hf a
  | await c k ih => exact ⟨ht.1, fun r => ih r (ht.2 r)⟩

theorem every_tryBind {t : ExceptT ε (Task C R) α} {f : α → ExceptT ε (Task C R) β}
    (ht : t.run.every P) (hf : ∀ a, (f a).run.every P) : (t >>= f).run.every P := by
  rw [run_bind]
  refine every_bind ht fun r => ?_
  cases r with
  | ok a => exact hf a
  | error e => trivial

theorem every_lift {t : Task C R α} (h : t.every P) :
    (ExceptT.lift t : ExceptT ε (Task C R) α).run.every P := every_bind h fun _ => trivial

theorem every_changeContext {η : Type} {e : ε} {t : Task C R (Except η α)} (h : t.every P) :
    (changeContext e t).run.every P := every_bind h fun _ => trivial

/-- Whatever the answers are, the task returns; this holds of all its commands with their
answers, `past` being those so far, and of what it returns. -/
def ends (Q : List ((c : C) × R c) → α → Prop) : Task C R α → List ((c : C) × R c) → Prop
  | .done a, past => Q past a
  | .await c k, past => ∀ r, (k r).ends Q (past ++ [⟨c, r⟩])

variable {Q : List ((c : C) × R c) → α → Prop} {past : List ((c : C) × R c)}

theorem ends.mono {Q' : List ((c : C) × R c) → α → Prop} {t : Task C R α} (h : t.ends Q past)
    (weaker : ∀ past a, Q past a → Q' past a) : t.ends Q' past := by
  induction t generalizing past with
  | done a => exact weaker past a h
  | await c k ih => exact fun r => ih r (h r)

theorem ends_bind {Q : List ((c : C) × R c) → β → Prop} {t : Task C R α} {f : α → Task C R β} :
    (t.bind f).ends Q past ↔ t.ends (fun past a => (f a).ends Q past) past := by
  induction t generalizing past with
  | done a => exact Iff.rfl
  | await c k ih => exact forall_congr' fun r => ih r

theorem ends_tryBind {Q : List ((c : C) × R c) → Except ε β → Prop} {t : ExceptT ε (Task C R) α}
    {f : α → ExceptT ε (Task C R) β} :
    (t >>= f).run.ends Q past ↔ t.run.ends (fun past r => match r with
      | .ok a => (f a).run.ends Q past
      | .error e => Q past (.error e)) past := by
  rw [run_bind, ends_bind]
  refine iff_of_eq (congrArg (fun P => t.run.ends P past) ?_)
  funext past r
  cases r <;> rfl

theorem ends_interpret_bind {C' : Type} {R' : C' → Type}
    {impl : (c : C) → ExceptT ε (Task C' R') (R c)} {t : Task C R α} {f : α → Task C R β}
    {Q : List ((c : C') × R' c) → Except ε β → Prop} {past : List ((c : C') × R' c)} :
    ((t.bind f).interpret impl).run.ends Q past ↔
      (t.interpret impl).run.ends (fun past r => match r with
        | .ok a => ((f a).interpret impl).run.ends Q past
        | .error e => Q past (.error e)) past := by
  induction t generalizing past with
  | done a => exact Iff.rfl
  | await c k ih =>
    change (impl c >>= fun r => ((k r).bind f).interpret impl).run.ends Q past ↔
      (impl c >>= fun r => (k r).interpret impl).run.ends _ past
    rw [ends_tryBind, ends_tryBind]
    refine iff_of_eq (congrArg (fun P => (impl c).run.ends P past) ?_)
    funext past r
    cases r with
    | ok a => exact propext (ih a)
    | error e => rfl

/- Running alone. A choice decides how each command goes; `exec` carries it out. -/
def Outcome (exec : (c : C) → O → S → R c × S) : Task C R α → S → α → S → Prop
  | .done a, s, b, t => a = b ∧ s = t
  | .await c k, s, b, t => ∃ o, Outcome exec (k (exec c o s).1) (exec c o s).2 b t

def replay (exec : (c : C) → O → S → R c × S) : Task C R α → List O → S → Option (α × S)
  | .done a, [], s => some (a, s)
  | .done _, _ :: _, _ => none
  | .await _ _, [], _ => none
  | .await c k, o :: os, s => replay exec (k (exec c o s).1) os (exec c o s).2

variable {exec : (c : C) → O → S → R c × S}

theorem outcome_of_replay {t : Task C R α} {os : List O} {s : S} {b : α} {u : S}
    (h : replay exec t os s = some (b, u)) : Outcome exec t s b u := by
  induction t generalizing os s with
  | done a =>
    cases os with
    | nil =>
      have := Option.some.inj h
      exact ⟨congrArg Prod.fst this, congrArg Prod.snd this⟩
    | cons o os => cases h
  | await c k ih =>
    cases os with
    | nil => cases h
    | cons o os => exact ⟨o, ih _ h⟩

theorem replay_bind {t : Task C R α} {f : α → Task C R β} {os os' : List O} {s u : S} {a : α}
    (h : replay exec t os s = some (a, u)) :
    replay exec (t.bind f) (os ++ os') s = replay exec (f a) os' u := by
  induction t generalizing os s with
  | done b =>
    cases os with
    | nil =>
      cases Option.some.inj h
      rfl
    | cons o os => cases h
  | await c k ih =>
    cases os with
    | nil => cases h
    | cons o os => exact ih _ h

theorem replay_tryBind {t : ExceptT ε (Task C R) α} {f : α → ExceptT ε (Task C R) β}
    {os os' : List O} {s u : S} {r : Except ε α} (h : replay exec t.run os s = some (r, u)) :
    replay exec (t >>= f).run (os ++ os') s = match r with
      | .ok a => replay exec (f a).run os' u
      | .error e => replay exec (.done (.error e)) os' u := by
  rw [run_bind, replay_bind h]
  cases r <;> rfl

theorem replay_lift {t : Task C R α} {os : List O} {s u : S} {a : α}
    (h : replay exec t os s = some (a, u)) :
    replay exec (ExceptT.lift t : ExceptT ε (Task C R) α).run os s = some (.ok a, u) := by
  have lifted : replay exec (t.bind fun a => .done (.ok a : Except ε α)) (os ++ []) s =
      some (.ok a, u) := replay_bind h
  rw [List.append_nil] at lifted
  exact lifted

theorem outcome_bind {t : Task C R α} {f : α → Task C R β} {s : S} {b : β} {u : S} :
    Outcome exec (t.bind f) s b u ↔ ∃ a m, Outcome exec t s a m ∧ Outcome exec (f a) m b u := by
  induction t generalizing s with
  | done a =>
    constructor
    · intro h
      exact ⟨a, s, ⟨rfl, rfl⟩, h⟩
    · rintro ⟨_, _, ⟨rfl, rfl⟩, h⟩
      exact h
  | await c k ih =>
    constructor
    · rintro ⟨o, h⟩
      obtain ⟨a, m, first, rest⟩ := (ih _).mp h
      exact ⟨a, m, ⟨o, first⟩, rest⟩
    · rintro ⟨a, m, ⟨o, first⟩, rest⟩
      exact ⟨o, (ih _).mpr ⟨a, m, first, rest⟩⟩

theorem outcome_call {c : C} {s : S} {r : R c} {u : S} :
    Outcome exec (.call c) s r u ↔ ∃ o, exec c o s = (r, u) := by
  constructor
  · rintro ⟨o, rfl, rfl⟩
    exact ⟨o, rfl⟩
  · rintro ⟨o, h⟩
    refine ⟨o, ?_⟩
    rw [h]
    exact ⟨rfl, rfl⟩

theorem outcome_tryBind {t : ExceptT ε (Task C R) α} {f : α → ExceptT ε (Task C R) β} {s : S}
    {r : Except ε β} {u : S} (h : Outcome exec (t >>= f).run s r u) :
    (∃ a m, Outcome exec t.run s (.ok a) m ∧ Outcome exec (f a).run m r u) ∨
      ∃ e, r = .error e ∧ Outcome exec t.run s (.error e) u := by
  rw [run_bind, outcome_bind] at h
  obtain ⟨a | e, m, first, rest⟩ := h
  · obtain ⟨rfl, rfl⟩ := rest
    exact .inr ⟨_, rfl, first⟩
  · exact .inl ⟨_, m, first, rest⟩

theorem outcome_changeContext {η : Type} {e : ε} {t : Task C R (Except η α)} {s : S}
    {r : Except ε α} {u : S} (h : Outcome exec (changeContext e t).run s r u) :
    ∃ r', Outcome exec t s r' u ∧ r = r'.mapError fun _ => e := by
  obtain ⟨r', m, first, rfl, rfl⟩ := outcome_bind.mp h
  exact ⟨r', first, rfl⟩

end Task
end Async
