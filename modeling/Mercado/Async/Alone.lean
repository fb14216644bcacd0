import Mercado.Async.Machine

/-! A call that runs to its end with nobody in between, when how each command goes is
a function of the command and the state. -/
namespace Async

variable {C : Type} {R : C → Type} {S O E A α β ε : Type}

namespace Task

def finish (exec : (c : C) → S → R c × S) : Task C R α → S → α × S
  | .done a, s => (a, s)
  | .await c k, s => finish exec (k (exec c s).1) (exec c s).2

variable {exec : (c : C) → S → R c × S}

@[simp] theorem finish_done (a : α) (s : S) :
    (.done a : Task C R α).finish exec s = (a, s) := rfl

@[simp] theorem finish_await (c : C) (k : R c → Task C R α) (s : S) :
    (.await c k : Task C R α).finish exec s = (k (exec c s).1).finish exec (exec c s).2 := rfl

theorem finish_bind (t : Task C R α) (f : α → Task C R β) (s : S) :
    (t.bind f).finish exec s = (f (t.finish exec s).1).finish exec (t.finish exec s).2 := by
  induction t generalizing s with
  | done a => rfl
  | await c k ih => exact ih _ _

theorem finish_tryBind (t : ExceptT ε (Task C R) α) (f : α → ExceptT ε (Task C R) β) (s : S) :
    (t >>= f).run.finish exec s = match t.run.finish exec s with
      | (.ok a, u) => (f a).run.finish exec u
      | (.error e, u) => (.error e, u) := by
  rw [run_bind, finish_bind]
  rcases t.run.finish exec s with ⟨_ | _, u⟩ <;> rfl

@[simp] theorem finish_call (c : C) (s : S) :
    (call c : Task C R (R c)).finish exec s = exec c s := rfl

@[simp] theorem finish_pure (a : α) (s : S) :
    (pure a : ExceptT ε (Task C R) α).run.finish exec s = (.ok a, s) := rfl

@[simp] theorem finish_throw (e : ε) (s : S) :
    (throw e : ExceptT ε (Task C R) α).run.finish exec s = (.error e, s) := rfl

theorem finish_lift (t : Task C R α) (s : S) :
    (ExceptT.lift t : ExceptT ε (Task C R) α).run.finish exec s =
      (.ok (t.finish exec s).1, (t.finish exec s).2) := finish_bind ..

theorem finish_changeContext {η : Type} (e : ε) (t : Task C R (Except η α)) (s : S) :
    (changeContext e t).run.finish exec s =
      ((t.finish exec s).1.mapError fun _ => e, (t.finish exec s).2) :=
  finish_bind ..

end Task

namespace Machine

variable {M : Machine C R S O E A β} {ok : Config C R S A β → Action O E A → Prop}
  {c : Config C R S A β}

/-- A call that runs alone: what it returns, and the state it leaves. -/
def alone (M : Machine C R S O E A β) (choose : C → S → O) (p : Nat) (a : A) (s : S) : β × S :=
  (M.program a).finish (fun c s => M.exec p c (choose c s) s) s

/-- Calls one after the other, as processes that are numbered from the given one. -/
def inTurn (M : Machine C R S O E A β) (choose : C → S → O) : Nat → List A → S → List β × S
  | _, [], s => ([], s)
  | p, a :: as, s =>
    let first := M.alone choose p a s
    let rest := M.inTurn choose (p + 1) as first.2
    (first.1 :: rest.1, rest.2)

theorem reach_finish {p : Nat} {a : A} (choose : C → S → O) (t : Task C R β) (s : S)
    (steps : ∀ x s o, ok { c.setProc p x with world := s } (.step p o)) :
    let ran := t.finish (fun c s => M.exec p c (choose c s) s) s
    Reach M ok { c.setProc p (.live a t) with world := s } (afterCall c p a ran.1 ran.2) := by
  induction t generalizing s with
  | done b => exact .start
  | await cmd k ih =>
    refine .trans (.next (.step p (choose cmd s)) .start (steps _ _ _) ?_) (ih _ _)
    simp [step, Config.setProc]

theorem reach_alone {p : Nat} {a : A} (choose : C → S → O) (spawn : ok c (.spawn p a))
    (steps : ∀ x s o, ok { c.setProc p x with world := s } (.step p o))
    (idle : c.procs p = .idle) :
    Reach M ok c
      (afterCall c p a (M.alone choose p a c.world).1 (M.alone choose p a c.world).2) := by
  have next : M.step c (.spawn p a) = some (c.setProc p (.live a (M.program a))) := by
    simp [step, idle]
  exact .trans (.next _ .start spawn next) (reach_finish choose (M.program a) c.world steps)

theorem reach_inTurn (choose : C → S → O) {p : Nat} (as : List A)
    (idle : ∀ q, p ≤ q → c.procs q = .idle) :
    ∃ d, Reach M anyStep c d ∧ d.world = (M.inTurn choose p as c.world).2 ∧
      (∀ q < p, d.procs q = c.procs q) ∧
      ∀ (i : Nat) a b, as[i]? = some a → (M.inTurn choose p as c.world).1[i]? = some b →
        d.procs (p + i) = .live a (.done b) := by
  induction as generalizing p c with
  | nil => exact ⟨c, .start, rfl, fun _ _ => rfl, nofun⟩
  | cons a as ih =>
    let x := M.alone choose p a c.world
    have first : Reach M anyStep c (afterCall c p a x.1 x.2) :=
      reach_alone choose trivial (fun _ _ _ => trivial) (idle p (Nat.le_refl _))
    obtain ⟨d, rest, world, others, returned⟩ := ih (c := afterCall c p a x.1 x.2)
      fun q (le : p + 1 ≤ q) =>
        (afterCall_other (Nat.ne_of_gt le) ..).trans (idle q (Nat.le_of_succ_le le))
    refine ⟨d, first.trans rest, world, ?_, ?_⟩
    · intro q lt
      exact (others q (Nat.lt_succ_of_lt lt)).trans (afterCall_other (Nat.ne_of_lt lt) ..)
    · intro i a' b call result
      cases i with
      | zero =>
        cases call
        cases result
        exact (others p (Nat.lt_succ_self p)).trans (afterCall_self ..)
      | succ i =>
        rw [← Nat.succ_add_eq_add_succ]
        exact returned i a' b call result

def Each (M : Machine C R S O E A β) (choose : C → S → O) (fits : S → A → Prop) :
    Nat → List A → S → Prop
  | _, [], _ => True
  | p, a :: as, s => fits s a ∧ M.Each choose fits (p + 1) as (M.alone choose p a s).2

theorem each_of_all {choose : C → S → O} {fits : S → A → Prop} (all : ∀ s a, fits s a) (p : Nat)
    (as : List A) (s : S) : M.Each choose fits p as s := by
  induction as generalizing p s with
  | nil => trivial
  | cons a as ih => exact ⟨all s a, ih (p + 1) _⟩

/-- Calls one after the other meet a condition that only overlapping calls could break, or calls in
a state that they do not fit. -/
theorem reach_inTurn_quiet (choose : C → S → O) (fits : S → A → Prop)
    (spawns : ∀ {c : Config C R S A β} p a, Quiet c → fits c.world a → ok c (.spawn p a))
    (steps : ∀ {c : Config C R S A β} p x s o, Quiet c →
      ok { c.setProc p x with world := s } (.step p o))
    {p : Nat} (as : List A) (idle : ∀ q, p ≤ q → c.procs q = .idle) (quiet : Quiet c)
    (each : M.Each choose fits p as c.world) :
    ∃ d, Reach M ok c d ∧ d.world = (M.inTurn choose p as c.world).2 := by
  induction as generalizing p c with
  | nil => exact ⟨c, .start, rfl⟩
  | cons a as ih =>
    let x := M.alone choose p a c.world
    have first : Reach M ok c (afterCall c p a x.1 x.2) :=
      reach_alone choose (spawns p a quiet each.1) (fun y s o => steps p y s o quiet)
        (idle p (Nat.le_refl _))
    obtain ⟨d, rest, world⟩ := ih (c := afterCall c p a x.1 x.2)
      (fun q (le : p + 1 ≤ q) =>
        (afterCall_other (Nat.ne_of_gt le) ..).trans (idle q (Nat.le_of_succ_le le)))
      (quiet_afterCall quiet) each.2
    exact ⟨d, first.trans rest, world⟩

end Machine
end Async
