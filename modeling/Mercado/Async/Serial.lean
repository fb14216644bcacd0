import Mercado.Async.Rely

/-! Calls over a shared state in cells, each of which uses one. As long as those that conflict do
not overlap, they might have been made one after the other, in the order in which they end. -/
namespace Async

variable {C : Type} {R : C → Type} {S O E A N X α β : Type}

namespace Task

inductive Partly (exec : (c : C) → O → S → R c × S) (t : Task C R α) (s : S) :
    Task C R α → S → Prop where
  | start : Partly exec t s t s
  | next {c : C} {k : R c → Task C R α} {u : S} (o : O) : Partly exec t s (.await c k) u →
      Partly exec t s (k (exec c o u).1) (exec c o u).2

theorem Partly.outcome {exec : (c : C) → O → S → R c × S} {t u : Task C R α} {s x y : S} {a : α}
    (before : Partly exec t s u x) (rest : Outcome exec u x a y) : Outcome exec t s a y := by
  induction before with
  | start => exact rest
  | next o _ ih => exact ih ⟨o, rest⟩

end Task

theorem Setting.Holds.partly {P : Setting C R S O} {post : α → S → Prop} {t u : Task C R α}
    {s x : S} (alone : ∀ s, P.rely s s) (all : ∀ c o s, P.allow c o s) (inv : P.inv s)
    (h : P.Holds post t s) (before : Task.Partly P.exec t s u x) : P.Holds post u x ∧ P.inv x := by
  induction before with
  | start => exact ⟨h, inv⟩
  | next o _ ih =>
    obtain ⟨rest, inv'⟩ := ih
    obtain ⟨_, inv'', rest'⟩ := rest _ (alone _) inv' o (all _ o _)
    exact ⟨rest', inv''⟩

namespace Machine

def separate (conflict : A → A → Prop) (c : Config C R S A β) : Action O E A → Prop
  | .spawn _ a => ∀ p b cmd k, c.procs p = .live b (.await cmd k) → ¬ conflict a b
  | _ => True

section

variable {M : Machine C R S O E A β} {ok : Config C R S A β → Action O E A → Prop}
  {start c d : Config C R S A β}

theorem Reach.separate {conflict : A → A → Prop} (symm : ∀ a b, conflict a b → conflict b a)
    (h : Reach M (separate conflict) start c) (idle : ∀ p, start.procs p = .idle) {p q : Nat}
    {a b : A} {cmd cmd' : C} {k : R cmd → Task C R β} {k' : R cmd' → Task C R β}
    (hp : c.procs p = .live a (.await cmd k)) (hq : c.procs q = .live b (.await cmd' k'))
    (clash : conflict a b) : p = q := by
  induction h generalizing p q a b cmd cmd' k k' with
  | start =>
    rw [idle p] at hp
    cases hp
  | next act _ met hs ih =>
    rcases step_awaits hs hp with ⟨rfl, _⟩ | ⟨c₁, k₁, hp'⟩ <;>
      rcases step_awaits hs hq with ⟨own, _⟩ | ⟨c₂, k₂, hq'⟩
    · cases own
      rfl
    · exact absurd clash (met q b c₂ k₂ hq')
    · subst own
      exact absurd (symm _ _ clash) (met p a c₁ k₁ hp')
    · exact ih hp' hq' clash

def ending (d : Config C R S A β) (act : Action O E A) : List (A × Option β) :=
  match act.process.map d.procs with
  | some (.live a (.done b)) => [(a, some b)]
  | some (.crashed a) => [(a, none)]
  | _ => []

/-- Where runs lead, with the calls that have ended in the order in which they have. -/
inductive Ended (M : Machine C R S O E A β) (ok : Config C R S A β → Action O E A → Prop)
    (start : Config C R S A β) : Config C R S A β → List (A × Option β) → Prop where
  | start : Ended M ok start start []
  | next {c d : Config C R S A β} {calls : List (A × Option β)} (act : Action O E A) :
      Ended M ok start c calls → ok c act → M.step c act = some d →
      Ended M ok start d (calls ++ ending d act)

theorem Ended.reach {calls : List (A × Option β)} (h : Ended M ok start c calls) :
    Reach M ok start c := by
  induction h with
  | start => exact .start
  | next act _ met hs ih => exact .next act ih met hs

theorem Reach.ended (h : Reach M ok start c) : ∃ calls, Ended M ok start c calls := by
  induction h with
  | start => exact ⟨[], .start⟩
  | next act _ met hs ih =>
    obtain ⟨calls, ended⟩ := ih
    exact ⟨_, .next act ended met hs⟩

theorem ending_await {act : Action O E A} {p : Nat} {a : A} {cmd : C} {k : R cmd → Task C R β}
    (own : act.process = some p) (live : d.procs p = .live a (.await cmd k)) :
    ending d act = [] := by
  simp [ending, own, live]

theorem ending_done {act : Action O E A} {p : Nat} {a : A} {b : β} (own : act.process = some p)
    (live : d.procs p = .live a (.done b)) : ending d act = [(a, some b)] := by
  simp [ending, own, live]

theorem ending_crashed {act : Action O E A} {p : Nat} {a : A} (own : act.process = some p)
    (dead : d.procs p = .crashed a) : ending d act = [(a, none)] := by
  simp [ending, own, dead]

end

variable [DecidableEq N] {M : Machine C R (N → X) O E A β}

theorem update_kept {s : N → X} {m n : N} {x : X} (kept : n = m → x = s m) :
    Function.update s m x n = s n := by
  by_cases same : n = m
  · rw [same, Function.update_self, kept same]
  · exact Function.update_of_ne same ..

/-- Each call has a cell that its commands use, and no other. Those of a call that does not write
leave it as it is. -/
structure Cells (M : Machine C R (N → X) O E A β) where
  cell : A → N
  writes : A → Prop
  uses : A → C → Prop
  exec : (c : C) → O → X → R c × X
  every : ∀ a, (M.program a).every (uses a)
  acts : ∀ {p a c} o s, uses a c → M.exec p c o s =
    ((exec c o (s (cell a))).1, Function.update s (cell a) (exec c o (s (cell a))).2)
  reads : ∀ {a c} o x, uses a c → ¬ writes a → (exec c o x).2 = x
  env : ∀ e s, M.env e s = none

namespace Cells

variable (K : Cells M)

def conflict (a b : A) : Prop := K.cell a = K.cell b ∧ (K.writes a ∨ K.writes b)

theorem conflict_symm (a b : A) (clash : K.conflict a b) : K.conflict b a :=
  ⟨clash.1.symm, clash.2.symm⟩

/-- Calls made one after the other. One that crashes has done a part of its work. -/
inductive Serial (s : N → X) : List (A × Option β) → (N → X) → Prop where
  | nil : Serial s [] s
  | returned {calls : List (A × Option β)} {t : N → X} {a : A} {b : β} {x : X} : Serial s calls t →
      Task.Outcome K.exec (M.program a) (t (K.cell a)) b x →
      Serial s (calls ++ [(a, some b)]) (Function.update t (K.cell a) x)
  | crashed {calls : List (A × Option β)} {t : N → X} {a : A} {cmd : C} {k : R cmd → Task C R β}
      {x : X} : Serial s calls t →
      Task.Partly K.exec (M.program a) (t (K.cell a)) (.await cmd k) x →
      Serial s (calls ++ [(a, none)]) (Function.update t (K.cell a) x)

def Free (c : Config C R (N → X) A β) (n : N) : Prop :=
  ∀ p a cmd k, c.procs p = .live a (.await cmd k) → K.writes a → K.cell a ≠ n

/-- The calls under way have come from the serial state to the shared one, in which nothing else
is different. -/
structure Follows (c : Config C R (N → X) A β) (t : N → X) : Prop where
  partly : ∀ p a cmd k, c.procs p = .live a (.await cmd k) →
    Task.Partly K.exec (M.program a) (t (K.cell a)) (.await cmd k) (c.world (K.cell a))
  free : ∀ n, K.Free c n → c.world n = t n

variable {K} {start c d : Config C R (N → X) A β} {t : N → X} {p : Nat} {a : A} {cmd : C}
  {k : R cmd → Task C R β}

theorem free_reader (reached : Reach M (separate K.conflict) start c)
    (idle : ∀ p, start.procs p = .idle) (live : c.procs p = .live a (.await cmd k))
    (reader : ¬ K.writes a) : K.Free c (K.cell a) := by
  intro q b cmd' k' other writer same
  have clash : K.conflict a b := ⟨same.symm, .inr writer⟩
  cases reached.separate K.conflict_symm idle live other clash
  cases live.symm.trans other
  exact reader writer

theorem apart_writer (reached : Reach M (separate K.conflict) start c)
    (idle : ∀ p, start.procs p = .idle) (live : c.procs p = .live a (.await cmd k))
    (writer : K.writes a) {q : Nat} {b : A} {cmd' : C} {k' : R cmd' → Task C R β}
    (other : c.procs q = .live b (.await cmd' k')) (differ : q ≠ p) : K.cell b ≠ K.cell a := by
  intro same
  exact differ (reached.separate K.conflict_symm idle other live ⟨same, .inr writer⟩)

theorem Follows.spawn (follows : K.Follows c t) (idle : c.procs p = .idle)
    (met : separate K.conflict c (.spawn p a : Action O E A)) :
    K.Follows (c.setProc p (.live a (M.program a))) t := by
  have free : K.Free c (K.cell a) := by
    intro q b cmd k live writer same
    exact met q b cmd k live ⟨same.symm, .inr writer⟩
  have begin : Task.Partly K.exec (M.program a) (t (K.cell a)) (M.program a)
      (c.world (K.cell a)) := by
    rw [follows.free _ free]
    exact .start
  have differ : ∀ {q b cmd k}, c.procs q = .live b (.await cmd k) → q ≠ p := by
    rintro q b cmd k live rfl
    cases idle.symm.trans live
  constructor
  · intro q b cmd k live
    by_cases own : q = p
    · subst own
      rw [Config.setProc_self] at live
      injection live with call task
      subst call
      rw [← task]
      exact begin
    · rw [Config.setProc_other own] at live
      exact follows.partly q b cmd k live
  · intro n free'
    refine follows.free n fun q b cmd k live writer => ?_
    exact free' q b cmd k ((Config.setProc_other (differ live) _).trans live) writer

theorem Follows.stay (follows : K.Follows c t) (reached : Reach M (separate K.conflict) start c)
    (idle : ∀ p, start.procs p = .idle) (live : c.procs p = .live a (.await cmd k)) {x : X}
    {cmd' : C} {k' : R cmd' → Task C R β} (live' : d.procs p = .live a (.await cmd' k'))
    (others : ∀ q, q ≠ p → d.procs q = c.procs q)
    (world : d.world = Function.update c.world (K.cell a) x)
    (kept : ¬ K.writes a → x = c.world (K.cell a))
    (goes : Task.Partly K.exec (M.program a) (t (K.cell a)) (.await cmd' k') x) :
    K.Follows d t := by
  constructor
  · intro q b cmd₁ k₁ awaits
    by_cases own : q = p
    · subst own
      cases live'.symm.trans awaits
      rw [world, Function.update_self]
      exact goes
    · rw [others q own] at awaits
      have same : d.world (K.cell b) = c.world (K.cell b) := by
        rw [world]
        refine update_kept fun cell => kept fun writer => ?_
        exact apart_writer reached idle live writer awaits own cell
      rw [same]
      exact follows.partly q b cmd₁ k₁ awaits
  · intro n free
    have before : K.Free c n := by
      intro q b cmd₁ k₁ awaits writer
      by_cases own : q = p
      · subst own
        cases live.symm.trans awaits
        exact free q a cmd' k' live' writer
      · exact free q b cmd₁ k₁ ((others q own).trans awaits) writer
    rw [world, ← follows.free n before]
    refine update_kept fun cell => kept fun writer => ?_
    exact before p a cmd k live writer cell.symm

theorem Follows.leave (follows : K.Follows c t) (reached : Reach M (separate K.conflict) start c)
    (idle : ∀ p, start.procs p = .idle) (live : c.procs p = .live a (.await cmd k)) {x : X}
    (gone : ∀ b cmd' k', d.procs p ≠ .live b (.await cmd' k'))
    (others : ∀ q, q ≠ p → d.procs q = c.procs q)
    (world : d.world = Function.update c.world (K.cell a) x)
    (kept : ¬ K.writes a → x = c.world (K.cell a)) :
    K.Follows d (Function.update t (K.cell a) x) := by
  constructor
  · intro q b cmd₁ k₁ awaits
    by_cases own : q = p
    · subst own
      exact absurd awaits (gone b cmd₁ k₁)
    rw [others q own] at awaits
    have reader : K.cell b = K.cell a → ¬ K.writes a := fun cell writer =>
      apart_writer reached idle live writer awaits own cell
    have shared : d.world (K.cell b) = c.world (K.cell b) := by
      rw [world]
      exact update_kept fun cell => kept (reader cell)
    have same : Function.update t (K.cell a) x (K.cell b) = t (K.cell b) := by
      refine update_kept fun cell => (kept (reader cell)).trans ?_
      exact follows.free _ (free_reader reached idle live (reader cell))
    rw [shared, same]
    exact follows.partly q b cmd₁ k₁ awaits
  · intro n free
    rw [world]
    by_cases cell : n = K.cell a
    · rw [cell, Function.update_self, Function.update_self]
    · rw [Function.update_of_ne cell, Function.update_of_ne cell]
      refine follows.free n fun q b cmd₁ k₁ awaits writer => ?_
      by_cases own : q = p
      · subst own
        cases live.symm.trans awaits
        exact Ne.symm cell
      · exact free q b cmd₁ k₁ ((others q own).trans awaits) writer

theorem Follows.step {s : N → X} {calls : List (A × Option β)} {o : O} (follows : K.Follows c t)
    (serial : K.Serial s calls t) (reached : Reach M (separate K.conflict) start c)
    (idle : ∀ p, start.procs p = .idle) (hs : M.step c (.step p o) = some d) :
    ∃ u, K.Serial s (calls ++ ending d (.step p o : Action O E A)) u ∧ K.Follows d u := by
  obtain ⟨a, cmd, k, live, procs, world⟩ := step_step hs
  have used : K.uses a cmd := (reached.every idle K.every live).1
  rw [K.acts o c.world used] at procs world
  have goes := (follows.partly p a cmd k live).next o
  have kept : ¬ K.writes a → (K.exec cmd o (c.world (K.cell a))).2 = c.world (K.cell a) :=
    K.reads o _ used
  have others : ∀ q, q ≠ p → d.procs q = c.procs q := by
    intro q differ
    rw [procs]
    exact Config.setProc_other differ _
  have now : d.procs p = .live a (k (K.exec cmd o (c.world (K.cell a))).1) := by
    rw [procs, Config.setProc_self]
  cases task : k (K.exec cmd o (c.world (K.cell a))).1 with
  | done b =>
    rw [task] at goes now
    rw [ending_done rfl now]
    refine ⟨_, .returned serial (goes.outcome ⟨rfl, rfl⟩),
      follows.leave reached idle live ?_ others world kept⟩
    intro b cmd' k' awaits
    cases now.symm.trans awaits
  | await cmd' k' =>
    rw [task] at goes now
    rw [ending_await rfl now, List.append_nil]
    exact ⟨t, serial, follows.stay reached idle live now others world kept goes⟩

theorem Follows.crash {s : N → X} {calls : List (A × Option β)} (follows : K.Follows c t)
    (serial : K.Serial s calls t) (reached : Reach M (separate K.conflict) start c)
    (idle : ∀ p, start.procs p = .idle) (hs : M.step c (.crash p) = some d) :
    ∃ u, K.Serial s (calls ++ ending d (.crash p : Action O E A)) u ∧ K.Follows d u := by
  obtain ⟨a, cmd, k, live, rfl⟩ := step_crash hs
  have now : (c.setProc p (.crashed a)).procs p = .crashed a := Config.setProc_self ..
  rw [ending_crashed rfl now]
  refine ⟨_, .crashed serial (follows.partly p a cmd k live),
    follows.leave reached idle live ?_ (fun q differ => Config.setProc_other differ _) ?_
      fun _ => rfl⟩
  · intro b cmd' k' awaits
    cases now.symm.trans awaits
  · exact (Function.update_eq_self ..).symm

/-- Calls that overlap only where they do not conflict are calls one after the other, in the order
in which they end. -/
theorem Ended.serial {calls : List (A × Option β)}
    (ended : Ended M (separate K.conflict) start c calls) (idle : ∀ p, start.procs p = .idle) :
    ∃ t, K.Serial start.world calls t ∧ K.Follows c t := by
  induction ended with
  | start =>
    refine ⟨start.world, .nil, fun p a cmd k live => ?_, fun _ _ => rfl⟩
    rw [idle p] at live
    cases live
  | @next c d calls act before met hs ih =>
    obtain ⟨t, serial, follows⟩ := ih
    cases act with
    | spawn p a =>
      obtain ⟨quiet, rfl⟩ := step_spawn hs
      have follows' := follows.spawn quiet met
      have now : (c.setProc p (.live a (M.program a))).procs p = .live a (M.program a) :=
        Config.setProc_self ..
      cases task : M.program a with
      | done b =>
        rw [task] at now follows'
        rw [ending_done rfl now]
        have alone : Task.Outcome K.exec (M.program a) (t (K.cell a)) b (t (K.cell a)) := by
          rw [task]
          exact ⟨rfl, rfl⟩
        have same := serial.returned alone
        rw [Function.update_eq_self] at same
        exact ⟨t, same, follows'⟩
      | await cmd k =>
        rw [task] at now follows'
        rw [ending_await rfl now, List.append_nil]
        exact ⟨t, serial, follows'⟩
    | step p o => exact follows.step serial before.reach idle hs
    | crash p => exact follows.crash serial before.reach idle hs
    | env e =>
      obtain ⟨moved, _⟩ := step_env hs
      rw [K.env] at moved
      cases moved

end Cells
end Machine
end Async
