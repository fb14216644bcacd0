import Mercado.Async.Simulation

/-! Processes of several kinds over one shared state. What the processes of one kind do is a run of
a machine of their own, and the others are part of its environment. -/
namespace Async

variable {C C' : Type} {R : C → Type} {R' : C' → Type} {S S' O O' E E' A A' β β' : Type}

def Task.within {α γ : Type} (command : C' → C) (reply : (c : C') → R (command c) → R' c)
    (result : α → γ) : Task C' R' α → Task C R γ
  | .done a => .done (result a)
  | .await c k => .await (command c) fun r => (k (reply c r)).within command reply result

/-- The state is as the environment leaves it after at most one change. -/
def Machine.Moves (M : Machine C R S O E A β) (s t : S) : Prop :=
  t = s ∨ ∃ e, M.env e s = some t

/-- One machine as a part of another: its calls and commands are some of the other one's. -/
structure Part (M : Machine C R S O E A β) (M' : Machine C' R' S' O' E' A' β') where
  command : C' → C
  reply : (c : C') → R (command c) → R' c
  result : β' → β
  call : A' → A
  choice : O → O'
  program : ∀ a, M.program (call a) = (M'.program a).within command reply result
  /-- What the part sees of the shared state. -/
  sees : S → S' → Prop
  /-- The commands of the other processes. -/
  foreign : C → Prop
  others : ∀ a, (∀ b, call b ≠ a) → (M.program a).every foreign
  own : ∀ {s s'}, sees s s' → ∀ p c o,
    reply c (M.exec p (command c) o s).1 = (M'.exec p c (choice o) s').1 ∧
      sees (M.exec p (command c) o s).2 (M'.exec p c (choice o) s').2
  moves : ∀ {s s' c}, sees s s' → foreign c → ∀ p o,
    ∃ t', M'.Moves s' t' ∧ sees (M.exec p c o s).2 t'
  env : ∀ {s s' t e}, sees s s' → M.env e s = some t → ∃ t', M'.Moves s' t' ∧ sees t t'

namespace Part

variable {M : Machine C R S O E A β} {M' : Machine C' R' S' O' E' A' β'} (P : Part M M')

/-- What a process is in the part. -/
inductive Plays : Proc C R A β → Proc C' R' A' β' → Prop
  | idle : Plays .idle .idle
  | live (a : A') (t : Task C' R' β') :
    Plays (.live (P.call a) (t.within P.command P.reply P.result)) (.live a t)
  | crashed (a : A') : Plays (.crashed (P.call a)) (.crashed a)
  | other {a : A} {t : Task C R β} (quiet : t.every P.foreign) : Plays (.live a t) .idle
  | otherCrashed (a : A) : Plays (.crashed a) .idle

structure Shows (c : Config C R S A β) (c' : Config C' R' S' A' β') : Prop where
  world : P.sees c.world c'.world
  procs : ∀ p, P.Plays (c.procs p) (c'.procs p)

variable {P} {c d : Config C R S A β} {c' : Config C' R' S' A' β'}

theorem Plays.of_idle {q : Proc C' R' A' β'} (plays : P.Plays .idle q) : q = .idle := by
  cases plays
  rfl

theorem Plays.awaits {a : A} {cmd : C} {k : R cmd → Task C R β} {q : Proc C' R' A' β'}
    (plays : P.Plays (.live a (.await cmd k)) q) :
    (∃ b x k', q = .live b (.await x k') ∧ P.call b = a ∧ P.command x = cmd ∧
      HEq k fun r => (k' (P.reply x r)).within P.command P.reply P.result) ∨
    q = .idle ∧ P.foreign cmd ∧ ∀ r, (k r).every P.foreign := by
  generalize same : (Proc.live a (.await cmd k) : Proc C R A β) = p at plays
  cases plays with
  | idle | crashed | otherCrashed => cases same
  | live b t =>
    cases t with
    | done r => cases same
    | await x k' =>
      cases same
      exact .inl ⟨b, x, k', rfl, rfl, rfl, HEq.rfl⟩
  | other quiet =>
    cases same
    exact .inr ⟨rfl, quiet.1, quiet.2⟩

theorem Plays.within {p : Proc C R A β} {b : A'} {x : C'} {k : R' x → Task C' R' β'}
    (plays : P.Plays p (.live b (.await x k))) :
    ∃ k', p = .live (P.call b) (.await (P.command x) k') := by
  cases plays with
  | live => exact ⟨_, rfl⟩

theorem Shows.setProc {x : Proc C R A β} {x' : Proc C' R' A' β'} (shows' : P.Shows c c') (p : Nat)
    (plays : P.Plays x x') : P.Shows (c.setProc p x) (c'.setProc p x') := by
  refine ⟨shows'.world, fun q => ?_⟩
  by_cases same : q = p
  · subst same
    rw [Config.setProc_self, Config.setProc_self]
    exact plays
  · rw [Config.setProc_other same, Config.setProc_other same]
    exact shows'.procs q

theorem Shows.setOther {x : Proc C R A β} (shows' : P.Shows c c') {p : Nat}
    (idle : c'.procs p = .idle) (plays : P.Plays x .idle) : P.Shows (c.setProc p x) c' := by
  refine ⟨shows'.world, fun q => ?_⟩
  by_cases same : q = p
  · subst same
    rw [Config.setProc_self, idle]
    exact plays
  · rw [Config.setProc_other same]
    exact shows'.procs q

theorem Shows.withWorld {s : S} {s' : S'} (shows' : P.Shows c c') (sees : P.sees s s') :
    P.Shows { c with world := s } { c' with world := s' } := ⟨sees, shows'.procs⟩

variable {ok : Config C R S A β → Action O E A → Prop}
  {ok' : Config C' R' S' A' β' → Action O' E' A' → Prop}

theorem reach_moves {s' : S'} (moves : M'.Moves c'.world s') (free : ∀ c e, ok' c (.env e)) :
    Machine.Reach M' ok' c' { c' with world := s' } := by
  rcases moves with rfl | ⟨e, moved⟩
  · exact .start
  · exact .next (.env e) .start (free _ _) (by simp [Machine.step, moved])

theorem Shows.spawn {p : Nat} {a : A} (shows' : P.Shows c c') (hs : M.step c (.spawn p a) = some d)
    (spawns : ∀ b, P.call b = a → ok' c' (.spawn p b)) :
    ∃ d', Machine.Reach M' ok' c' d' ∧ P.Shows d d' := by
  obtain ⟨idle, rfl⟩ := Machine.step_spawn hs
  have idle' : c'.procs p = .idle := Plays.of_idle (idle ▸ shows'.procs p)
  by_cases mine : ∃ b, P.call b = a
  · obtain ⟨b, rfl⟩ := mine
    refine ⟨c'.setProc p (.live b (M'.program b)),
      .next (.spawn p b) .start (spawns b rfl) (by simp [Machine.step, idle']),
      shows'.setProc p ?_⟩
    rw [P.program]
    exact .live b _
  · exact ⟨c', .start, shows'.setOther idle'
      (.other (P.others a fun b same => mine ⟨b, same⟩))⟩

theorem Shows.step {p : Nat} {o : O} (shows' : P.Shows c c') (hs : M.step c (.step p o) = some d)
    (steps : ok' c' (.step p (P.choice o))) (free : ∀ c e, ok' c (.env e)) :
    ∃ d', Machine.Reach M' ok' c' d' ∧ P.Shows d d' := by
  obtain ⟨a, cmd, k, live, procs, world⟩ := Machine.step_step hs
  have same : d = { c.setProc p (.live a (k (M.exec p cmd o c.world).1)) with
      world := (M.exec p cmd o c.world).2 } := by
    cases d
    cases procs
    cases world
    rfl
  subst same
  rcases (live ▸ shows'.procs p).awaits with ⟨b, x, k', live', rfl, rfl, cont⟩ |
    ⟨idle, other, quiet⟩
  · cases cont
    obtain ⟨replied, sees⟩ := P.own shows'.world p x o
    refine ⟨{ c'.setProc p (.live b (k' (M'.exec p x (P.choice o) c'.world).1)) with
        world := (M'.exec p x (P.choice o) c'.world).2 },
      .next (.step p (P.choice o)) .start steps (by simp [Machine.step, live']),
      (shows'.setProc p ?_).withWorld sees⟩
    rw [← replied]
    exact .live b _
  · obtain ⟨t', moved, sees⟩ := P.moves shows'.world other p o
    exact ⟨{ c' with world := t' }, reach_moves moved free,
      (shows'.setOther idle (.other (quiet _))).withWorld sees⟩

theorem Shows.crash {p : Nat} (shows' : P.Shows c c') (hs : M.step c (.crash p) = some d)
    (crashes : ok' c' (.crash p)) : ∃ d', Machine.Reach M' ok' c' d' ∧ P.Shows d d' := by
  obtain ⟨a, cmd, k, live, rfl⟩ := Machine.step_crash hs
  rcases (live ▸ shows'.procs p).awaits with ⟨b, x, k', live', rfl, rfl, -⟩ | ⟨idle, -, -⟩
  · exact ⟨c'.setProc p (.crashed b),
      .next (.crash p) .start crashes (by simp [Machine.step, live']),
      shows'.setProc p (.crashed b)⟩
  · exact ⟨c', .start, shows'.setOther idle (.otherCrashed a)⟩

theorem Shows.env {e : E} (shows' : P.Shows c c') (hs : M.step c (.env e) = some d)
    (free : ∀ c e, ok' c (.env e)) : ∃ d', Machine.Reach M' ok' c' d' ∧ P.Shows d d' := by
  obtain ⟨moved, procs⟩ := Machine.step_env hs
  obtain ⟨t', moves, sees⟩ := P.env shows'.world moved
  exact ⟨{ c' with world := t' }, reach_moves moves free, sees, procs ▸ shows'.procs⟩

def simulation (P : Part M M') {s : S} {s' : S'} (starts : P.sees s s')
    (spawns : ∀ {c c' p a}, P.Shows c c' → ok c (.spawn p (P.call a)) → ok' c' (.spawn p a))
    (steps : ∀ {c c' p o}, P.Shows c c' → ok c (.step p o) → ok' c' (.step p (P.choice o)))
    (crashes : ∀ c p, ok' c (.crash p)) (free : ∀ c e, ok' c (.env e)) :
    Simulation M ok (.initial s) M' ok' (.initial s') where
  rel := P.Shows
  starts := ⟨starts, fun _ => .idle⟩
  steps := by
    intro c d c' act _ _ shows' met hs
    cases act with
    | spawn p a =>
      refine shows'.spawn hs ?_
      rintro b rfl
      exact spawns shows' met
    | step p o => exact shows'.step hs (steps shows' met) free
    | crash p => exact shows'.crash hs (crashes c' p)
    | env e => exact shows'.env hs free

end Part
end Async
