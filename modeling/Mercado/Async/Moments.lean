import Mercado.Async.Machine

/-! When a call was told what it has been told: each answer belongs to a moment of the run, at which
the call was under way and its command was carried out. -/
namespace Async

variable {C : Type} {R : C → Type} {S O E A α β : Type}

theorem Task.ends_extends (t : Task C R α) (past : List ((c : C) × R c)) :
    t.ends (fun now _ => past <+: now) past := by
  suffices all : ∀ now, past <+: now → t.ends (fun now _ => past <+: now) now from
    all past List.prefix_rfl
  induction t with
  | done a => exact fun _ grown => grown
  | await c k ih => exact fun now grown r => ih r _ (grown.trans (List.prefix_append _ _))

namespace Machine

variable {M : Machine C R S O E A β} {ok : Config C R S A β → Action O E A → Prop}
  {start c d : Config C R S A β} {p : Nat} {a : A}

/-- Between its call and now the process has asked this and was given this answer, in a step that
led from one state to the other. -/
def Told (M : Machine C R S O E A β) (ok : Config C R S A β → Action O E A → Prop)
    (start now : Config C R S A β) (p : Nat) (a : A) (x : (c : C) × R c) (s t : S) : Prop :=
  ∃ m m' o k, Reach M ok start m ∧ m.procs p = .live a (.await x.1 k) ∧ m.world = s ∧
    M.step m (.step p o) = some m' ∧ M.exec p x.1 o s = (x.2, t) ∧ Reach M ok m' now

theorem Told.next {x : (c : C) × R c} {s t : S} {act : Action O E A}
    (told : Told M ok start c p a x s t) (met : ok c act) (hs : M.step c act = some d) :
    Told M ok start d p a x s t := by
  obtain ⟨m, m', o, k, before, live, world, step, exec, after⟩ := told
  exact ⟨m, m', o, k, before, live, world, step, exec, .next act after met hs⟩

theorem step_told {t : Task C R β} {act : Action O E A} (hs : M.step c act = some d)
    (live : d.procs p = .live a t) :
    t = M.program a ∨
      (∃ cmd k o, act = .step p o ∧ c.procs p = .live a (.await cmd k) ∧
        t = k (M.exec p cmd o c.world).1) ∨
      c.procs p = .live a t := by
  by_cases own : act.process = some p
  · cases act with
    | spawn q b =>
      cases own
      obtain ⟨_, rfl⟩ := step_spawn hs
      rw [Config.setProc_self] at live
      cases live
      exact .inl rfl
    | step q o =>
      cases own
      obtain ⟨b, cmd, k, before, procs, _⟩ := step_step hs
      rw [procs, Config.setProc_self] at live
      cases live
      exact .inr (.inl ⟨cmd, k, o, rfl, before, rfl⟩)
    | crash q =>
      cases own
      obtain ⟨b, cmd, k, _, rfl⟩ := step_crash hs
      rw [Config.setProc_self] at live
      cases live
    | env e => cases own
  · rw [step_other hs own] at live
    exact .inr (.inr live)

theorem Reach.told (h : Reach M ok start c) (idle : ∀ p, start.procs p = .idle) {t : Task C R β}
    (live : c.procs p = .live a t) {Q : List ((c : C) × R c) → β → Prop}
    (ends : (M.program a).ends Q []) :
    ∃ past, t.ends Q past ∧ ∀ x ∈ past, ∃ s s', Told M ok start c p a x s s' := by
  induction h generalizing t with
  | start =>
    rw [idle p] at live
    cases live
  | @next c d act before met hs ih =>
    rcases step_told hs live with rfl | ⟨cmd, k, o, rfl, awaits, rfl⟩ | same
    · exact ⟨[], ends, nofun⟩
    · obtain ⟨past, rest, told⟩ := ih awaits
      refine ⟨past ++ [⟨cmd, (M.exec p cmd o c.world).1⟩], rest _, fun x mem => ?_⟩
      rcases List.mem_append.mp mem with old | new
      · obtain ⟨s, s', was⟩ := told x old
        exact ⟨s, s', was.next met hs⟩
      · cases List.mem_singleton.mp new
        exact ⟨c.world, (M.exec p cmd o c.world).2, c, d, o, k, before, awaits, rfl, hs, rfl,
          .start⟩
    · obtain ⟨past, rest, told⟩ := ih same
      refine ⟨past, rest, fun x mem => ?_⟩
      obtain ⟨s, s', was⟩ := told x mem
      exact ⟨s, s', was.next met hs⟩

end Machine
end Async
