import Mercado.Async.Machine

/-! Two machines, one of which does in each step what the other one does in some steps, or in
none. -/
namespace Async

variable {C C' : Type} {R : C → Type} {R' : C' → Type} {S S' O O' E E' A A' β β' : Type}

structure Simulation (M : Machine C R S O E A β)
    (ok : Config C R S A β → Action O E A → Prop) (start : Config C R S A β)
    (M' : Machine C' R' S' O' E' A' β')
    (ok' : Config C' R' S' A' β' → Action O' E' A' → Prop) (start' : Config C' R' S' A' β') where
  rel : Config C R S A β → Config C' R' S' A' β' → Prop
  starts : rel start start'
  steps : ∀ {c d c' act}, Machine.Reach M ok start c → Machine.Reach M' ok' start' c' →
    rel c c' → ok c act → M.step c act = some d → ∃ d', Machine.Reach M' ok' c' d' ∧ rel d d'

variable {M : Machine C R S O E A β} {ok : Config C R S A β → Action O E A → Prop}
  {start c : Config C R S A β} {M' : Machine C' R' S' O' E' A' β'}
  {ok' : Config C' R' S' A' β' → Action O' E' A' → Prop} {start' : Config C' R' S' A' β'}

/-- What one machine reaches is matched by something that the other one reaches. -/
theorem Simulation.reach (sim : Simulation M ok start M' ok' start')
    (reached : Machine.Reach M ok start c) :
    ∃ c', Machine.Reach M' ok' start' c' ∧ sim.rel c c' := by
  induction reached with
  | start => exact ⟨start', .start, sim.starts⟩
  | next act before met hs ih =>
    obtain ⟨c', reached', related⟩ := ih
    obtain ⟨d', rest, related'⟩ := sim.steps before reached' related met hs
    exact ⟨d', reached'.trans rest, related'⟩

theorem Machine.Reach.called {fine : A → Prop} (reached : Machine.Reach M ok start c)
    (idle : ∀ p, start.procs p = .idle) (met : ∀ c p a, ok c (.spawn p a) → fine a) {p : Nat}
    {a : A} {t : Task C R β} (live : c.procs p = .live a t) : fine a := by
  induction reached generalizing t with
  | start =>
    rw [idle p] at live
    cases live
  | next act _ allowed hs ih =>
    rcases Machine.step_live hs live with ⟨_, rfl⟩ | ⟨u, before⟩
    · exact met _ p a allowed
    · exact ih before

end Async
