import Mercado.Async.Machine

/-! A shared state that remembers what has happened to it, event by event. An event
belongs to one process or to nobody. -/
namespace Async

/-- The log of a machine: a command adds events of its own process or of nobody,
the environment events of nobody. -/
structure History {C : Type} {R : C → Type} {S O E A β : Type} (M : Machine C R S O E A β)
    (Ev : Type) where
  log : S → List Ev
  owner : Ev → Option Nat
  exec : ∀ p c o s, ∃ more, log (M.exec p c o s).2 = log s ++ more ∧
    ∀ ev ∈ more, owner ev = some p ∨ owner ev = none
  env : ∀ e s t, M.env e s = some t → ∃ more, log t = log s ++ more ∧
    ∀ ev ∈ more, owner ev = none

section Own

variable {Ev : Type} (owner : Ev → Option Nat)

def ownEvents (p : Nat) (log : List Ev) : List Ev := log.filter fun ev => owner ev = some p

@[simp] theorem ownEvents_append (p : Nat) (log more : List Ev) :
    ownEvents owner p (log ++ more) = ownEvents owner p log ++ ownEvents owner p more :=
  List.filter_append ..

variable {owner}

theorem ownEvents_own {p : Nat} {ev : Ev} (own : owner ev = some p) :
    ownEvents owner p [ev] = [ev] := by
  simp [ownEvents, own]

theorem ownEvents_foreign {p : Nat} {more : List Ev} (foreign : ∀ ev ∈ more, owner ev ≠ some p) :
    ownEvents owner p more = [] := by
  apply List.filter_eq_nil_iff.mpr
  intro ev hev
  simpa using foreign ev hev

theorem mem_ownEvents {p : Nat} {log : List Ev} {ev : Ev} :
    ev ∈ ownEvents owner p log ↔ ev ∈ log ∧ owner ev = some p := by
  simp [ownEvents]

theorem snoc_split {α : Type} {log before after : List α} {x ev : α}
    (h : log ++ [ev] = before ++ x :: after) :
    (before = log ∧ x = ev) ∨ ∃ after', log = before ++ x :: after' := by
  rcases List.eq_nil_or_concat after with rfl | ⟨after', last, rfl⟩
  · obtain ⟨same, last⟩ := List.append_inj' h rfl
    exact .inl ⟨same.symm, (List.singleton_inj.mp last).symm⟩
  · rw [List.concat_eq_append, ← List.cons_append, ← List.append_assoc] at h
    exact .inr ⟨after', (List.append_inj' h rfl).1⟩

end Own

namespace History

variable {C : Type} {R : C → Type} {S O E A β Ev : Type} {M : Machine C R S O E A β}
  (H : History M Ev) {c d : Config C R S A β}

theorem exec_other {p q : Nat} (differ : q ≠ p) (cmd : C) (o : O) (s : S) :
    ownEvents H.owner q (H.log (M.exec p cmd o s).2) = ownEvents H.owner q (H.log s) := by
  obtain ⟨more, log, owned⟩ := H.exec p cmd o s
  have foreign : ∀ ev ∈ more, H.owner ev ≠ some q := by
    intro ev hev same
    rcases owned ev hev with own | nobody
    · exact differ (Option.some.inj (same.symm.trans own))
    · exact nomatch same.symm.trans nobody
  rw [log, ownEvents_append, ownEvents_foreign foreign, List.append_nil]

theorem env_own {e : E} {s t : S} (h : M.env e s = some t) (q : Nat) :
    ownEvents H.owner q (H.log t) = ownEvents H.owner q (H.log s) := by
  obtain ⟨more, log, owned⟩ := H.env e s t h
  have foreign : ∀ ev ∈ more, H.owner ev ≠ some q := by
    intro ev hev same
    exact nomatch same.symm.trans (owned ev hev)
  rw [log, ownEvents_append, ownEvents_foreign foreign, List.append_nil]

theorem step_other {act : Action O E A} {q : Nat} (h : M.step c act = some d)
    (other : act.process ≠ some q) :
    ownEvents H.owner q (H.log d.world) = ownEvents H.owner q (H.log c.world) := by
  rcases Machine.step_world h with same | ⟨p, o, a, cmd, k, rfl, _, world⟩ | ⟨e, rfl, moved⟩
  · rw [same]
  · have differ : q ≠ p := fun same => other (same ▸ rfl)
    rw [world]
    exact H.exec_other differ cmd o c.world
  · exact H.env_own moved q

theorem idle_silent {ok : Config C R S A β → Action O E A → Prop} {start : Config C R S A β}
    (reached : Machine.Reach M ok start c)
    (silent : ∀ p, ownEvents H.owner p (H.log start.world) = []) :
    ∀ p, c.procs p = .idle → ownEvents H.owner p (H.log c.world) = [] := by
  induction reached with
  | start =>
    intro p _
    exact silent p
  | next act _ _ hs before =>
    intro p idle
    obtain ⟨other, wasIdle⟩ := Machine.step_idle hs idle
    exact (H.step_other hs other).trans (before p wasIdle)

end History
end Async
