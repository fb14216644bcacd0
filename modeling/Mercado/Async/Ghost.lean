import Mercado.Async.Machine

/-! A record beside the shared state of a machine, which the processes and the environment
keep up to date and nobody reads. Whatever the machine does, it does with the record. -/
namespace Async

variable {C : Type} {R : C → Type} {S O E A β G : Type}

/-- How the commands and the environment change the record. -/
structure Ghost (M : Machine C R S O E A β) (G : Type) where
  exec : Nat → C → O → S → G → G
  env : E → S → G → G

namespace Config

def withGhost (c : Config C R S A β) (g : G) : Config C R (S × G) A β := ⟨(c.world, g), c.procs⟩

def forget (c : Config C R (S × G) A β) : Config C R S A β := ⟨c.world.1, c.procs⟩

@[simp] theorem withGhost_world (c : Config C R S A β) (g : G) :
    (c.withGhost g).world = (c.world, g) := rfl
@[simp] theorem withGhost_procs (c : Config C R S A β) (g : G) :
    (c.withGhost g).procs = c.procs := rfl
@[simp] theorem forget_withGhost (c : Config C R S A β) (g : G) : (c.withGhost g).forget = c := rfl

end Config

namespace Ghost

variable {M : Machine C R S O E A β} (H : Ghost M G)

def machine : Machine C R (S × G) O E A β where
  exec := fun p c o s => ((M.exec p c o s.1).1, (M.exec p c o s.1).2, H.exec p c o s.1 s.2)
  env := fun e s => (M.env e s.1).map fun t => (t, H.env e s.1 s.2)
  program := M.program

variable {c d : Config C R S A β} {act : Action O E A}

theorem step (g : G) (h : M.step c act = some d) :
    ∃ g', H.machine.step (c.withGhost g) act = some (d.withGhost g') := by
  cases act with
  | spawn p a =>
    obtain ⟨idle, rfl⟩ := Machine.step_spawn h
    refine ⟨g, ?_⟩
    simp only [Machine.step, Config.withGhost_procs, idle]
    rfl
  | step p o =>
    obtain ⟨a, cmd, k, live, procs, world⟩ := Machine.step_step h
    refine ⟨H.exec p cmd o c.world g, ?_⟩
    simp only [Machine.step, live, Config.withGhost, procs, world]
    rfl
  | crash p =>
    obtain ⟨a, cmd, k, live, rfl⟩ := Machine.step_crash h
    refine ⟨g, ?_⟩
    simp only [Machine.step, Config.withGhost_procs, live]
    rfl
  | env e =>
    obtain ⟨moved, procs⟩ := Machine.step_env h
    refine ⟨H.env e c.world g, ?_⟩
    simp only [Machine.step, machine, moved, Config.withGhost, procs]
    rfl

theorem step_forget {c d : Config C R (S × G) A β} (h : H.machine.step c act = some d) :
    M.step c.forget act = some d.forget := by
  cases act with
  | spawn p a =>
    obtain ⟨idle, rfl⟩ := Machine.step_spawn h
    simp only [Machine.step, Config.forget, idle]
    rfl
  | step p o =>
    obtain ⟨a, cmd, k, live, procs, world⟩ := Machine.step_step h
    simp only [Machine.step, Config.forget, live, procs, world]
    rfl
  | crash p =>
    obtain ⟨a, cmd, k, live, rfl⟩ := Machine.step_crash h
    simp only [Machine.step, Config.forget, live]
    rfl
  | env e =>
    obtain ⟨moved, procs⟩ := Machine.step_env h
    obtain ⟨t, moved, world⟩ := Option.map_eq_some_iff.mp moved
    simp only [Machine.step, Config.forget, moved, Option.map_some, procs, ← world]

theorem reach {ok : Config C R S A β → Action O E A → Prop} {start : Config C R S A β} (g : G)
    (h : Machine.Reach M ok start c) :
    ∃ g', Machine.Reach H.machine (fun c act => ok c.forget act) (start.withGhost g)
      (c.withGhost g') := by
  induction h with
  | start => exact ⟨g, .start⟩
  | next act _ met hs ih =>
    obtain ⟨g', reached⟩ := ih
    obtain ⟨g'', stepped⟩ := H.step g' hs
    exact ⟨g'', .next act reached met stepped⟩

end Ghost
end Async
