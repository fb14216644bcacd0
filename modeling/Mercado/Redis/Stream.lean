import Mathlib.Data.List.Nodup

/-! Redis streams, and how a command to Redis can go. A stream is its entries in id
order and the last id it has given out; an id is one number, the milliseconds in the
upper half and the sequence number in the lower. -/
namespace Redis

/-- Answered; lost before it was carried out; carried out with its answer lost. -/
inductive Delivery where
  | answered | lost | unanswered
  deriving DecidableEq, Repr

def Delivery.through {ε α S : Type} (d : Delivery) (err : ε) (s : S) (x : α × S) :
    Except ε α × S :=
  match d with
  | .answered => (.ok x.1, x.2)
  | .lost => (.error err, s)
  | .unanswered => (.error err, x.2)

theorem Delivery.through_cases {ε α S : Type} (d : Delivery) (err : ε) (s : S) (x : α × S) :
    d.through err s x = (.ok x.1, x.2) ∨ d.through err s x = (.error err, s) ∨
      d.through err s x = (.error err, x.2) := by
  cases d with
  | answered => exact .inl rfl
  | lost => exact .inr (.inl rfl)
  | unanswered => exact .inr (.inr rfl)

theorem Delivery.through_ok {ε α S : Type} {d : Delivery} {err : ε} {s : S} {x : α × S} {a : α}
    (h : (d.through err s x).1 = .ok a) : a = x.1 ∧ (d.through err s x).2 = x.2 := by
  cases d with
  | answered => exact ⟨(Except.ok.inj h).symm, rfl⟩
  | lost | unanswered => cases h

structure Entry (φ : Type) where
  id : Nat
  fields : φ
  deriving DecidableEq, Repr

structure Stream (φ : Type) where
  entries : List (Entry φ)
  lastId : Nat
  sorted : entries.Pairwise fun a b => a.id < b.id
  issued : ∀ e ∈ entries, 0 < e.id ∧ e.id ≤ lastId

namespace Stream

variable {φ : Type}

def empty : Stream φ := ⟨[], 0, .nil, by simp⟩

/-- XADD with an automatic id: the next millisecond and sequence number are at
least one above the last id; `gap` is how far the clock has moved beyond that. -/
def xadd (s : Stream φ) (gap : Nat) (fields : φ) : Stream φ where
  entries := s.entries ++ [⟨s.lastId + 1 + gap, fields⟩]
  lastId := s.lastId + 1 + gap
  sorted := by
    refine List.pairwise_append.mpr ⟨s.sorted, List.pairwise_singleton _ _, ?_⟩
    intro a ha b hb
    cases List.mem_singleton.mp hb
    have := (s.issued a ha).2
    simp only
    omega
  issued := by
    intro e he
    rcases List.mem_append.mp he with he | he
    · have := s.issued e he
      omega
    · cases List.mem_singleton.mp he
      simp only
      omega

def added (s : Stream φ) (gap : Nat) (fields : φ) : Entry φ := ⟨s.lastId + 1 + gap, fields⟩

/-- XREAD COUNT count from an id: the first entries above that id. -/
def xread (s : Stream φ) (after count : Nat) : List (Entry φ) :=
  (s.entries.filter fun e => after < e.id).take count

def keep (s : Stream φ) (p : Entry φ → Bool) : Stream φ where
  entries := s.entries.filter p
  lastId := s.lastId
  sorted := s.sorted.filter p
  issued := fun e he => s.issued e (List.mem_of_mem_filter he)

def xtrimMinId (s : Stream φ) (minId : Nat) : Nat × Stream φ :=
  ((s.entries.filter fun e => e.id < minId).length, s.keep fun e => !decide (e.id < minId))

def xdel (s : Stream φ) (ids : List Nat) : Nat × Stream φ :=
  ((s.entries.filter fun e => ids.contains e.id).length, s.keep fun e => !ids.contains e.id)

@[simp] theorem xadd_entries (s : Stream φ) (gap : Nat) (f : φ) :
    (s.xadd gap f).entries = s.entries ++ [s.added gap f] := rfl
@[simp] theorem xadd_lastId (s : Stream φ) (gap : Nat) (f : φ) :
    (s.xadd gap f).lastId = s.lastId + 1 + gap := rfl
@[simp] theorem keep_entries (s : Stream φ) (p : Entry φ → Bool) :
    (s.keep p).entries = s.entries.filter p := rfl
@[simp] theorem keep_lastId (s : Stream φ) (p : Entry φ → Bool) :
    (s.keep p).lastId = s.lastId := rfl

theorem eq_of_id {s : Stream φ} {a b : Entry φ} (ha : a ∈ s.entries) (hb : b ∈ s.entries)
    (same : a.id = b.id) : a = b := by
  have distinct : (s.entries.map Entry.id).Nodup :=
    List.pairwise_map.mpr (s.sorted.imp fun h => Nat.ne_of_lt h)
  exact List.inj_on_of_nodup_map distinct ha hb same

theorem xread_first (s : Stream φ) (count : Nat) : s.xread 0 count = s.entries.take count := by
  have all : s.entries.filter (fun e => decide (0 < e.id)) = s.entries :=
    List.filter_eq_self.mpr fun e he => decide_eq_true (s.issued e he).1
  rw [xread, all]

theorem xread_head {s : Stream φ} {after : Nat} {entry : Entry φ}
    (next : (s.xread after 1).head? = some entry) :
    entry ∈ s.entries ∧ after < entry.id ∧
      ∀ e ∈ s.entries, after < e.id → entry.id ≤ e.id := by
  have sorted := s.sorted.filter fun e => decide (after < e.id)
  rw [xread] at next
  cases above : s.entries.filter fun e => decide (after < e.id) with
  | nil => simp [above] at next
  | cons first rest =>
    simp only [above, List.take_succ_cons, List.take_zero, List.head?_cons, Option.some.injEq] at next
    subst next
    have mem : first ∈ s.entries.filter fun e => decide (after < e.id) := by simp [above]
    simp only [List.mem_filter, decide_eq_true_eq] at mem
    refine ⟨mem.1, mem.2, fun e he lt => ?_⟩
    have later : e ∈ first :: rest := by simp [← above, he, lt]
    rw [above] at sorted
    rcases List.mem_cons.mp later with rfl | tail
    · exact Nat.le_refl _
    · exact Nat.le_of_lt ((List.pairwise_cons.mp sorted).1 e tail)

end Stream

/- Lists of entries in id order: a prefix holds everything up to any of its ids. -/
theorem mem_prefix_of_sorted {φ : Type} {batch entries : List (Entry φ)}
    (sorted : entries.Pairwise fun a b => a.id < b.id) (isPrefix : batch <+: entries)
    {e b : Entry φ} (he : e ∈ entries) (hb : b ∈ batch) (le : e.id ≤ b.id) : e ∈ batch := by
  obtain ⟨rest, rfl⟩ := isPrefix
  rcases List.mem_append.mp he with he | he
  · exact he
  · have := (List.pairwise_append.mp sorted).2.2 b hb e he
    omega

theorem nodup_of_sorted {φ : Type} {entries : List (Entry φ)}
    (sorted : entries.Pairwise fun a b => a.id < b.id) : entries.Nodup :=
  sorted.imp fun lt same => by subst same; exact Nat.lt_irrefl _ lt

end Redis
