import Mercado.Text.Split
import Mercado.Scheduler.ProcessTracker

/-! The ids that trackers are given. An id is made of four parts with an underscore between
them, and the parts themselves may have underscores. -/
namespace Mercado.Scheduler
open Text

def getProcessTrackerId (runner : ProcessTrackerRunner) (taskName txnId merchantId : String) :
    String :=
  runner.display ++ "_" ++ taskName ++ "_" ++ txnId ++ "_" ++ merchantId

structure TaskKey where
  runner : ProcessTrackerRunner
  taskName : String
  txnId : String
  merchantId : String

namespace TaskKey

def id (k : TaskKey) : String := getProcessTrackerId k.runner k.taskName k.txnId k.merchantId

def Built (k : TaskKey) (new : ProcessTrackerNew) : Prop :=
  ∃ (T : Type) (encodeToValue : T → Except Unit String) (tag : List String) (trackingData : T)
    (scheduleTime now : PrimitiveDateTime),
    ProcessTrackerNew.new encodeToValue k.id k.taskName k.runner tag trackingData scheduleTime
      now = .ok new

/-- The ids keep two keys apart: once the tracker of the one is in a table, the tracker of the
other goes in and is looked up as before. -/
structure CollisionFree (a b : TaskKey) : Prop where
  equal : a.id = b.id → a = b
  inserted : a ≠ b → ∀ (t t' : Table) (new other : ProcessTrackerNew), a.Built new →
    b.Built other → t.insert new = some t' → (t'.insert other).isSome = (t.insert other).isSome
  found : a ≠ b → ∀ (t t' : Table) (new : ProcessTrackerNew), a.Built new →
    t.insert new = some t' → t'.find b.id = t.find b.id

/- The words of the parts. -/

def words (k : TaskKey) : List (List Char) :=
  k.taskName.toList.splitOn '_' ++ (k.txnId.toList.splitOn '_' ++ k.merchantId.toList.splitOn '_')

def rest (k : TaskKey) : List Char :=
  k.taskName.toList ++ '_' :: (k.txnId.toList ++ '_' :: k.merchantId.toList)

theorem splitOn_rest (k : TaskKey) : k.rest.splitOn '_' = k.words := by
  rw [rest, List.splitOn_append_cons_self, List.splitOn_append_cons_self, words]

theorem id_toList (k : TaskKey) : k.id.toList = k.runner.display.toList ++ '_' :: k.rest := by
  simp [id, getProcessTrackerId, rest]

theorem display_head {r s : ProcessTrackerRunner}
    (same : r.display.toList.head? = s.display.toList.head?) : r = s := by
  cases r <;> cases s <;> first | rfl | exact absurd same (by decide)

theorem display_ne_nil (r : ProcessTrackerRunner) : r.display.toList ≠ [] := by
  cases r <;> decide

theorem id_head (k : TaskKey) : k.id.toList.head? = k.runner.display.toList.head? := by
  rw [id_toList, List.head?_append_of_ne_nil _ (display_ne_nil k.runner)]

theorem id_eq_iff (a b : TaskKey) : a.id = b.id ↔ a.runner = b.runner ∧ a.words = b.words := by
  rw [← splitOn_rest, ← splitOn_rest, splitOn_inj, ← String.toList_inj]
  constructor
  · intro same
    have runner : a.runner = b.runner := by
      apply display_head
      rw [← id_head, ← id_head, same]
    rw [id_toList, id_toList, runner] at same
    exact ⟨runner, (List.cons.inj (List.append_cancel_left same)).2⟩
  · rintro ⟨runner, rest⟩
    rw [id_toList, id_toList, runner, rest]

/-- The words of two keys are the same and are divided among the parts in different ways. -/
def Regrouped (a b : TaskKey) : Prop :=
  a.runner = b.runner ∧ a.words = b.words ∧
    ¬ (a.taskName.toList.count '_' = b.taskName.toList.count '_' ∧
      a.txnId.toList.count '_' = b.txnId.toList.count '_')

theorem eq_of_words {a b : TaskKey} (runner : a.runner = b.runner) (words : a.words = b.words)
    (task : a.taskName.toList.count '_' = b.taskName.toList.count '_')
    (txn : a.txnId.toList.count '_' = b.txnId.toList.count '_') : a = b := by
  obtain ⟨taskSplit, later⟩ := List.append_inj words (by simp only [length_splitOn, task])
  obtain ⟨txnSplit, merchantSplit⟩ := List.append_inj later (by simp only [length_splitOn, txn])
  have taskName := String.toList_inj.mp (splitOn_inj.mp taskSplit)
  have txnId := String.toList_inj.mp (splitOn_inj.mp txnSplit)
  have merchantId := String.toList_inj.mp (splitOn_inj.mp merchantSplit)
  cases a
  cases b
  simp only [mk.injEq]
  exact ⟨runner, taskName, txnId, merchantId⟩

theorem id_inj_iff (a b : TaskKey) : (a.id = b.id → a = b) ↔ ¬ Regrouped a b := by
  rw [id_eq_iff]
  constructor
  · rintro injective ⟨runner, words, differ⟩
    have same := injective ⟨runner, words⟩
    exact differ ⟨by rw [same], by rw [same]⟩
  · intro kept same
    by_contra differ
    apply kept
    refine ⟨same.1, same.2, fun counts => differ ?_⟩
    exact eq_of_words same.1 same.2 counts.1 counts.2

/- The trackers in the table. -/

theorem Built.row_id {k : TaskKey} {new : ProcessTrackerNew} (built : k.Built new) :
    new.row.id = k.id := by
  obtain ⟨T, encodeToValue, tag, trackingData, scheduleTime, now, made⟩ := built
  rw [ProcessTrackerNew.new] at made
  split at made
  · cases made
  · cases made
    rfl

end TaskKey

namespace Table

variable {t t' : Table} {new : ProcessTrackerNew}

theorem find_insert_of_ne {id : String} (inserted : t.insert new = some t')
    (other : new.row.id ≠ id) : t'.find id = t.find id := by
  rw [find, find, insert_rows inserted, List.find?_append]
  simp [other]

theorem insert_insert_of_ne {later : ProcessTrackerNew} (inserted : t.insert new = some t')
    (other : new.row.id ≠ later.row.id) : (t'.insert later).isSome = (t.insert later).isSome := by
  rw [Bool.eq_iff_iff, insert_isSome, insert_isSome, insert_rows inserted]
  simp [other.symm]

end Table

namespace TaskKey

/-- Two keys collide when the one has the words of the other, divided in another way. -/
theorem collisionFree_iff (a b : TaskKey) : CollisionFree a b ↔ ¬ Regrouped a b := by
  rw [← id_inj_iff]
  constructor
  · exact CollisionFree.equal
  · intro injective
    have apart : a ≠ b → a.id ≠ b.id := fun differ same => differ (injective same)
    refine ⟨injective, ?_, ?_⟩
    · intro differ t t' new other built builtOther inserted
      apply Table.insert_insert_of_ne inserted
      rw [built.row_id, builtOther.row_id]
      exact apart differ
    · intro differ t t' new built inserted
      apply Table.find_insert_of_ne inserted
      rw [built.row_id]
      exact apart differ

/-- Two merchants, and a word that is read as the end of a transaction id or as the beginning
of a merchant id. -/
theorem not_collisionFree : ¬ ∀ a b : TaskKey, CollisionFree a b := by
  intro free
  have same := (free ⟨.paymentsSyncWorkflow, "PAYMENTS_SYNC", "pay_1", "acme"⟩
    ⟨.paymentsSyncWorkflow, "PAYMENTS_SYNC", "pay", "1_acme"⟩).equal (by decide)
  exact absurd (congrArg TaskKey.txnId same) (by decide)

end TaskKey

end Mercado.Scheduler
