import Mercado.Drainer.Entry
import Mercado.Drainer.Fleet

/-! What a handler that has counted itself leaves behind. Executing a query can panic, and
a panic ends the handler where it is. -/
namespace Mercado.Drainer.Fleet
open Async SerdeJson

inductive Panic where
  | expect (message : String)
  | subtractWithOverflow
  deriving DecidableEq, Repr

variable {ι υ : Type}

/-- What a handler awaits, with `execute_query` carried out. The clock is read to be
compared with `pushedAt`. -/
inductive HandlerCommand (ι υ : Type) where
  | fleet (c : Command FieldMap (StreamData ι υ))
  | getConnection
  | execute (op : DBOperation ι υ)
  | nowUnixTimestamp (pushedAt : Int64)

abbrev HandlerReply (ι υ : Type) : HandlerCommand ι υ → Type
  | .fleet c => Reply FieldMap (StreamData ι υ) c
  | .getConnection => Except Unit Unit
  | .execute _ => QueryResult
  | .nowUnixTimestamp _ => Int64

abbrev HandlerEvent (ι υ : Type) := (c : HandlerCommand ι υ) × HandlerReply ι υ c

abbrev HandlerTask (ι υ : Type) := Task (HandlerCommand ι υ) (HandlerReply ι υ)

abbrev ask (c : HandlerCommand ι υ) : ExceptT Panic (HandlerTask ι υ) (HandlerReply ι υ c) :=
  ExceptT.lift (Task.call c)

def pgConnection : ExceptT Panic (HandlerTask ι υ) Unit := do
  match ← ask .getConnection with
  | .ok () => return ()
  | .error () => throw (.expect "Couldn't retrieve PostgreSQL connection")

def subI64 (a b : Int64) : Except Panic Int64 :=
  if -2 ^ 63 ≤ a.toInt - b.toInt ∧ a.toInt - b.toInt < 2 ^ 63 then .ok (a - b)
  else .error .subtractWithOverflow

def pushDrainerDelay (pushedAt : Int64) : ExceptT Panic (HandlerTask ι υ) Unit := do
  let drainedAt ← ask (.nowUnixTimestamp pushedAt)
  let _ ← ExceptT.mk (pure (subI64 drainedAt pushedAt))
  return ()

def executeQuery (op : DBOperation ι υ) (pushedAt : Int64) :
    ExceptT Panic (HandlerTask ι υ) QueryResult := do
  pgConnection
  let result ← ask (.execute op)
  pushDrainerDelay pushedAt
  return result

def carryOut : (c : Command FieldMap (StreamData ι υ)) →
    ExceptT Panic (HandlerTask ι υ) (Reply FieldMap (StreamData ι υ) c)
  | .drain _ (.executeQuery _ data) => executeQuery data.typedSql data.pushedAt
  | c => ask (.fleet c)

def panicOf : HandlerEvent ι υ → Option Panic
  | ⟨.getConnection, .error ()⟩ => some (.expect "Couldn't retrieve PostgreSQL connection")
  | ⟨.nowUnixTimestamp pushedAt, now⟩ =>
    match subI64 now pushedAt with
    | .ok _ => none
    | .error p => some p
  | _ => none

/-- An event of the draining itself, after which the handler goes on. -/
def Harmless (streamIndex : UInt8) (e : HandlerEvent ι υ) : Prop :=
  panicOf e = none ∧ match e.1 with
    | .fleet (.drain i _) => i = streamIndex
    | .fleet _ => False
    | .getConnection | .execute _ | .nowUnixTimestamp _ => True

/-- Draining goes on until it returns, or until the first answer that leads to a panic. -/
def Drained {α : Type} (streamIndex : UInt8) (past past' : List (HandlerEvent ι υ)) :
    Except Panic α → Prop
  | .ok _ => ∃ work, past' = past ++ work ∧ ∀ e ∈ work, Harmless streamIndex e
  | .error p => Nonempty (StreamData ι υ) ∧ ∃ work last, past' = past ++ work ++ [last] ∧
    (∀ e ∈ work, Harmless streamIndex e) ∧ panicOf last = some p

variable {α β : Type} {streamIndex : UInt8} {past mid past' : List (HandlerEvent ι υ)}

theorem Drained.trans {a : α} {r : Except Panic β}
    (first : Drained streamIndex past mid (.ok a : Except Panic α))
    (rest : Drained streamIndex mid past' r) : Drained streamIndex past past' r := by
  obtain ⟨work, rfl, harmless⟩ := first
  have both : ∀ more : List (HandlerEvent ι υ), (∀ e ∈ more, Harmless streamIndex e) →
      ∀ e ∈ work ++ more, Harmless streamIndex e := by
    intro more later e mem
    rcases List.mem_append.mp mem with mem | mem
    · exact harmless e mem
    · exact later e mem
  cases r with
  | ok b =>
    obtain ⟨more, rfl, later⟩ := rest
    exact ⟨work ++ more, List.append_assoc .., both more later⟩
  | error p =>
    obtain ⟨data, more, last, rfl, later, panics⟩ := rest
    exact ⟨data, work ++ more, last, by simp, both more later, panics⟩

theorem drained_bind {t : ExceptT Panic (HandlerTask ι υ) α}
    {f : α → ExceptT Panic (HandlerTask ι υ) β}
    (first : t.run.ends (Drained streamIndex past) past)
    (rest : ∀ a mid, (f a).run.ends (Drained streamIndex mid) mid) :
    (t >>= f).run.ends (Drained streamIndex past) past := by
  rw [Task.ends_tryBind]
  refine first.mono fun mid r done => ?_
  cases r with
  | ok a => exact (rest a mid).mono fun _ _ later => done.trans later
  | error p => exact done

theorem drained_pure (a : α) :
    (pure a : ExceptT Panic (HandlerTask ι υ) α).run.ends (Drained streamIndex past) past :=
  ⟨[], by rw [List.append_nil], nofun⟩

theorem drained_ask {c : HandlerCommand ι υ}
    (harmless : ∀ r, Harmless streamIndex (⟨c, r⟩ : HandlerEvent ι υ)) :
    (ask c).run.ends (Drained streamIndex past) past :=
  fun r => ⟨[⟨c, r⟩], rfl, fun _ mem => List.mem_singleton.mp mem ▸ harmless r⟩

theorem pgConnection_ends (data : StreamData ι υ) :
    (pgConnection : ExceptT Panic (HandlerTask ι υ) Unit).run.ends (Drained streamIndex past)
      past := by
  intro connection
  cases connection with
  | error e => exact ⟨⟨data⟩, [], _, by rw [List.append_nil], nofun, rfl⟩
  | ok conn => exact ⟨[_], rfl, fun _ mem => List.mem_singleton.mp mem ▸ ⟨rfl, trivial⟩⟩

theorem pushDrainerDelay_ends (data : StreamData ι υ) :
    (pushDrainerDelay data.pushedAt : ExceptT Panic (HandlerTask ι υ) Unit).run.ends
      (Drained streamIndex past) past := by
  intro now
  have read : panicOf (⟨.nowUnixTimestamp data.pushedAt, now⟩ : HandlerEvent ι υ) =
      match subI64 now data.pushedAt with
      | .ok _ => none
      | .error p => some p := rfl
  change ((ExceptT.mk (.done (subI64 now data.pushedAt)) >>= fun _ => pure () :
    ExceptT Panic (HandlerTask ι υ) Unit).run).ends _ _
  cases delay : subI64 now data.pushedAt with
  | ok d =>
    rw [delay] at read
    exact ⟨[_], rfl, fun _ mem => List.mem_singleton.mp mem ▸ ⟨read, trivial⟩⟩
  | error p =>
    rw [delay] at read
    exact ⟨⟨data⟩, [], _, by rw [List.append_nil], nofun, read⟩

theorem executeQuery_ends (data : StreamData ι υ) :
    (executeQuery data.typedSql data.pushedAt).run.ends (Drained streamIndex past) past :=
  drained_bind (pgConnection_ends data) fun _ _ =>
    drained_bind (drained_ask fun _ => ⟨rfl, trivial⟩) fun result _ =>
      drained_bind (pushDrainerDelay_ends data) fun _ _ => drained_pure result

theorem onShard_ends (t : DrainerTask FieldMap (StreamData ι υ) α) :
    ((onShard streamIndex t).interpret carryOut).run.ends (Drained streamIndex past) past := by
  induction t generalizing past with
  | done a => exact drained_pure a
  | await c k ih =>
    refine drained_bind (t := carryOut (.drain streamIndex c)) ?_ fun r mid => ih r
    cases c with
    | executeQuery entry data => exact executeQuery_ends data
    | streamReadEntries | streamTrimEntries | streamDeleteEntries | assertionFailed =>
      exact drained_ask fun _ => ⟨rfl, rfl⟩

theorem makeStreamAvailable_ends {flag : String}
    {Q : List (HandlerEvent ι υ) → Except Panic (Except DrainerError Unit) → Prop}
    (freed : ∀ deleted output, Q (past ++ [⟨.fleet (.del flag), deleted⟩]) (.ok output)) :
    ((makeStreamAvailable flag).interpret carryOut).run.ends Q past := by
  intro deleted
  have returned := freed deleted
  rcases deleted with e | _ | _ | value <;> exact returned _

variable [Codec ι] [Codec υ]

def drainerHandlerRun (conf : DrainerSettings) (text : Text) (handler : Nat)
    (streamIndex : UInt8) : ExceptT Panic (HandlerTask ι υ) (Except DrainerError Unit) :=
  (drainerHandler conf (StreamData.fromHashmap text) handler streamIndex).interpret carryOut

/-- The handler has drained, tried to give the flag back and uncounted itself. -/
def Restored (conf : DrainerSettings) (handler : Nat) (streamIndex : UInt8)
    (past : List (HandlerEvent ι υ)) (r : Except Panic (Except DrainerError Unit)) : Prop :=
  ∃ work deleted output, r = .ok output ∧ (∀ e ∈ work, Harmless streamIndex e) ∧
    past = [⟨.fleet (.fetchAdd handler), ()⟩] ++ work ++
      [⟨.fleet (.del (getStreamKeyFlag conf streamIndex)), deleted⟩,
        ⟨.fleet (.fetchSub handler), ()⟩]

/-- The handler has panicked while it was executing a query, and is still counted. -/
def Abandoned (handler : Nat) (streamIndex : UInt8) (past : List (HandlerEvent ι υ))
    (r : Except Panic (Except DrainerError Unit)) : Prop :=
  ∃ work last p, r = .error p ∧ (∀ e ∈ work, Harmless streamIndex e) ∧ panicOf last = some p ∧
    Nonempty (StreamData ι υ) ∧
    past = [⟨.fleet (.fetchAdd handler), ()⟩] ++ work ++ [last]

/-- A handler ends with its bookkeeping restored, unless a query cannot get a connection or
its entry was pushed too long before or after the clock's time. -/
theorem drainerHandler_ends (conf : DrainerSettings) (text : Text) (handler : Nat)
    (streamIndex : UInt8) :
    (drainerHandlerRun conf text handler streamIndex : ExceptT Panic (HandlerTask ι υ) _).run.ends
      (fun past r => Restored conf handler streamIndex past r ∨
        Abandoned handler streamIndex past r) [] := by
  intro counted
  change (((onShard streamIndex (drainer (StreamData.fromHashmap text) conf.maxReadCount
    (getDrainerStreamName conf streamIndex))).bind fun _ =>
      (makeStreamAvailable (getStreamKeyFlag conf streamIndex)).bind fun output =>
        (Task.call (.fetchSub handler)).bind fun _ => .done output).interpret
          carryOut).run.ends _ [⟨.fleet (.fetchAdd handler), counted⟩]
  rw [Task.ends_interpret_bind]
  refine (onShard_ends _).mono fun past' r drained => ?_
  cases r with
  | error p =>
    obtain ⟨data, work, last, rfl, harmless, panics⟩ := drained
    exact .inr ⟨work, last, p, rfl, harmless, panics, data, rfl⟩
  | ok a =>
    obtain ⟨work, rfl, harmless⟩ := drained
    rw [Task.ends_interpret_bind]
    refine makeStreamAvailable_ends fun deleted output uncounted => ?_
    refine .inl ⟨work, deleted, output, rfl, harmless, ?_⟩
    rw [List.append_assoc _ [_] [_]]
    rfl

/-- The answers alone decide whether the handler ends. -/
theorem drainerHandler_panics (conf : DrainerSettings) (text : Text) (handler : Nat)
    (streamIndex : UInt8) :
    (drainerHandlerRun conf text handler streamIndex : ExceptT Panic (HandlerTask ι υ) _).run.ends
      (fun past r => Restored conf handler streamIndex past r ↔ ∀ e ∈ past, panicOf e = none)
      [] := by
  refine (drainerHandler_ends conf text handler streamIndex).mono fun past r ended => ?_
  rcases ended with restored | ⟨work, last, p, rfl, _, panics, _, rfl⟩
  · refine iff_of_true restored fun e mem => ?_
    obtain ⟨work, deleted, output, _, harmless, rfl⟩ := restored
    simp only [List.mem_append, List.mem_cons, List.not_mem_nil, or_false] at mem
    rcases mem with (rfl | mem) | rfl | rfl
    · rfl
    · exact (harmless e mem).1
    · rfl
    · rfl
  · refine iff_of_false ?_ fun quiet => ?_
    · rintro ⟨_, _, _, ended, _⟩
      cases ended
    · exact nomatch panics.symm.trans (quiet last (by simp))

/- At this commit there is nothing to execute. -/

instance : IsEmpty (DBOperation Insertable Updateable) where
  false
    | .insert insertable => nomatch insertable
    | .update updatable => nomatch updatable

theorem unreadable (text : Text) (m : FieldMap) :
    ∃ e, (StreamData.fromHashmap text m : Except _ (StreamData Insertable Updateable)) = .error e :=
  fromHashmap_error.mpr fun data => isEmptyElim data.typedSql

/-- Whatever Redis, the pool and the database answer and whatever the entries say, the handler
ends, having tried to give the flag back and uncounted itself. -/
theorem bookkeeping_restored (conf : DrainerSettings) (text : Text) (handler : Nat)
    (streamIndex : UInt8) :
    (drainerHandlerRun conf text handler streamIndex :
      ExceptT Panic (HandlerTask Insertable Updateable) _).run.ends
        (Restored conf handler streamIndex) [] := by
  refine (drainerHandler_ends conf text handler streamIndex).mono fun past r ended => ?_
  rcases ended with restored | ⟨_, _, _, _, _, _, ⟨data⟩, _⟩
  · exact restored
  · exact isEmptyElim data.typedSql

end Mercado.Drainer.Fleet
