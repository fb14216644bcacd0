import Mathlib.Algebra.BigOperators.Group.List.Basic
import Mathlib.Algebra.Ring.Int.Defs
import Mercado.Arith.Checked

/-! The delay before a retry. A mapping gives frequencies and how often each is used, and
`get_delay` adds up the counts until they reach the number of the retry. -/
namespace Mercado.Scheduler
open Checked

structure RetryMapping where
  startAfter : Int32
  frequency : List Int32
  count : List Int32
  deriving DecidableEq, Repr

inductive PaymentMethod where
  | card | cardRedirect | payLater | wallet | bankRedirect | bankTransfer | crypto | bankDebit
  | reward | upi | voucher | giftCard
  deriving DecidableEq, Repr

/- The mappings by merchant or payment method. -/

structure ConnectorPTMapping where
  defaultMapping : RetryMapping
  customMerchantMapping : List (String × RetryMapping)

structure PaymentMethodsPTMapping where
  defaultMapping : RetryMapping
  customPmMapping : List (PaymentMethod × RetryMapping)

structure OutgoingWebhookRetryProcessTrackerMapping where
  defaultMapping : RetryMapping
  customMerchantMapping : List (String × RetryMapping)

section Functions

variable (build : Build)

def delayLoop (retryCount : Int32) : Int32 → List (Int32 × Int32) → Except Panic (Option Int32)
  | _, [] => return none
  | cumulativeCount, (count, frequency) :: array => do
    let cumulativeCount ← build.addI32 cumulativeCount count
    if cumulativeCount ≥ retryCount then
      return some frequency
    else
      delayLoop retryCount cumulativeCount array

def getDelay (retryCount : Int32) (array : List (Int32 × Int32)) : Except Panic (Option Int32) :=
  if retryCount ≤ 0 then .ok none else delayLoop build retryCount 0 array

def scheduleTime (mapping : RetryMapping) (retryCount : Int32) : Except Panic (Option Int32) :=
  if retryCount = 0 then .ok (some mapping.startAfter)
  else getDelay build retryCount (mapping.count.zip mapping.frequency)

def ConnectorPTMapping.select (mapping : ConnectorPTMapping) (merchantName : String) :
    RetryMapping :=
  (mapping.customMerchantMapping.lookup merchantName).getD mapping.defaultMapping

def getScheduleTime (mapping : ConnectorPTMapping) (merchantName : String) (retryCount : Int32) :
    Except Panic (Option Int32) :=
  scheduleTime build (mapping.select merchantName) retryCount

def PaymentMethodsPTMapping.select (mapping : PaymentMethodsPTMapping) (pm : PaymentMethod) :
    RetryMapping :=
  (mapping.customPmMapping.lookup pm).getD mapping.defaultMapping

def getPmScheduleTime (mapping : PaymentMethodsPTMapping) (pm : PaymentMethod)
    (retryCount : Int32) : Except Panic (Option Int32) :=
  scheduleTime build (mapping.select pm) retryCount

def OutgoingWebhookRetryProcessTrackerMapping.select
    (mapping : OutgoingWebhookRetryProcessTrackerMapping) (merchantName : String) :
    RetryMapping :=
  (mapping.customMerchantMapping.lookup merchantName).getD mapping.defaultMapping

def getOutgoingWebhookRetryScheduleTime (mapping : OutgoingWebhookRetryProcessTrackerMapping)
    (merchantName : String) (retryCount : Int32) : Except Panic (Option Int32) :=
  scheduleTime build (mapping.select merchantName) retryCount

end Functions

def expand (array : List (Int32 × Int32)) : List Int32 :=
  array.flatMap fun x => List.replicate x.1.toInt.toNat x.2

def countOf (array : List (Int32 × Int32)) (n : Nat) : Int :=
  ((array.take n).map fun x => x.1.toInt).sum

@[simp] theorem countOf_zero (array : List (Int32 × Int32)) : countOf array 0 = 0 := rfl

@[simp] theorem countOf_cons (x : Int32 × Int32) (array : List (Int32 × Int32)) (n : Nat) :
    countOf (x :: array) (n + 1) = x.1.toInt + countOf array n := rfl

@[simp] theorem countOf_nil (n : Nat) : countOf [] n = 0 := by
  rw [countOf, List.take_nil]
  rfl

theorem countOf_nonneg {array : List (Int32 × Int32)} (counts : ∀ x ∈ array, 0 ≤ x.1.toInt)
    (n : Nat) : 0 ≤ countOf array n := by
  induction array generalizing n with
  | nil => simp
  | cons x array ih =>
    cases n with
    | zero => simp
    | succ n =>
      have first := counts x List.mem_cons_self
      have rest := ih (fun y mem => counts y (List.mem_cons_of_mem _ mem)) n
      rw [countOf_cons]
      omega

theorem expand_hit {count frequency : Int32} {array : List (Int32 × Int32)} {n : Nat}
    (inside : n < count.toInt.toNat) : (expand ((count, frequency) :: array))[n]? =
      some frequency := by
  have split : expand ((count, frequency) :: array) =
      List.replicate count.toInt.toNat frequency ++ expand array := rfl
  rw [split, List.getElem?_append_left (by rwa [List.length_replicate]), List.getElem?_replicate,
    if_pos inside]

theorem expand_skip {count frequency : Int32} {array : List (Int32 × Int32)} {n : Nat}
    (beyond : count.toInt.toNat ≤ n) : (expand ((count, frequency) :: array))[n]? =
      (expand array)[n - count.toInt.toNat]? := by
  have split : expand ((count, frequency) :: array) =
      List.replicate count.toInt.toNat frequency ++ expand array := rfl
  rw [split, List.getElem?_append_right (by rwa [List.length_replicate]), List.length_replicate]

/-- The count that brings the sum to the retry number makes a sum that fits. -/
def Reaches (array : List (Int32 × Int32)) (added retryCount : Int) : Prop :=
  ∀ n, added + countOf array n < retryCount → added + countOf array (n + 1) < 2 ^ 31

theorem reaches_cons {count frequency : Int32} {array : List (Int32 × Int32)}
    {added retryCount : Int} (below : added < retryCount) :
    Reaches ((count, frequency) :: array) added retryCount ↔
      added + count.toInt < 2 ^ 31 ∧ Reaches array (added + count.toInt) retryCount := by
  constructor
  · intro reaches
    refine ⟨by simpa using reaches 0 (by simpa using below), fun n before => ?_⟩
    have later := reaches (n + 1)
    rw [countOf_cons, countOf_cons] at later
    dsimp only at later
    omega
  · rintro ⟨fits, reaches⟩ n before
    cases n with
    | zero => simpa using fits
    | succ n =>
      rw [countOf_cons] at before ⊢
      dsimp only at before ⊢
      have := reaches n (by omega)
      omega

variable {build : Build}

theorem delayLoop_cons {retryCount added count frequency : Int32}
    {array : List (Int32 × Int32)} (nonneg : 0 ≤ added.toInt + count.toInt)
    (fits : added.toInt + count.toInt < 2 ^ 31) :
    delayLoop build retryCount added ((count, frequency) :: array) =
      if retryCount ≤ added + count then .ok (some frequency)
      else delayLoop build retryCount (added + count) array := by
  rw [delayLoop, (addI32_fits (by omega) fits).1]
  rfl

theorem delayLoop_expands {retryCount : Int32} {array : List (Int32 × Int32)}
    (counts : ∀ x ∈ array, 0 ≤ x.1.toInt) {added : Int32} (nonneg : 0 ≤ added.toInt)
    (below : added < retryCount) :
    (∀ build, delayLoop build retryCount added array =
        .ok (expand array)[(retryCount.toInt - added.toInt - 1).toNat]?) ↔
      Reaches array added.toInt retryCount.toInt := by
  have small := retryCount.toInt_lt
  have below' := Int32.lt_iff_toInt_lt.mp below
  induction array generalizing added with
  | nil =>
    refine iff_of_true (fun build => rfl) fun n _ => ?_
    rw [countOf_nil]
    omega
  | cons x array ih =>
    obtain ⟨count, frequency⟩ := x
    have first : 0 ≤ count.toInt := counts _ List.mem_cons_self
    have others : ∀ x ∈ array, 0 ≤ x.1.toInt := fun x mem => counts x (List.mem_cons_of_mem _ mem)
    rw [reaches_cons below']
    by_cases fits : added.toInt + count.toInt < 2 ^ 31
    case neg =>
      refine iff_of_false (fun expands => ?_) fun reaches => fits reaches.1
      have panics : delayLoop .debug retryCount added ((count, frequency) :: array) =
          .error .overflow := by
        rw [delayLoop, addI32_overflows (Int.not_lt.mp fits)]
        rfl
      cases panics.symm.trans (expands .debug)
    case pos =>
      have sum := (@addI32_fits .debug added count (by omega) fits).2
      simp only [delayLoop_cons (by omega) fits]
      by_cases reached : retryCount ≤ added + count
      · have reached' := Int32.le_iff_toInt_le.mp reached
        refine iff_of_true (fun build => ?_) ⟨fits, fun n before => ?_⟩
        · rw [if_pos reached, expand_hit (by omega)]
        · have := countOf_nonneg others n
          omega
      · have more := Int32.lt_iff_toInt_lt.mp (Int32.not_le.mp reached)
        have next := ih others (by omega) (Int32.not_le.mp reached) more
        have index : (retryCount.toInt - added.toInt - 1).toNat - count.toInt.toNat =
            (retryCount.toInt - (added + count).toInt - 1).toNat := by omega
        simp only [if_neg reached]
        rw [expand_skip (by omega), index, ← sum]
        exact next.trans (and_iff_right (by omega)).symm

/- The callers. -/

def RetryMapping.expansion (mapping : RetryMapping) : List Int32 :=
  expand (mapping.count.zip mapping.frequency)

def RetryMapping.NonNegative (mapping : RetryMapping) : Prop := ∀ count ∈ mapping.count, 0 ≤ count

/-- The counts up to the one that covers this retry add up to a number that an `i32` holds. -/
def RetryMapping.Covers (mapping : RetryMapping) (retryCount : Int32) : Prop :=
  Reaches (mapping.count.zip mapping.frequency) 0 retryCount.toInt

/-- The retry waits as long as the expansion says, and no addition overflows. -/
def FollowsExpansion (mapping : RetryMapping) (retryCount : Int32)
    (time : Build → Except Panic (Option Int32)) : Prop :=
  ∀ build, time build = .ok mapping.expansion[retryCount.toInt.toNat - 1]?

theorem scheduleTime_expands {mapping : RetryMapping} {retryCount : Int32}
    (counts : mapping.NonNegative) (first : 1 ≤ retryCount) :
    FollowsExpansion mapping retryCount (scheduleTime · mapping retryCount) ↔
      mapping.Covers retryCount := by
  have positive : (1 : Int) ≤ retryCount.toInt := Int32.le_iff_toInt_le.mp first
  have nonzero : retryCount ≠ 0 := by
    rintro rfl
    exact absurd positive (by decide)
  have notBelow : ¬ retryCount ≤ 0 := fun low =>
    absurd (Int32.le_iff_toInt_le.mp low) (by simp only [Int32.toInt_zero]; omega)
  have expands := @delayLoop_expands retryCount (mapping.count.zip mapping.frequency)
    (fun x mem => Int32.le_iff_toInt_le.mp (counts x.1 (List.of_mem_zip mem).1)) 0 (by decide)
    (Int32.not_le.mp notBelow)
  have index : (retryCount.toInt - (0 : Int32).toInt - 1).toNat = retryCount.toInt.toNat - 1 := by
    rw [Int32.toInt_zero]
    omega
  rw [index] at expands
  simp only [FollowsExpansion, scheduleTime, if_neg nonzero, getDelay, if_neg notBelow]
  exact expands

/-- The three callers give a retry the delay of the expansion, unless the counts overflow
before they reach it. -/
theorem schedule_times_expand {retryCount : Int32} (first : 1 ≤ retryCount)
    {connector : ConnectorPTMapping} {merchantName : String}
    (connectorCounts : (connector.select merchantName).NonNegative)
    {paymentMethods : PaymentMethodsPTMapping} {pm : PaymentMethod}
    (pmCounts : (paymentMethods.select pm).NonNegative)
    {webhook : OutgoingWebhookRetryProcessTrackerMapping} {webhookMerchantName : String}
    (webhookCounts : (webhook.select webhookMerchantName).NonNegative) :
    (FollowsExpansion (connector.select merchantName) retryCount
        (getScheduleTime · connector merchantName retryCount) ↔
      (connector.select merchantName).Covers retryCount) ∧
    (FollowsExpansion (paymentMethods.select pm) retryCount
        (getPmScheduleTime · paymentMethods pm retryCount) ↔
      (paymentMethods.select pm).Covers retryCount) ∧
    (FollowsExpansion (webhook.select webhookMerchantName) retryCount
        (getOutgoingWebhookRetryScheduleTime · webhook webhookMerchantName retryCount) ↔
      (webhook.select webhookMerchantName).Covers retryCount) :=
  ⟨scheduleTime_expands connectorCounts first, scheduleTime_expands pmCounts first,
    scheduleTime_expands webhookCounts first⟩

def testMapping : RetryMapping := ⟨60, [300, 600, 1800, 3600], [10, 5, 3, 2]⟩

theorem testMapping_nonNegative : testMapping.NonNegative := by
  simp [RetryMapping.NonNegative, testMapping]

theorem schedule_times_expand_test :
    (FollowsExpansion testMapping 16 (getScheduleTime · ⟨testMapping, []⟩ "merchant" 16) ↔
      testMapping.Covers 16) ∧
    (FollowsExpansion testMapping 16 (getPmScheduleTime · ⟨testMapping, []⟩ .card 16) ↔
      testMapping.Covers 16) ∧
    (FollowsExpansion testMapping 16
        (getOutgoingWebhookRetryScheduleTime · ⟨testMapping, []⟩ "merchant" 16) ↔
      testMapping.Covers 16) :=
  @schedule_times_expand 16 (by decide) ⟨testMapping, []⟩ "merchant" testMapping_nonNegative
    ⟨testMapping, []⟩ .card testMapping_nonNegative ⟨testMapping, []⟩ "merchant"
    testMapping_nonNegative

/-- The second count brings the sum over the largest `i32`: the addition panics, and without
overflow checks there is no second retry. -/
theorem second_retry_overflows :
    ¬ FollowsExpansion ⟨60, [10, 20], [1, 2147483647]⟩ 2
      (getScheduleTime · ⟨⟨60, [10, 20], [1, 2147483647]⟩, []⟩ "merchant" 2) := by
  intro follows
  have panics : getScheduleTime .debug ⟨⟨60, [10, 20], [1, 2147483647]⟩, []⟩ "merchant" 2 =
      .error .overflow := by decide
  cases panics.symm.trans (follows .debug)

end Mercado.Scheduler
