import Mathlib.Data.List.Infix

/-! Which spans are traced. A list of routes in the configuration is turned into clauses, and
the sampler asks them about the route of the span. -/
namespace Mercado.Tracing

inductive TraceUrlAssert where
  | matches (value : String)
  | endsWith (suffix : String)
  deriving DecidableEq, Repr

def TraceUrlAssert.compareUrl : TraceUrlAssert → String → Bool
  | .matches value, url => url = value
  | .endsWith suffix, url => suffix.toList.isSuffixOf url.toList

def trimStartMatches (c : Char) (s : String) : String := .ofList (s.toList.dropWhile (· = c))

def TraceUrlAssert.from (value : String) : TraceUrlAssert :=
  if value.toList.head? = some '*' then .endsWith (trimStartMatches '*' value)
  else .matches value

/-- `default` is for spans without a route and for a configuration without a list. -/
structure TraceAssertion where
  clauses : Option (List TraceUrlAssert)
  default : Bool

def TraceAssertion.shouldTraceUrl (a : TraceAssertion) (url : String) : Bool :=
  match a.clauses with
  | some clauses => clauses.all fun cur => cur.compareUrl url
  | none => a.default

/- Spans, over the values of attributes and the links of opentelemetry. -/

structure KeyValue (ν : Type) where
  key : String
  value : ν

inductive SpanKind where
  | client | server | producer | consumer | internal
  deriving DecidableEq, Repr

abbrev TraceState := List (String × String)

structure Context where
  traceState : TraceState

structure Span (ν L : Type) where
  parentContext : Option Context
  traceId : Nat
  name : String
  spanKind : SpanKind
  attributes : List (KeyValue ν)
  links : List L

inductive SamplingDecision where
  | drop | recordOnly | recordAndSample
  deriving DecidableEq, Repr

structure SamplingResult (ν : Type) where
  decision : SamplingDecision
  attributes : List (KeyValue ν)
  traceState : TraceState

abbrev Sampler (ν L : Type) := Span ν L → SamplingResult ν

variable {ν L : Type}

def Span.dropped (span : Span ν L) : SamplingResult ν where
  decision := .drop
  attributes := []
  traceState := (span.parentContext.map Context.traceState).getD []

def Span.route (span : Span ν L) : Option (KeyValue ν) :=
  span.attributes.find? fun kv => kv.key = "http.route"

def conditionalSampler (asStr : ν → String) (a : TraceAssertion) (inner : Sampler ν L) :
    Sampler ν L := fun span =>
  match (span.route.map fun kv => a.shouldTraceUrl (asStr kv.value)).getD a.default with
  | true => inner span
  | false => span.dropped

def setupAssertion (routeToTrace : Option (List String)) : TraceAssertion where
  clauses := routeToTrace.map fun routes => routes.map .from
  default := false

/-- A route is a path, or a star and what the path ends with. -/
def RouteMatches (route url : String) : Prop :=
  match route.toList with
  | '*' :: suffix => suffix <:+ url.toList
  | _ => url = route

def TrimmedMatches (route url : String) : Prop :=
  match route.toList with
  | '*' :: suffix => suffix.dropWhile (· = '*') <:+ url.toList
  | _ => url = route

theorem RouteMatches.trimmed {route url : String} (h : RouteMatches route url) :
    TrimmedMatches route url := by
  unfold RouteMatches at h
  unfold TrimmedMatches
  split at h
  · exact (List.dropWhile_suffix _).trans h
  · exact h

theorem compareUrl_iff (route url : String) :
    (TraceUrlAssert.from route).compareUrl url = true ↔ TrimmedMatches route url := by
  unfold TraceUrlAssert.from TrimmedMatches
  split
  · rename_i starred
    obtain ⟨suffix, shape⟩ : ∃ suffix, route.toList = '*' :: suffix := by
      cases chars : route.toList with
      | nil => simp [chars] at starred
      | cons c suffix =>
        rw [chars, List.head?_cons, Option.some.injEq] at starred
        exact ⟨suffix, by rw [starred]⟩
    rw [shape]
    simp [TraceUrlAssert.compareUrl, trimStartMatches, shape]
  · rename_i unstarred
    split
    · rename_i shape
      simp [shape] at unstarred
    · simp [TraceUrlAssert.compareUrl]

theorem shouldTraceUrl_iff (routes : List String) (url : String) :
    (setupAssertion (some routes)).shouldTraceUrl url = true ↔
      ∀ route ∈ routes, TrimmedMatches route url := by
  simp [setupAssertion, TraceAssertion.shouldTraceUrl, compareUrl_iff]

/-- Spans with a route are sampled if a route of the list matches, the others by default. -/
structure FollowsRoutes (asStr : ν → String) (routes : List String) (span : Span ν L) : Prop where
  sampled : ∀ (inner : Sampler ν L) kv, span.route = some kv →
    (∃ route ∈ routes, RouteMatches route (asStr kv.value)) →
    conditionalSampler asStr (setupAssertion (some routes)) inner span = inner span
  dropped : ∀ (inner : Sampler ν L) kv, span.route = some kv →
    (∀ route ∈ routes, ¬ RouteMatches route (asStr kv.value)) →
    conditionalSampler asStr (setupAssertion (some routes)) inner span = span.dropped
  default : ∀ inner : Sampler ν L, span.route = none →
    conditionalSampler asStr (setupAssertion (some routes)) inner span =
      if (setupAssertion (some routes)).default then inner span else span.dropped

theorem conditionalSampler_route {asStr : ν → String} {a : TraceAssertion} {inner : Sampler ν L}
    {span : Span ν L} {kv : KeyValue ν} (found : span.route = some kv) :
    conditionalSampler asStr a inner span =
      if a.shouldTraceUrl (asStr kv.value) then inner span else span.dropped := by
  simp only [conditionalSampler, found, Option.map_some, Option.getD_some]
  cases a.shouldTraceUrl (asStr kv.value) <;> rfl

theorem conditionalSampler_default {asStr : ν → String} {a : TraceAssertion}
    {inner : Sampler ν L} {span : Span ν L} (missing : span.route = none) :
    conditionalSampler asStr a inner span = if a.default then inner span else span.dropped := by
  simp only [conditionalSampler, missing, Option.map_none, Option.getD_none]
  cases a.default <;> rfl

/-- The sampler follows the list exactly where its routes agree: all of them match, at least
with their stars trimmed, or none does and there is one that does not match even then. -/
theorem followsRoutes_iff (asStr : ν → String) (routes : List String) (span : Span ν L) :
    FollowsRoutes asStr routes span ↔ ∀ kv, span.route = some kv →
      ((∃ route ∈ routes, RouteMatches route (asStr kv.value)) ∧
          ∀ route ∈ routes, TrimmedMatches route (asStr kv.value)) ∨
        ((∀ route ∈ routes, ¬ RouteMatches route (asStr kv.value)) ∧
          ∃ route ∈ routes, ¬ TrimmedMatches route (asStr kv.value)) := by
  constructor
  · intro follows kv found
    -- a sampler that does not drop the span
    let inner : Sampler ν L := fun span => { span.dropped with decision := .recordAndSample }
    have differ : inner span ≠ span.dropped := fun same =>
      absurd (congrArg SamplingResult.decision same) (by simp [inner, Span.dropped])
    have traced := shouldTraceUrl_iff routes (asStr kv.value)
    by_cases some : ∃ route ∈ routes, RouteMatches route (asStr kv.value)
    · have sampled := follows.sampled inner kv found some
      rw [conditionalSampler_route found] at sampled
      refine .inl ⟨some, traced.mp (Decidable.by_contra fun untraced => ?_)⟩
      rw [if_neg untraced] at sampled
      exact differ sampled.symm
    · have none : ∀ route ∈ routes, ¬ RouteMatches route (asStr kv.value) :=
        fun route mem h => some ⟨route, mem, h⟩
      have dropped := follows.dropped inner kv found none
      rw [conditionalSampler_route found] at dropped
      refine .inr ⟨none, Classical.by_contradiction fun all => ?_⟩
      have all : ∀ route ∈ routes, TrimmedMatches route (asStr kv.value) := fun route mem =>
        Classical.by_contradiction fun h => all ⟨route, mem, h⟩
      rw [if_pos (traced.mpr all)] at dropped
      exact differ dropped
  · intro agree
    refine ⟨fun inner kv found some => ?_, fun inner kv found none => ?_,
      fun inner missing => conditionalSampler_default missing⟩ <;>
      rw [conditionalSampler_route found]
    · rcases agree kv found with ⟨-, all⟩ | ⟨none, -⟩
      · exact if_pos ((shouldTraceUrl_iff routes _).mpr all)
      · obtain ⟨route, mem, h⟩ := some
        exact absurd h (none route mem)
    · rcases agree kv found with ⟨⟨route, mem, h⟩, -⟩ | ⟨-, route, mem, h⟩
      · exact absurd h (none route mem)
      · exact if_neg fun traced => h ((shouldTraceUrl_iff routes _).mp traced route mem)

def requestTo (path : String) : Span String Unit where
  parentContext := none
  traceId := 1
  name := "request"
  spanKind := .server
  attributes := [⟨"http.route", path⟩]
  links := []

/-- A path of the list is dropped for the sake of the other one. -/
theorem second_route_drops : ¬ FollowsRoutes id ["/payments", "*/confirm"] (requestTo "/payments") := by
  intro follows
  have sampled := follows.sampled (fun _ => ⟨.recordAndSample, [], []⟩) _ rfl
    ⟨"/payments", List.mem_cons_self, rfl⟩
  have decision := congrArg SamplingResult.decision sampled
  exact absurd decision (by decide)

end Mercado.Tracing
