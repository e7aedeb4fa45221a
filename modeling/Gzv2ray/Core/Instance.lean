import Gzv2ray.Buf.Reader

/-!
# Features of an instance

The features of an instance are found by their types. A callback that needs features
is called when all of them are registered: at once, or when the last one is added.

* `resolve`: calls a callback, if the features that it needs are registered;
* `Instance.addFeature`, `Instance.requireFeatures`: the calls of the instance;
* `Session.run`: a sequence of these calls, with a record of the callbacks.

Types are those of package `reflect`: what is known of them is a parameter.
-/

namespace Gzv2ray.Core

/-- What is known of the types of features. A feature has the type that it names. -/
structure FeatureTypes (F T : Type) where
  /-- The type that a feature names: what `Type` returns is a pointer to it. -/
  typeOf : F → Option T
  assignableTo : F → T → Bool
  assignableTo_typeOf : ∀ f t, typeOf f = some t → assignableTo f t = true

/-- A request. The parameters of the callback have the types that it depends on. -/
structure Resolution (T : Type) where
  /-- The number of the call that makes the request. -/
  callback : ℕ
  deps : List T
  /-- What the callback returns. -/
  returns : Option Error := none

/-- A call of a callback. -/
structure Invocation (F : Type) where
  callback : ℕ
  args : List F

structure Instance (F T : Type) where
  features : List F := []
  featureResolutions : List (Resolution T) := []
  running : Bool := false

section

variable {F T : Type} [DecidableEq T] (types : FeatureTypes F T)

/-- The first feature of a type. -/
def getFeature (allFeatures : List F) (t : T) : Option F :=
  allFeatures.find? fun f => types.typeOf f == some t

/-- The features of some types, if there is one of each. -/
def getFeatures (allFeatures : List F) : List T → Option (List F)
  | [] => some []
  | d :: deps =>
    match getFeature types allFeatures d with
    | none => none
    | some f => (getFeatures allFeatures deps).map (f :: ·)

/-- The arguments of a callback: for each parameter the first feature that has its type. -/
def arguments (fs : List F) (params : List T) : List F :=
  params.filterMap fun pt => fs.find? fun f => types.assignableTo f pt

/-- Calls a callback, if the features that it needs are registered. -/
def resolve (allFeatures : List F) (r : Resolution T) : Outcome (Option (Invocation F)) :=
  match getFeatures types allFeatures r.deps with
  | none => .ok none
  | some fs =>
    if (arguments types fs r.deps).length ≠ r.deps.length then .panic
    else .ok (some ⟨r.callback, arguments types fs r.deps⟩)

/-- Tries the requests in their order, up to a callback that returns an error. What
    remains to be resolved is returned with it, and the callbacks that were called. -/
def resolvePending (allFeatures : List F) : List (Resolution T) →
    Outcome (Option Error × List (Resolution T) × List (Invocation F))
  | [] => .ok (none, [], [])
  | r :: rs => resolve types allFeatures r >>= fun finished =>
    match finished with
    | some call =>
      match r.returns with
      | some err => .ok (some err, [], [call])
      | none => resolvePending allFeatures rs >>= fun (err, pending, calls) =>
        .ok (err, pending, call :: calls)
    | none => resolvePending allFeatures rs >>= fun (err, pending, calls) =>
      .ok (err, r :: pending, calls)

namespace Instance

variable (s : Instance F T)

def addFeature (feature : F) : Outcome (Option Error × Instance F T × List (Invocation F)) :=
  let s := { s with features := s.features ++ [feature] }
  if s.running then .ok (none, s, [])
  else if s.featureResolutions.isEmpty then .ok (none, s, [])
  else resolvePending types s.features s.featureResolutions >>= fun (err, pending, calls) =>
    match err with
    | some err => .ok (some err, s, calls)
    | none =>
      if pending.length = 0 then .ok (none, { s with featureResolutions := [] }, calls)
      else if pending.length < s.featureResolutions.length then
        .ok (none, { s with featureResolutions := pending }, calls)
      else .ok (none, s, calls)

def requireFeatures (r : Resolution T) :
    Outcome (Option Error × Instance F T × List (Invocation F)) :=
  resolve types s.features r >>= fun finished =>
    match finished with
    | some call => .ok (r.returns, s, [call])
    | none => .ok (none, { s with featureResolutions := s.featureResolutions ++ [r] }, [])

end Instance

/-! ## Sequences of calls -/

/-- A call of the instance. -/
inductive Operation (F T : Type)
  | addFeature (feature : F)
  | requireFeatures (deps : List T) (returns : Option Error)

/-- The instance after some calls, with the callbacks that were called and in which call. -/
structure Session (F T : Type) where
  server : Instance F T := {}
  moment : ℕ := 0
  calls : List (ℕ × Invocation F) := []

def Session.step (s : Session F T) (op : Operation F T) : Outcome (Session F T) :=
  (match op with
    | .addFeature feature => s.server.addFeature types feature
    | .requireFeatures deps returns => s.server.requireFeatures types ⟨s.moment, deps, returns⟩)
    >>= fun (_, server, calls) =>
    .ok { server, moment := s.moment + 1, calls := s.calls ++ calls.map (s.moment, ·) }

/-- The calls of a sequence, one after the other. -/
def Session.run (s : Session F T) : List (Operation F T) → Outcome (Session F T)
  | [] => .ok s
  | op :: ops => s.step types op >>= fun s => s.run ops

end

end Gzv2ray.Core
