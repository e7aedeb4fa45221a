import Gzv2ray.Core.Instance

/-!
# Each callback is called once

In any sequence of registrations and requests, the callback of each request is called
once, when the last of the features that it needs is registered or else at once, and
with these features (`features_resolved`). The requests that remain are those whose
features are not all registered, in their order.

* `resolve_eq`: what a request is resolved to, where no feature has two of the types;
* `FirstMoment`: when a callback is to be called;
* `record`: the callbacks that one call has to call;
* `Account`: the invariant, kept by each call (`Account.addFeature`,
  `Account.requireFeatures`).
-/

namespace Gzv2ray.Core

section

variable {F T : Type}

/-! ## What was asked for -/

/-- The feature that a call registers. -/
def Operation.feature : Operation F T → Option F
  | .addFeature feature => some feature
  | .requireFeatures _ _ => none

/-- The request that a call makes. -/
def Operation.request : Operation F T × ℕ → Option (Resolution T)
  | (.addFeature _, _) => none
  | (.requireFeatures deps returns, n) => some ⟨n, deps, returns⟩

/-- The features that were registered. -/
def registered (ops : List (Operation F T)) : List F := ops.filterMap Operation.feature

/-- The requests that were made. -/
def requests (ops : List (Operation F T)) : List (Resolution T) :=
  ops.zipIdx.filterMap Operation.request

theorem registered_append (ops ops' : List (Operation F T)) :
    registered (ops ++ ops') = registered ops ++ registered ops' := List.filterMap_append

theorem requests_concat (ops : List (Operation F T)) (op : Operation F T) :
    requests (ops ++ [op]) = requests ops ++ (Operation.request (op, ops.length)).toList := by
  rw [requests, List.zipIdx_append, List.filterMap_append, ← requests]
  congr 1
  cases op <;> simp [Operation.request]

variable {ops : List (Operation F T)}

theorem registered_addFeature (feature : F) :
    registered (ops ++ [.addFeature feature]) = registered ops ++ [feature] := registered_append _ _

theorem registered_requireFeatures (deps : List T) (returns : Option Error) :
    registered (ops ++ [.requireFeatures deps returns]) = registered ops :=
  (registered_append _ _).trans (List.append_nil _)

theorem requests_addFeature (feature : F) :
    requests (ops ++ [.addFeature feature]) = requests ops :=
  (requests_concat _ _).trans (List.append_nil _)

theorem requests_requireFeatures (deps : List T) (returns : Option Error) :
    requests (ops ++ [.requireFeatures deps returns]) =
      requests ops ++ [⟨ops.length, deps, returns⟩] := requests_concat _ _

theorem callback_lt {r : Resolution T} (hr : r ∈ requests ops) :
    r.callback < ops.length := by
  obtain ⟨⟨op, n⟩, hmem, hrequest⟩ := List.mem_filterMap.1 hr
  have hlt := (List.mem_zipIdx hmem).2.1
  cases op with
  | addFeature => cases hrequest
  | requireFeatures deps returns =>
    rw [Operation.request, Option.some.injEq] at hrequest
    rw [← hrequest]
    simpa using hlt

/-- The requests have different numbers. -/
theorem pairwise_requests (ops : List (Operation F T)) :
    (requests ops).Pairwise fun r r' => r.callback < r'.callback := by
  induction ops using List.reverseRecOn with
  | nil => exact List.Pairwise.nil
  | append_singleton ops op ih =>
    rw [requests_concat]
    refine List.pairwise_append.2 ⟨ih, ?_, fun r hr r' hr' => ?_⟩
    · cases op with
      | addFeature => exact List.Pairwise.nil
      | requireFeatures => exact List.pairwise_singleton _ _
    · cases op with
      | addFeature => exact absurd hr' List.not_mem_nil
      | requireFeatures deps returns =>
        rw [Operation.request, Option.toList_some, List.mem_singleton] at hr'
        rw [hr']
        exact callback_lt hr

theorem nodup_callbacks (ops : List (Operation F T)) :
    ((requests ops).map Resolution.callback).Nodup :=
  List.pairwise_map.2 ((pairwise_requests ops).imp fun hlt => hlt.ne)

/-- Of the elements of a list that have some property, as many have the key of an element
    as the element has the property, if the keys are different. -/
theorem length_filter_key {α : Type*} {l : List α} {key : α → ℕ} (hl : (l.map key).Nodup)
    (p : α → Bool) {a : α} (ha : a ∈ l) :
    ((l.filter p).filter fun b => key b = key a).length = if p a then 1 else 0 := by
  induction l with
  | nil => exact absurd ha List.not_mem_nil
  | cons b l ih =>
    rw [List.map_cons, List.nodup_cons] at hl
    have hne : ∀ c ∈ l, key c ≠ key b := fun c hc heq => hl.1 (heq ▸ List.mem_map_of_mem hc)
    rcases List.mem_cons.1 ha with rfl | ha
    · have hrest : (l.filter p).filter (fun c => key c = key a) = [] := by
        refine List.filter_eq_nil_iff.2 fun c hc => ?_
        rw [decide_eq_true_iff]
        exact hne c (List.mem_of_mem_filter hc)
      rw [List.filter_cons]
      split
      · rw [List.filter_cons, if_pos (decide_eq_true rfl), hrest]
        rfl
      · rw [hrest]
        rfl
    · have hba : ¬ decide (key b = key a) = true := by
        rw [decide_eq_true_iff]
        exact (hne a ha).symm
      rw [List.filter_cons]
      split
      · rw [List.filter_cons, if_neg hba, ih hl.2 ha]
      · exact ih hl.2 ha

end

section

variable {F T : Type} [DecidableEq T] {types : FeatureTypes F T}

/-! ## Resolving -/

/-- The features that a request needs are registered. -/
def isSatisfied (types : FeatureTypes F T) (features : List F) (r : Resolution T) : Bool :=
  r.deps.all fun t => (getFeature types features t).isSome

/-- No feature has two of the types that a request needs. -/
def IsDistinct (types : FeatureTypes F T) (features : List F) (r : Resolution T) : Prop :=
  ∀ f ∈ features, ∀ t ∈ r.deps, ∀ t' ∈ r.deps, types.assignableTo f t = true →
    types.assignableTo f t' = true → t = t'

/-- The features that a request needs, one for each parameter. -/
def argumentsOf (types : FeatureTypes F T) (features : List F) (r : Resolution T) : List F :=
  r.deps.filterMap (getFeature types features)

theorem typeOf_getFeature {features : List F} {t : T} {f : F}
    (h : getFeature types features t = some f) : types.typeOf f = some t ∧ f ∈ features := by
  rw [getFeature] at h
  have htype := List.find?_some (p := fun f => types.typeOf f == some t) h
  exact ⟨beq_iff_eq.1 htype, List.mem_of_find?_eq_some h⟩

theorem getFeatures_eq (features : List F) (deps : List T) : getFeatures types features deps =
    if deps.all fun t => (getFeature types features t).isSome then
      some (deps.filterMap (getFeature types features)) else none := by
  induction deps with
  | nil => rfl
  | cons d deps ih =>
    rw [getFeatures, List.all_cons]
    cases hd : getFeature types features d with
    | none => rfl
    | some f =>
      dsimp only
      rw [ih, Option.isSome_some, Bool.true_and, List.filterMap_cons_some hd]
      split <;> rfl

/-- Of the features of the parameters, only one has the type of each. -/
theorem arguments_eq {features : List F} {r : Resolution T} (hdistinct : IsDistinct types features r)
    (hsatisfied : isSatisfied types features r = true) :
    arguments types (argumentsOf types features r) r.deps = argumentsOf types features r := by
  refine List.filterMap_congr fun t ht => ?_
  obtain ⟨f, hf⟩ := Option.isSome_iff_exists.1 (List.all_eq_true.1 hsatisfied t ht)
  obtain ⟨htype, hmem⟩ := typeOf_getFeature hf
  rw [hf]
  have hassignable := types.assignableTo_typeOf f t htype
  have hargument : f ∈ argumentsOf types features r := List.mem_filterMap.2 ⟨t, ht, hf⟩
  obtain ⟨g, hg⟩ := Option.isSome_iff_exists.1
    (List.find?_isSome (p := fun f => types.assignableTo f t) |>.2 ⟨f, hargument, hassignable⟩)
  -- The one that is found was registered for some parameter, which has to be this one.
  obtain ⟨t', ht', hg'⟩ := List.mem_filterMap.1 (List.mem_of_find?_eq_some hg)
  obtain ⟨htype', hmem'⟩ := typeOf_getFeature hg'
  have heq : t' = t := hdistinct g hmem' t' ht' t ht (types.assignableTo_typeOf g t' htype')
    (List.find?_some (p := fun f => types.assignableTo f t) hg)
  rw [heq, hf] at hg'
  rw [hg, hg']

/-- The arguments are the features of the types of the parameters. -/
theorem map_argumentsOf {features : List F} {r : Resolution T}
    (hsatisfied : isSatisfied types features r = true) :
    (argumentsOf types features r).map some = r.deps.map (getFeature types features) := by
  have hall := List.all_eq_true.1 hsatisfied
  rw [argumentsOf]
  generalize r.deps = deps at hall ⊢
  induction deps with
  | nil => rfl
  | cons t deps ih =>
    obtain ⟨f, hf⟩ := Option.isSome_iff_exists.1 (hall t List.mem_cons_self)
    rw [List.filterMap_cons_some hf, List.map_cons, List.map_cons, hf,
      ih fun t' ht' => hall t' (List.mem_cons_of_mem _ ht')]

/-- What a request is resolved to. -/
theorem resolve_eq {features : List F} {r : Resolution T} (hdistinct : IsDistinct types features r) :
    resolve types features r = .ok (if isSatisfied types features r then
      some ⟨r.callback, argumentsOf types features r⟩ else none) := by
  rw [resolve, getFeatures_eq]
  cases hsatisfied : isSatisfied types features r with
  | false =>
    rw [isSatisfied] at hsatisfied
    rw [hsatisfied]
    rfl
  | true =>
    have harguments := arguments_eq hdistinct hsatisfied
    have hlength := congrArg List.length (map_argumentsOf hsatisfied)
    rw [List.length_map, List.length_map] at hlength
    rw [isSatisfied] at hsatisfied
    rw [hsatisfied, if_pos rfl]
    dsimp only
    rw [← argumentsOf, harguments, if_neg (not_not.2 hlength), if_pos rfl]

/-- The requests that can be resolved are, and the others remain. -/
theorem resolvePending_eq {features : List F} {rs : List (Resolution T)}
    (hnil : ∀ r ∈ rs, r.returns = none) (hdistinct : ∀ r ∈ rs, IsDistinct types features r) :
    resolvePending types features rs = .ok (none, rs.filter fun r => !isSatisfied types features r,
      (rs.filter (isSatisfied types features)).map fun r =>
        ⟨r.callback, argumentsOf types features r⟩) := by
  induction rs with
  | nil => rfl
  | cons r rs ih =>
    rw [resolvePending, resolve_eq (hdistinct r List.mem_cons_self),
      ih (fun r hr => hnil r (List.mem_cons_of_mem _ hr))
        fun r hr => hdistinct r (List.mem_cons_of_mem _ hr)]
    cases hsatisfied : isSatisfied types features r with
    | true =>
      rw [List.filter_cons_of_neg (by rw [hsatisfied]; decide), List.filter_cons_of_pos hsatisfied,
        List.map_cons]
      simp only [if_true, Outcome.bind_ok, hnil r List.mem_cons_self]
    | false =>
      rw [List.filter_cons_of_pos (by rw [hsatisfied]; decide),
        List.filter_cons_of_neg (by rw [hsatisfied]; decide)]
      simp only [Bool.false_eq_true, if_false, Outcome.bind_ok]

/-! ## The calls of the instance -/

/-- Every request that can be resolved is, when a feature is added. -/
theorem addFeature_eq {s : Instance F T} {feature : F} (hrunning : s.running = false)
    (hnil : ∀ r ∈ s.featureResolutions, r.returns = none)
    (hdistinct : ∀ r ∈ s.featureResolutions, IsDistinct types (s.features ++ [feature]) r) :
    s.addFeature types feature = .ok (none,
      { s with
        features := s.features ++ [feature]
        featureResolutions := s.featureResolutions.filter fun r =>
          !isSatisfied types (s.features ++ [feature]) r },
      (s.featureResolutions.filter (isSatisfied types (s.features ++ [feature]))).map fun r =>
        ⟨r.callback, argumentsOf types (s.features ++ [feature]) r⟩) := by
  have hpending := resolvePending_eq hnil hdistinct
  rw [Instance.addFeature]
  dsimp only
  rw [hrunning, if_neg Bool.false_ne_true]
  split
  next hempty =>
    rw [List.isEmpty_iff] at hempty
    rw [hempty]
    rfl
  · rw [hpending, Outcome.bind_ok]
    dsimp only
    split
    next hzero => rw [List.eq_nil_of_length_eq_zero hzero]
    · split
      · rfl
      next hlt =>
        have hself := List.filter_eq_self.2 (List.length_filter_eq_length_iff.1
          (le_antisymm (List.length_filter_le _ _) (not_lt.1 hlt)))
        rw [hself]

/-- A request is resolved at once, or kept. -/
theorem requireFeatures_eq {s : Instance F T} {r : Resolution T} (hnil : r.returns = none)
    (hdistinct : IsDistinct types s.features r) : s.requireFeatures types r =
      if isSatisfied types s.features r then
        .ok (none, s, [⟨r.callback, argumentsOf types s.features r⟩])
      else .ok (none, { s with featureResolutions := s.featureResolutions ++ [r] }, []) := by
  rw [Instance.requireFeatures, resolve_eq hdistinct, Outcome.bind_ok, hnil]
  cases isSatisfied types s.features r <;> rfl

theorem isSatisfied_append {features : List F} {r : Resolution T}
    (h : isSatisfied types features r = true) (more : List F) :
    isSatisfied types (features ++ more) r = true := by
  refine List.all_eq_true.2 fun t ht => ?_
  have hfound := List.all_eq_true.1 h t ht
  rw [getFeature] at hfound ⊢
  rw [List.find?_append, Option.isSome_or, hfound, Bool.true_or]

/-! ## Moments -/

/-- A callback is to be called in the `n`-th call: the features that it needs are registered
    after this call, and they were not after any call from the request to this one. -/
structure FirstMoment (types : FeatureTypes F T) (ops : List (Operation F T)) (r : Resolution T)
    (n : ℕ) : Prop where
  lt : n < ops.length
  le : r.callback ≤ n
  satisfied : isSatisfied types (registered (ops.take (n + 1))) r = true
  not_before : ∀ m, r.callback ≤ m → m < n →
    isSatisfied types (registered (ops.take (m + 1))) r = false

variable {ops : List (Operation F T)} {op : Operation F T}

theorem FirstMoment.append {r : Resolution T} {n : ℕ} (h : FirstMoment types ops r n) :
    FirstMoment types (ops ++ [op]) r n where
  lt := by
    rw [List.length_append]
    exact Nat.lt_add_right _ h.lt
  le := h.le
  satisfied := by
    rw [List.take_append_of_le_length h.lt]
    exact h.satisfied
  not_before m hle hlt := by
    rw [List.take_append_of_le_length (Nat.lt_trans hlt h.lt)]
    exact h.not_before m hle hlt

/-- The features of a request were not registered before the last call. -/
theorem FirstMoment.last {r : Resolution T} (hr : r ∈ requests (ops ++ [op]))
    (hsatisfied : isSatisfied types (registered (ops ++ [op])) r = true)
    (hnew : r.callback < ops.length → isSatisfied types (registered ops) r = false) :
    FirstMoment types (ops ++ [op]) r ops.length where
  lt := by
    rw [List.length_append]
    exact Nat.lt_succ_self _
  le := by
    have hlt := callback_lt hr
    rw [List.length_append] at hlt
    exact Nat.le_of_lt_succ hlt
  satisfied := by
    rw [List.take_of_length_le (by rw [List.length_append]; rfl)]
    exact hsatisfied
  not_before m hle hlt := by
    rw [List.take_append_of_le_length hlt]
    by_contra hbefore
    rw [Bool.not_eq_false] at hbefore
    have hafter := isSatisfied_append hbefore (registered (ops.drop (m + 1)))
    rw [← registered_append, List.take_append_drop] at hafter
    rw [hnew (hle.trans_lt hlt)] at hafter
    cases hafter

/-! ## Sequences of calls -/

/-- The state of the instance after some calls, and the callbacks that it has called. -/
structure Account (types : FeatureTypes F T) (ops : List (Operation F T)) (s : Session F T) :
    Prop where
  moment : s.moment = ops.length
  running : s.server.running = false
  features : s.server.features = registered ops
  pending : s.server.featureResolutions =
    (requests ops).filter fun r => !isSatisfied types (registered ops) r
  sound : ∀ n call, (n, call) ∈ s.calls → ∃ r ∈ requests ops, call.callback = r.callback ∧
    FirstMoment types ops r n ∧
    call.args.map some = r.deps.map (getFeature types (registered (ops.take (n + 1))))
  once : ∀ r ∈ requests ops, (s.calls.filter fun call => call.2.callback = r.callback).length =
    if isSatisfied types (registered ops) r then 1 else 0

/-- The features of a request are registered, before the last call. -/
def wasSatisfied (types : FeatureTypes F T) (ops : List (Operation F T)) (r : Resolution T) : Bool :=
  r.callback < ops.length && isSatisfied types (registered ops) r

/-- The callbacks that a call calls: those whose features are registered by it. -/
def record (types : FeatureTypes F T) (ops : List (Operation F T)) (op : Operation F T) :
    List (Invocation F) :=
  ((requests (ops ++ [op])).filter fun r =>
    isSatisfied types (registered (ops ++ [op])) r && !wasSatisfied types ops r).map fun r =>
      ⟨r.callback, argumentsOf types (registered (ops ++ [op])) r⟩

theorem mem_record {call : Invocation F} (h : call ∈ record types ops op) :
    ∃ r ∈ requests (ops ++ [op]), isSatisfied types (registered (ops ++ [op])) r = true ∧
      wasSatisfied types ops r = false ∧
      call = ⟨r.callback, argumentsOf types (registered (ops ++ [op])) r⟩ := by
  obtain ⟨r, hr, rfl⟩ := List.mem_map.1 h
  obtain ⟨hmem, hsatisfied⟩ := List.mem_filter.1 hr
  rw [Bool.and_eq_true, Bool.not_eq_true'] at hsatisfied
  exact ⟨r, hmem, hsatisfied.1, hsatisfied.2, rfl⟩

/-- Each of them is called once. -/
theorem count_record {r : Resolution T} (hr : r ∈ requests (ops ++ [op])) :
    ((record types ops op).filter fun call => call.callback = r.callback).length =
      if isSatisfied types (registered (ops ++ [op])) r && !wasSatisfied types ops r
        then 1 else 0 := by
  rw [record, List.filter_map, List.length_map]
  exact length_filter_key (nodup_callbacks (ops ++ [op])) _ hr

variable {s : Session F T} {server : Instance F T} {calls : List (Invocation F)}

theorem wasSatisfied_of_mem {r : Resolution T} (hr : r ∈ requests ops) :
    wasSatisfied types ops r = isSatisfied types (registered ops) r := by
  rw [wasSatisfied, decide_eq_true (callback_lt hr), Bool.true_and]

theorem wasSatisfied_length (deps : List T) (returns : Option Error) :
    wasSatisfied types ops ⟨ops.length, deps, returns⟩ = false := by
  rw [wasSatisfied, decide_eq_false (lt_irrefl _), Bool.false_and]

/-- The callbacks that were called before, by the requests up to the next call. -/
theorem Account.count_calls (h : Account types ops s) {r : Resolution T}
    (hr : r ∈ requests (ops ++ [op])) :
    (s.calls.filter fun call => call.2.callback = r.callback).length =
      if wasSatisfied types ops r then 1 else 0 := by
  rw [requests_concat, List.mem_append] at hr
  rcases hr with hr | hr
  · rw [h.once r hr, wasSatisfied_of_mem hr]
  · have hcallback : r.callback = ops.length := by
      cases op with
      | addFeature => exact absurd hr List.not_mem_nil
      | requireFeatures deps returns =>
        rw [Operation.request, Option.toList_some, List.mem_singleton] at hr
        rw [hr]
    have hnone : (s.calls.filter fun call => call.2.callback = r.callback) = [] := by
      refine List.filter_eq_nil_iff.2 fun call hcall => ?_
      obtain ⟨r', hr', heq, -, -⟩ := h.sound call.1 call.2 hcall
      have hlt := callback_lt hr'
      rw [decide_eq_true_iff]
      omega
    rw [hnone, wasSatisfied, decide_eq_false (by omega), Bool.false_and]
    rfl

/-- A call that calls the callbacks it has to. -/
theorem Account.concat (h : Account types ops s) (hcalls : calls = record types ops op)
    (hrunning : server.running = false) (hfeatures : server.features = registered (ops ++ [op]))
    (hpending : server.featureResolutions =
      (requests (ops ++ [op])).filter fun r => !isSatisfied types (registered (ops ++ [op])) r) :
    Account types (ops ++ [op])
      ⟨server, s.moment + 1, s.calls ++ calls.map (s.moment, ·)⟩ where
  moment := by rw [h.moment, List.length_append, List.length_singleton]
  running := hrunning
  features := hfeatures
  pending := hpending
  sound n call hcall := by
    rcases List.mem_append.1 hcall with hcall | hcall
    · obtain ⟨r, hr, hcallback, hfirst, hargs⟩ := h.sound n call hcall
      refine ⟨r, ?_, hcallback, hfirst.append, ?_⟩
      · rw [requests_concat]
        exact List.mem_append_left _ hr
      · rw [List.take_append_of_le_length hfirst.lt]
        exact hargs
    · obtain ⟨call', hcall', heq⟩ := List.mem_map.1 hcall
      rw [Prod.mk.injEq, h.moment] at heq
      obtain ⟨rfl, rfl⟩ := heq
      obtain ⟨r, hr, hsatisfied, hwas, rfl⟩ := mem_record (hcalls ▸ hcall')
      refine ⟨r, hr, rfl, .last hr hsatisfied fun hlt => ?_, ?_⟩
      · rw [wasSatisfied, decide_eq_true hlt, Bool.true_and] at hwas
        exact hwas
      · rw [List.take_of_length_le (by rw [List.length_append]; rfl)]
        exact map_argumentsOf hsatisfied
  once r hr := by
    have hmap : ((calls.map (s.moment, ·)).filter fun call => call.2.callback = r.callback).length =
        (calls.filter fun call => call.callback = r.callback).length := by
      rw [List.filter_map, List.length_map]
      rfl
    rw [List.filter_append, List.length_append, hmap, h.count_calls hr, hcalls, count_record hr]
    cases hwas : wasSatisfied types ops r with
    | false => simp
    | true =>
      rw [wasSatisfied, Bool.and_eq_true] at hwas
      rw [registered_append, isSatisfied_append hwas.2]
      rfl

theorem Session.step_addFeature {s : Session F T} {feature : F} {err : Option Error}
    (h : s.server.addFeature types feature = .ok (err, server, calls)) :
    s.step types (.addFeature feature) =
      .ok ⟨server, s.moment + 1, s.calls ++ calls.map (s.moment, ·)⟩ := by
  rw [Session.step, h]
  rfl

theorem Session.step_requireFeatures {s : Session F T} {n : ℕ} (hn : s.moment = n) {deps : List T}
    {returns err : Option Error}
    (h : s.server.requireFeatures types ⟨n, deps, returns⟩ = .ok (err, server, calls)) :
    s.step types (.requireFeatures deps returns) =
      .ok ⟨server, s.moment + 1, s.calls ++ calls.map (s.moment, ·)⟩ := by
  rw [← hn] at h
  rw [Session.step, h]
  rfl

/-- A feature calls the callbacks that were pending and that it satisfies. -/
theorem record_addFeature (feature : F) : record types ops (.addFeature feature) =
    ((requests ops).filter fun r => isSatisfied types (registered ops ++ [feature]) r &&
      !isSatisfied types (registered ops) r).map fun r =>
        ⟨r.callback, argumentsOf types (registered ops ++ [feature]) r⟩ := by
  rw [record, registered_addFeature, requests_addFeature]
  congr 1
  exact List.filter_congr fun r hr => by rw [wasSatisfied_of_mem hr]

/-- A request calls its own callback, or none. -/
theorem record_requireFeatures (deps : List T) (returns : Option Error) :
    record types ops (.requireFeatures deps returns) =
      if isSatisfied types (registered ops) ⟨ops.length, deps, returns⟩ then
        [⟨ops.length, argumentsOf types (registered ops) ⟨ops.length, deps, returns⟩⟩] else [] := by
  have hold : ((requests ops).filter fun r =>
      isSatisfied types (registered ops) r && !wasSatisfied types ops r) = [] := by
    refine List.filter_eq_nil_iff.2 fun r hr => ?_
    rw [wasSatisfied_of_mem hr, Bool.and_not_self]
    exact Bool.false_ne_true
  rw [record, registered_requireFeatures, requests_requireFeatures, List.filter_append, hold,
    List.nil_append, List.filter_cons, wasSatisfied_length, Bool.not_false, Bool.and_true]
  split <;> rfl

/-- A feature is added. -/
theorem Account.addFeature (h : Account types ops s) {feature : F}
    (hnil : ∀ r ∈ requests ops, r.returns = none)
    (hdistinct : ∀ r ∈ requests ops, IsDistinct types (registered ops ++ [feature]) r) :
    ∃ s', s.step types (.addFeature feature) = .ok s' ∧
      Account types (ops ++ [.addFeature feature]) s' := by
  have hmem : ∀ r ∈ s.server.featureResolutions, r ∈ requests ops := fun r hr =>
    List.mem_of_mem_filter (h.pending ▸ hr)
  have hcall := addFeature_eq h.running (fun r hr => hnil r (hmem r hr))
    (fun r hr => h.features ▸ hdistinct r (hmem r hr))
  rw [h.features, h.pending, List.filter_filter, List.filter_filter] at hcall
  refine ⟨_, Session.step_addFeature hcall, h.concat (record_addFeature feature).symm h.running
    (registered_addFeature feature).symm ?_⟩
  rw [requests_addFeature, registered_addFeature]
  refine List.filter_congr fun r hr => ?_
  -- What is not satisfied now was not satisfied before.
  cases hbefore : isSatisfied types (registered ops) r with
  | false => rw [Bool.not_false, Bool.and_true]
  | true =>
    rw [isSatisfied_append hbefore]
    rfl

/-- Features are asked for. -/
theorem Account.requireFeatures (h : Account types ops s) {deps : List T}
    (hdistinct : IsDistinct types (registered ops) ⟨ops.length, deps, none⟩) :
    ∃ s', s.step types (.requireFeatures deps none) = .ok s' ∧
      Account types (ops ++ [.requireFeatures deps none]) s' := by
  have hcall : s.server.requireFeatures types ⟨ops.length, deps, none⟩ = _ :=
    requireFeatures_eq rfl (h.features ▸ hdistinct)
  have hrecord : record types ops (.requireFeatures deps none) = _ :=
    record_requireFeatures deps none
  have hpending : (requests (ops ++ [.requireFeatures deps none])).filter
        (fun r => !isSatisfied types (registered (ops ++ [.requireFeatures deps none])) r) =
      s.server.featureResolutions ++ [⟨ops.length, deps, none⟩].filter fun r =>
        !isSatisfied types s.server.features r := by
    rw [requests_requireFeatures, registered_requireFeatures, List.filter_append, h.pending,
      h.features]
  have hfeatures := h.features.trans (registered_requireFeatures deps none).symm
  rw [← h.features] at hrecord
  cases hsatisfied : isSatisfied types s.server.features ⟨ops.length, deps, none⟩ with
  | true =>
    rw [hsatisfied, if_pos rfl] at hcall hrecord
    refine ⟨_, Session.step_requireFeatures h.moment hcall,
      h.concat hrecord.symm h.running hfeatures ?_⟩
    rw [hpending, List.filter_cons_of_neg (by rw [hsatisfied]; decide)]
    exact (List.append_nil _).symm
  | false =>
    rw [hsatisfied, if_neg Bool.false_ne_true] at hcall hrecord
    refine ⟨_, Session.step_requireFeatures h.moment hcall,
      h.concat hrecord.symm h.running hfeatures ?_⟩
    rw [hpending, List.filter_cons_of_pos (by rw [hsatisfied]; decide)]
    rfl

theorem Session.run_concat {s s' s'' : Session F T} (h : s.run types ops = .ok s')
    (hstep : s'.step types op = .ok s'') : s.run types (ops ++ [op]) = .ok s'' := by
  induction ops generalizing s with
  | nil =>
    rw [Session.run, Outcome.ok.injEq] at h
    rw [List.nil_append, Session.run, h, hstep]
    rfl
  | cons op' ops ih =>
    rw [Session.run] at h
    rw [List.cons_append, Session.run]
    cases hfirst : s.step types op' with
    | ok s₁ =>
      rw [hfirst, Outcome.bind_ok] at h
      rw [Outcome.bind_ok]
      exact ih h
    | error e =>
      rw [hfirst] at h
      cases h
    | panic =>
      rw [hfirst] at h
      cases h

theorem Account.nil : Account types [] {} where
  moment := rfl
  running := rfl
  features := rfl
  pending := rfl
  sound _ _ h := absurd h List.not_mem_nil
  once _ h := absurd h List.not_mem_nil

omit [DecidableEq T] in
theorem IsDistinct.mono {features more : List F} {r : Resolution T}
    (h : IsDistinct types more r) (hsubset : features ⊆ more) : IsDistinct types features r :=
  fun f hf => h f (hsubset hf)

/-- After any registrations and requests, whose callbacks return nil and need no two
    interfaces of one feature, each callback was called once, with the features of its
    parameters, in the first call after which these are registered, and no callback was
    called otherwise. The requests that are not satisfied are the pending ones. -/
theorem features_resolved (types : FeatureTypes F T) (ops : List (Operation F T))
    (hnil : ∀ r ∈ requests ops, r.returns = none)
    (hdistinct : ∀ r ∈ requests ops, IsDistinct types (registered ops) r) :
    ∃ s, Session.run types {} ops = .ok s ∧ Account types ops s := by
  induction ops using List.reverseRecOn with
  | nil => exact ⟨{}, rfl, .nil⟩
  | append_singleton ops op ih =>
    have hsubset : registered ops ⊆ registered (ops ++ [op]) :=
      registered_append ops [op] ▸ List.subset_append_left _ _
    have hrequests : requests ops ⊆ requests (ops ++ [op]) :=
      requests_concat ops op ▸ List.subset_append_left _ _
    obtain ⟨s, hrun, h⟩ := ih (fun r hr => hnil r (hrequests hr))
      fun r hr => (hdistinct r (hrequests hr)).mono hsubset
    cases op with
    | addFeature feature =>
      obtain ⟨s', hstep, h'⟩ := h.addFeature (fun r hr => hnil r (hrequests hr))
        fun r hr => registered_addFeature feature ▸ hdistinct r (hrequests hr)
      exact ⟨s', Session.run_concat hrun hstep, h'⟩
    | requireFeatures deps returns =>
      have hlast : ⟨ops.length, deps, returns⟩ ∈
          requests (ops ++ [.requireFeatures deps returns]) := by
        rw [requests_requireFeatures]
        exact List.mem_append_right _ (List.mem_singleton_self _)
      obtain rfl : returns = none := hnil _ hlast
      obtain ⟨s', hstep, h'⟩ := h.requireFeatures ((hdistinct _ hlast).mono hsubset)
      exact ⟨s', Session.run_concat hrun hstep, h'⟩

end

/-! ## An example -/

/-- Features that are named by their type. -/
def exampleTypes : FeatureTypes ℕ ℕ where
  typeOf := some
  assignableTo f t := f == t
  assignableTo_typeOf _ _ h := beq_iff_eq.2 (Option.some.inj h)

/-- A request, the features that it needs in another order, and a request for one of them. -/
def exampleOperations : List (Operation ℕ ℕ) :=
  [.requireFeatures [1, 2] none, .addFeature 2, .addFeature 1, .requireFeatures [2] none]

theorem features_resolved_example :
    ∃ s, Session.run exampleTypes {} exampleOperations = .ok s ∧
      Account exampleTypes exampleOperations s :=
  features_resolved exampleTypes exampleOperations (by decide)
    fun _ _ _ _ _ _ _ _ h h' => (beq_iff_eq.1 h).symm.trans (beq_iff_eq.1 h')

end Gzv2ray.Core
