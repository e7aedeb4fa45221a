import Gzv2ray.Buf.Reader

/-!
# The outbound manager

A `Manager` has a table of the handlers with a tag, a list of those without one, and a default
handler: the first one that is added while there is none.

* `Manager.addHandler`, `Manager.removeHandler`, `Manager.getHandler`: the calls;
* `Manager.run`: calls one after another, with a log of them;
* `Manager.Lawful`: the default handler is registered, and a tag stands for the handler that was
  added last.

Another handler may take the default one's place in the table, and one that does not start stays
registered. The manager is lawful throughout exactly if neither happens (`lawful_iff`).
-/

namespace Gzv2ray.Outbound

/-- A handler. Two of them may differ in nothing but where they are stored. -/
structure Handler where
  pointer : ℕ
  tag : Bytes
  deriving DecidableEq

structure Manager where
  defaultHandler : Option Handler := none
  taggedHandler : Bytes → Option Handler := fun _ => none
  untaggedHandlers : List Handler := []
  running : Bool := false

/-- `common.ErrNoClue`. -/
def errNoClue : Error := .new (ascii "not enough information for making a decision")

namespace Manager

variable (m : Manager)

def getDefaultHandler : Option Handler := m.defaultHandler

def getHandler (tag : Bytes) : Option Handler := m.taggedHandler tag

/-- The manager with a handler registered. -/
def register (handler : Handler) : Manager :=
  let m := if m.defaultHandler.isNone then { m with defaultHandler := some handler } else m
  if handler.tag.length > 0 then
    { m with taggedHandler := Function.update m.taggedHandler handler.tag (some handler) }
  else { m with untaggedHandlers := m.untaggedHandlers ++ [handler] }

/-- Adds a handler, which starts with an error or not. -/
def addHandler (handler : Handler) (start : Option Error) : Option Error × Manager :=
  (if m.running then start else none, m.register handler)

def removeHandler (tag : Bytes) : Option Error × Manager :=
  if tag = [] then (some errNoClue, m)
  else
    (none, { m with
      taggedHandler := Function.update m.taggedHandler tag none
      defaultHandler := m.defaultHandler.filter fun h => h.tag ≠ tag })

/-! ## Runs -/

/-- A call. The handlers of a manager that is started or closed return an error or not. -/
inductive Call
  | start (result : Option Error)
  | close (result : Option Error)
  | addHandler (handler : Handler) (start : Option Error)
  | removeHandler (tag : Bytes)
  deriving DecidableEq

def call : Call → Option Error × Manager
  | .start result => (result, { m with running := true })
  | .close result => (result, { m with running := false })
  | .addHandler handler start => m.addHandler handler start
  | .removeHandler tag => m.removeHandler tag

/-- Calls, and what they have returned. -/
abbrev Log := List (Call × Option Error)

/-- A manager after some calls. -/
structure Run where
  manager : Manager := {}
  log : Log := []

def Run.next (r : Run) (c : Call) : Run :=
  ⟨(r.manager.call c).2, r.log ++ [(c, (r.manager.call c).1)]⟩

/-- The calls of a new manager. -/
def run (calls : List Call) : Run := calls.foldl Run.next {}

/-! ## What the handlers should be -/

/-- The handler can be found. -/
def Registered (h : Handler) : Prop :=
  (∃ tag, m.taggedHandler tag = some h) ∨ h ∈ m.untaggedHandlers

/-- A call that has returned nil adds a handler under a tag or removes it. -/
def Touches (tag : Bytes) : Call × Option Error → Prop
  | (.addHandler h _, none) => h.tag = tag
  | (.removeHandler t, none) => t = tag
  | _ => False

/-- The handler is the last one that was added under a tag, and not removed since. -/
def IsLast (log : Log) (tag : Bytes) (h : Handler) : Prop :=
  ∃ before start after, log = before ++ (.addHandler h start, none) :: after ∧ h.tag = tag ∧
    ∀ c ∈ after, ¬ Touches tag c

structure Run.IsLawful (r : Run) : Prop where
  default : ∀ h, r.manager.getDefaultHandler = some h → r.manager.Registered h
  last : ∀ tag h, r.manager.getHandler tag = some h ↔ tag ≠ [] ∧ IsLast r.log tag h

/-- After every call of a run the default handler is registered, and a tag stands for the handler
    added last; a handler that is not added leaves the manager as it was. -/
structure Lawful (calls : List Call) : Prop where
  lawful : ∀ l, l <+: calls → (run l).IsLawful
  unchanged : ∀ l h start, l ++ [.addHandler h start] <+: calls →
    ((run l).manager.addHandler h start).1 ≠ none →
      ((run l).manager.addHandler h start).2 = (run l).manager

/-- The call adds no handler that does not start, unless it is registered already, and none in the
    place of the default one. -/
def Careful : Call → Prop
  | .addHandler h start =>
    if m.running = true ∧ start ≠ none then
      m.defaultHandler ≠ none ∧ h.tag ≠ [] ∧ m.taggedHandler h.tag = some h
    else ∀ d, m.defaultHandler = some d → h.tag ≠ [] → d.tag = h.tag → d = h
  | _ => True

/-! ## Steps -/

/-- Handlers are where their tags are. -/
structure Inv : Prop where
  tagged : ∀ tag h, m.taggedHandler tag = some h → h.tag = tag ∧ tag ≠ []
  untagged : ∀ h ∈ m.untaggedHandlers, h.tag = []

variable {m}

theorem register_tagged {h : Handler} (htag : h.tag ≠ []) :
    m.register h = { m with
      defaultHandler := m.defaultHandler.or (some h)
      taggedHandler := Function.update m.taggedHandler h.tag (some h) } := by
  have hlength : h.tag.length > 0 := List.length_pos_iff.2 htag
  obtain ⟨- | d, t, u, b⟩ := m <;> simp [register, hlength]

theorem register_untagged {h : Handler} (htag : h.tag = []) :
    m.register h = { m with
      defaultHandler := m.defaultHandler.or (some h)
      untaggedHandlers := m.untaggedHandlers ++ [h] } := by
  obtain ⟨- | d, t, u, b⟩ := m <;> simp [register, htag]

theorem Inv.register (hm : m.Inv) (h : Handler) : (m.register h).Inv := by
  by_cases htag : h.tag = []
  · rw [register_untagged htag]
    refine ⟨hm.tagged, fun h' hmem => ?_⟩
    rcases List.mem_append.1 hmem with hmem | hmem
    · exact hm.untagged h' hmem
    · rwa [List.mem_singleton.1 hmem]
  · rw [register_tagged htag]
    refine ⟨fun tag h' hfound => ?_, hm.untagged⟩
    dsimp only at hfound
    rcases eq_or_ne tag h.tag with rfl | hne
    · rw [Function.update_self] at hfound
      obtain rfl := Option.some.inj hfound
      exact ⟨rfl, htag⟩
    · rw [Function.update_of_ne hne] at hfound
      exact hm.tagged tag h' hfound

theorem Inv.call (hm : m.Inv) (c : Call) : (m.call c).2.Inv := by
  cases c with
  | start result => exact ⟨hm.tagged, hm.untagged⟩
  | close result => exact ⟨hm.tagged, hm.untagged⟩
  | addHandler h start => exact hm.register h
  | removeHandler tag =>
    rw [Manager.call, removeHandler]
    split
    · exact hm
    · refine ⟨fun tag' h hfound => ?_, hm.untagged⟩
      dsimp only at hfound
      rcases eq_or_ne tag' tag with rfl | hne
      · rw [Function.update_self] at hfound
        cases hfound
      · rw [Function.update_of_ne hne] at hfound
        exact hm.tagged tag' h hfound

theorem run_append (l : List Call) (c : Call) : run (l ++ [c]) = (run l).next c := by
  rw [run, List.foldl_append]
  rfl

theorem inv_run (l : List Call) : (run l).manager.Inv := by
  induction l using List.reverseRecOn with
  | nil => exact ⟨fun _ _ h => (nomatch h), fun _ h => absurd h List.not_mem_nil⟩
  | append_singleton l c ih =>
    rw [run_append]
    exact ih.call c

/-- The last handler is that of the last call, or that before if the call does not touch it. -/
theorem isLast_append {log : Log} {c : Call × Option Error} {tag : Bytes} {h : Handler} :
    IsLast (log ++ [c]) tag h ↔ (∃ start, c = (.addHandler h start, none) ∧ h.tag = tag) ∨
      ¬ Touches tag c ∧ IsLast log tag h := by
  constructor
  · rintro ⟨before, start, after, hlog, htag, hafter⟩
    rcases List.eq_nil_or_concat after with rfl | ⟨after, c', rfl⟩
    · obtain ⟨-, hc⟩ := List.append_inj' hlog rfl
      exact .inl ⟨start, List.singleton_inj.1 hc, htag⟩
    · rw [List.concat_eq_append] at hlog hafter
      rw [← List.cons_append, ← List.append_assoc] at hlog
      obtain ⟨rfl, hc⟩ := List.append_inj' hlog rfl
      obtain rfl := List.singleton_inj.1 hc
      refine .inr ⟨hafter c (by simp), before, start, after, rfl, htag, fun c' hc' => ?_⟩
      exact hafter c' (List.mem_append_left _ hc')
  · rintro (⟨start, rfl, htag⟩ | ⟨hc, before, start, after, rfl, htag, hafter⟩)
    · exact ⟨log, start, [], rfl, htag, fun _ h => absurd h List.not_mem_nil⟩
    · refine ⟨before, start, after ++ [c], by simp, htag, fun c' hc' => ?_⟩
      rcases List.mem_append.1 hc' with hc' | hc'
      · exact hafter c' hc'
      · rwa [List.mem_singleton.1 hc']

/-! ## Careful calls -/

/-- A handler that is registered already leaves the manager as it is. -/
theorem register_eq_self {h : Handler} (hdefault : m.defaultHandler ≠ none) (htag : h.tag ≠ [])
    (hfound : m.taggedHandler h.tag = some h) : m.register h = m := by
  obtain ⟨d, hd⟩ := Option.ne_none_iff_exists'.1 hdefault
  rw [register_tagged htag, ← hfound, Function.update_eq_self, hd, Option.some_or, ← hd]

theorem of_register_eq_self {h : Handler} (heq : m.register h = m) :
    m.defaultHandler ≠ none ∧ h.tag ≠ [] ∧ m.taggedHandler h.tag = some h := by
  by_cases htag : h.tag = []
  · rw [register_untagged htag] at heq
    have hlist : m.untaggedHandlers ++ [h] = m.untaggedHandlers :=
      congrArg Manager.untaggedHandlers heq
    simp at hlist
  · rw [register_tagged htag] at heq
    have hdefault : m.defaultHandler.or (some h) = m.defaultHandler :=
      congrArg Manager.defaultHandler heq
    have htable : Function.update m.taggedHandler h.tag (some h) = m.taggedHandler :=
      congrArg Manager.taggedHandler heq
    refine ⟨fun hnone => ?_, htag, ?_⟩
    · rw [hnone] at hdefault
      cases hdefault
    · rw [← htable, Function.update_self]

/-- A registered handler stays so if no other one takes its place. -/
theorem registered_register (hm : m.Inv) {h d : Handler} (hd : m.Registered d)
    (hcareful : h.tag ≠ [] → d.tag = h.tag → d = h) : (m.register h).Registered d := by
  by_cases htag : h.tag = []
  · rw [register_untagged htag]
    exact hd.imp id (List.mem_append_left _)
  · rw [register_tagged htag]
    rcases hd with ⟨tag, hfound⟩ | hmem
    · refine .inl ⟨tag, ?_⟩
      dsimp only
      rcases eq_or_ne tag h.tag with rfl | hne
      · rw [Function.update_self, hcareful htag (hm.tagged _ d hfound).1]
      · rwa [Function.update_of_ne hne]
    · exact .inr hmem

/-- A handler is registered, in the place of another one with its tag if there is one. -/
theorem registered_self (h : Handler) : (m.register h).Registered h := by
  by_cases htag : h.tag = []
  · rw [register_untagged htag]
    exact .inr (List.mem_append_right _ (List.mem_singleton_self h))
  · rw [register_tagged htag]
    exact .inl ⟨h.tag, Function.update_self ..⟩

theorem defaultHandler_register (h : Handler) :
    (m.register h).defaultHandler = m.defaultHandler.or (some h) := by
  by_cases htag : h.tag = []
  · rw [register_untagged htag]
  · rw [register_tagged htag]

/-- A default handler that is still registered is in no other one's place. -/
theorem eq_of_registered_register (hm : m.Inv) {h d : Handler}
    (hd : (m.register h).Registered d) (htag : h.tag ≠ []) (hdtag : d.tag = h.tag) : d = h := by
  rw [register_tagged htag] at hd
  rcases hd with ⟨tag, hfound⟩ | hmem
  · dsimp only at hfound
    rcases eq_or_ne tag h.tag with rfl | hne
    · rw [Function.update_self] at hfound
      exact (Option.some.inj hfound).symm
    · rw [Function.update_of_ne hne] at hfound
      exact absurd ((hm.tagged tag d hfound).1.symm.trans hdtag) hne
  · exact absurd (hdtag.symm.trans (hm.untagged d hmem)) htag

theorem last_register {log : Log} {handler h : Handler} {start : Option Error} {tag : Bytes}
    (hlast : m.getHandler tag = some h ↔ tag ≠ [] ∧ IsLast log tag h) :
    (m.register handler).getHandler tag = some h ↔
      tag ≠ [] ∧ ((∃ start', ((Call.addHandler handler start, none) : Call × Option Error) =
          (.addHandler h start', none) ∧ h.tag = tag) ∨
        ¬ Touches tag (.addHandler handler start, none) ∧ IsLast log tag h) := by
  have hother (hne : handler.tag ≠ tag) :
      ((∃ start', ((Call.addHandler handler start, none) : Call × Option Error) =
          (.addHandler h start', none) ∧ h.tag = tag) ∨
        ¬ Touches tag (.addHandler handler start, none) ∧ IsLast log tag h) ↔
      IsLast log tag h := by
    refine (or_iff_right ?_).trans (and_iff_right hne)
    rintro ⟨_, heq, htag⟩
    cases heq
    exact hne htag
  by_cases htag : handler.tag = []
  · rw [register_untagged htag]
    exact hlast.trans (and_congr_right fun hne => (hother fun h => hne (h ▸ htag)).symm)
  · rw [register_tagged htag, getHandler]
    dsimp only
    rcases eq_or_ne tag handler.tag with rfl | hne
    · rw [Function.update_self]
      constructor
      · intro heq
        obtain rfl := Option.some.inj heq
        exact ⟨htag, .inl ⟨start, rfl, rfl⟩⟩
      · rintro ⟨-, ⟨_, heq, -⟩ | ⟨hnot, -⟩⟩
        · cases heq
          rfl
        · exact absurd rfl hnot
    · rw [Function.update_of_ne hne, ← getHandler, hlast, hother hne.symm]

variable {r : Run}

/-- A call that changes no handler and touches no tag. -/
theorem Run.IsLawful.next_same (h : r.IsLawful) {c : Call}
    (hdefault : (r.manager.call c).2.defaultHandler = r.manager.defaultHandler)
    (htagged : (r.manager.call c).2.taggedHandler = r.manager.taggedHandler)
    (huntagged : (r.manager.call c).2.untaggedHandlers = r.manager.untaggedHandlers)
    (hc : ∀ tag, ¬ Touches tag (c, (r.manager.call c).1)) : (r.next c).IsLawful := by
  refine ⟨fun d hd => ?_, fun tag h' => ?_⟩
  · have hregistered := h.default d (hdefault.symm.trans hd)
    rwa [Registered, ← htagged, ← huntagged] at hregistered
  · rw [Run.next, getHandler, htagged, isLast_append, ← getHandler, h.last]
    refine and_congr_right fun _ => (or_iff_right ?_).trans (and_iff_right (hc tag)) |>.symm
    rintro ⟨start, heq, htag⟩
    exact hc tag (heq ▸ htag)

theorem Run.IsLawful.next (h : r.IsLawful) (hm : r.manager.Inv) {c : Call}
    (hc : r.manager.Careful c) : (r.next c).IsLawful := by
  cases c with
  | start result => exact h.next_same rfl rfl rfl fun _ => id
  | close result => exact h.next_same rfl rfl rfl fun _ => id
  | addHandler handler start =>
    rw [Careful] at hc
    split at hc
    · -- The handler does not start, but it is registered all the same. A careful call registers
      -- one here that the manager already has.
      rename_i hfails
      have hsame : (r.manager.call (.addHandler handler start)).2 = r.manager :=
        register_eq_self hc.1 hc.2.1 hc.2.2
      refine h.next_same (by rw [hsame]) (by rw [hsame]) (by rw [hsame]) fun tag htouches => ?_
      rw [Manager.call, addHandler, if_pos hfails.1] at htouches
      obtain ⟨e, rfl⟩ := Option.ne_none_iff_exists'.1 hfails.2
      exact htouches
    · rename_i hfails
      have hnone : (r.manager.call (.addHandler handler start)).1 = none := by
        rw [Manager.call, addHandler]
        dsimp only
        split
        · rename_i hrunning
          exact not_not.1 fun hstart => hfails ⟨hrunning, hstart⟩
        · rfl
      refine ⟨fun d hd => ?_, fun tag h' => ?_⟩
      · have hor : r.manager.defaultHandler.or (some handler) = some d :=
          (defaultHandler_register handler).symm.trans hd
        cases hdefault : r.manager.defaultHandler with
        | none =>
          rw [hdefault] at hor
          obtain rfl := Option.some.inj hor
          exact registered_self handler
        -- The default was there before, and its tag is not taken over.
        | some d' =>
          rw [hdefault] at hor
          obtain rfl := Option.some.inj hor
          exact registered_register hm (h.default _ hdefault) (hc _ hdefault)
      · rw [Run.next, hnone, isLast_append]
        exact last_register (h.last tag h')
  | removeHandler tag =>
    by_cases htag : tag = []
    · have hcall : r.manager.call (.removeHandler tag) = (some errNoClue, r.manager) := by
        rw [Manager.call, removeHandler, if_pos htag]
      exact h.next_same (by rw [hcall]) (by rw [hcall]) (by rw [hcall]) fun _ => by
        rw [hcall]
        exact id
    · have hcall : r.manager.call (.removeHandler tag) = (none, { r.manager with
          taggedHandler := Function.update r.manager.taggedHandler tag none
          defaultHandler := r.manager.defaultHandler.filter fun h => h.tag ≠ tag }) := by
        rw [Manager.call, removeHandler, if_neg htag]
      rw [Run.next, hcall]
      refine ⟨fun d hd => ?_, fun tag' h' => ?_⟩
      · obtain ⟨hd, hne⟩ := Option.filter_eq_some_iff.1 hd
        rcases h.default d hd with ⟨t, hfound⟩ | hmem
        · have ht : t ≠ tag := (hm.tagged t d hfound).1 ▸ of_decide_eq_true hne
          exact .inl ⟨t, (Function.update_of_ne ht ..).trans hfound⟩
        · exact .inr hmem
      · rw [getHandler, isLast_append]
        dsimp only
        rcases eq_or_ne tag' tag with rfl | hne
        · rw [Function.update_self]
          refine iff_of_false nofun ?_
          rintro ⟨-, ⟨_, heq, -⟩ | ⟨hnot, -⟩⟩
          · cases heq
          · exact hnot rfl
        · rw [Function.update_of_ne hne, ← getHandler, h.last]
          refine and_congr_right fun _ => ?_
          refine ((or_iff_right ?_).trans (and_iff_right fun htag => hne htag.symm)).symm
          rintro ⟨_, heq, -⟩
          cases heq

/-! ## All runs -/

/-- The manager is lawful throughout exactly if all calls are careful. -/
theorem lawful_iff (calls : List Call) :
    Lawful calls ↔ ∀ l c, l ++ [c] <+: calls → (run l).manager.Careful c := by
  constructor
  · intro h l c hprefix
    cases c with
    | addHandler handler start =>
      rw [Careful]
      split
      · rename_i hfails
        refine of_register_eq_self (h.unchanged l handler start hprefix ?_)
        rw [addHandler, if_pos hfails.1]
        exact hfails.2
      · intro d hd htag hdtag
        have hnext := (h.lawful _ hprefix).default d
        rw [run_append] at hnext
        refine eq_of_registered_register (inv_run l) (hnext ?_) htag hdtag
        have hdefault : ((run l).manager.register handler).defaultHandler = some d := by
          rw [defaultHandler_register, hd, Option.some_or]
        exact hdefault
    | _ => trivial
  · intro h
    refine ⟨fun l hprefix => ?_, fun l handler start hprefix hfails => ?_⟩
    · induction l using List.reverseRecOn with
      | nil =>
        refine ⟨fun _ h => (nomatch h), fun tag h => iff_of_false nofun ?_⟩
        rintro ⟨-, before, start, after, hlog, -⟩
        exact absurd hlog (by simp [run])
      | append_singleton l c ih =>
        rw [run_append]
        exact (ih ((List.prefix_append l [c]).trans hprefix)).next (inv_run l) (h l c hprefix)
    · have hc := h l _ hprefix
      rw [addHandler] at hfails
      dsimp only at hfails
      split at hfails
      · rename_i hrunning
        rw [Careful, if_pos ⟨hrunning, hfails⟩] at hc
        exact register_eq_self hc.1 hc.2.1 hc.2.2
      · exact absurd rfl hfails

/-- Two handlers with the same tag. -/
def replaced : List Call := [.addHandler ⟨1, ascii "a"⟩ none, .addHandler ⟨2, ascii "a"⟩ none]

/-- A handler that does not start. -/
def failed : List Call := [.start none, .addHandler ⟨1, ascii "a"⟩ (some .eof)]

theorem not_lawful : ¬ Lawful replaced ∧ ¬ Lawful failed := by
  constructor
  · intro h
    have hregistered := (h.lawful replaced List.prefix_rfl).default ⟨1, ascii "a"⟩ rfl
    have heq := @eq_of_registered_register _ (inv_run [.addHandler ⟨1, ascii "a"⟩ none])
      ⟨2, ascii "a"⟩ ⟨1, ascii "a"⟩ hregistered (by decide) rfl
    exact absurd heq (by decide)
  · intro h
    have hsame := h.unchanged [.start none] ⟨1, ascii "a"⟩ (some .eof) List.prefix_rfl (by decide)
    exact absurd (congrArg Manager.defaultHandler hsame) (by decide)

end Manager

end Gzv2ray.Outbound
