import HttpBackground.Dispatch
import HttpBackground.TimerLife

/-!
# What Omnis can do to the library

`component_run` maps the runs of the library to runs of the component, so that what
holds in these holds here. `registered_run` says that no object is lost: all that are
allocated are in the chain, each under one handle.
-/
namespace HttpBackground

namespace Component

variable {s : Component}

/-- The object whose method is called. -/
def Act.method? : Act → Option ℕ
  | .methodInitialize o _ | .methodRun o _ | .methodStart o | .methodCancel o => some o
  | _ => none

theorem errorOf_object {o o' : ℕ} {name : StdString} {r : Except MethodError Component}
    {cb : Callback} (h : errorOf o name r = some (o', cb)) : o' = o := by
  cases r with
  | ok s => cases h
  | error e =>
    cases h
    rfl

/-- An object is there when it reports the outcome of its request. -/
theorem delivers_live {a : Act} {o : ℕ} {cb : Callback} (h : s.delivers a = some (o, cb)) :
    (s.objects o).isSome := by
  have hworker : ∀ o', (s.worker? o').isSome → (s.objects o').isSome := by
    intro o' ho'
    obtain ⟨W, hW⟩ := Option.isSome_iff_exists.mp ho'
    obtain ⟨w, hw, -⟩ := Option.bind_eq_some_iff.mp hW
    obtain ⟨obj, hobj, -⟩ := Option.bind_eq_some_iff.mp hw
    rw [hobj]
    rfl
  unfold delivers at h
  split at h
  · split at h
    · obtain ⟨W, hW, heq⟩ := Option.map_eq_some_iff.mp h
      cases heq
      exact hworker o (by rw [hW]; rfl)
    · obtain ⟨W, hW, heq⟩ := Option.bind_eq_some_iff.mp h
      by_cases hc : W.cancelled = true
      · rw [if_pos hc] at heq
        cases heq
        exact hworker o (by rw [hW]; rfl)
      · rw [if_neg hc] at heq
        cases heq
    · cases h
  · cases h

/-- Making an object and deleting it leaves its mark on the timer alone: one that a
tick has left running without subscribers is killed. -/
theorem construct_destruct (hs : s.Timed) {o : ℕ} (hnew : s.objects o = none) :
    (s.construct o).destruct o =
      if s.subscribers.entries.isEmpty then { s with timerID := 0, osTimers := [] } else s := by
  have herase : s.subscribers.erase o = s.subscribers := by
    apply Subscribers.erase_of_find?
    by_contra hne
    have hlive := hs.live o (Option.isSome_iff_ne_none.mpr hne)
    rw [hnew] at hlive
    cases hlive
  have hobjects : Function.update (s.construct o).objects o none = s.objects := by
    show Function.update (Function.update s.objects o _) o none = s.objects
    rw [Function.update_idem, ← hnew, Function.update_eq_self]
  have hworkers : ((s.construct o).dropWorker o).workers = s.workers := by
    have hnone : (s.construct o).workerOf o = none := by
      rw [construct, setObject_workerOf, if_pos rfl]
      rfl
    unfold dropWorker
    rw [hnone]
    rfl
  have htimers : s.osTimers.erase s.timerID = [] := by
    by_cases ht : s.timerID = 0
    · rw [(hs.unset ht).1]
      rfl
    · rw [hs.set ht]
      exact List.erase_cons_head s.timerID []
  rw [destruct_fields, hobjects, hworkers]
  unfold unsubscribe
  have hsub : (s.construct o).subscribers = s.subscribers := rfl
  rw [hsub, herase]
  by_cases hempty : s.subscribers.entries.isEmpty = true
  · rw [if_pos hempty, if_pos hempty]
    have htimers' : ((s.construct o).setSubscribers s.subscribers).killTimer.osTimers = [] :=
      htimers
    rw [htimers']
    rfl
  · rw [if_neg hempty, if_neg hempty]
    rfl

end Component

namespace Library

variable {l l' : Library}

/-- What a step is for the component. -/
def acts (l : Library) : Label → List Component.Act
  | .message (.objConstruct compId h o) =>
    if compId = cNVObjHTTPWorker ∧ l.chain h = none then [.construct o] else []
  | .message (.objDestruct compId h objInfo) =>
    if compId = cNVObjHTTPWorker ∧ objInfo = true then (l.chain h).toList.map .destroy else []
  | .message (.objectCopy compId source destination o) =>
    if compId = cNVObjHTTPWorker ∧ (l.chain source).isSome ∧ l.chain destination = none then
      [.construct o]
    else []
  | .message (.getMethodName _ o) | .message (.getPropName _ o) => [.construct o, .destroy o]
  | .message (.methodCall h id param result) =>
    match l.chain h with
    | none => []
    | some o =>
      match funcId id with
      | 4001 => [.methodInitialize o param]
      | 4002 => [.methodRun o result]
      | 4003 => [.methodStart o]
      | 4004 => [.methodCancel o]
      | _ => []
  | .message _ => []
  | .timer => [.timer]
  | .main => [.main]
  | .handlerReturn => [.handlerReturn]
  | .thread w i b => [.thread w i b]

/-- Omnis asks for the objects that `ECM_GETOBJECT` told it of. -/
def Known : Label → Prop
  | .message (.objConstruct compId _ _) | .message (.objDestruct compId _ _)
  | .message (.objectCopy compId _ _ _) | .message (.getMethodName compId _)
  | .message (.getPropName compId _) => compId = cNVObjHTTPWorker
  | _ => True

/-- Omnis is in control of a component that has not gone wrong. -/
def Ready (l : Library) : Prop := l.component.fault = false ∧ l.component.idle = true

/-- The cases of `step` for the objects in `objectsTable`. -/
inductive Steps (l : Library) (a : Label) : Library → Prop
  | same : l.acts a = [] → Steps l a l
  | construct (h o : ℕ) (hnew : l.component.objects o = none) : l.Ready → l.chain h = none →
      l.acts a = [.construct o] → Steps l a (l.construct h o hnew)
  | destruct (h o : ℕ) (ho : l.chain h = some o) : l.Ready → l.acts a = [.destroy o] →
      Steps l a (l.destruct h o ho)
  | copied (source destination o : ℕ) (hnew : l.component.objects o = none) :
      (l.chain source = none ∨ (l.chain destination).isSome) → l.acts a = [] →
      Steps l a (l.copyNVObj source destination o hnew)
  | duplicated (source destination o : ℕ) (hnew : l.component.objects o = none) : l.Ready →
      (l.chain source).isSome → l.chain destination = none → l.acts a = [.construct o] →
      Steps l a (l.copyNVObj source destination o hnew)
  | temporary (o : ℕ) (hnew : l.component.objects o = none) : l.Ready →
      l.acts a = [.construct o, .destroy o] → Steps l a (l.temporary o hnew)
  | runs (act : Component.Act) (ha : act.allocates = false) (l' : Library) :
      l.acts a = [act] → l.runs act ha = some l' → Steps l a l'

theorem runs_of_reply {a : Component.Act} {ha : a.allocates = false} {r reply : Reply}
    (h : ((l.runs a ha).map fun l₁ => (l₁, r)) = some (l', reply)) : l.runs a ha = some l' := by
  obtain ⟨l₁, hruns, heq⟩ := Option.map_eq_some_iff.mp h
  cases heq
  exact hruns

theorem methodCall_cases {h o : ℕ} {id : ℤ} {param : Option FldVal} {result : ParamMap}
    {reply : Reply} (ho : l.chain h = some o)
    (hcall : l.methodCall o id param result = some (l', reply)) :
    Steps l (.message (.methodCall h id param result)) l' := by
  unfold methodCall at hcall
  split at hcall
  case h_1 hid => exact .runs _ rfl _ (by simp only [acts, ho, hid]) (runs_of_reply hcall)
  case h_2 hid => exact .runs _ rfl _ (by simp only [acts, ho, hid]) (runs_of_reply hcall)
  case h_3 hid => exact .runs _ rfl _ (by simp only [acts, ho, hid]) (runs_of_reply hcall)
  case h_4 hid => exact .runs _ rfl _ (by simp only [acts, ho, hid]) (runs_of_reply hcall)
  case h_5 =>
    cases hcall
    exact .same (by simp only [acts, ho])

theorem message_cases {m : Message} {reply : Reply} (hk : Known (.message m)) (hr : l.Ready)
    (h : l.NVObjWndProc m = some (l', reply)) : Steps l (.message m) l' := by
  cases m with
  | objConstruct compId h' o =>
    obtain rfl : compId = cNVObjHTTPWorker := hk
    cases hh : l.chain h' with
    | some o' =>
      simp only [NVObjWndProc, hh] at h
      cases h
      exact .same (by simp [acts, hh])
    | none =>
      by_cases hnew : l.component.objects o = none
      · simp only [NVObjWndProc, hh, if_true, dif_pos hnew] at h
        cases h
        exact .construct h' o hnew hr hh (by simp [acts, hh])
      · simp only [NVObjWndProc, hh, if_true, dif_neg hnew] at h
        cases h
  | objDestruct compId h' objInfo =>
    obtain rfl : compId = cNVObjHTTPWorker := hk
    cases objInfo with
    | false =>
      cases h
      exact .same rfl
    | true =>
      unfold NVObjWndProc at h
      simp only [if_true] at h
      split at h
      · next hh =>
        cases h
        exact .same (by simp [acts, hh])
      · next o ho =>
        cases h
        exact .destruct h' o ho hr (by simp [acts, ho])
  | objectCopy compId source destination o =>
    obtain rfl : compId = cNVObjHTTPWorker := hk
    by_cases hnew : l.component.objects o = none
    · simp only [NVObjWndProc, if_true, dif_pos hnew] at h
      cases h
      by_cases hboth : (l.chain source).isSome = true ∧ l.chain destination = none
      · exact .duplicated source destination o hnew hr hboth.1 hboth.2 (by simp [acts, hboth])
      · refine .copied source destination o hnew ?_ (by simp [acts, hboth])
        rw [not_and_or] at hboth
        refine hboth.imp (fun hsrc => ?_) fun hdest => Option.isSome_iff_ne_none.mpr hdest
        simpa using hsrc
    · simp only [NVObjWndProc, if_true, dif_neg hnew] at h
      cases h
  | getMethodName compId o | getPropName compId o =>
    obtain rfl : compId = cNVObjHTTPWorker := hk
    by_cases hnew : l.component.objects o = none
    · simp only [NVObjWndProc, if_true, dif_pos hnew] at h
      cases h
      exact .temporary o hnew hr rfl
    · simp only [NVObjWndProc, if_true, dif_neg hnew] at h
      cases h
  | methodCall h' id param result =>
    cases hh : l.chain h' with
    | none =>
      simp only [NVObjWndProc, hh] at h
      cases h
      exact .same (by simp [acts, hh])
    | some o =>
      simp only [NVObjWndProc, hh] at h
      exact methodCall_cases hh h
  | getStaticObject =>
    cases h
    exact .same rfl
  | propertyCanAssign h' id | getProperty h' id | setProperty h' id param =>
    cases hh : l.chain h' with
    | none | some o =>
      simp only [NVObjWndProc, hh] at h
      cases h
      exact .same rfl

theorem step_message {m : Message} (h : l.step (.message m) = some l') :
    l.Ready ∧ ∃ reply, l.NVObjWndProc m = some (l', reply) := by
  replace h : (if l.component.fault then none
    else if l.component.idle then (l.NVObjWndProc m).map Prod.fst else none) = some l' := h
  by_cases hf : l.component.fault = true
  · rw [if_pos hf] at h
    cases h
  · rw [if_neg hf] at h
    by_cases hi : l.component.idle = true
    · rw [if_pos hi] at h
      obtain ⟨⟨l₁, reply⟩, hm, rfl⟩ := Option.map_eq_some_iff.mp h
      exact ⟨⟨by simpa using hf, hi⟩, reply, hm⟩
    · rw [if_neg hi] at h
      cases h

theorem step_cases {a : Label} (hk : Known a) (h : l.step a = some l') : Steps l a l' := by
  cases a with
  | message m =>
    obtain ⟨hr, reply, hm⟩ := step_message h
    exact message_cases hk hr hm
  | timer => exact .runs .timer rfl l' rfl h
  | main => exact .runs .main rfl l' rfl h
  | handlerReturn => exact .runs .handlerReturn rfl l' rfl h
  | thread w i b => exact .runs (.thread w i b) rfl l' rfl h

theorem runs_fields {a : Component.Act} {ha : a.allocates = false} (h : l.runs a ha = some l') :
    l.component.step a = some l'.component ∧ l'.base = l.base ∧ l'.chain = l.chain := by
  unfold runs at h
  split at h
  · cases h
  · next c hc =>
    cases h
    exact ⟨hc, rfl, rfl⟩

section copy

variable {source destination o : ℕ} (hnew : l.component.objects o = none)

/-- A copy that makes no object changes none of what the library is about. -/
theorem copied_fields (h : l.chain source = none ∨ (l.chain destination).isSome) :
    (l.copyNVObj source destination o hnew).component = l.component ∧
      (l.copyNVObj source destination o hnew).chain = l.chain ∧
      ∀ j, ((l.copyNVObj source destination o hnew).base j).objInst = (l.base j).objInst := by
  show (l.toRegistry.copyNVObj source destination o).component = l.component ∧
    (l.toRegistry.copyNVObj source destination o).chain = l.chain ∧
    ∀ j, ((l.toRegistry.copyNVObj source destination o).base j).objInst = (l.base j).objInst
  unfold Registry.copyNVObj
  cases hsrc : l.chain source with
  | none => exact ⟨rfl, rfl, fun _ => rfl⟩
  | some src =>
    cases hdest : l.chain destination with
    | none => simp [hsrc, hdest] at h
    | some dest =>
      refine ⟨rfl, rfl, fun j => ?_⟩
      show (Function.update l.base dest _ j).objInst = (l.base j).objInst
      by_cases hj : j = dest
      · rw [hj, Function.update_self]
        rfl
      · rw [Function.update_of_ne hj]

theorem duplicated_fields (hsource : (l.chain source).isSome) (hdest : l.chain destination = none) :
    (l.copyNVObj source destination o hnew).component = l.component.construct o ∧
      (l.copyNVObj source destination o hnew).chain =
        Function.update l.chain destination (some o) ∧
      ∀ j, ((l.copyNVObj source destination o hnew).base j).objInst =
        if j = o then destination else (l.base j).objInst := by
  obtain ⟨src, hsrc⟩ := Option.isSome_iff_exists.mp hsource
  show (l.toRegistry.copyNVObj source destination o).component = l.component.construct o ∧
    (l.toRegistry.copyNVObj source destination o).chain =
      Function.update l.chain destination (some o) ∧
    ∀ j, ((l.toRegistry.copyNVObj source destination o).base j).objInst =
      if j = o then destination else (l.base j).objInst
  unfold Registry.copyNVObj
  simp only [hsrc, hdest]
  refine ⟨rfl, rfl, fun j => ?_⟩
  show (Function.update (Function.update l.base o ⟨destination⟩) o _ j).objInst = _
  by_cases hj : j = o
  · rw [hj, Function.update_self, if_pos rfl]
    show (Function.update l.base o ⟨destination⟩ o).objInst = destination
    rw [Function.update_self]
  · rw [Function.update_of_ne hj, Function.update_of_ne hj, if_neg hj]

end copy

theorem construct_base (h o j : ℕ) (hnew : l.component.objects o = none) :
    ((l.construct h o hnew).base j).objInst = if j = o then h else (l.base j).objInst := by
  show (Function.update l.base o ⟨h⟩ j).objInst = _
  by_cases hj : j = o
  · rw [hj, Function.update_self, if_pos rfl]
  · rw [Function.update_of_ne hj, if_neg hj]

/-- Nothing is allocated that is not in the chain. -/
def Registered (l : Library) : Prop :=
  ∀ o, (l.component.objects o).isSome → l.chain (l.base o).objInst = some o

/-- An object is made and chained under a handle that is free. -/
theorem Registered.insert (hr : l.Registered) {h o : ℕ} (hfree : l.chain h = none)
    (hcomponent : l'.component = l.component.construct o)
    (hchain : l'.chain = Function.update l.chain h (some o))
    (hbase : ∀ j, (l'.base j).objInst = if j = o then h else (l.base j).objInst) :
    l'.Registered := by
  intro j hj
  rw [hbase, hchain]
  by_cases hjo : j = o
  · rw [if_pos hjo, Function.update_self, hjo]
  · rw [hcomponent, Component.isSome_construct, if_neg hjo] at hj
    rw [if_neg hjo]
    have hfound := hr j hj
    have hne : (l.base j).objInst ≠ h := by
      intro hh
      rw [hh, hfree] at hfound
      cases hfound
    rw [Function.update_of_ne hne]
    exact hfound

theorem Registered.remove (hr : l.Registered) {h o : ℕ} (ho : l.chain h = some o) :
    (l.destruct h o ho).Registered := by
  intro j hj
  replace hj : ((l.component.destruct o).objects j).isSome := hj
  rw [Component.isSome_destruct] at hj
  by_cases hjo : j = o
  · simp [hjo] at hj
  · rw [if_neg hjo] at hj
    have hfound := hr j hj
    have hne : (l.base j).objInst ≠ h := by
      intro hh
      rw [hh, ho, Option.some.injEq] at hfound
      exact hjo hfound.symm
    show Function.update l.chain h none (l.base j).objInst = some j
    rw [Function.update_of_ne hne]
    exact hfound

theorem Registered.kept (hr : l.Registered)
    (hlive : ∀ j, (l'.component.objects j).isSome = (l.component.objects j).isSome)
    (hchain : l'.chain = l.chain)
    (hbase : ∀ j, (l.component.objects j).isSome → (l'.base j).objInst = (l.base j).objInst) :
    l'.Registered := by
  intro j hj
  rw [hlive] at hj
  rw [hchain, hbase j hj]
  exact hr j hj

theorem registered_step {a : Label} (hk : Known a) (h : l.step a = some l')
    (hr : l.Registered) : l'.Registered := by
  cases step_cases hk h with
  | same => exact hr
  | construct h' o hnew hready hfree hacts =>
    exact hr.insert hfree rfl rfl fun j => construct_base h' o j hnew
  | destruct h' o ho hready hacts => exact hr.remove ho
  | copied source destination o hnew hkeep hacts =>
    obtain ⟨hcomponent, hchain, hbase⟩ := copied_fields hnew hkeep
    exact hr.kept (fun j => by rw [hcomponent]) hchain fun j _ => hbase j
  | duplicated source destination o hnew hready hsource hdest hacts =>
    obtain ⟨hcomponent, hchain, hbase⟩ := duplicated_fields hnew hsource hdest
    exact hr.insert hdest hcomponent hchain hbase
  | temporary o hnew hready hacts =>
    have hne : ∀ j, (l.component.objects j).isSome → j ≠ o := by
      rintro j hj rfl
      rw [hnew] at hj
      cases hj
    refine hr.kept (fun j => ?_) rfl fun j hj => ?_
    · show (((l.component.construct o).destruct o).objects j).isSome = _
      rw [Component.isSome_destruct, Component.isSome_construct]
      by_cases hj : j = o
      · rw [if_pos hj, hj, hnew]
        rfl
      · rw [if_neg hj, if_neg hj]
    · show (Function.update l.base o ⟨0⟩ j).objInst = (l.base j).objInst
      rw [Function.update_of_ne (hne j hj)]
  | runs act ha l' hacts hruns =>
    obtain ⟨hstep, hbase, hchain⟩ := runs_fields hruns
    exact hr.kept (Component.isSome_step hstep ha) hchain fun j _ => by rw [hbase]

theorem registered_holds {tr : List (Library × Label)} (run : Transition.Run step loaded tr l)
    (hk : Transition.Always (fun _ => Known) tr) : l.Registered :=
  run.stateInvariant (fun _ => Known) Registered (fun o ho => by cases ho)
    (fun _ _ _ hr hk h => registered_step hk h hr) hk

/-- Omnis finds every object that is allocated, under one handle, and finds nothing
that has been deleted. -/
theorem registered_run (tr : List (Library × Label)) (l : Library)
    (run : Transition.Run step loaded tr l) (hk : Transition.Always (fun _ => Known) tr) (o : ℕ) :
    (l.component.objects o).isSome ↔ ∃! h, l.chain h = some o := by
  constructor
  · intro ho
    exact ⟨(l.base o).objInst, registered_holds run hk o ho, fun h hh => (l.handle h o hh).symm⟩
  · rintro ⟨h, hh, -⟩
    exact l.live h o hh

/-- An object is made under handle 7, given a request and copied to handle 8. -/
def sampleLabels : List Label :=
  [.message (.objConstruct 1003 7 1), .message (.methodCall 7 4001 (some Component.urlRow) []),
    .message (.objectCopy 1003 7 8 2)]

theorem known_sampleLabels : ∀ a ∈ sampleLabels, Known a := by
  intro a ha
  simp only [sampleLabels, List.mem_cons, List.not_mem_nil, or_false] at ha
  rcases ha with rfl | rfl | rfl
  · rfl
  · trivial
  · rfl

theorem registered_run_copied : ∃ tr l,
    Transition.replay step loaded [] sampleLabels = some (tr, l) ∧
      ((l.component.objects 2).isSome ↔ ∃! h, l.chain h = some 2) := by
  have h : Transition.replay step loaded [] sampleLabels = some (_, _) := rfl
  exact ⟨_, _, h, registered_run _ _ (Transition.replay_run .start h)
    (Transition.always_of_replay known_sampleLabels (fun p hp => by cases hp) h) 2⟩

/-- The step of the component an object's message is. -/
theorem component_step {a : Label} (hk : Known a) (h : l.step a = some l') :
    ∃ tr, Transition.Run Component.step l.component tr l'.component ∧
      tr.map Prod.snd = (l.acts a).reverse := by
  have hconstruct : ∀ {o}, l.Ready → l.component.objects o = none →
      l.component.step (.construct o) = some (l.component.construct o) := by
    intro o hready hnew
    simp [Component.step, Component.omnis, hready.1, hready.2, hnew]
  cases step_cases hk h with
  | same hacts =>
    exact ⟨[], .start, by rw [hacts]; rfl⟩
  | construct h' o hnew hready hfree hacts =>
    exact ⟨[_], .next .start (hconstruct hready hnew), by rw [hacts]; rfl⟩
  | destruct h' o ho hready hacts =>
    have hstep : l.component.step (.destroy o) = some (l.component.destruct o) := by
      simp [Component.step, Component.omnis, hready.1, hready.2, l.live h' o ho]
    exact ⟨[_], .next .start hstep, by rw [hacts]; rfl⟩
  | copied source destination o hnew hkeep hacts =>
    refine ⟨[], ?_, by rw [hacts]; rfl⟩
    rw [(copied_fields hnew hkeep).1]
    exact .start
  | duplicated source destination o hnew hready hsource hdest hacts =>
    refine ⟨[(l.component, .construct o)], ?_, by rw [hacts]; rfl⟩
    rw [(duplicated_fields hnew hsource hdest).1]
    exact .next .start (hconstruct hready hnew)
  | temporary o hnew hready hacts =>
    have hstep : (l.component.construct o).step (.destroy o) =
        some ((l.component.construct o).destruct o) := by
      have hlive : ((l.component.construct o).objects o).isSome = true := by
        rw [Component.isSome_construct, if_pos rfl]
      have hf : (l.component.construct o).fault = false := hready.1
      have hi : (l.component.construct o).idle = true := hready.2
      simp [Component.step, Component.omnis, hf, hi, hlive]
    exact ⟨[_, _], .next (.next .start (hconstruct hready hnew)) hstep, by rw [hacts]; rfl⟩
  | runs act ha l' hacts hruns =>
    exact ⟨[_], .next .start (runs_fields hruns).1, by rw [hacts]; rfl⟩

/-- The component of a library that Omnis runs has gone through the steps its
messages stand for, in their order. -/
theorem component_run (tr : List (Library × Label)) (l : Library)
    (run : Transition.Run step loaded tr l) (hk : Transition.Always (fun _ => Known) tr) :
    ∃ steps, Transition.Run Component.step Component.loaded steps l.component ∧
      steps.reverse.map Prod.snd = tr.reverse.flatMap fun p => p.1.acts p.2 := by
  induction run with
  | start => exact ⟨[], .start, rfl⟩
  | @next tr l a l' run hstep ih =>
    obtain ⟨steps, hrun, hsteps⟩ := ih hk.tail
    obtain ⟨last, hlast, hacts⟩ := component_step hk.head hstep
    refine ⟨last ++ steps, hrun.append hlast, ?_⟩
    rw [List.reverse_append, List.map_append, hsteps, List.map_reverse, hacts, List.reverse_reverse,
      List.reverse_cons, List.flatMap_append, List.flatMap_singleton]

theorem component_run_copied : ∃ tr l,
    Transition.replay step loaded [] sampleLabels = some (tr, l) ∧
      ∃ steps, Transition.Run Component.step Component.loaded steps l.component ∧
        steps.reverse.map Prod.snd =
          [.construct 1, .methodInitialize 1 (some Component.urlRow), .construct 2] := by
  have h : Transition.replay step loaded [] sampleLabels = some (_, _) := rfl
  exact ⟨_, _, h, component_run _ _ (Transition.replay_run .start h)
    (Transition.always_of_replay known_sampleLabels (fun p hp => by cases hp) h)⟩

/-- Only a message for an object in the chain calls its methods. -/
theorem live_of_mem_acts {a : Label} {act : Component.Act} (hact : act ∈ l.acts a) {o : ℕ}
    (ho : act.method? = some o) : (l.component.objects o).isSome := by
  cases a with
  | message m =>
    cases m with
    | methodCall h id param result =>
      cases hh : l.chain h with
      | none => simp [acts, hh] at hact
      | some o₁ =>
        have hlive := l.live h o₁ hh
        simp only [acts, hh] at hact
        split at hact
        case h_5 => cases hact
        all_goals
          obtain rfl := List.mem_singleton.mp hact
          cases ho
          exact hlive
    | objConstruct compId h o' =>
      simp only [acts] at hact
      split at hact
      · obtain rfl := List.mem_singleton.mp hact
        cases ho
      · cases hact
    | objDestruct compId h objInfo =>
      simp only [acts] at hact
      split at hact
      · obtain ⟨o', -, rfl⟩ := List.mem_map.mp hact
        cases ho
      · cases hact
    | objectCopy compId source destination o' =>
      simp only [acts] at hact
      split at hact
      · obtain rfl := List.mem_singleton.mp hact
        cases ho
      · cases hact
    | getMethodName compId o' | getPropName compId o' =>
      obtain rfl | hact := List.mem_cons.mp hact
      · cases ho
      · obtain rfl := List.mem_singleton.mp hact
        cases ho
    | getStaticObject | propertyCanAssign | getProperty | setProperty => cases hact
  | timer | main | handlerReturn | thread =>
    obtain rfl := List.mem_singleton.mp hact
    cases ho

theorem callsBack_live {a : Label} {act : Component.Act} (hact : act ∈ l.acts a) {o : ℕ}
    {cb : Callback} (hcb : l.component.callsBack act = some (o, cb)) :
    (l.component.objects o).isSome := by
  cases act with
  | methodInitialize o' | methodRun o' | methodStart o' | methodCancel o' =>
    obtain rfl := Component.errorOf_object hcb
    exact live_of_mem_acts hact rfl
  | main => exact Component.delivers_live (a := .main) hcb
  | construct | destroy | timer | handlerReturn | thread => cases hcb

theorem timed_step {a : Label} (hk : Known a) (h : l.step a = some l')
    (ht : l.component.Timed) : l'.component.Timed := by
  obtain ⟨steps, hrun, -⟩ := component_step hk h
  exact hrun.stateHolds Component.Timed ht fun _ _ _ hs hstep => Component.step_timed hstep hs

/-- `$completed`, `$canceled` and `$error` go to the handle under which Omnis has the
object that calls them. -/
theorem callsBack_run (tr : List (Library × Label)) (l : Library)
    (run : Transition.Run step loaded tr l) (hk : Transition.Always (fun _ => Known) tr)
    (a : Label) (act : Component.Act) (hact : act ∈ l.acts a) (o : ℕ) (cb : Callback)
    (hcb : l.component.callsBack act = some (o, cb)) :
    l.chain (l.base o).objInst = some o :=
  registered_holds run hk o (callsBack_live hact hcb)

/-- `$run` on the copy, which has no worker. -/
theorem callsBack_run_copied : ∃ tr l,
    Transition.replay step loaded [] sampleLabels = some (tr, l) ∧
      l.component.callsBack (.methodRun 2 []) = some (2, .error (lit "$run") []) ∧
      l.chain (l.base 2).objInst = some 2 := by
  have h : Transition.replay step loaded [] sampleLabels = some (_, _) := rfl
  exact ⟨_, _, h, rfl, callsBack_run _ _ (Transition.replay_run .start h)
    (Transition.always_of_replay known_sampleLabels (fun p hp => by cases hp) h) (.message (.methodCall 8 4002 none []))
    (.methodRun 2 []) List.mem_cons_self 2 _ rfl⟩

/-- The object made for a list of names leaves no trace in the library, except that a
timer nobody waits for any more is killed. -/
theorem lists_run (tr : List (Library × Label)) (l l' : Library) (m : Message)
    (run : Transition.Run step loaded tr l) (hk : Transition.Always (fun _ => Known) tr)
    (hm : Known (.message m)) (hlists : m.lists = true) (h : l.step (.message m) = some l') :
    l'.chain = l.chain ∧ (∀ h o, l.chain h = some o → l'.base o = l.base o) ∧
      l'.component = if l.component.subscribers.entries.isEmpty then
        { l.component with timerID := 0, osTimers := [] } else l.component := by
  have htimed := run.stateInvariant (fun _ => Known) (fun l => l.component.Timed)
    Component.Timed.loaded (fun _ _ _ ht hk h => timed_step hk h ht) hk
  obtain ⟨o, hnew, rfl⟩ : ∃ o hnew, l' = l.temporary o hnew := by
    obtain ⟨hready, reply, hproc⟩ := step_message h
    cases m with
    | getMethodName compId o | getPropName compId o =>
      obtain rfl : compId = cNVObjHTTPWorker := hm
      by_cases hnew : l.component.objects o = none
      · simp only [NVObjWndProc, if_true, dif_pos hnew] at hproc
        cases hproc
        exact ⟨o, hnew, rfl⟩
      · simp only [NVObjWndProc, if_true, dif_neg hnew] at hproc
        cases hproc
    | _ => cases hlists
  refine ⟨rfl, fun h j hj => Function.update_of_ne (l.ne_of_chain hj hnew) _ _, ?_⟩
  exact Component.construct_destruct htimed hnew

/-- An object is made under handle 7 and its request runs up to `$completed`. The tick
that calls it takes the last subscriber out and leaves the timer running. -/
def tickedLabels : List Label :=
  [.message (.objConstruct 1003 7 1), .message (.methodCall 7 4001 (some Component.urlRow) []),
    .message (.methodCall 7 4003 none [])] ++
  List.replicate 8 (.thread 0 0 .next) ++ [.thread 0 0 (.returns [])] ++
  List.replicate 6 (.thread 0 0 .next) ++
  [.timer, .main, .main, .main, .handlerReturn, .main, .main, .main]

theorem known_tickedLabels : ∀ a ∈ tickedLabels, Known a := by
  intro a ha
  simp only [tickedLabels, List.mem_append, List.mem_cons, List.mem_replicate,
    List.not_mem_nil, or_false] at ha
  rcases ha with (((((rfl | rfl | rfl) | ⟨-, rfl⟩) | rfl) | ⟨-, rfl⟩) |
    rfl | rfl | rfl | rfl | rfl | rfl | rfl | rfl)
  · rfl
  all_goals trivial

/-- The object stays and the timer that the tick has left running is killed. -/
theorem lists_run_ticked : ∃ tr l l',
    Transition.replay step loaded [] tickedLabels = some (tr, l) ∧ l.chain 7 = some 1 ∧
      l.component.subscribers.entries = [] ∧ l.component.osTimers = [1] ∧
      l.step (.message (.getMethodName 1003 3)) = some l' ∧ l'.chain 7 = some 1 ∧
      l'.base 1 = l.base 1 ∧ l'.component = { l.component with timerID := 0, osTimers := [] } := by
  have h : Transition.replay step loaded [] tickedLabels = some (_, _) := rfl
  have hlists := lists_run _ _ _ (.getMethodName 1003 3) (Transition.replay_run .start h)
    (Transition.always_of_replay known_tickedLabels (fun p hp => by cases hp) h) rfl rfl rfl
  exact ⟨_, _, _, h, rfl, rfl, rfl, rfl, congrFun hlists.1 7, hlists.2.1 7 1 rfl, hlists.2.2⟩

end Library

end HttpBackground
