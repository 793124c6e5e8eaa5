import HttpBackground.ComponentSteps

/-!
# The map, the objects and the timer of Omnis

`subscribe` sets the timer and `unsubscribe` kills it with the last entry, while
a tick that erases entries leaves it alone. A destructor always unsubscribes, be
it that of an object Omnis holds or of one made to list the methods and
properties, so no address in the map outlives its object.
-/
namespace HttpBackground

namespace Component

variable {s s' : Component}

/-- The keys are live objects, and a timer that is not set has nobody to poll. -/
structure Timed (s : Component) : Prop where
  live : ∀ o, (s.subscribers.find? o).isSome → (s.objects o).isSome
  set : s.timerID ≠ 0 → s.osTimers = [s.timerID]
  unset : s.timerID = 0 → s.osTimers = [] ∧ ∀ o, s.subscribers.find? o = none
  fresh : s.nextTimerID ≠ 0

namespace Timed

theorem loaded : Component.loaded.Timed where
  live o ho := by cases ho
  set h := absurd rfl h
  unset _ := ⟨rfl, fun _ => rfl⟩
  fresh := by decide

/-- The timer stays as it is and no key is added. -/
theorem keep (h : s.Timed) (hlive : ∀ o, (s'.subscribers.find? o).isSome → (s'.objects o).isSome)
    (hkeys : ∀ o, s.subscribers.find? o = none → s'.subscribers.find? o = none)
    (hid : s'.timerID = s.timerID) (hos : s'.osTimers = s.osTimers)
    (hnext : s'.nextTimerID = s.nextTimerID) : s'.Timed where
  live := hlive
  set ht := by
    rw [hid] at ht ⊢
    rw [hos]
    exact h.set ht
  unset ht := by
    rw [hid] at ht
    obtain ⟨hnone, hempty⟩ := h.unset ht
    exact ⟨hos.trans hnone, fun o => hkeys o (hempty o)⟩
  fresh := hnext ▸ h.fresh

/-- A live object is subscribed, and the timer runs from then on. -/
theorem subscribe (h : s.Timed) {o : ℕ} (ho : (s.objects o).isSome) : (s.subscribe o).Timed := by
  have hlive : ∀ j, ((s.subscribe o).subscribers.find? j).isSome →
      ((s.subscribe o).objects j).isSome := by
    intro j hj
    rw [subscribe_fields] at hj ⊢
    replace hj : ((s.subscribers.subscribe o).find? j).isSome := hj
    rw [Subscribers.find?_subscribe] at hj
    by_cases hjo : j = o
    · rw [hjo]
      exact ho
    · rw [if_neg hjo] at hj
      exact h.live j hj
  by_cases ht : s.timerID = 0
  · have hset : s.subscribe o = { s.setSubscribers (s.subscribers.subscribe o) with
        timerID := s.nextTimerID, osTimers := s.nextTimerID :: s.osTimers
        nextTimerID := s.nextTimerID + 1 } := if_pos ht
    have hid : (s.subscribe o).timerID = s.nextTimerID := by rw [hset]
    refine ⟨hlive, fun _ => ?_, fun h0 => ?_, ?_⟩
    · rw [hset, (h.unset ht).1]
    · rw [hid] at h0
      exact absurd h0 h.fresh
    · rw [hset]
      exact Nat.succ_ne_zero _
  · have hset : s.subscribe o = s.setSubscribers (s.subscribers.subscribe o) := if_neg ht
    refine ⟨hlive, fun _ => ?_, fun h0 => ?_, ?_⟩
    · rw [hset]
      exact h.set ht
    · rw [hset] at h0
      exact absurd h0 ht
    · rw [hset]
      exact h.fresh

theorem erase_keys (m : Subscribers) {o j : ℕ} (hj : m.find? j = none) :
    (m.erase o).find? j = none := by
  rw [Subscribers.find?_erase]
  split
  · rfl
  · exact hj

/-- The entry goes, if there is one, and the timer with the last. -/
theorem unsubscribe (h : s.Timed) (o : ℕ) : (s.unsubscribe o).Timed := by
  have hlive : ∀ j, ((s.subscribers.erase o).find? j).isSome → (s.objects j).isSome :=
    fun j hj => h.live j (Subscribers.isSome_of_erase hj).2
  unfold Component.unsubscribe
  by_cases hempty : (s.subscribers.erase o).entries.isEmpty = true
  · rw [if_pos hempty]
    have hnil : (s.subscribers.erase o).entries = [] := List.isEmpty_iff.mp hempty
    refine ⟨hlive, fun ht => absurd rfl ht, fun _ => ⟨?_, fun j => ?_⟩, h.fresh⟩
    · show s.osTimers.erase s.timerID = []
      by_cases ht : s.timerID = 0
      · rw [(h.unset ht).1]
        rfl
      · rw [h.set ht]
        exact List.erase_cons_head s.timerID []
    · show (s.subscribers.erase o).find? j = none
      rw [Subscribers.find?, hnil]
      rfl
  · rw [if_neg hempty]
    exact h.keep hlive (fun j => erase_keys _) rfl rfl rfl

theorem destruct (h : s.Timed) (o : ℕ) : (s.destruct o).Timed := by
  have hunsub := h.unsubscribe o
  rw [unsubscribe_fields] at hunsub
  rw [destruct_fields]
  refine hunsub.keep (fun j hj => ?_) (fun j hj => hj) rfl rfl rfl
  have hne : j ≠ o := (Subscribers.isSome_of_erase hj).1
  show (Function.update s.objects o none j).isSome
  rw [Function.update_of_ne hne]
  exact hunsub.live j hj

/-- An object is made, or gets a worker. -/
theorem update (h : s.Timed) {o : ℕ} {obj : NVObjHTTPWorker}
    (hobj : s'.objects = Function.update s.objects o (some obj))
    (hsub : s'.subscribers = s.subscribers) (hid : s'.timerID = s.timerID)
    (hos : s'.osTimers = s.osTimers) (hnext : s'.nextTimerID = s.nextTimerID) : s'.Timed := by
  refine h.keep (fun j hj => ?_) (fun j hj => hsub ▸ hj) hid hos hnext
  rw [hsub] at hj
  rw [hobj]
  by_cases hjo : j = o
  · rw [hjo, Function.update_self]
    rfl
  · rw [Function.update_of_ne hjo]
    exact h.live j hj

end Timed

theorem mainStep_timed (h : MainSteps s s') (ht : s.Timed) : s'.Timed := by
  cases h with
  | assign it ret rest hs hit =>
    obtain ⟨e, he, -⟩ := Subscribers.holds_iff.mp hit
    refine ht.keep (fun j hj => ht.live j ?_) (fun j hj => ?_) rfl rfl rfl
    · replace hj : ((s.subscribers.setNext it ret).find? j).isSome := hj
      rw [Subscribers.find?_setNext] at hj
      by_cases hjo : j = it.key
      · rw [hjo, he]
        rfl
      · rwa [if_neg hjo] at hj
    · show (s.subscribers.setNext it ret).find? j = none
      have hne : j ≠ it.key := by
        rintro rfl
        rw [he] at hj
        cases hj
      rw [Subscribers.find?_setNext, if_neg hne]
      exact hj
  | testStop it rest hs hit hn =>
    exact ht.keep (fun j hj => ht.live j (Subscribers.isSome_of_erase hj).2)
      (fun j => Timed.erase_keys _) rfl rfl rfl
  | loopEnd | loopNotify | loopSkip | testContinue | isComplete | notComplete | completed
  | canceled | pending | fault => exact ht.keep ht.live (fun _ hj => hj) rfl rfl rfl

theorem step_timed {a : Act} (h : step s a = some s') (ht : s.Timed) : s'.Timed := by
  cases (step_cases h).2 with
  | construct o hi ho => exact ht.update rfl rfl rfl rfl rfl
  | destroy o hi ho => exact ht.destruct o
  | methodInitialize o rowVal params hi ho hrow =>
    rw [makeWorker_fields]
    exact ht.update rfl rfl rfl rfl rfl
  | methodStart o w hi ho =>
    have hsome : (s.objects o).isSome := by
      obtain ⟨obj, hobj, -⟩ := Option.bind_eq_some_iff.mp ho
      rw [hobj]
      rfl
    have hsub := ht.subscribe hsome
    exact hsub.keep hsub.live (fun _ hj => hj) rfl rfl rfl
  | main s' h => exact mainStep_timed (mainStep_cases h) ht
  | handlerReturn s' h =>
    obtain ⟨o, cb, rest, -, ⟨-, rfl⟩ | ⟨-, rfl⟩⟩ := handlerReturn_cases h
    · exact ht.keep ht.live (fun _ hj => hj) rfl rfl rfl
    · exact ht.keep ht.live (fun _ hj => hj) rfl rfl rfl
  | failed | methodRun | methodCancel | nested | tick | thread =>
    exact ht.keep ht.live (fun _ hj => hj) rfl rfl rfl

theorem timed_run {tr : List (Component × Act)} (run : Transition.Run step loaded tr s) :
    s.Timed :=
  run.stateHolds Timed Timed.loaded fun _ _ _ hs h => step_timed h hs

/-- Every subscriber is an object that is not destroyed yet, the timer is set while
there are any, and there is never a second one. -/
theorem subscribers_live_polled (tr : List (Component × Act)) (s : Component)
    (run : Transition.Run step loaded tr s) :
    (∀ o, (s.subscribers.find? o).isSome → (s.objects o).isSome) ∧
      (s.subscribers.entries ≠ [] → s.timerID ≠ 0 ∧ s.timerID ∈ s.osTimers) ∧
      s.osTimers.length ≤ 1 := by
  have ht := timed_run run
  refine ⟨ht.live, fun hne => ?_, ?_⟩
  · obtain ⟨e, he⟩ := List.exists_mem_of_ne_nil _ hne
    have hid : s.timerID ≠ 0 := by
      intro h0
      have hnone := (ht.unset h0).2 e.1
      rw [Subscribers.find?_of_mem he] at hnone
      cases hnone
    refine ⟨hid, ?_⟩
    rw [ht.set hid]
    exact List.mem_singleton_self _
  · by_cases h0 : s.timerID = 0
    · rw [(ht.unset h0).1]
      exact Nat.zero_le 1
    · rw [ht.set h0]
      exact Nat.le_refl 1

/-- Two objects are subscribed, a third one is made only to be destroyed, and the
handler of the first one's `$completed` destroys the second. -/
theorem subscribers_live_polled_handler :
    ∃ tr s, Transition.replay step loaded [] (setUp 1 ++ setUp 2 ++ [.methodStart 1,
        .methodStart 2, .construct 3, .destroy 3] ++ prologue 0 0 ++ epilogue 0 0 [] ++
        [.timer, .main, .main, .main, .destroy 2]) = some (tr, s) ∧
      (s.subscribers.find? 1).isSome = true ∧ (s.objects 1).isSome = true ∧
      s.timerID ∈ s.osTimers := by
  have h : Transition.replay step loaded [] (setUp 1 ++ setUp 2 ++ [.methodStart 1,
    .methodStart 2, .construct 3, .destroy 3] ++ prologue 0 0 ++ epilogue 0 0 [] ++
    [.timer, .main, .main, .main, .destroy 2]) = some (_, _) := rfl
  have hall := subscribers_live_polled _ _ (Transition.replay_run .start h)
  exact ⟨_, _, h, rfl, hall.1 1 rfl, (hall.2.1 (List.cons_ne_nil _ _)).2⟩

end Component

end HttpBackground
