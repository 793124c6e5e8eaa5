import HttpBackground.TimerLife

/-!
# The timer and the last subscriber

`unsubscribe` kills the timer when it finds the map empty afterwards. The loop of
`timerMsgProc` erases entries as well and leaves the timer alone, so whether the timer
runs while nobody is subscribed depends on which of the two was last.
-/
namespace HttpBackground

namespace Subscribers

variable {m : Subscribers} {o : ℕ}

theorem entries_ne_nil (h : (m.find? o).isSome) : m.entries ≠ [] := by
  intro hnil
  rw [find?, hnil] at h
  cases h

end Subscribers

namespace Component

variable {s s' : Component}

/-- The loop is about to erase the only entry. -/
def erasesLast (s : Component) : Bool :=
  match s.stack with
  | .test it :: _ =>
    s.subscribers.holds it && (s.subscribers.find? it.key).map Entry.next == some .kTimerStop &&
      (s.subscribers.erase it.key).entries.isEmpty
  | _ => false

/-- No tick erases the last entry. -/
def SparesLast (s : Component) : Act → Prop
  | .main => s.erasesLast = false
  | _ => True

instance (s : Component) : (a : Act) → Decidable (s.SparesLast a)
  | .main => inferInstanceAs (Decidable (s.erasesLast = false))
  | .construct _ | .destroy _ | .methodInitialize _ _ | .methodRun _ _ | .methodStart _
  | .methodCancel _ | .timer | .handlerReturn | .thread _ _ _ => isTrue trivial

/-- Whether a tick has erased the last entry and no destructor has found the map empty
since: after a step, given whether it was so before. -/
def leftRunningAfter (s : Component) (a : Act) (before : Bool) : Bool :=
  match a with
  | .main => s.erasesLast || before
  | .destroy o => before && !(s.subscribers.erase o).entries.isEmpty
  | _ => before

def leftRunning : List (Component × Act) → Bool
  | [] => false
  | (s, a) :: tr => s.leftRunningAfter a (leftRunning tr)

/-- While nobody is subscribed, the timer is set where a tick has left it so. -/
def LeftSet (s : Component) (left : Bool) : Prop :=
  s.subscribers.entries = [] → (s.timerID ≠ 0 ↔ left = true)

namespace LeftSet

variable {left : Bool}

theorem keep (h : s.LeftSet left) (hsub : s'.subscribers = s.subscribers)
    (hid : s'.timerID = s.timerID) : s'.LeftSet left := by
  intro hempty
  rw [hsub] at hempty
  rw [hid]
  exact h hempty

theorem of_isSome {o : ℕ} (ho : (s.subscribers.find? o).isSome) : s.LeftSet left :=
  fun hempty => absurd hempty (Subscribers.entries_ne_nil ho)

/-- The destructor kills the timer if the map is empty after it. -/
theorem destruct (o : ℕ) :
    (s.destruct o).LeftSet (left && !(s.subscribers.erase o).entries.isEmpty) := by
  intro hempty
  rw [destruct_fields] at hempty ⊢
  have hnil : (s.subscribers.erase o).entries.isEmpty = true := List.isEmpty_iff.mpr hempty
  have hkilled : (s.unsubscribe o).timerID = 0 := by
    unfold Component.unsubscribe
    rw [if_pos hnil]
    rfl
  show (s.unsubscribe o).timerID ≠ 0 ↔ _
  rw [hkilled, hnil]
  simp

end LeftSet

theorem mainStep_timerID (h : MainSteps s s') : s'.timerID = s.timerID := by
  cases h <;> rfl

/-- The entry about to go is there, so the timer is set. -/
theorem timerID_of_erasesLast (ht : s.Timed) (hlast : s.erasesLast = true) : s.timerID ≠ 0 := by
  unfold erasesLast at hlast
  split at hlast
  · next it rest hs =>
    simp only [Bool.and_eq_true] at hlast
    obtain ⟨e, he, -⟩ := Subscribers.holds_iff.mp hlast.1.1
    intro h0
    rw [(ht.unset h0).2 it.key] at he
    cases he
  · cases hlast

theorem mainStep_leftSet {left : Bool} (h : MainSteps s s') (ht : s.Timed)
    (hl : s.LeftSet left) : s'.LeftSet (s.erasesLast || left) := by
  by_cases hlast : s.erasesLast = true
  · intro _
    rw [hlast, mainStep_timerID h]
    exact iff_of_true (timerID_of_erasesLast ht hlast) rfl
  · have hspared : s.erasesLast = false := by simpa using hlast
    rw [hspared, Bool.false_or]
    cases h with
    | assign it ret rest hs hit =>
      have hsome : ((s.subscribers.setNext it ret).find? it.key).isSome := by
        rw [Subscribers.find?_setNext, if_pos rfl]
        rfl
      exact .of_isSome hsome
    | testStop it rest hs hit hn =>
      intro hempty
      replace hempty : (s.subscribers.erase it.key).entries = [] := hempty
      exact absurd (by simp [erasesLast, hs, hit, hn, hempty]) hlast
    | loopEnd | loopNotify | loopSkip | testContinue | isComplete | notComplete | completed
    | canceled | pending | fault => exact hl.keep rfl rfl

theorem step_leftSet {a : Act} {left : Bool} (h : step s a = some s') (ht : s.Timed)
    (hl : s.LeftSet left) : s'.LeftSet (s.leftRunningAfter a left) := by
  cases (step_cases h).2 with
  | destroy o hi ho => exact .destruct o
  | failed a o name text hi hr =>
    have hsame : s.leftRunningAfter a left = left := by
      cases a with
      | methodInitialize | methodRun | methodStart | methodCancel => rfl
      | construct | destroy | timer | main | handlerReturn | thread => exact hr.elim
    rw [hsame]
    exact hl.keep rfl rfl
  | methodInitialize o rowVal params hi ho hrow =>
    rw [makeWorker_fields]
    exact hl.keep rfl rfl
  | methodStart o w hi ho =>
    have hsome : ((s.subscribe o).subscribers.find? o).isSome := by
      rw [subscribe_fields]
      show ((s.subscribers.subscribe o).find? o).isSome
      rw [Subscribers.find?_subscribe, if_pos rfl]
      rfl
    exact .of_isSome hsome
  | main s' h => exact mainStep_leftSet (mainStep_cases h) ht hl
  | handlerReturn s' h =>
    obtain ⟨o, cb, rest, -, ⟨-, rfl⟩ | ⟨-, rfl⟩⟩ := handlerReturn_cases h
    · exact hl.keep rfl rfl
    · exact hl.keep rfl rfl
  | construct | methodRun | methodCancel | nested | tick | thread => exact hl.keep rfl rfl

theorem leftSet_run {tr : List (Component × Act)} (run : Transition.Run step loaded tr s) :
    s.LeftSet (leftRunning tr) := by
  refine run.holds (fun tr s => s.LeftSet (leftRunning tr)) ?_
    fun tr s a s' run hl h => step_leftSet h (timed_run run) hl
  intro _
  exact iff_of_false (fun hne => hne rfl) Bool.false_ne_true

/-- Where no tick takes the last entry away, none has. -/
theorem leftRunning_of_sparesLast {tr : List (Component × Act)}
    (hok : Transition.Always SparesLast tr) : leftRunning tr = false := by
  induction tr with
  | nil => rfl
  | cons p tr ih =>
    obtain ⟨s, a⟩ := p
    have hbefore := ih hok.tail
    cases a with
    | main =>
      have hspared : s.erasesLast = false := hok.head
      show (s.erasesLast || leftRunning tr) = false
      rw [hspared, hbefore]
      rfl
    | destroy o =>
      show (leftRunning tr && _) = false
      rw [hbefore, Bool.false_and]
    | construct | methodInitialize | methodRun | methodStart | methodCancel | timer
    | handlerReturn | thread => exact hbefore

/-- In every run whose ticks do not erase the last entry, no timer runs in any state
where nobody is subscribed. In any run, in such a state, none does exactly if a
destructor has found the map empty since a tick last erased its last entry. -/
theorem timer_stops (tr : List (Component × Act)) (s : Component)
    (run : Transition.Run step loaded tr s) :
    (Transition.Always SparesLast tr → s.subscribers.entries = [] →
        s.timerID = 0 ∧ s.osTimers = []) ∧
      (s.subscribers.entries = [] →
        (s.timerID = 0 ∧ s.osTimers = [] ↔ leftRunning tr = false)) := by
  have hiff : s.subscribers.entries = [] →
      (s.timerID = 0 ∧ s.osTimers = [] ↔ leftRunning tr = false) := by
    intro hempty
    have hleft := leftSet_run run hempty
    constructor
    · rintro ⟨h0, -⟩
      by_contra hne
      exact hleft.mpr (by simpa using hne) h0
    · intro hfalse
      have h0 : s.timerID = 0 := by
        by_contra hne
        have htrue := hleft.mp hne
        rw [hfalse] at htrue
        cases htrue
      exact ⟨h0, ((timed_run run).unset h0).1⟩
  exact ⟨fun hok hempty => (hiff hempty).mpr (leftRunning_of_sparesLast hok), hiff⟩

/-- A subscribed object is destroyed. -/
theorem timer_stops_destroyed :
    ∃ tr s, Transition.replay step loaded [] (setUp 1 ++ [.methodStart 1, .destroy 1]) =
        some (tr, s) ∧ s.subscribers.entries = [] ∧ s.timerID = 0 ∧ s.osTimers = [] := by
  have h : Transition.replay step loaded [] (setUp 1 ++ [.methodStart 1, .destroy 1]) =
    some (_, _) := rfl
  exact ⟨_, _, h, rfl, (timer_stops _ _ (Transition.replay_run .start h)).1 (by decide) rfl⟩

/-- The only subscriber is done, and the tick that tells it so leaves the timer running. -/
theorem timer_left_running :
    ¬ ∀ (tr : List (Component × Act)) (s : Component), Transition.Run step loaded tr s →
      s.stack = [] → s.subscribers.entries = [] → s.timerID = 0 ∧ s.osTimers = [] := by
  intro hall
  have h : Transition.replay step loaded [] (setUp 1 ++ [.methodStart 1] ++ prologue 0 0 ++
    epilogue 0 0 [] ++ [.timer, .main, .main, .main, .handlerReturn, .main, .main, .main]) =
      some (_, _) := rfl
  have hstopped := hall _ _ (Transition.replay_run .start h) rfl rfl
  exact absurd hstopped.1 (by decide)

end Component

end HttpBackground
