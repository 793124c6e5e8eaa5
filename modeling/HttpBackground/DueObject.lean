import HttpBackground.Subscription
import HttpBackground.SynchronousRun

/-!
# What a tick does about one object

The loop goes through the map in the order of the addresses, and Omnis code that
leaves an object alone can neither bring the loop past its entry nor back to it.
Where the worker is complete, the object is notified once.
-/
namespace HttpBackground

/-- The frame is still to lead to a call of `notify` on the object, or is one that
has not called back. -/
def Frame.ahead (o : ℕ) : Frame → Bool
  | .loop none => false
  | .loop (some it) => decide (it.key ≤ o)
  | .awaiting it | .notified it _ | .test it => decide (it.key < o)
  | .notifyComplete o' | .notifyResult o' | .notifyCancelled o' => o' == o
  | .handler _ _ => false

namespace Component

variable {s s' : Component} {o : ℕ}

/-- How many calls on the object are to come from the stack as it is. -/
def aheadCount (s : Component) (o : ℕ) : ℕ := s.stack.countP (Frame.ahead o)

/-- The next tick is to notify the object. -/
def Continues (s : Component) (o : ℕ) : Prop :=
  (s.subscribers.find? o).map Entry.next = some .kTimerContinue

theorem ahead_returned (ret : NextTimer) (rest : List Frame) (o : ℕ) :
    (returned ret rest).countP (Frame.ahead o) = rest.countP (Frame.ahead o) := by
  unfold returned
  split
  · rw [List.countP_cons, List.countP_cons]
    rfl
  · rfl

/-- Advancing from a key below the object's comes to the object's or stops before. -/
theorem ahead_after {k : ℕ} (hc : s.Continues o) :
    Frame.ahead o (.loop (s.subscribers.after k)) = decide (k < o) := by
  obtain ⟨e, he, -⟩ := Option.map_eq_some_iff.mp hc
  by_cases hk : k < o
  · obtain ⟨it, hit, hle⟩ := Subscribers.after_le he hk
    rw [hit]
    simp [Frame.ahead, hk, hle]
  · rw [decide_eq_false hk]
    cases hit : s.subscribers.after k with
    | none => rfl
    | some it =>
      have := (Subscribers.holds_after hit).2
      exact decide_eq_false (by omega)

/-- Beyond the object's key the loop only goes further. -/
theorem ahead_after_of_le {k : ℕ} (hk : o ≤ k) :
    Frame.ahead o (.loop (s.subscribers.after k)) = false := by
  cases hit : s.subscribers.after k with
  | none => rfl
  | some it =>
    have := (Subscribers.holds_after hit).2
    exact decide_eq_false (by omega)

/-- The number of calls to come only changes where one is made or decided against. -/
theorem mainStep_ahead (h : MainSteps s s') (hc : s.Continues o ∨ s.aheadCount o = 0)
    (htop : ∀ f rest, s.stack = f :: rest → f ≠ .notifyResult o ∧ f ≠ .notifyCancelled o) :
    s'.aheadCount o = s.aheadCount o := by
  have hloop : ∀ k rest, s.stack = .test k :: rest →
      Frame.ahead o (.loop (s.subscribers.after k.key)) = decide (k.key < o) := by
    intro k rest hs
    obtain hc | hzero := hc
    · exact ahead_after hc
    · have hpast : ¬ k.key < o := by
        intro hk
        simp [aheadCount, hs, Frame.ahead, hk] at hzero
      rw [decide_eq_false hpast]
      exact ahead_after_of_le (by omega)
  unfold aheadCount
  cases h with
  | loopEnd rest hs =>
    rw [hs, List.countP_cons]
    rfl
  | loopNotify it rest hs hit hn =>
    show (Frame.notifyComplete it.key :: .awaiting it :: rest).countP (Frame.ahead o) = _
    rw [hs]
    simp only [List.countP_cons, Frame.ahead, decide_eq_true_eq, beq_iff_eq]
    split_ifs <;> omega
  | loopSkip it rest hs hit hn =>
    have hne : it.key ≠ o ∨ s.aheadCount o = 0 := by
      refine hc.imp_left fun hc => ?_
      rintro rfl
      exact hn hc
    show (Frame.test it :: rest).countP (Frame.ahead o) = _
    rw [aheadCount, hs] at hne
    rw [hs]
    simp only [List.countP_cons, Frame.ahead, decide_eq_true_eq] at hne ⊢
    by_cases hk : it.key ≤ o
    · rw [if_pos hk] at hne ⊢
      rw [if_pos (by omega)]
    · rw [if_neg hk, if_neg (by omega)]
  | assign it ret rest hs hit =>
    show (Frame.test it :: rest).countP (Frame.ahead o) = _
    rw [hs, List.countP_cons, List.countP_cons]
    rfl
  | testStop it rest hs hit hn | testContinue it rest hs hit hn =>
    show (Frame.loop (s.subscribers.after it.key) :: rest).countP (Frame.ahead o) = _
    rw [hs, List.countP_cons, List.countP_cons, hloop it rest hs]
    rfl
  | isComplete o' W rest hs hW hcomplete | notComplete o' W rest hs hW hcomplete =>
    simp only [setStack, hs, List.countP_cons]
    rfl
  | completed o' W rest hs hW =>
    have hne : o' ≠ o := by
      rintro rfl
      exact (htop _ rest hs).1 rfl
    rw [hs]
    simp [setStack, Frame.ahead, hne]
  | canceled o' W rest hs hW hx =>
    have hne : o' ≠ o := by
      rintro rfl
      exact (htop _ rest hs).2 rfl
    rw [hs]
    simp [setStack, Frame.ahead, hne]
  | pending o' W rest hs hW hx =>
    have hne : o' ≠ o := by
      rintro rfl
      exact (htop _ rest hs).2 rfl
    show (returned .kTimerContinue rest).countP (Frame.ahead o) = _
    rw [ahead_returned, hs]
    simp [Frame.ahead, hne]
  | fault => rfl

theorem callsOn_main (htop : ∀ f rest, s.stack = f :: rest →
    f ≠ .notifyResult o ∧ f ≠ .notifyCancelled o) : s.callsOn .main o = [] := by
  cases hd : s.delivers .main with
  | none =>
    have hcalls : s.callsBack .main = none := hd
    simp [callsOn, hcalls]
  | some p =>
    obtain ⟨o', cb⟩ := p
    have hcalls : s.callsBack .main = some (o', cb) := hd
    have hne : o' ≠ o := by
      rintro rfl
      simp only [delivers] at hd
      split at hd
      case h_1 o'' rest hs =>
        obtain ⟨W, -, hcb⟩ := Option.map_eq_some_iff.mp hd
        cases hcb
        exact (htop _ rest hs).1 rfl
      case h_2 o'' rest hs =>
        obtain ⟨W, -, hcb⟩ := Option.bind_eq_some_iff.mp hd
        by_cases hx : W.cancelled = true
        · rw [if_pos hx] at hcb
          cases hcb
          exact (htop _ rest hs).2 rfl
        · rw [if_neg hx] at hcb
          cases hcb
      case h_3 => cases hd
    simp [callsOn, hcalls, hne]

theorem callsOn_of_spares {a : Act} (ha : a.spares o = true) (hm : a ≠ .main) :
    s.callsOn a o = [] := by
  have herror : ∀ (o' : ℕ) (name : StdString) (e : Except MethodError Component), o' ≠ o →
      s.callsBack a = errorOf o' name e → s.callsOn a o = [] := by
    intro o' name e hne hcalls
    rw [callsOn, hcalls]
    cases e with
    | ok s' => rfl
    | error e => exact if_neg hne
  cases a with
  | methodInitialize o' rowVal | methodRun o' r | methodStart o' | methodCancel o' =>
    exact herror o' _ _ (by simpa [Act.spares] using ha) rfl
  | main => exact absurd rfl hm
  | construct | destroy | timer | handlerReturn | thread => rfl

/-- A step that leaves the object alone and neither begins a tick nor makes or
decides against a call on it. -/
theorem step_ahead {a : Act} (h : step s a = some s') (ha : a.spares o = true)
    (htick : a = .timer → s.timerProcessing = true)
    (hc : s.Continues o ∨ s.aheadCount o = 0)
    (htop : a = .main → ∀ f rest, s.stack = f :: rest →
      f ≠ .notifyResult o ∧ f ≠ .notifyCancelled o) :
    s'.aheadCount o = s.aheadCount o ∧ s.callsOn a o = [] := by
  cases (step_cases h).2 with
  | main s' h =>
    exact ⟨mainStep_ahead (mainStep_cases h) hc (htop rfl), callsOn_main (htop rfl)⟩
  | methodRun o' w result hi ho =>
    have hne : o' ≠ o := by simpa [Act.spares] using ha
    refine ⟨?_, callsOn_of_spares ha (by simp)⟩
    show (Frame.notifyComplete o' :: s.stack).countP (Frame.ahead o) = _
    rw [List.countP_cons]
    simp [aheadCount, Frame.ahead, hne]
  | handlerReturn s' h =>
    refine ⟨?_, rfl⟩
    obtain ⟨o', cb, rest, hs, ⟨-, rfl⟩ | ⟨-, rfl⟩⟩ := handlerReturn_cases h
    · show rest.countP (Frame.ahead o) = _
      rw [aheadCount, hs, List.countP_cons]
      rfl
    · show (returned .kTimerStop rest).countP (Frame.ahead o) = _
      rw [ahead_returned, aheadCount, hs, List.countP_cons]
      rfl
  | failed a o' name text hi hr =>
    refine ⟨List.countP_cons_of_neg (by simp [Frame.ahead]), callsOn_of_spares ha ?_⟩
    rintro rfl
    exact hr
  | destroy o' hi ho =>
    refine ⟨?_, rfl⟩
    rw [destruct_fields]
    rfl
  | methodInitialize o' rowVal params hi ho hrow =>
    refine ⟨?_, callsOn_of_spares ha (by simp)⟩
    rw [makeWorker_fields]
    rfl
  | methodStart o' w hi ho =>
    refine ⟨?_, callsOn_of_spares ha (by simp)⟩
    show (s.subscribe o').stack.countP _ = _
    rw [subscribe_fields]
    rfl
  | methodCancel o' w hi ho => exact ⟨rfl, callsOn_of_spares ha (by simp)⟩
  | tick hi ht =>
    rw [htick rfl] at ht
    cases ht
  | construct | nested | thread => exact ⟨rfl, rfl⟩

/-- Nor does it touch the object's entry, if the loop is not about to assign to it. -/
theorem step_continues {a : Act} (h : step s a = some s') (ha : a.spares o = true)
    (hassign : ∀ it ret rest, s.stack = .notified it ret :: rest → it.key ≠ o)
    (hc : s.Continues o) : s'.Continues o := by
  cases (step_cases h).2 with
  | destroy o' hi ho =>
    have hne : o' ≠ o := by simpa [Act.spares] using ha
    rw [destruct_fields]
    show ((s.subscribers.erase o').find? o).map Entry.next = _
    rw [Subscribers.find?_erase, if_neg (Ne.symm hne)]
    exact hc
  | methodStart o' w hi ho =>
    have hne : o' ≠ o := by simpa [Act.spares] using ha
    show ((s.subscribe o').subscribers.find? o).map Entry.next = _
    rw [subscribe_fields]
    show ((s.subscribers.subscribe o').find? o).map Entry.next = _
    rw [Subscribers.find?_subscribe, if_neg (Ne.symm hne)]
    exact hc
  | methodInitialize o' rowVal params hi ho hrow =>
    rw [makeWorker_fields]
    exact hc
  | main s' h =>
    cases mainStep_cases h with
    | assign it ret rest hs hit =>
      show ((s.subscribers.setNext it ret).find? o).map Entry.next = _
      rw [Subscribers.find?_setNext, if_neg (Ne.symm (hassign it ret rest hs))]
      exact hc
    | testStop it rest hs hit hn =>
      have hne : o ≠ it.key := by
        rintro rfl
        rw [hc] at hn
        cases hn
      show ((s.subscribers.erase it.key).find? o).map Entry.next = _
      rw [Subscribers.find?_erase, if_neg hne]
      exact hc
    | loopEnd | loopNotify | loopSkip | testContinue | isComplete | notComplete | completed
    | canceled | pending | fault => exact hc
  | handlerReturn s' h =>
    obtain ⟨o', cb, rest, -, ⟨-, rfl⟩ | ⟨-, rfl⟩⟩ := handlerReturn_cases h
    · exact hc
    · exact hc
  | construct | failed | methodRun | methodCancel | nested | tick | thread => exact hc

/-- The object is subscribed, and the tick in progress has one call on it to come. -/
structure Due (s : Component) (o : ℕ) : Prop where
  continues : s.Continues o
  ahead : s.aheadCount o = 1
  uncancelled : ∀ f ∈ s.stack, f ≠ .notifyCancelled o

theorem mem_returned {ret : NextTimer} {rest : List Frame} {f : Frame}
    (h : f ∈ returned ret rest) : f ∈ rest ∨ ∃ it, f = .notified it ret := by
  unfold returned at h
  split at h
  · next it rest' =>
    obtain rfl | h := List.mem_cons.mp h
    · exact .inr ⟨it, rfl⟩
    · exact .inl (List.mem_cons_of_mem _ h)
  · exact .inl h

theorem mainStep_uncancelled {W : Worker} (h : MainSteps s s') (hW : s.worker? o = some W)
    (hc : W.complete = true) (hs : ∀ f ∈ s.stack, f ≠ .notifyCancelled o) :
    ∀ f ∈ s'.stack, f ≠ .notifyCancelled o := by
  have hrest : ∀ g rest, s.stack = g :: rest → ∀ f ∈ rest, f ≠ .notifyCancelled o :=
    fun g rest hst f hf => hs f (hst ▸ List.mem_cons_of_mem _ hf)
  have hcons : ∀ g rest, s.stack = g :: rest → ∀ f', f' ≠ .notifyCancelled o →
      ∀ f ∈ f' :: rest, f ≠ .notifyCancelled o :=
    fun g rest hst f' hf' => List.forall_mem_cons.mpr ⟨hf', hrest g rest hst⟩
  cases h with
  | loopEnd rest hst => exact hrest _ rest hst
  | loopNotify it rest hst hit hn =>
    exact List.forall_mem_cons.mpr ⟨by simp, hcons _ rest hst _ (by simp)⟩
  | notComplete o' W' rest hst hW' hc' =>
    refine hcons _ rest hst _ ?_
    simp only [ne_eq, Frame.notifyCancelled.injEq]
    rintro rfl
    rw [hW, Option.some.injEq] at hW'
    rw [← hW', hc] at hc'
    cases hc'
  | pending o' W' rest hst hW' hx =>
    intro f hf
    obtain hf | ⟨it, rfl⟩ := mem_returned hf
    · exact hrest _ rest hst f hf
    · simp
  | loopSkip it rest hst | assign it ret rest hst | testStop it rest hst
  | testContinue it rest hst | isComplete o' W' rest hst | completed o' W' rest hst
  | canceled o' W' rest hst => exact hcons _ rest hst _ (by simp)
  | fault => exact hs

theorem step_uncancelled {a : Act} {W : Worker} (h : step s a = some s')
    (hW : s.worker? o = some W) (hc : W.complete = true)
    (hs : ∀ f ∈ s.stack, f ≠ .notifyCancelled o) : ∀ f ∈ s'.stack, f ≠ .notifyCancelled o := by
  have hpush : ∀ g, g ≠ .notifyCancelled o → ∀ f ∈ g :: s.stack, f ≠ .notifyCancelled o :=
    fun g hg => List.forall_mem_cons.mpr ⟨hg, hs⟩
  cases (step_cases h).2 with
  | main s' h => exact mainStep_uncancelled (mainStep_cases h) hW hc hs
  | handlerReturn s' h =>
    obtain ⟨o', cb, rest, hst, ⟨-, rfl⟩ | ⟨-, rfl⟩⟩ := handlerReturn_cases h
    · exact fun f hf => hs f (hst ▸ List.mem_cons_of_mem _ hf)
    · intro f hf
      obtain hf | ⟨it, rfl⟩ := mem_returned hf
      · exact hs f (hst ▸ List.mem_cons_of_mem _ hf)
      · simp
  | destroy o' hi ho =>
    rw [destruct_fields]
    exact hs
  | methodInitialize o' rowVal params hi ho hrow =>
    rw [makeWorker_fields]
    exact hs
  | methodStart o' w hi ho =>
    show ∀ f ∈ (s.subscribe o').stack, f ≠ .notifyCancelled o
    rw [subscribe_fields]
    exact hs
  | failed | methodRun | tick => exact hpush _ (by simp)
  | construct | methodCancel | nested | thread => exact hs

/-- One step of a tick: the object's turn is still to come, or it gets its one call. -/
theorem due_step {a : Act} {W : Worker} (h : step s a = some s') (ha : a.spares o = true)
    (hbusy : s.timerProcessing = true) (hw : Walk s.subscribers s.timerProcessing s.stack)
    (hW : s.worker? o = some W) (hc : W.complete = true) (hd : s.Due o) :
    s'.Due o ∧ s.callsOn a o = [] ∨
      s'.aheadCount o = 0 ∧ s.callsOn a o = [.completed (readResult W.result)] := by
  by_cases hturn : a = .main ∧ ∃ rest, s.stack = .notifyResult o :: rest
  · right
    obtain ⟨rfl, rest, hs⟩ := hturn
    have hstep : s' = s.setStack (.handler o (.completed (readResult W.result)) :: rest) := by
      cases (step_cases h).2 with
      | main s' h =>
        simp only [mainStep, hs, hW, Option.some.injEq] at h
        exact h.symm
      | failed _ _ _ _ _ hr => exact hr.elim
    have hcalls : s.callsBack .main = some (o, .completed (readResult W.result)) := by
      simp [callsBack, delivers, hs, hW]
    have hcount := hd.ahead
    rw [aheadCount, hs, List.countP_cons] at hcount
    refine ⟨?_, by simp [callsOn, hcalls]⟩
    rw [hstep]
    show (Frame.handler o _ :: rest).countP (Frame.ahead o) = 0
    rw [List.countP_cons]
    simp only [Frame.ahead, beq_self_eq_true, if_true] at hcount ⊢
    simpa using hcount
  · left
    have htop : a = .main → ∀ f rest, s.stack = f :: rest →
        f ≠ .notifyResult o ∧ f ≠ .notifyCancelled o := by
      intro hm f rest hs
      refine ⟨?_, hd.uncancelled f (hs ▸ List.mem_cons_self)⟩
      rintro rfl
      exact hturn ⟨hm, rest, hs⟩
    obtain ⟨hcount, hcalls⟩ := step_ahead h ha (fun _ => hbusy) (.inl hd.continues) htop
    refine ⟨⟨?_, hcount.trans hd.ahead, step_uncancelled h hW hc hd.uncancelled⟩, hcalls⟩
    refine step_continues h ha (fun it ret rest hs => ?_) hd.continues
    -- a loop that has the object's value back has no call on it to come
    rintro rfl
    have hcount := hd.ahead
    rw [hs] at hw
    have hrest : rest.countP (Frame.ahead it.key) = 0 := by
      rw [List.countP_eq_zero]
      intro f hf
      have hwait := hw.tail_waits f hf
      have hiter := hw.rest_iter rfl f hf
      cases f <;> simp [Frame.waits, Frame.iter?, Frame.ahead] at hwait hiter ⊢
    rw [aheadCount, hs, List.countP_cons, hrest] at hcount
    simp [Frame.ahead] at hcount

end Component

end HttpBackground
