import HttpBackground.Ownership
import HttpBackground.TimerLoop

/-!
# Whether a started object is polled

A tick takes the value that `notify` returns as its last word on an object, and
erases the entry for it after a callback. A `$start` made by that very callback
has subscribed the object in the meantime, and the erasure takes that away.
-/
namespace HttpBackground

/-- The object of the `notify` a frame belongs to. -/
def Frame.notifyOf : Frame → Option ℕ
  | .notifyComplete o | .notifyResult o | .notifyCancelled o => some o
  | _ => none

namespace Component

variable {s s' : Component}

/-- Whether the last `$start` of an object is still without its callback after a
step, given whether it was before. -/
def pendingAfter (s : Component) (a : Act) (o : ℕ) (before : Bool) : Bool :=
  match a with
  | .methodStart o' => if o' = o ∧ (s.workerOf o).isSome then true else before
  | .construct o' | .destroy o' => if o' = o then false else before
  | _ => if (s.delivers a).map Prod.fst = some o then false else before

/-- The most recent successful `$start` of the object has not been followed by a
callback with its outcome. -/
def pendingStart (o : ℕ) : List (Component × Act) → Bool
  | [] => false
  | (s, a) :: tr => s.pendingAfter a o (pendingStart o tr)

/-- No `$start` is made on an object from inside its own `notify`. -/
def RestartsOutsideNotify (s : Component) : Act → Prop
  | .methodStart o => s.notifying o = false
  | _ => True

instance (s : Component) : (a : Act) → Decidable (s.RestartsOutsideNotify a)
  | .methodStart o => inferInstanceAs (Decidable (s.notifying o = false))
  | .construct _ | .destroy _ | .methodInitialize _ _ | .methodRun _ _ | .methodCancel _
  | .timer | .main | .handlerReturn | .thread _ _ _ => isTrue trivial

theorem pendingAfter_le {a : Act} {o : ℕ} {before : Bool} (ha : a ≠ .methodStart o)
    (h : s.pendingAfter a o before = true) : before = true := by
  cases a with
  | methodStart o' =>
    have hne : ¬ (o' = o ∧ (s.workerOf o).isSome = true) := by
      rintro ⟨rfl, -⟩
      exact ha rfl
    simpa only [pendingAfter, if_neg hne] using h
  | construct o' | destroy o' =>
    by_cases ho : o' = o
    · simp [pendingAfter, ho] at h
    · simpa only [pendingAfter, if_neg ho] using h
  | methodInitialize | methodRun | methodCancel | timer | main | handlerReturn | thread =>
    simp only [pendingAfter] at h
    split at h
    · cases h
    · exact h

theorem pendingAfter_of_delivers {a : Act} {o : ℕ} {cb : Callback} {before : Bool}
    (h : s.delivers a = some (o, cb)) : s.pendingAfter a o before = false := by
  cases a with
  | main =>
    show (if (s.delivers .main).map Prod.fst = some o then false else before) = false
    rw [h]
    simp
  | _ => cases h

end Component

/-- Every object with a pending start is subscribed, and a call of `notify` that
has made its callback leaves its object without one. -/
structure Polled (pending : ℕ → Bool) (m : Subscribers) (stack : List Frame) : Prop where
  subscribed : ∀ o, pending o = true → (m.find? o).map Entry.next = some .kTimerContinue
  awaiting : ∀ it, .awaiting it ∈ stack → pending it.key = false ∨
    ∃ f rest, stack = f :: .awaiting it :: rest ∧ f.notifyOf = some it.key
  stopped : ∀ it rest, stack = .notified it .kTimerStop :: rest → pending it.key = false

namespace Polled

variable {P P' : ℕ → Bool} {m m' : Subscribers} {f g : Frame} {stack rest : List Frame}

/-- Less is pending. -/
theorem mono (h : Polled P m stack) (hP : ∀ o, P' o = true → P o = true) : Polled P' m stack := by
  have hfalse : ∀ o, P o = false → P' o = false := by
    intro o ho
    by_contra hne
    have := hP o (by simpa using hne)
    rw [ho] at this
    cases this
  exact ⟨fun o ho => h.subscribed o (hP o ho),
    fun it hit => (h.awaiting it hit).imp_left (hfalse it.key),
    fun it rest hs => hfalse it.key (h.stopped it rest hs)⟩

/-- Below a frame that is not a call of `notify`, every callback has been made. -/
theorem settled (h : Polled P m (f :: rest)) (hf : f.notifyOf = none) :
    ∀ it, .awaiting it ∈ rest → P it.key = false := by
  intro it hit
  obtain hP | ⟨f', rest', hs, hf'⟩ := h.awaiting it (List.mem_cons_of_mem _ hit)
  · exact hP
  · cases hs
    rw [hf] at hf'
    cases hf'

/-- A call that is not one of `notify` is entered, or the frames below it stay. -/
theorem push (h : Polled P m stack) (hs : ∀ it, .awaiting it ∈ stack → P it.key = false)
    (hg : ∀ it ret, g ≠ .notified it ret) (hga : ∀ it, g ≠ .awaiting it) :
    Polled P m (g :: stack) where
  subscribed := h.subscribed
  awaiting it hit := by
    obtain rfl | hit := List.mem_cons.mp hit
    · exact absurd rfl (hga it)
    · exact .inl (hs it hit)
  stopped it rest hgs := by
    cases hgs
    exact absurd rfl (hg it .kTimerStop)

/-- The map changes but keeps what is pending subscribed. -/
theorem keep (h : Polled P m stack)
    (hm : ∀ o, P o = true → (m'.find? o).map Entry.next = some .kTimerContinue) :
    Polled P m' stack := ⟨hm, h.awaiting, h.stopped⟩

/-- The innermost call goes on. -/
theorem replace (h : Polled P m (f :: rest)) (hf : f.notifyOf = none)
    (hg : ∀ it, g ≠ .notified it .kTimerStop) (hga : ∀ it, g ≠ .awaiting it) :
    Polled P m (g :: rest) where
  subscribed := h.subscribed
  awaiting it hit := by
    obtain rfl | hit := List.mem_cons.mp hit
    · exact absurd rfl (hga it)
    · exact .inl (h.settled hf it hit)
  stopped it rest hgs := by
    cases hgs
    exact absurd rfl (hg it)

/-- The next statement of `notify`. -/
theorem notify (h : Polled P m (f :: rest)) (hg : g.notifyOf = f.notifyOf)
    (hgn : ∀ it, g ≠ .notified it .kTimerStop) (hga : ∀ it, g ≠ .awaiting it) :
    Polled P m (g :: rest) where
  subscribed := h.subscribed
  awaiting it hit := by
    obtain rfl | hit := List.mem_cons.mp hit
    · exact absurd rfl (hga it)
    · obtain hP | ⟨f', rest', hs, hf'⟩ := h.awaiting it (List.mem_cons_of_mem _ hit)
      · exact .inl hP
      · cases hs
        exact .inr ⟨g, rest', rfl, hg ▸ hf'⟩
  stopped it rest hgs := by
    cases hgs
    exact absurd rfl (hgn it)

/-- `notify` makes its callback, with which its object has nothing pending any more. -/
theorem callback (h : Polled P m (f :: rest)) {o : ℕ} {cb : Callback} (hf : f.notifyOf = some o)
    (hP : ∀ j, P' j = true → P j = true) (ho : P' o = false) :
    Polled P' m (.handler o cb :: rest) where
  subscribed j hj := h.subscribed j (hP j hj)
  awaiting it hit := by
    obtain hit | hit := List.mem_cons.mp hit
    · cases hit
    · obtain hP' | ⟨f', rest', hs, hf'⟩ := (h.mono hP).awaiting it (List.mem_cons_of_mem _ hit)
      · exact .inl hP'
      · cases hs
        rw [hf, Option.some.injEq] at hf'
        exact .inl (hf' ▸ ho)
  stopped it rest hs := by cases hs

/-- A call other than `notify` returns to one that is not a loop at work. -/
theorem pop (h : Polled P m (f :: rest)) (hf : f.notifyOf = none)
    (hw : ∀ g ∈ rest, g.waits = true) : Polled P m rest where
  subscribed := h.subscribed
  awaiting it hit := .inl (h.settled hf it hit)
  stopped it rest' hs := by
    have := hw (.notified it .kTimerStop) (hs ▸ List.mem_cons_self)
    cases this

/-- `notify` returns, to the loop with `kTimerStop` only after its callback. -/
theorem returned (h : Polled P m (f :: rest)) {busy : Bool} (hw : Walk m busy (f :: rest))
    (hf : f.ofTick = false) {ret : NextTimer} (hret : ret = .kTimerStop → f.notifyOf = none) :
    Polled P m (Component.returned ret rest) := by
  unfold Component.returned
  split
  · next it rest' =>
    -- the loop that gets the value back is the only one
    have hother : ∀ it', .awaiting it' ∉ rest' := by
      intro it' hit
      have := (hw.pop hf).rest_iter rfl _ hit
      cases this
    refine ⟨h.subscribed, fun it' hit => ?_, fun it' rest'' hs => ?_⟩
    · obtain hit | hit := List.mem_cons.mp hit
      · cases hit
      · exact absurd hit (hother it')
    · cases hs
      exact h.settled (hret rfl) it List.mem_cons_self
  · next hne =>
    refine ⟨h.subscribed, fun it hit => ?_, fun it rest' hs => ?_⟩
    · obtain hP | ⟨f', rest', hs, -⟩ := h.awaiting it (List.mem_cons_of_mem _ hit)
      · exact .inl hP
      · cases hs
        exact absurd rfl (hne it rest')
    · have := hw.tail_waits (.notified it .kTimerStop) (hs ▸ List.mem_cons_self)
      cases this

end Polled

namespace Component

variable {s s' : Component} {P : ℕ → Bool}

theorem pendingAfter_of_refuses {a : Act} {o : ℕ} {before : Bool} (ha : s.refuses a)
    (h : s.pendingAfter a o before = true) : before = true := by
  by_cases hs : a = .methodStart o
  · subst hs
    have hno : s.workerOf o = none := ha
    simpa [pendingAfter, hno] using h
  · exact pendingAfter_le hs h

/-- While Omnis is in control, every call of `notify` below has made its callback. -/
theorem Polled.idle_settled {m : Subscribers} (h : Polled P m s.stack) (hi : s.idle = true) :
    ∀ it, .awaiting it ∈ s.stack → P it.key = false := by
  unfold idle at hi
  split at hi
  · next hs =>
    rw [hs]
    intro it hit
    cases hit
  · next o cb rest hs =>
    rw [hs] at h ⊢
    intro it hit
    obtain hit | hit := List.mem_cons.mp hit
    · cases hit
    · exact h.settled rfl it hit
  · cases hi

theorem mainStep_polled {P' : ℕ → Bool} (h : MainSteps s s')
    (hw : Walk s.subscribers s.timerProcessing s.stack) (hp : Polled P s.subscribers s.stack)
    (hP : ∀ o, P' o = true → P o = true)
    (hd : ∀ o cb, s.delivers .main = some (o, cb) → P' o = false) :
    Polled P' s'.subscribers s'.stack := by
  have hp' := hp.mono hP
  cases h with
  | loopEnd rest hs =>
    rw [hs] at hw hp'
    exact hp'.pop rfl hw.tail_waits
  | loopNotify it rest hs hit hn =>
    rw [hs] at hp'
    refine ⟨hp'.subscribed, fun it' hit' => ?_, fun it' rest' hs' => by cases hs'⟩
    obtain hit' | hit' := List.mem_cons.mp hit'
    · cases hit'
    · obtain hit' | hit' := List.mem_cons.mp hit'
      · cases hit'
        exact .inr ⟨_, rest, rfl, rfl⟩
      · exact .inl (hp'.settled rfl it' hit')
  | loopSkip it rest hs hit =>
    rw [hs] at hp'
    exact hp'.replace rfl (by simp) (by simp)
  | assign it ret rest hs hit =>
    rw [hs] at hp'
    have hnext : Polled P' s.subscribers (.test it :: rest) := hp'.replace rfl (by simp) (by simp)
    refine hnext.keep fun o ho => ?_
    show ((s.subscribers.setNext it ret).find? o).map Entry.next = _
    rw [Subscribers.find?_setNext]
    by_cases hk : o = it.key
    · rw [if_pos hk]
      cases ret with
      | kTimerContinue => rfl
      | kTimerStop =>
        rw [hk, hp'.stopped it rest rfl] at ho
        cases ho
    · rw [if_neg hk]
      exact hp'.subscribed o ho
  | testStop it rest hs hit hn =>
    rw [hs] at hp'
    have hnext : Polled P' s.subscribers (.loop (s.subscribers.after it.key) :: rest) :=
      hp'.replace rfl (by simp) (by simp)
    refine hnext.keep fun o ho => ?_
    have hsub := hp'.subscribed o ho
    have hk : o ≠ it.key := by
      rintro rfl
      rw [hn] at hsub
      cases hsub
    show ((s.subscribers.erase it.key).find? o).map Entry.next = _
    rw [Subscribers.find?_erase, if_neg hk]
    exact hsub
  | testContinue it rest hs hit =>
    rw [hs] at hp'
    exact hp'.replace rfl (by simp) (by simp)
  | isComplete o w rest hs | notComplete o w rest hs =>
    rw [hs] at hp'
    exact hp'.notify rfl (by simp) (by simp)
  | completed o w rest hs hwk =>
    have ho : P' o = false := hd o (.completed (readResult w.result)) (by simp [delivers, hs, hwk])
    rw [hs] at hp
    exact hp.callback rfl hP ho
  | canceled o w rest hs hwk hc =>
    have ho : P' o = false := hd o .canceled (by simp [delivers, hs, hwk, hc])
    rw [hs] at hp
    exact hp.callback rfl hP ho
  | pending o w rest hs hwk hc =>
    rw [hs] at hw hp'
    exact hp'.returned hw rfl (by simp)
  | fault => exact hp'

theorem step_polled {a : Act} (h : step s a = some s') (hok : s.RestartsOutsideNotify a)
    (hw : Walk s.subscribers s.timerProcessing s.stack)
    (hp : Polled P s.subscribers s.stack) :
    Polled (fun o => s.pendingAfter a o (P o)) s'.subscribers s'.stack := by
  have hmono : (∀ o, a ≠ .methodStart o) →
      Polled (fun o => s.pendingAfter a o (P o)) s.subscribers s.stack :=
    fun ha => hp.mono fun o ho => pendingAfter_le (ha o) ho
  cases (step_cases h).2 with
  | destroy o hi ho =>
    have hp' := hmono (by simp)
    rw [destruct_fields]
    refine hp'.keep fun j hj => ?_
    have hne : j ≠ o := by
      rintro rfl
      simp [pendingAfter] at hj
    rw [Subscribers.find?_erase, if_neg hne]
    exact hp'.subscribed j hj
  | failed a o name text hi hr =>
    have hp' : Polled (fun j => s.pendingAfter a j (P j)) s.subscribers s.stack :=
      hp.mono fun j hj => pendingAfter_of_refuses hr hj
    exact hp'.push (Polled.idle_settled hp' hi) (by simp) (by simp)
  | methodInitialize o rowVal params hi ho hrow =>
    rw [makeWorker_fields]
    exact hmono (by simp)
  | methodRun o w result hi ho =>
    have hp' := hmono (by simp)
    exact hp'.push (Polled.idle_settled hp' hi) (by simp) (by simp)
  | methodStart o w hi ho =>
    have hother : ∀ j, j ≠ o → s.pendingAfter (.methodStart o) j (P j) = P j := by
      intro j hj
      simp [pendingAfter, Ne.symm hj]
    have hsettled := Polled.idle_settled hp hi
    have hnone : ∀ it rest, s.stack ≠ .notified it .kTimerStop :: rest := by
      intro it rest hs
      simp [idle, hs] at hi
    show Polled _ (s.subscribe o).subscribers (s.subscribe o).stack
    rw [subscribe_fields]
    refine ⟨fun j hj => ?_, fun it hit => .inl ?_, fun it rest hs => absurd hs (hnone it rest)⟩
    · rw [Subscribers.find?_subscribe]
      by_cases hjo : j = o
      · rw [if_pos hjo]
        rfl
      · rw [if_neg hjo]
        exact hp.subscribed j (hother j hjo ▸ hj)
    · -- the object is not the one being notified
      have hspare : s.stack.any (Frame.notifies o) = false := hok
      have hne : it.key ≠ o := by
        have := List.any_eq_false.mp hspare _ hit
        simpa [Frame.notifies] using this
      rw [hother _ hne]
      exact hsettled it hit
  | tick hi ht =>
    have hp' := hmono (by simp)
    exact hp'.push (Polled.idle_settled hp' hi) (by simp) (by simp)
  | main s' h =>
    exact mainStep_polled (mainStep_cases h) hw hp (fun o ho => pendingAfter_le (by simp) ho)
      fun o cb hd => pendingAfter_of_delivers hd
  | handlerReturn s' h =>
    have hp' := hmono (by simp)
    obtain ⟨o, cb, rest, hs, ⟨-, rfl⟩ | ⟨-, rfl⟩⟩ := handlerReturn_cases h
    · rw [hs] at hw hp'
      exact hp'.pop rfl hw.tail_waits
    · rw [hs] at hw hp'
      exact hp'.returned hw rfl fun _ => rfl
  | construct | methodCancel | nested | thread => exact hmono (by simp)

/-- As long as no object is started again from inside its own `notify`, and none
destroyed there, every object with a pending start is subscribed to be polled. -/
theorem pending_subscribed (tr : List (Component × Act)) (s : Component)
    (run : Transition.Run step loaded tr s) (hspare : Transition.Always SparesNotified tr)
    (hok : Transition.Always RestartsOutsideNotify tr) (o : ℕ)
    (ho : pendingStart o tr = true) :
    (s.subscribers.find? o).map Entry.next = some .kTimerContinue := by
  have hboth : Walk s.subscribers s.timerProcessing s.stack ∧
      Polled (fun o => pendingStart o tr) s.subscribers s.stack := by
    refine run.invariant (fun s a => s.SparesNotified a ∧ s.RestartsOutsideNotify a)
      (fun tr s => Walk s.subscribers s.timerProcessing s.stack ∧
        Polled (fun o => pendingStart o tr) s.subscribers s.stack) ?_
      (fun tr s a s' _ _ hinv hok h => ?_) fun p hp => ⟨hspare p hp, hok p hp⟩
    · exact ⟨Walk.nil _, fun o ho => (by cases ho), fun it hit => (by cases hit),
        fun it rest hs => (by cases hs)⟩
    · exact ⟨step_walk h hok.1 hinv.1, step_polled h hok.2 hinv.1 hinv.2⟩
  exact hboth.2.subscribed o ho

/-- The handler of the first object's `$completed` starts the second object. -/
theorem pending_subscribed_other :
    ∃ tr s, Transition.replay step loaded [] (setUp 1 ++ setUp 2 ++ [.methodStart 1] ++
        prologue 0 0 ++ epilogue 0 0 [] ++
        [.timer, .main, .main, .main, .methodStart 2, .handlerReturn, .main, .main, .main, .main,
          .main, .main, .main]) = some (tr, s) ∧
      pendingStart 2 tr = true ∧
      (s.subscribers.find? 2).map Entry.next = some .kTimerContinue := by
  have h : Transition.replay step loaded [] (setUp 1 ++ setUp 2 ++ [.methodStart 1] ++
    prologue 0 0 ++ epilogue 0 0 [] ++
    [.timer, .main, .main, .main, .methodStart 2, .handlerReturn, .main, .main, .main, .main,
      .main, .main, .main]) = some (_, _) := rfl
  exact ⟨_, _, h, rfl, pending_subscribed _ _ (Transition.replay_run .start h) (by decide)
    (by decide) 2 rfl⟩

/-- The handler of `$completed` starts its own object again, and the tick erases
the subscription when the handler has returned. -/
theorem restarted_unsubscribed :
    ¬ ∀ (tr : List (Component × Act)) (s : Component), Transition.Run step loaded tr s →
      Transition.Always SparesNotified tr →
        Transition.Always (fun _ a => a.background = true) tr → s.stack = [] →
          ∀ o, (s.objects o).isSome = true → pendingStart o tr = true →
            (s.subscribers.find? o).map Entry.next = some .kTimerContinue := by
  intro hall
  have h : Transition.replay step loaded [] (setUp 1 ++ [.methodStart 1] ++ prologue 0 0 ++
    epilogue 0 0 [] ++ [.timer, .main, .main, .main, .methodStart 1, .handlerReturn, .main,
      .main, .main]) = some (_, _) := rfl
  have hsub := hall _ _ (Transition.replay_run .start h) (by decide) (by decide) rfl 1 rfl rfl
  revert hsub
  decide

end Component

end HttpBackground
