import Doudizhu.Skynet.DispatchInvariant
import Mathlib.Data.List.Nodup

/-! # What holds of every run of the workers

Every step keeps the invariant, so in every reachable state a queue is dispatched by one worker
at most, no queue with messages is out of sight of the workers, no context or queue is used after
it is freed, and the messages of a service are taken off its queue in the order they were sent. -/

set_option autoImplicit false

namespace Doudizhu.Skynet.Dispatch

open Doudizhu.Runs State

/-! ## Steps -/

theorem threads_mqMarkRelease (s : State) (h : Handle) :
    (s.mqMarkRelease h).threads = s.threads := by
  unfold mqMarkRelease
  split <;> rfl

theorem threads_contextRelease (s : State) (h : Handle) :
    (s.contextRelease h).threads = s.threads := by
  unfold contextRelease
  split
  · rfl
  · exact threads_mqMarkRelease ..
  · rfl

theorem threads_mqPush (s : State) (h : Handle) (message : SkynetMessage) :
    (s.mqPush h message).threads = s.threads := by
  unfold mqPush
  split <;> rfl

theorem threads_mqPop (s : State) (h : Handle) : (s.mqPop h).2.threads = s.threads := by
  unfold mqPop
  split
  · split <;> rfl
  · rfl

theorem threads_mqRelease (s : State) (h : Handle) : (s.mqRelease h).threads = s.threads := by
  unfold mqRelease
  split
  · split <;> rfl
  · rfl

theorem threads_dispatchStep (s : State) (weight : Int) (pc : Pc) :
    (s.dispatchStep weight pc).1.threads = s.threads := by
  cases pc with
  | idle => simp only [dispatchStep]; split <;> rfl
  | holds h => simp only [dispatchStep]; split <;> rfl
  | loop h n i =>
      have hpop := threads_mqPop s h
      simp only [dispatchStep]
      split
      · split
        · rename_i heq; rw [heq] at hpop; exact hpop
        · rename_i heq; rw [heq] at hpop; exact hpop
      · rfl
  | calling h n i => rfl
  | finish h => simp only [dispatchStep]; split <;> rfl
  | pushBack h next => rfl
  | leave h next => exact threads_contextRelease s h
  | emptied h => exact threads_contextRelease s h
  | orphan h => exact threads_mqRelease s h

theorem threads_threadStep (s : State) (ok : Bool) (t : Thread) :
    (s.threadStep ok t).1.threads = s.threads := by
  cases t with
  | worker weight pc => exact threads_dispatchStep s weight pc
  | sending h message => exact threads_mqPush s h message
  | failing h => simp only [threadStep]; split <;> rfl
  | dropping h => exact threads_mqRelease s h
  | launching h => rfl
  | done => rfl
  | _ => exact threads_contextRelease ..

theorem Inv.swap {s : State} {T R : List Handle} {a b : Handle} (inv : Inv s (a :: b :: T) R) :
    Inv s (b :: a :: T) R := by
  intro k
  refine inv.frame rfl ?_ rfl
  simp only [tokenCount, List.count_cons]
  omega

/-- A worker's step, with what it owns and holds before and after. -/
theorem inv_dispatchStep {s : State} {T R : List Handle} (weight : Int) {pc : Pc}
    (inv : Inv s (pc.tokens ++ T) (pc.refs ++ R)) :
    Inv (s.dispatchStep weight pc).1 ((s.dispatchStep weight pc).2.tokens ++ T)
      ((s.dispatchStep weight pc).2.refs ++ R) := by
  cases pc with
  | idle =>
      simp only [dispatchStep]
      split
      · exact inv
      · rename_i h rest hq
        exact inv_globalmqPop inv hq
  | holds h =>
      simp only [dispatchStep]
      split
      · rename_i hreg
        exact inv_grab inv hreg
      · exact inv
  | loop h n i =>
      simp only [dispatchStep]
      split
      · rcases inv_mqPop inv with ⟨message, hsome, hpop⟩ | ⟨hnone, hpop⟩
        · split
          · rename_i s' heq
            rw [heq] at hpop
            cases hset : s'.callback h with
            | true => exact hpop
            | false => exact hpop
          · rename_i heq
            rw [heq] at hsome
            cases hsome
        · split
          · rename_i heq
            rw [heq] at hnone
            cases hnone
          · rename_i heq
            rw [heq] at hpop
            exact hpop
      · exact inv
  | calling h n i => exact inv
  | finish h =>
      simp only [dispatchStep]
      split
      · exact inv
      · rename_i next rest hq
        exact (inv_globalmqPop inv hq).swap
  | pushBack h next => exact inv_globalmqPush inv
  | leave h next => exact inv_contextRelease inv
  | emptied h => exact inv_contextRelease inv
  | orphan h => exact inv_mqRelease inv

theorem inv_threadStep {s : State} {T R : List Handle} (ok : Bool) {t : Thread}
    (inv : Inv s (t.tokens ++ T) (t.refs ++ R)) :
    Inv (s.threadStep ok t).1 ((s.threadStep ok t).2.tokens ++ T)
      ((s.threadStep ok t).2.refs ++ R) := by
  cases t with
  | worker weight pc => exact inv_dispatchStep weight inv
  | sending h message => exact inv_mqPush inv message
  | sent h => exact inv_contextRelease inv
  | retiring h => exact inv_contextRelease inv
  | creating h =>
      cases ok with
      | true => exact inv_contextRelease inv
      | false => exact inv_contextRelease inv
  | launching h => exact inv_globalmqPush inv
  | failing h =>
      simp only [threadStep]
      split
      · rename_i hreg
        exact inv_unregister inv hreg
      · exact inv
  | failingRetired h => exact inv_contextRelease inv
  | dropping h => exact inv_mqRelease inv
  | done => exact inv

theorem inv_step {s s' : State} {e : Event} (inv : Inv s [] []) (hstep : step s e = some s') :
    Inv s' [] [] := by
  cases e with
  | go i ok =>
      obtain ⟨t, ht, heq⟩ := Option.map_eq_some_iff.mp hstep
      subst heq
      have hi : i < s.threads.length := (List.getElem?_eq_some_iff.mp ht).1
      refine inv_put (inv_threadStep ok (inv_take inv ht)) ?_
      rw [threads_threadStep]
      simp [setThread, hi]
  | callback i set =>
      obtain ⟨t, -, hset⟩ := Option.bind_eq_some_iff.mp hstep
      obtain ⟨h, -, heq⟩ := Option.map_eq_some_iff.mp hset
      subst heq
      exact inv_setCallback inv h set
  | send h message =>
      simp only [step] at hstep
      split at hstep
      · rename_i hreg
        cases Option.some.inj hstep
        exact inv_spawn (inv_grab inv hreg)
      · cases hstep
  | retire h =>
      simp only [step] at hstep
      split at hstep
      · rename_i hreg
        cases Option.some.inj hstep
        exact inv_spawn (inv_unregister inv hreg)
      · cases hstep
  | create h =>
      simp only [step] at hstep
      split at hstep
      · cases hstep
      · rename_i hused
        cases Option.some.inj hstep
        exact inv_spawn (inv_contextNew inv (by simpa using hused))

theorem inv_start (weights : List Int) : Inv (start weights) [] [] := by
  have hnone : ∀ f : Thread → List Handle, (∀ weight, f (.worker weight .idle) = []) →
      (start weights).threads.flatMap f = [] := by
    intro f hf
    simp [start, List.flatMap_map, hf]
  intro h
  have htokens : tokenCount (start weights) [] h = 0 := by
    rw [tokenCount, hnone Thread.tokens fun _ => rfl]
    rfl
  have hrefs : refCount (start weights) [] h = 0 := by
    rw [refCount, hnone Thread.refs fun _ => rfl]
    rfl
  rw [htokens, hrefs]
  exact ⟨rfl, rfl, by simp [State.view, start], by simp [State.view, start],
    by simp [State.view, start], by simp [State.view, start], rfl, by simp [State.view, start],
    fun _ => ⟨rfl, rfl, rfl⟩⟩

theorem inv_run {weights : List Int} {events : List Event} {s : State}
    (hrun : run step (start weights) events = some s) : Inv s [] [] :=
  run_invariant step (fun _ _ => True) (fun s => Inv s [] [])
    (fun _ _ _ inv _ hstep => inv_step inv hstep) events _ s (inv_start weights)
    (along_true step events _) hrun

/-! ## Owners -/

/-- The queue is in the global queue or some thread owns it. -/
def Owned (s : State) (h : Handle) : Prop := h ∈ s.globalq ∨ ∃ t ∈ s.threads, h ∈ t.tokens

theorem owned_iff (s : State) (h : Handle) : Owned s h ↔ 0 < tokenCount s [] h := by
  have hflat : (∃ t ∈ s.threads, h ∈ t.tokens) ↔ h ∈ s.threads.flatMap Thread.tokens :=
    List.mem_flatMap.symm
  rw [Owned, hflat, ← List.count_pos_iff, ← List.count_pos_iff, tokenCount, List.count_nil]
  omega

theorem count_two_of_ne (f : Thread → List Handle) {h : Handle} {threads : List Thread}
    {i j : ℕ} {t u : Thread} (hij : i ≠ j) (ht : threads[i]? = some t) (hu : threads[j]? = some u)
    (hti : h ∈ f t) (huj : h ∈ f u) (hdone : f .done = []) :
    2 ≤ (threads.flatMap f).count h := by
  have hset := count_flatMap_set f h threads i t .done ht
  have hu' : u ∈ threads.set i .done :=
    List.mem_of_getElem? (by rw [List.getElem?_set_ne hij]; exact hu)
  have hpos := List.count_pos_iff.mpr (List.mem_flatMap.mpr ⟨u, hu', huj⟩)
  have hpos' := List.count_pos_iff.mpr hti
  rw [hdone, List.count_nil] at hset
  omega

/-- In every run a queue has one owner at most: it stands once in the global queue, or one thread
has it.  A queue with messages, or one to be freed, always has one. -/
theorem one_owner (weights : List Int) (events : List Event) (s : State)
    (hrun : run step (start weights) events = some s) :
    s.globalq.Nodup ∧ (∀ h ∈ s.globalq, ∀ t ∈ s.threads, h ∉ t.tokens) ∧
      (∀ (i j : ℕ) (t u : Thread) (h : Handle), i ≠ j → s.threads[i]? = some t →
        s.threads[j]? = some u → h ∈ t.tokens → h ∉ u.tokens) ∧
      ∀ h q, s.queue h = some q → q.messages ≠ [] ∨ s.ref h = none → Owned s h := by
  have inv := inv_run hrun
  have hone : ∀ h, tokenCount s [] h ≤ 1 := fun h => (inv h).tokens ▸ owners_le_one _
  simp only [tokenCount, List.count_nil, Nat.add_zero] at hone
  refine ⟨?_, ?_, ?_, ?_⟩
  · exact List.nodup_iff_count_le_one.mpr fun h => by have := hone h; omega
  · intro h hmem t ht htoken
    have hpos := List.count_pos_iff.mpr hmem
    have hpos' := List.count_pos_iff.mpr (List.mem_flatMap.mpr ⟨t, ht, htoken⟩)
    have := hone h
    omega
  · intro i j t u h hij ht hu htoken htoken'
    have htwo := count_two_of_ne Thread.tokens hij ht hu htoken htoken' rfl
    have := hone h
    omega
  · intro h q hq hneed
    have ok := inv h
    rw [owned_iff, ok.tokens]
    have hview : (s.view h).queue = some q := hq
    rw [hview, owners]
    rcases hneed with hmessages | hgone
    · cases hin : q.inGlobal with
      | true => simp
      | false => exact absurd (ok.empty q hq hin) hmessages
    · rw [ok.released q hq hgone, Bool.or_true, if_pos rfl]
      exact Nat.one_pos

/-- One worker is in the callback of a service while another message is sent to it. -/
theorem one_owner_calling : ∃ s,
    run step (start [0, -1]) [.create 1, .callback 2 true, .go 2 true, .go 2 true, .send 1 default,
      .go 3 true, .go 0 true, .go 0 true, .go 0 true, .send 1 default, .go 4 true,
      .go 1 true] = some s ∧
    s.globalq.Nodup ∧ (∀ h ∈ s.globalq, ∀ t ∈ s.threads, h ∉ t.tokens) ∧
      (∀ (i j : ℕ) (t u : Thread) (h : Handle), i ≠ j → s.threads[i]? = some t →
        s.threads[j]? = some u → h ∈ t.tokens → h ∉ u.tokens) ∧
      ∀ h q, s.queue h = some q → q.messages ≠ [] ∨ s.ref h = none → Owned s h := by
  obtain ⟨s, hrun⟩ := Option.isSome_iff_exists.mp (show (run step (start [0, -1])
    [.create 1, .callback 2 true, .go 2 true, .go 2 true, .send 1 default, .go 3 true, .go 0 true,
      .go 0 true, .go 0 true, .send 1 default, .go 4 true, .go 1 true]).isSome = true from rfl)
  exact ⟨s, hrun, one_owner _ _ s hrun⟩

/-! ## References -/

/-- Thread `i` takes the oldest message off the queue of `h`, and runs the callback with it if the
service has one. -/
def TakesNext (s s' : State) (i : ℕ) (h : Handle) : Prop :=
  ∃ weight n j n' message rest, s.threads[i]? = some (.worker weight (.loop h n j)) ∧
    messagesOf (s.queue h) = message :: rest ∧
    s'.taken h = s.taken h ++ [(message, s.callback h)] ∧
    s'.threads[i]? =
      some (.worker weight (if s.callback h then .calling h n' j else .loop h n' (j + 1)))

theorem mqPop_taken (s : State) (h : Handle) :
    (s.mqPop h).1 = none ∧ (s.mqPop h).2.taken = s.taken ∨
      ∃ message rest, messagesOf (s.queue h) = message :: rest ∧ (s.mqPop h).1 = some message ∧
        (s.mqPop h).2.taken =
          Function.update s.taken h (s.taken h ++ [(message, s.callback h)]) ∧
        (s.mqPop h).2.callback = s.callback := by
  cases hq : s.queue h with
  | none => exact .inl ⟨by simp only [mqPop, hq], by simp only [mqPop, hq]⟩
  | some q =>
      cases hmessages : q.messages with
      | nil =>
          have hpop := MessageQueue.pop_of_nil hmessages
          exact .inl ⟨by simp only [mqPop, hq, hpop], by simp only [mqPop, hq, hpop]⟩
      | cons message rest =>
          have hpop : q.pop = (some message, q.pop.2) :=
            Prod.ext (MessageQueue.pop_of_cons hmessages).1 rfl
          refine .inr ⟨message, rest, hmessages, ?_, ?_, ?_⟩
          · simp only [mqPop, hq]
            rw [hpop]
          · simp only [mqPop, hq]
            rw [hpop]
          · simp only [mqPop, hq]
            rw [hpop]

theorem taken_mqMarkRelease (s : State) (h : Handle) : (s.mqMarkRelease h).taken = s.taken := by
  unfold mqMarkRelease
  split <;> rfl

theorem taken_contextRelease (s : State) (h : Handle) : (s.contextRelease h).taken = s.taken := by
  unfold contextRelease
  split
  · rfl
  · exact taken_mqMarkRelease ..
  · rfl

theorem taken_mqPush (s : State) (h : Handle) (message : SkynetMessage) :
    (s.mqPush h message).taken = s.taken := by
  unfold mqPush
  split <;> rfl

theorem taken_mqRelease (s : State) (h : Handle) : (s.mqRelease h).taken = s.taken := by
  unfold mqRelease
  split
  · split <;> rfl
  · rfl

/-- Only a worker at its loop takes a message. -/
theorem taken_threadStep (s : State) (ok : Bool) (t : Thread) :
    (s.threadStep ok t).1.taken = s.taken ∨
      ∃ weight h n j n' message rest, t = .worker weight (.loop h n j) ∧
        messagesOf (s.queue h) = message :: rest ∧
        (s.threadStep ok t).1.taken =
          Function.update s.taken h (s.taken h ++ [(message, s.callback h)]) ∧
        (s.threadStep ok t).2 =
          .worker weight (if s.callback h then .calling h n' j else .loop h n' (j + 1)) := by
  cases t with
  | worker weight pc =>
      cases pc with
      | loop h n j =>
          simp only [threadStep, dispatchStep]
          split
          · rcases mqPop_taken s h with ⟨hnone, htaken⟩ | ⟨message, rest, hq, hsome, htaken, hset⟩
            · left
              split
              · rename_i heq
                rw [heq] at hnone
                cases hnone
              · rename_i heq
                rw [heq] at htaken
                exact htaken
            · split
              · rename_i s' heq
                rw [heq] at htaken hset
                exact .inr ⟨weight, h, n, j, _, message, rest, rfl, hq, htaken, by rw [hset]⟩
              · rename_i heq
                rw [heq] at hsome
                cases hsome
          · exact .inl rfl
      | idle => simp only [threadStep, dispatchStep]; left; split <;> rfl
      | holds h => simp only [threadStep, dispatchStep]; left; split <;> rfl
      | calling h n j => exact .inl rfl
      | finish h => simp only [threadStep, dispatchStep]; left; split <;> rfl
      | pushBack h next => exact .inl rfl
      | leave h next => exact .inl (taken_contextRelease s h)
      | emptied h => exact .inl (taken_contextRelease s h)
      | orphan h => exact .inl (taken_mqRelease s h)
  | sending h message => exact .inl (taken_mqPush s h message)
  | failing h => simp only [threadStep]; left; split <;> rfl
  | dropping h => exact .inl (taken_mqRelease s h)
  | launching h => exact .inl rfl
  | done => exact .inl rfl
  | _ => exact .inl (taken_contextRelease ..)

theorem taken_step {s s' : State} {e : Event} (hstep : step s e = some s') (h : Handle) :
    s'.taken h = s.taken h ∨ ∃ i ok, e = .go i ok ∧ TakesNext s s' i h := by
  cases e with
  | go i ok =>
      obtain ⟨t, ht, heq⟩ := Option.map_eq_some_iff.mp hstep
      subst heq
      have hi : i < s.threads.length := (List.getElem?_eq_some_iff.mp ht).1
      rcases taken_threadStep (s.setThread i .done) ok t with
        hsame | ⟨weight, k, n, j, n', message, rest, rfl, hq, htaken, hnext⟩
      · exact .inl (congrFun hsame h)
      · by_cases hhk : h = k
        · subst hhk
          refine .inr ⟨i, ok, rfl, weight, n, j, n', message, rest, ht, hq, ?_, ?_⟩
          · exact (congrFun htaken h).trans (Function.update_self ..)
          · have hthread : ∀ u : Thread, (((s.setThread i .done).threadStep ok
                (.worker weight (.loop h n j))).1.setThread i u).threads[i]? = some u := by
              intro u
              simp only [setThread, threads_threadStep]
              exact List.getElem?_set_self (by simpa using hi)
            exact (hthread _).trans (congrArg some hnext)
        · exact .inl ((congrFun htaken h).trans (Function.update_of_ne hhk ..))
  | callback i set =>
      obtain ⟨t, -, hset⟩ := Option.bind_eq_some_iff.mp hstep
      obtain ⟨k, -, heq⟩ := Option.map_eq_some_iff.mp hset
      subst heq
      exact .inl rfl
  | send k message =>
      simp only [step, Option.ite_none_right_eq_some] at hstep
      cases Option.some.inj hstep.2
      exact .inl rfl
  | retire k =>
      simp only [step, Option.ite_none_right_eq_some] at hstep
      cases Option.some.inj hstep.2
      exact .inl rfl
  | create k =>
      simp only [step, Option.ite_none_left_eq_some] at hstep
      cases Option.some.inj hstep.2
      exact .inl rfl

/-- The messages of a service are taken off its queue in the order they were pushed, each once, and
so are those the callback gets.  Those not taken wait in the queue, or were dropped when the queue
was freed, after the context.  A step that takes one leads into the callback if there is one. -/
theorem dispatched_in_order (weights : List Int) (events : List Event) (s : State)
    (hrun : run step (start weights) events = some s) (h : Handle) :
    s.pushed h = (s.taken h).map Prod.fst ++ s.dropped h ++ messagesOf (s.queue h) ∧
      (s.dispatched h).Sublist (s.pushed h) ∧
      (s.dropped h ≠ [] → s.queue h = none ∧ s.ref h = none) ∧
      ∀ e s', step s e = some s' →
        s'.taken h = s.taken h ∨ ∃ i ok, e = .go i ok ∧ TakesNext s s' i h := by
  have ok := inv_run hrun h
  have hlog : s.pushed h = (s.taken h).map Prod.fst ++ s.dropped h ++ messagesOf (s.queue h) :=
    ok.log
  refine ⟨hlog, ?_, fun hdropped => ?_, fun e s' hstep => taken_step hstep h⟩
  · have htaken : (s.dispatched h).Sublist ((s.taken h).map Prod.fst) :=
      List.filter_sublist.map Prod.fst
    rw [hlog, List.append_assoc]
    exact htaken.trans (List.sublist_append_left _ _)
  · have hqueue : s.queue h = none := by
      cases hq : s.queue h with
      | none => rfl
      | some q => exact absurd (ok.dropped q hq) hdropped
    refine ⟨hqueue, ?_⟩
    cases hr : s.ref h with
    | none => rfl
    | some r =>
        obtain ⟨q, hq, -⟩ := ok.alive r hr
        have hq' : s.queue h = some q := hq
        rw [hqueue] at hq'
        cases hq'

/-- The first of three messages is handed to the callback, which clears itself, the second is
freed, and the third dropped with the retired service. -/
theorem dispatched_in_order_dropped : ∃ s,
    run step (start [0]) [.create 1, .callback 1 true, .go 1 true, .go 1 true,
      .send 1 ⟨2, 7, none, 0⟩, .go 2 true, .go 2 true, .send 1 ⟨2, 8, none, 0⟩, .go 3 true,
      .go 3 true, .send 1 ⟨2, 9, none, 0⟩, .go 4 true, .go 4 true, .go 0 true, .go 0 true,
      .go 0 true, .callback 0 false, .go 0 true, .go 0 true, .go 0 true, .retire 1, .go 5 true,
      .go 0 true, .go 0 true, .go 0 true, .go 0 true] = some s ∧
    s.pushed 1 = (s.taken 1).map Prod.fst ++ s.dropped 1 ++ messagesOf (s.queue 1) ∧
      (s.dispatched 1).Sublist (s.pushed 1) ∧
      (s.dropped 1 ≠ [] → s.queue 1 = none ∧ s.ref 1 = none) ∧
      ∀ e s', step s e = some s' →
        s'.taken 1 = s.taken 1 ∨ ∃ i ok, e = .go i ok ∧ TakesNext s s' i 1 := by
  obtain ⟨s, hrun⟩ := Option.isSome_iff_exists.mp (show (run step (start [0])
    [.create 1, .callback 1 true, .go 1 true, .go 1 true,
      .send 1 ⟨2, 7, none, 0⟩, .go 2 true, .go 2 true, .send 1 ⟨2, 8, none, 0⟩, .go 3 true,
      .go 3 true, .send 1 ⟨2, 9, none, 0⟩, .go 4 true, .go 4 true, .go 0 true, .go 0 true,
      .go 0 true, .callback 0 false, .go 0 true, .go 0 true, .go 0 true, .retire 1, .go 5 true,
      .go 0 true, .go 0 true, .go 0 true, .go 0 true]).isSome = true from rfl)
  exact ⟨s, hrun, dispatched_in_order _ _ s hrun 1⟩

end Doudizhu.Skynet.Dispatch
