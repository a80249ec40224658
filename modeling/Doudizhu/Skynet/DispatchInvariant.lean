import Doudizhu.Skynet.Dispatch
import Mathlib.Data.List.Basic

/-! # Who owns a queue, who holds a context

Every queue that is in the global queue or being dispatched has one owner: its place in the
global queue or one thread.  Every context that exists is referred to by the handle table and by
the threads that have grabbed it, and by as many as its count says.  `Inv s T R` says so of a
state in which one thread is in the middle of a step, with the queues `T` and the references `R`
in its hands.  Each operation moves them between the hands and the shared state. -/

set_option autoImplicit false

namespace Doudizhu.Skynet.Dispatch

open State

def Pc.tokens : Pc → List Handle
  | .idle => []
  | .holds h => [h]
  | .loop h _ _ => [h]
  | .calling h _ _ => [h]
  | .finish h => [h]
  | .pushBack h next => [h, next]
  | .leave _ next => [next]
  | .emptied _ => []
  | .orphan h => [h]

def Pc.refs : Pc → List Handle
  | .idle => []
  | .holds _ => []
  | .loop h _ _ => [h]
  | .calling h _ _ => [h]
  | .finish h => [h]
  | .pushBack h _ => [h]
  | .leave h _ => [h]
  | .emptied h => [h]
  | .orphan _ => []

def Thread.tokens : Thread → List Handle
  | .worker _ pc => pc.tokens
  | .creating h => [h]
  | .launching h => [h]
  | .failing h => [h]
  | .failingRetired h => [h]
  | .dropping h => [h]
  | _ => []

def Thread.refs : Thread → List Handle
  | .worker _ pc => pc.refs
  | .sending h _ => [h]
  | .sent h => [h]
  | .retiring h => [h]
  | .creating h => [h]
  | .failingRetired h => [h]
  | _ => []

theorem tokens_done : Thread.done.tokens = [] := rfl

theorem refs_done : Thread.done.refs = [] := rfl

/-- A queue is owned while `in_global` is set and, once marked for release, until it is freed. -/
def owners : Option MessageQueue → ℕ
  | none => 0
  | some q => if q.inGlobal || q.release then 1 else 0

theorem owners_le_one (q : Option MessageQueue) : owners q ≤ 1 := by
  cases q with
  | none => exact Nat.zero_le 1
  | some q =>
      rw [owners]
      split <;> omega

def messagesOf : Option MessageQueue → List SkynetMessage
  | none => []
  | some q => q.messages

structure View where
  queue : Option MessageQueue
  ref : Option ℕ
  registered : Bool
  pushed : List SkynetMessage
  taken : List (SkynetMessage × Bool)
  dropped : List SkynetMessage
  used : Bool

def State.view (s : State) (h : Handle) : View :=
  ⟨s.queue h, s.ref h, s.registered h, s.pushed h, s.taken h, s.dropped h, s.used h⟩

/-- A handle whose queue has `tokens` owners and whose context is grabbed `refs` times. -/
structure Ok (v : View) (tokens refs : ℕ) : Prop where
  tokens : tokens = owners v.queue
  refs : v.registered.toNat + refs = v.ref.getD 0
  positive : v.ref ≠ some 0
  alive : ∀ r, v.ref = some r → ∃ q, v.queue = some q ∧ q.release = false
  released : ∀ q, v.queue = some q → v.ref = none → q.release = true
  empty : ∀ q, v.queue = some q → q.inGlobal = false → q.messages = []
  log : v.pushed = v.taken.map Prod.fst ++ v.dropped ++ messagesOf v.queue
  dropped : ∀ q, v.queue = some q → v.dropped = []
  fresh : v.used = false → v.queue = none ∧ v.ref = none ∧ v.pushed = []

/-- The owners of a queue: in the global queue, among the threads and in hand. -/
def tokenCount (s : State) (T : List Handle) (h : Handle) : ℕ :=
  s.globalq.count h + (s.threads.flatMap Thread.tokens).count h + T.count h

def refCount (s : State) (R : List Handle) (h : Handle) : ℕ :=
  (s.threads.flatMap Thread.refs).count h + R.count h

def Inv (s : State) (T R : List Handle) : Prop :=
  ∀ h, Ok (s.view h) (tokenCount s T h) (refCount s R h)

theorem Inv.frame {s s' : State} {T T' R R' : List Handle} (inv : Inv s T R) {h : Handle}
    (hview : s'.view h = s.view h) (htokens : tokenCount s' T' h = tokenCount s T h)
    (hrefs : refCount s' R' h = refCount s R h) :
    Ok (s'.view h) (tokenCount s' T' h) (refCount s' R' h) := by
  rw [hview, htokens, hrefs]
  exact inv h

/-! ## The hands of a thread -/

theorem count_flatMap_set (f : Thread → List Handle) (h : Handle) :
    ∀ (threads : List Thread) (i : ℕ) (t t' : Thread), threads[i]? = some t →
      ((threads.set i t').flatMap f).count h + (f t).count h =
        (threads.flatMap f).count h + (f t').count h := by
  intro threads
  induction threads with
  | nil => intro i t t' ht; simp at ht
  | cons u threads ih =>
      intro i t t' ht
      cases i with
      | zero =>
          cases Option.some.inj ht
          simp only [List.set_cons_zero, List.flatMap_cons, List.count_append]
          omega
      | succ i =>
          have := ih i t t' ht
          simp only [List.set_cons_succ, List.flatMap_cons, List.count_append]
          omega

theorem inv_take {s : State} {T R : List Handle} (inv : Inv s T R) {i : ℕ} {t : Thread}
    (ht : s.threads[i]? = some t) :
    Inv (s.setThread i .done) (t.tokens ++ T) (t.refs ++ R) := by
  intro h
  have htokens := count_flatMap_set Thread.tokens h s.threads i t .done ht
  have hrefs := count_flatMap_set Thread.refs h s.threads i t .done ht
  simp only [tokens_done, refs_done, List.count_nil] at htokens hrefs
  refine inv.frame rfl ?_ ?_
  · simp only [tokenCount, setThread, List.count_append]
    omega
  · simp only [refCount, setThread, List.count_append]
    omega

theorem inv_put {s : State} {T R : List Handle} {i : ℕ} {t : Thread}
    (inv : Inv s (t.tokens ++ T) (t.refs ++ R)) (ht : s.threads[i]? = some .done) :
    Inv (s.setThread i t) T R := by
  intro h
  have htokens := count_flatMap_set Thread.tokens h s.threads i .done t ht
  have hrefs := count_flatMap_set Thread.refs h s.threads i .done t ht
  simp only [tokens_done, refs_done, List.count_nil] at htokens hrefs
  refine inv.frame rfl ?_ ?_
  · simp only [tokenCount, setThread, List.count_append]
    omega
  · simp only [refCount, setThread, List.count_append]
    omega

theorem inv_spawn {s : State} {T R : List Handle} {t : Thread}
    (inv : Inv s (t.tokens ++ T) (t.refs ++ R)) : Inv (s.spawn t) T R := by
  intro h
  refine inv.frame rfl ?_ ?_
  · simp only [tokenCount, spawn, List.flatMap_append, List.flatMap_cons, List.flatMap_nil,
      List.append_nil, List.count_append]
    omega
  · simp only [refCount, spawn, List.flatMap_append, List.flatMap_cons, List.flatMap_nil,
      List.append_nil, List.count_append]
    omega

/-! ## The global queue -/

theorem inv_globalmqPush {s : State} {T R : List Handle} {h : Handle} (inv : Inv s (h :: T) R) :
    Inv (s.globalmqPush h) T R := by
  intro k
  refine inv.frame rfl ?_ rfl
  simp only [tokenCount, globalmqPush, List.count_append, List.count_cons, List.count_nil]
  omega

theorem inv_globalmqPop {s : State} {T R : List Handle} {h : Handle} {rest : List Handle}
    (inv : Inv s T R) (hq : s.globalq = h :: rest) : Inv { s with globalq := rest } (h :: T) R := by
  intro k
  refine inv.frame rfl ?_ rfl
  simp only [tokenCount, hq, List.count_cons]
  omega

/-! ## References -/

theorem count_cons_ne {h k : Handle} (hkh : k ≠ h) (l : List Handle) :
    (h :: l).count k = l.count k := List.count_cons_of_ne (Ne.symm hkh)

theorem refCount_cons (s : State) (R : List Handle) (h : Handle) :
    refCount s (h :: R) h = refCount s R h + 1 := by
  rw [refCount, List.count_cons_self, refCount, Nat.add_assoc]

theorem tokenCount_cons (s : State) (T : List Handle) (h : Handle) :
    tokenCount s (h :: T) h = tokenCount s T h + 1 := by
  rw [tokenCount, List.count_cons_self, tokenCount]
  omega

theorem Ok.ref_of_refs {v : View} {tokens refs : ℕ} (ok : Ok v tokens refs)
    (h : 0 < v.registered.toNat + refs) : ∃ r, v.ref = some (r + 1) := by
  have hrefs := ok.refs
  cases hr : v.ref with
  | none => rw [hr, Option.getD_none] at hrefs; omega
  | some r =>
      cases r with
      | zero => exact absurd hr ok.positive
      | succ r => exact ⟨r, rfl⟩

theorem Ok.setRef {v : View} {tokens refs refs' r r' : ℕ} (ok : Ok v tokens refs)
    (hr : v.ref = some (r + 1)) (h : refs' + r = refs + r') :
    Ok { v with ref := some (r' + 1) } tokens refs' where
  tokens := ok.tokens
  refs := by
    have hrefs := ok.refs
    rw [hr, Option.getD_some] at hrefs
    simp only [Option.getD_some]
    omega
  positive := by simp
  alive := fun _ _ => ok.alive (r + 1) hr
  released := fun _ _ hnone => by cases hnone
  empty := ok.empty
  log := ok.log
  dropped := ok.dropped
  fresh := fun hused => by
    have hfresh := ok.fresh hused
    rw [hr] at hfresh
    cases hfresh.2.1

theorem inv_grab {s : State} {T R : List Handle} {h : Handle} (inv : Inv s T R)
    (hreg : s.registered h = true) : Inv (s.grab h) T (h :: R) := by
  intro k
  by_cases hkh : k = h
  · subst hkh
    obtain ⟨r, hr⟩ := (inv k).ref_of_refs (by
      simp only [State.view, hreg, Bool.toNat_true]
      omega)
    have hview : (s.grab k).view k = { s.view k with ref := some (r + 1 + 1) } := by
      have hr' : s.ref k = some (r + 1) := hr
      simp [State.view, grab, hr']
    rw [hview, refCount_cons]
    exact (inv k).setRef hr (by simp only [refCount, grab]; omega)
  · refine inv.frame ?_ rfl ?_
    · simp [State.view, grab, hkh]
    · simp only [refCount, grab, count_cons_ne hkh]

/-- The reference of the handle table goes to the thread that clears the slot. -/
theorem inv_unregister {s : State} {T R : List Handle} {h : Handle} (inv : Inv s T R)
    (hreg : s.registered h = true) : Inv (s.unregister h) T (h :: R) := by
  intro k
  by_cases hkh : k = h
  · subst hkh
    have ok := inv k
    have hview : (s.unregister k).view k = { s.view k with registered := false } := by
      simp [State.view, unregister]
    rw [hview, refCount_cons]
    refine ⟨ok.tokens, ?_, ok.positive, ok.alive, ok.released, ok.empty, ok.log, ok.dropped,
      ok.fresh⟩
    have hrefs := ok.refs
    simp only [State.view, hreg, Bool.toNat_true] at hrefs
    simp only [State.view, Bool.toNat_false, ← hrefs, refCount, unregister]
    omega
  · refine inv.frame ?_ rfl ?_
    · simp [State.view, unregister, hkh]
    · simp only [refCount, unregister, count_cons_ne hkh]

/-- The last reference is released: the context goes, and the queue is marked. -/
theorem Ok.markRelease {v : View} {tokens refs : ℕ} {q : MessageQueue} (ok : Ok v tokens (refs + 1))
    (hr : v.ref = some 1) (hq : v.queue = some q) :
    Ok { v with ref := none, queue := some { q with release := true } }
      (if q.inGlobal then tokens else tokens + 1) refs := by
  obtain ⟨q', hq', hrelease⟩ := ok.alive 1 hr
  cases Option.some.inj (hq.symm.trans hq')
  have htokens := ok.tokens
  have hrefs := ok.refs
  rw [hq, owners, hrelease, Bool.or_false] at htokens
  rw [hr, Option.getD_some] at hrefs
  refine ⟨?_, ?_, by simp, by simp, ?_, ?_, ?_, ?_, ?_⟩
  · simp only [owners, Bool.or_true, if_true]
    split at htokens <;> simp_all
  · simp only [Option.getD_none]
    omega
  · intro q'' hq'' _
    rw [← Option.some.inj hq'']
  · intro q'' hq'' hout
    rw [← Option.some.inj hq''] at hout ⊢
    exact ok.empty q hq hout
  · have hlog := ok.log
    rw [hq] at hlog
    exact hlog
  · intro _ _
    exact ok.dropped q hq
  · intro hused
    have hfresh := ok.fresh hused
    rw [hq] at hfresh
    cases hfresh.1

theorem inv_contextRelease {s : State} {T R : List Handle} {h : Handle} (inv : Inv s T (h :: R)) :
    Inv (s.contextRelease h) T R := by
  have ok := inv h
  rw [refCount_cons] at ok
  obtain ⟨r, hr⟩ := ok.ref_of_refs (by omega)
  have hr' : s.ref h = some (r + 1) := hr
  intro k
  cases r with
  | succ r =>
      rw [contextRelease, hr']
      by_cases hkh : k = h
      · subst hkh
        have hview : ({ s with ref := Function.update s.ref k (some (r + 1)) } : State).view k =
            { s.view k with ref := some (r + 1) } := by
          simp [State.view]
        simp only
        rw [hview]
        exact ok.setRef hr (by simp only [refCount]; omega)
      · refine inv.frame ?_ rfl ?_
        · simp [State.view, hkh]
        · simp only [refCount, count_cons_ne hkh]
  | zero =>
      obtain ⟨q, hq, -⟩ := ok.alive 1 hr
      have hq' : s.queue h = some q := hq
      simp only [contextRelease, hr', mqMarkRelease, hq']
      by_cases hkh : k = h
      · subst hkh
        have hmark := ok.markRelease hr hq
        simp only [State.view, Function.update_self] at hmark ⊢
        convert hmark using 1
        · simp only [tokenCount]
          split
          · rfl
          · rw [List.count_append, List.count_cons_self, List.count_nil]
            omega
        · rfl
      · refine inv.frame ?_ ?_ ?_
        · simp [State.view, hkh]
        · simp only [tokenCount]
          split
          · rfl
          · rw [List.count_append, count_cons_ne hkh, List.count_nil, Nat.add_zero]
        · simp only [refCount, count_cons_ne hkh]

/-! ## Messages -/

/-- Whoever holds the context may push: the queue is there and not marked. -/
theorem Ok.push {v : View} {tokens refs : ℕ} {q : MessageQueue} (ok : Ok v tokens (refs + 1))
    (hq : v.queue = some q) (message : SkynetMessage) :
    Ok { v with queue := some (q.push message).1, pushed := v.pushed ++ [message] }
      (if (q.push message).2 then tokens + 1 else tokens) (refs + 1) := by
  obtain ⟨r, hr⟩ := ok.ref_of_refs (by omega)
  obtain ⟨q', hq', hrelease⟩ := ok.alive _ hr
  cases Option.some.inj (hq.symm.trans hq')
  have htokens := ok.tokens
  rw [hq, owners, hrelease, Bool.or_false] at htokens
  have hpush : (q.push message).1.inGlobal = true ∧ (q.push message).1.release = false ∧
      (q.push message).2 = !q.inGlobal := by
    unfold MessageQueue.push
    cases hin : q.inGlobal <;> simp [hrelease]
  refine ⟨?_, ok.refs, ok.positive, fun _ _ => ⟨_, rfl, hpush.2.1⟩, ?_, ?_, ?_, ?_, ?_⟩
  · simp only [owners, hpush, Bool.true_or, if_true]
    cases hin : q.inGlobal <;> simp [hin] at htokens ⊢ <;> exact htokens
  · intro _ _ hnone
    rw [hr] at hnone
    cases hnone
  · intro q'' hq'' hout
    rw [← Option.some.inj hq'', hpush.1] at hout
    cases hout
  · have hlog := ok.log
    rw [hq] at hlog
    simp only [messagesOf, MessageQueue.messages_push, hlog, List.append_assoc]
  · intro _ _
    exact ok.dropped q hq
  · intro hused
    have hfresh := ok.fresh hused
    rw [hq] at hfresh
    cases hfresh.1

theorem inv_mqPush {s : State} {T R : List Handle} {h : Handle} (inv : Inv s T (h :: R))
    (message : SkynetMessage) : Inv (s.mqPush h message) T (h :: R) := by
  have ok := inv h
  rw [refCount_cons] at ok
  obtain ⟨r, hr⟩ := ok.ref_of_refs (by omega)
  obtain ⟨q, hq, -⟩ := ok.alive _ hr
  have hq' : s.queue h = some q := hq
  simp only [mqPush, hq']
  intro k
  by_cases hkh : k = h
  · subst hkh
    have hpush := ok.push hq message
    simp only [State.view, Function.update_self] at hpush ⊢
    rw [refCount_cons]
    convert hpush using 1
    · simp only [tokenCount]
      split
      · rw [List.count_append, List.count_cons_self, List.count_nil]
        omega
      · rfl
    · rfl
  · refine inv.frame ?_ ?_ rfl
    · simp [State.view, hkh]
    · simp only [tokenCount]
      split
      · rw [List.count_append, count_cons_ne hkh, List.count_nil, Nat.add_zero]
      · rfl

/-- The owner of a queue finds it empty and gives it up in the same step. -/
theorem Ok.popEmpty {v : View} {tokens refs : ℕ} {q : MessageQueue}
    (ok : Ok v (tokens + 1) (refs + 1)) (hq : v.queue = some q) (hempty : q.messages = []) :
    Ok { v with queue := some q.pop.2 } tokens (refs + 1) := by
  obtain ⟨r, hr⟩ := ok.ref_of_refs (by omega)
  obtain ⟨q', hq', hrelease⟩ := ok.alive _ hr
  cases Option.some.inj (hq.symm.trans hq')
  have htokens := ok.tokens
  have hone := owners_le_one (some q)
  rw [hq] at htokens
  rw [MessageQueue.pop_of_nil hempty]
  refine ⟨?_, ok.refs, ok.positive, fun _ _ => ⟨_, rfl, hrelease⟩, ?_, ?_, ?_, ?_, ?_⟩
  · simp only [owners, hrelease, Bool.or_false, Bool.false_eq_true, if_false]
    omega
  · intro _ _ hnone
    rw [hr] at hnone
    cases hnone
  · intro q'' hq'' _
    rw [← Option.some.inj hq'']
    exact hempty
  · have hlog := ok.log
    rw [hq] at hlog
    exact hlog
  · intro _ _
    exact ok.dropped q hq
  · intro hused
    have hfresh := ok.fresh hused
    rw [hq] at hfresh
    cases hfresh.1

theorem Ok.popMessage {v : View} {tokens refs : ℕ} {q : MessageQueue} {message : SkynetMessage}
    {rest : List SkynetMessage} (ok : Ok v (tokens + 1) (refs + 1)) (hq : v.queue = some q)
    (hmessages : q.messages = message :: rest) (handed : Bool) :
    Ok { v with
      queue := some q.pop.2.takeOverload.2
      taken := v.taken ++ [(message, handed)] } (tokens + 1) (refs + 1) := by
  obtain ⟨r, hr⟩ := ok.ref_of_refs (by omega)
  obtain ⟨q', hq', hrelease⟩ := ok.alive _ hr
  cases Option.some.inj (hq.symm.trans hq')
  obtain ⟨-, hrest, hin, hrel, -⟩ := MessageQueue.pop_of_cons hmessages
  have htokens := ok.tokens
  have hlog := ok.log
  rw [hq] at htokens hlog
  refine ⟨?_, ok.refs, ok.positive, fun _ _ => ⟨_, rfl, ?_⟩, ?_, ?_, ?_, ?_, ?_⟩
  · simp only [owners, MessageQueue.takeOverload, hin, hrel] at htokens ⊢
    exact htokens
  · simp only [MessageQueue.takeOverload, hrel]
    exact hrelease
  · intro _ _ hnone
    rw [hr] at hnone
    cases hnone
  · intro q'' hq'' hout
    rw [← Option.some.inj hq''] at hout
    simp only [MessageQueue.takeOverload, hin] at hout
    rw [ok.empty q hq hout] at hmessages
    cases hmessages
  · have hleft : messagesOf (some q.pop.2.takeOverload.2) = rest := hrest
    have hdropped := ok.dropped q hq
    rw [hleft]
    simp only [messagesOf, hmessages, hdropped, List.append_nil, List.map_append] at hlog ⊢
    rw [hlog, List.append_assoc]
    rfl
  · intro _ _
    exact ok.dropped q hq
  · intro hused
    have hfresh := ok.fresh hused
    rw [hq] at hfresh
    cases hfresh.1

theorem inv_mqPop {s : State} {T R : List Handle} {h : Handle} (inv : Inv s (h :: T) (h :: R)) :
    (∃ message, (s.mqPop h).1 = some message ∧ Inv (s.mqPop h).2 (h :: T) (h :: R)) ∨
      ((s.mqPop h).1 = none ∧ Inv (s.mqPop h).2 T (h :: R)) := by
  have ok := inv h
  rw [refCount_cons, tokenCount_cons] at ok
  obtain ⟨r, hr⟩ := ok.ref_of_refs (by omega)
  obtain ⟨q, hq, -⟩ := ok.alive _ hr
  have hq' : s.queue h = some q := hq
  cases hmessages : q.messages with
  | nil =>
      have hpop := MessageQueue.pop_of_nil hmessages
      refine Or.inr ⟨by simp only [mqPop, hq', hpop], fun k => ?_⟩
      simp only [mqPop, hq', hpop]
      by_cases hkh : k = h
      · subst hkh
        have hpopped := ok.popEmpty hq hmessages
        simp only [State.view, Function.update_self, hpop] at hpopped ⊢
        rw [refCount_cons]
        exact hpopped
      · refine inv.frame ?_ ?_ rfl
        · simp [State.view, hkh]
        · simp only [tokenCount, count_cons_ne hkh]
  | cons message rest =>
      have hfirst := (MessageQueue.pop_of_cons hmessages).1
      have hpop : q.pop = (some message, q.pop.2) := Prod.ext hfirst rfl
      refine Or.inl ⟨message, by simp only [mqPop, hq']; rw [hpop], fun k => ?_⟩
      simp only [mqPop, hq']
      rw [hpop]
      by_cases hkh : k = h
      · subst hkh
        have hpopped := ok.popMessage hq hmessages (s.callback k)
        simp only [State.view, Function.update_self] at hpopped ⊢
        rw [refCount_cons, tokenCount_cons]
        exact hpopped
      · refine inv.frame ?_ rfl rfl
        simp [State.view, hkh]

/-- The owner of a queue without a context frees it, or puts it back while references last. -/
theorem inv_mqRelease {s : State} {T R : List Handle} {h : Handle} (inv : Inv s (h :: T) R) :
    Inv (s.mqRelease h) T R := by
  have ok := inv h
  rw [tokenCount_cons] at ok
  have htokens := ok.tokens
  cases hq : s.queue h with
  | none =>
      rw [State.view, hq, owners] at htokens
      omega
  | some q =>
      have hq' : (s.view h).queue = some q := hq
      simp only [mqRelease, hq]
      split
      · rename_i hrelease
        have hgone : s.ref h = none := by
          cases hr : s.ref h with
          | none => rfl
          | some r =>
              obtain ⟨q₀, hq₀, hfalse⟩ := ok.alive r hr
              cases Option.some.inj (hq'.symm.trans hq₀)
              rw [hrelease] at hfalse
              cases hfalse
        intro k
        by_cases hkh : k = h
        · subst hkh
          have hone := owners_le_one (s.view k).queue
          have hlog := ok.log
          refine ⟨?_, ok.refs, ok.positive, fun r hr => ?_, fun _ hnone => ?_,
            fun _ hnone => ?_, ?_, fun _ hnone => ?_, fun hused => ?_⟩
          · simp only [State.view, Function.update_self, owners]
            simp only [tokenCount] at htokens ⊢
            omega
          · have hr' : s.ref k = some r := hr
            rw [hgone] at hr'
            cases hr'
          · simp [State.view] at hnone
          · simp [State.view] at hnone
          · simp only [State.view, hq, messagesOf, Function.update_self, List.append_nil,
              List.append_assoc] at hlog ⊢
            exact hlog
          · simp [State.view] at hnone
          · have hfresh := ok.fresh hused
            rw [hq'] at hfresh
            cases hfresh.1
        · refine inv.frame ?_ ?_ rfl
          · simp [State.view, hkh]
          · simp only [tokenCount, count_cons_ne hkh]
      · exact inv_globalmqPush inv

theorem inv_setCallback {s : State} {T R : List Handle} (inv : Inv s T R) (h : Handle)
    (set : Bool) : Inv (s.setCallback h set) T R := fun _ => inv.frame rfl rfl rfl

/-- A new service: the creator owns the queue and one of two references. -/
theorem inv_contextNew {s : State} {T R : List Handle} {h : Handle} (inv : Inv s T R)
    (hused : s.used h = false) : Inv (s.contextNew h) (h :: T) (h :: R) := by
  intro k
  by_cases hkh : k = h
  · subst hkh
    have ok := inv k
    obtain ⟨hqueue, href, hpushed⟩ := ok.fresh hused
    have htokens := ok.tokens
    have hrefs := ok.refs
    have hlog := ok.log
    simp only [State.view] at hqueue href hpushed
    simp only [State.view, hqueue, owners, tokenCount] at htokens
    simp only [State.view, href, Option.getD_none, refCount] at hrefs
    simp only [State.view, hqueue, hpushed, messagesOf, List.append_nil] at hlog
    obtain ⟨htaken, hdropped⟩ := List.append_eq_nil_iff.mp hlog.symm
    rw [tokenCount_cons, refCount_cons]
    refine ⟨?_, ?_, ?_, ?_, ?_, ?_, ?_, ?_, ?_⟩
    · simp only [State.view, contextNew, Function.update_self, owners, MessageQueue.create,
        Bool.true_or, if_true, tokenCount]
      omega
    · simp only [State.view, contextNew, Function.update_self, Option.getD_some, Bool.toNat_true,
        refCount]
      omega
    · simp [State.view, contextNew]
    · intro _ _
      exact ⟨MessageQueue.create k, by simp [State.view, contextNew], rfl⟩
    · intro _ _ hnone
      simp [State.view, contextNew] at hnone
    · intro q hq hout
      simp only [State.view, contextNew, Function.update_self, Option.some.injEq] at hq
      rw [← hq] at hout
      cases hout
    · simp [State.view, contextNew, messagesOf, hpushed, List.map_eq_nil_iff.mp htaken, hdropped]
    · intro _ _
      simpa [State.view, contextNew] using hdropped
    · intro hused'
      simp [State.view, contextNew] at hused'
  · refine inv.frame ?_ ?_ ?_
    · simp [State.view, contextNew, hkh]
    · simp only [tokenCount, contextNew, count_cons_ne hkh]
    · simp only [refCount, contextNew, count_cons_ne hkh]

end Doudizhu.Skynet.Dispatch
