import Doudizhu.Agent.Service
import Mathlib.Data.List.Range
import Mathlib.Data.List.Pairwise

/-! # Requests in order

The queue and the coroutines that are in it form one line: the coroutine at its head handles the
first message that has not been served, or has just been woken up to do so, and those behind it
wait with the messages after that one, in their order.  Every other coroutine of the pool is
free.  A step moves the head along, lets it leave or adds a coroutine at the end. -/

set_option autoImplicit false

namespace Doudizhu.Agent

open Coroutine Network Runs

section Order
variable {τ C R A V : Type} [DecidableEq τ]

def frameOf (arrived : List (Message A V)) (entry : Nat × Outcome V) : Option (Nat × Bytes) :=
  (arrived[entry.1]?).bind fun m =>
    match m.type with
    | .REQUEST => (recvReturn m entry.2).1.map fun frame => (entry.1, frame)
    | .RESPONSE => none

namespace Thread

/-- Neither in the queue nor handling a message. -/
def Free : Thread C R A V → Prop
  | .idle => True
  | .dead => True
  | _ => False

end Thread

/-- The coroutines wait with the messages from `index` on, up to the last one that arrived. -/
def Waits (threads : τ → Thread C R A V) (arrived : List (Message A V)) : Nat → List τ → Prop
  | index, [] => index = arrived.length
  | index, thread :: queue =>
      (∃ m, arrived[index]? = some m ∧ threads thread = .waiting ⟨index, m⟩) ∧
        Waits threads arrived (index + 1) queue

section Waiting
variable {threads : τ → Thread C R A V} {arrived : List (Message A V)}

omit [DecidableEq τ] in
theorem Waits.of_mem : ∀ {queue : List τ} {index : Nat}, Waits threads arrived index queue →
    ∀ thread ∈ queue, ∃ i m, index ≤ i ∧ threads thread = .waiting ⟨i, m⟩ := by
  intro queue
  induction queue with
  | nil => intro index _ thread h; simp at h
  | cons head queue ih =>
      intro index hwaits thread hmem
      obtain ⟨⟨m, _, hhead⟩, hrest⟩ := hwaits
      rcases List.mem_cons.mp hmem with rfl | hmem
      · exact ⟨index, m, le_refl _, hhead⟩
      · obtain ⟨i, m, hi, hthread⟩ := ih hrest thread hmem
        exact ⟨i, m, by omega, hthread⟩

theorem Waits.update {thread : τ} (state : Thread C R A V) :
    ∀ {queue : List τ} {index : Nat}, thread ∉ queue → Waits threads arrived index queue →
      Waits (Function.update threads thread state) arrived index queue := by
  intro queue
  induction queue with
  | nil => intro index _ h; exact h
  | cons head queue ih =>
      intro index hnot hwaits
      obtain ⟨⟨m, harrived, hhead⟩, hrest⟩ := hwaits
      rw [List.mem_cons, not_or] at hnot
      refine ⟨⟨m, harrived, ?_⟩, ih hnot.2 hrest⟩
      rw [Function.update_of_ne (Ne.symm hnot.1)]
      exact hhead

theorem Waits.concat {thread : τ} (m : Message A V) :
    ∀ {queue : List τ} {index : Nat}, thread ∉ queue → Waits threads arrived index queue →
      Waits (Function.update threads thread (.waiting ⟨arrived.length, m⟩)) (arrived ++ [m])
        index (queue ++ [thread]) := by
  intro queue
  induction queue with
  | nil =>
      intro index _ hlast
      cases hlast
      refine ⟨⟨m, List.getElem?_concat_length .., Function.update_self ..⟩, ?_⟩
      simp [Waits]
  | cons head queue ih =>
      intro index hnot hwaits
      obtain ⟨⟨m', harrived, hhead⟩, hrest⟩ := hwaits
      rw [List.mem_cons, not_or] at hnot
      have hlt := (List.getElem?_eq_some_iff.mp harrived).1
      refine ⟨⟨m', ?_, ?_⟩, ih hnot.2 hrest⟩
      · rw [List.getElem?_append_left hlt]
        exact harrived
      · rw [Function.update_of_ne (Ne.symm hnot.1)]
        exact hhead

end Waiting

/-! ## The line -/

/-- The first message that has not been served, with the coroutine it belongs to. -/
structure Head (s : AgentState τ C R A V) (thread : τ) (job : Job A V) : Prop where
  index : job.index = s.served.length
  arrived : s.arrived[s.served.length]? = some job.message
  current : s.cs.current_thread = some thread
  outside : thread ∉ s.cs.thread_queue
  waits : Waits s.threads s.arrived (s.served.length + 1) s.cs.thread_queue
  others : ∀ u, u ≠ thread → u ∉ s.cs.thread_queue → (s.threads u).Free

/-- The messages served are the first ones that arrived, and the socket has their replies. -/
structure Recorded (s : AgentState τ C R A V) : Prop where
  served : s.served.map Prod.fst = List.range s.served.length
  written : s.written = s.served.filterMap (frameOf s.arrived)

inductive Line (s : AgentState τ C R A V) : Prop
  | empty (current : s.cs.current_thread = none) (ref : s.cs.ref = 0)
      (queue : s.cs.thread_queue = []) (all : s.served.length = s.arrived.length)
      (free : ∀ u, (s.threads u).Free)
  | woken (thread : τ) (job : Job A V) (head : Head s thread job) (ref : s.cs.ref = 0)
      (state : s.threads thread = .woken job)
  | handling (thread : τ) (job : Job A V) (head : Head s thread job) (ref : s.cs.ref = 1)
      (request : job.message.type = .REQUEST) (c : C) (k : R → Coroutine Unit C R V)
      (state : s.threads thread = .handling job (.call c k))

/-- The coroutine at the head runs: nothing is said about its own state. -/
structure Running (s : AgentState τ C R A V) (thread : τ) (job : Job A V) : Prop where
  recorded : Recorded s
  head : Head s thread job
  ref : s.cs.ref = 1

omit [DecidableEq τ] in
theorem Head.lt {s : AgentState τ C R A V} {thread : τ} {job : Job A V}
    (h : Head s thread job) : s.served.length < s.arrived.length :=
  (List.getElem?_eq_some_iff.mp h.arrived).1

/-- Nothing but the state of the coroutine at the head changes. -/
theorem Head.setThread {s : AgentState τ C R A V} {thread : τ} {job : Job A V}
    (h : Head s thread job) (state : Thread C R A V) : Head (s.setThread thread state) thread job
    where
  index := h.index
  arrived := h.arrived
  current := h.current
  outside := h.outside
  waits := h.waits.update state h.outside
  others u hu hq := by
    change (Function.update s.threads thread state u).Free
    rw [Function.update_of_ne hu]
    exact h.others u hu hq

/-! ## Leaving the queue -/

omit [DecidableEq τ] in
theorem xpcallRet_nil {queue : Queue τ} (href : queue.ref = 1) (hqueue : queue.thread_queue = []) :
    queue.xpcallRet = (.new, none) := by
  simp [Queue.xpcallRet, Queue.new, href, hqueue]

omit [DecidableEq τ] in
theorem xpcallRet_cons {queue : Queue τ} {next : τ} {rest : List τ} (href : queue.ref = 1)
    (hqueue : queue.thread_queue = next :: rest) :
    queue.xpcallRet = (⟨some next, 0, rest⟩, some next) := by
  simp [Queue.xpcallRet, href, hqueue]

/-- Waking a coroutine up changes its own state and nothing else. -/
theorem wakeup_eq (s : AgentState τ C R A V) (thread : Option τ) :
    ∃ threads, s.wakeup thread = { s with threads := threads } := by
  unfold AgentState.wakeup
  split
  · exact ⟨s.threads, rfl⟩
  · split
    · exact ⟨_, rfl⟩
    · exact ⟨s.threads, rfl⟩

@[simp] theorem wakeup_served (s : AgentState τ C R A V) (thread : Option τ) :
    (s.wakeup thread).served = s.served := by
  obtain ⟨_, h⟩ := wakeup_eq s thread
  rw [h]

@[simp] theorem wakeup_written (s : AgentState τ C R A V) (thread : Option τ) :
    (s.wakeup thread).written = s.written := by
  obtain ⟨_, h⟩ := wakeup_eq s thread
  rw [h]

@[simp] theorem wakeup_arrived (s : AgentState τ C R A V) (thread : Option τ) :
    (s.wakeup thread).arrived = s.arrived := by
  obtain ⟨_, h⟩ := wakeup_eq s thread
  rw [h]

theorem recorded_leave {s : AgentState τ C R A V} {thread : τ} {job : Job A V}
    (h : Running s thread job) {outcome : Outcome V} {frame : Option Bytes} (ok : Bool)
    (hframe : frameOf s.arrived (job.index, outcome) = frame.map fun f => (job.index, f)) :
    Recorded (s.leave thread job outcome frame ok) where
  served := by
    simp only [AgentState.leave, wakeup_served, List.map_append, List.length_append,
      h.recorded.served, List.map_cons, List.map_nil, List.length_singleton, List.range_succ,
      h.head.index]
  written := by
    simp only [AgentState.leave, wakeup_served, wakeup_written, wakeup_arrived,
      List.filterMap_append, ← h.recorded.written, List.filterMap_cons, List.filterMap_nil, hframe]
    cases frame <;> rfl

theorem line_leave {s : AgentState τ C R A V} {thread : τ} {job : Job A V}
    (h : Running s thread job) (outcome : Outcome V) (frame : Option Bytes) (ok : Bool) :
    Line (s.leave thread job outcome frame ok) := by
  have hfree : (if ok then Thread.idle else Thread.dead : Thread C R A V).Free := by
    cases ok <;> trivial
  have hwaits := h.head.waits.update (if ok then .idle else .dead) h.head.outside
  have hothers : ∀ u, u ∉ s.cs.thread_queue →
      (Function.update s.threads thread (if ok then .idle else .dead) u).Free := by
    intro u hu
    by_cases hthread : u = thread
    · subst hthread
      rw [Function.update_self]
      exact hfree
    · rw [Function.update_of_ne hthread]
      exact h.head.others u hthread hu
  cases hqueue : s.cs.thread_queue with
  | nil =>
      rw [hqueue] at hwaits hothers
      simp only [AgentState.leave, xpcallRet_nil h.ref hqueue, AgentState.wakeup]
      refine .empty rfl rfl rfl ?_ fun u => hothers u (by simp)
      rw [List.length_append, List.length_singleton]
      exact hwaits
  | cons next queue =>
      rw [hqueue] at hwaits hothers
      obtain ⟨⟨m, harrived, hnext⟩, hrest⟩ := hwaits
      have houtside : next ∉ queue := by
        intro hmem
        obtain ⟨i, m', hi, hwaiting⟩ := hrest.of_mem next hmem
        rw [hnext] at hwaiting
        cases hwaiting
        omega
      simp only [AgentState.leave, xpcallRet_cons h.ref hqueue, AgentState.wakeup, hnext]
      refine .woken next ⟨s.served.length + 1, m⟩ ⟨?_, ?_, rfl, houtside, ?_, ?_⟩ rfl ?_
      · simp [AgentState.setThread]
      · simpa [AgentState.setThread] using harrived
      · have hlater := hrest.update (.woken ⟨s.served.length + 1, m⟩) houtside
        simpa [AgentState.setThread] using hlater
      · intro u hu hq
        simp only [AgentState.setThread, Function.update_of_ne hu]
        exact hothers u fun hmem => (List.mem_cons.mp hmem).elim hu hq
      · exact Function.update_self ..

/-! ## One step -/

structure InOrder (s : AgentState τ C R A V) : Prop where
  recorded : Recorded s
  line : Line s

omit [DecidableEq τ] in
theorem inOrder_start : InOrder (AgentState.start : AgentState τ C R A V) where
  recorded := ⟨rfl, rfl⟩
  line := .empty rfl rfl rfl rfl fun _ => trivial

theorem inOrder_leave {s : AgentState τ C R A V} {thread : τ} {job : Job A V}
    (h : Running s thread job) {outcome : Outcome V} {frame : Option Bytes} (ok : Bool)
    (hframe : frameOf s.arrived (job.index, outcome) = frame.map fun f => (job.index, f)) :
    InOrder (s.leave thread job outcome frame ok) :=
  ⟨recorded_leave h ok hframe, line_leave h outcome frame ok⟩

omit [DecidableEq τ] in
theorem frameOf_head {s : AgentState τ C R A V} {thread : τ} {job : Job A V}
    (h : Head s thread job) (outcome : Outcome V) :
    frameOf s.arrived (job.index, outcome) =
      match job.message.type with
      | .REQUEST => (recvReturn job.message outcome).1.map fun frame => (job.index, frame)
      | .RESPONSE => none := by
  simp only [frameOf, h.index, h.arrived, Option.bind_some]

theorem inOrder_advance {s : AgentState τ C R A V} {thread : τ} {job : Job A V}
    (h : Running s thread job) (htype : job.message.type = .REQUEST)
    (p : Coroutine Unit C R V) : InOrder (s.advance thread job p) := by
  have hframe := frameOf_head h.head
  simp only [htype] at hframe
  unfold AgentState.advance
  cases hp : p.settle () with
  | done r => exact inOrder_leave h _ (hframe _)
  | raise => exact inOrder_leave h _ (hframe _)
  | read k => exact absurd hp (settle_ne_read () p k)
  | call c k =>
      refine ⟨⟨h.recorded.served, h.recorded.written⟩,
        .handling thread job (h.head.setThread _) h.ref htype c k ?_⟩
      exact Function.update_self ..

theorem inOrder_recvPackage {REQUEST : String → Option (A → Coroutine Unit C R V)}
    {s : AgentState τ C R A V} {thread : τ} {job : Job A V}
    (h : Running { s with cs := s.cs.enter thread } thread job) :
    InOrder (s.recvPackage REQUEST thread job) := by
  unfold AgentState.recvPackage
  cases htype : job.message.type with
  | REQUEST => exact inOrder_advance h htype _
  | RESPONSE =>
      apply inOrder_leave h
      rw [frameOf_head h.head, htype]
      rfl

omit [DecidableEq τ] in
theorem served_index_lt {s : AgentState τ C R A V} (h : Recorded s) {entry : Nat × Outcome V}
    (hmem : entry ∈ s.served) : entry.1 < s.served.length := by
  have hindex : entry.1 ∈ s.served.map Prod.fst := List.mem_map_of_mem hmem
  rw [h.served] at hindex
  exact List.mem_range.mp hindex

omit [DecidableEq τ] in
theorem frameOf_append {s : AgentState τ C R A V} (h : Recorded s)
    (hle : s.served.length ≤ s.arrived.length) (m : Message A V) :
    s.served.filterMap (frameOf (s.arrived ++ [m])) = s.served.filterMap (frameOf s.arrived) := by
  apply List.filterMap_congr
  intro entry hmem
  have hlt := served_index_lt h hmem
  unfold frameOf
  rw [List.getElem?_append_left (by omega)]

omit [DecidableEq τ] in
theorem Line.served_le {s : AgentState τ C R A V} (h : Line s) :
    s.served.length ≤ s.arrived.length := by
  cases h with
  | empty current ref queue all free => exact all.le
  | woken thread job head ref state => exact head.lt.le
  | handling thread job head ref request c k state => exact head.lt.le

theorem Head.insert {s : AgentState τ C R A V} {thread : τ} {job : Job A V}
    (h : Head s thread job) {newcomer : τ} (m : Message A V)
    (hidle : s.threads newcomer = .idle) (hne : newcomer ≠ thread) :
    Head { s with
        cs := s.cs.insert newcomer
        threads := Function.update s.threads newcomer (.waiting ⟨s.arrived.length, m⟩)
        arrived := s.arrived ++ [m] } thread job := by
  have hnot : newcomer ∉ s.cs.thread_queue := by
    intro hmem
    obtain ⟨i, m', _, hwaiting⟩ := h.waits.of_mem newcomer hmem
    rw [hidle] at hwaiting
    cases hwaiting
  refine ⟨h.index, ?_, h.current, ?_, h.waits.concat m hnot, ?_⟩
  · rw [List.getElem?_append_left h.lt]
    exact h.arrived
  · intro hmem
    rcases List.mem_append.mp hmem with hmem | hmem
    · exact h.outside hmem
    · exact hne (List.mem_singleton.mp hmem).symm
  · intro u hu hq
    obtain ⟨hq, hlast⟩ := not_or.mp (mt List.mem_append.mpr hq)
    simp only [Function.update_of_ne (mt List.mem_singleton.mpr hlast)]
    exact h.others u hu hq

/-- A message that finds the queue taken waits behind the head. -/
theorem Head.taken {s : AgentState τ C R A V} {thread newcomer : τ} {job : Job A V}
    (h : Head s thread job) (hstate : s.threads thread ≠ .idle)
    (hidle : s.threads newcomer = .idle) :
    newcomer ≠ thread ∧ s.cs.taken newcomer = true := by
  have hne : newcomer ≠ thread := by
    rintro rfl
    exact hstate hidle
  exact ⟨hne, by simp [Queue.taken, h.current, hne.symm]⟩

variable {REQUEST : String → Option (A → Coroutine Unit C R V)}

theorem inOrder_message {s s' : AgentState τ C R A V} {thread : τ} {m : Message A V}
    (h : InOrder s) (hstep : s.step REQUEST (.message thread m) = some s') : InOrder s' := by
  have hwritten := h.recorded.written.trans (frameOf_append h.recorded h.line.served_le m).symm
  simp only [AgentState.step] at hstep
  split at hstep
  · rename_i hidle
    cases h.line with
    | empty current ref queue all free =>
        have hfree : s.cs.taken thread = false := by simp [Queue.taken, current]
        rw [if_neg (by simp [hfree])] at hstep
        cases Option.some.inj hstep
        apply inOrder_recvPackage
        refine ⟨⟨h.recorded.served, hwritten⟩, ⟨all.symm, ?_, rfl, ?_, ?_, fun u _ _ => free u⟩, ?_⟩
        · rw [all]
          exact List.getElem?_concat_length ..
        · simp [Queue.enter, queue]
        · simp [Queue.enter, queue, Waits, all]
        · simp [Queue.enter, ref]
    | woken c job head ref state =>
        obtain ⟨hne, htaken⟩ := head.taken (by simp [state]) hidle
        rw [if_pos htaken] at hstep
        cases Option.some.inj hstep
        refine ⟨⟨h.recorded.served, hwritten⟩, .woken c job (head.insert m hidle hne) ref ?_⟩
        exact (Function.update_of_ne hne.symm _ _).trans state
    | handling c job head ref request call k state =>
        obtain ⟨hne, htaken⟩ := head.taken (by simp [state]) hidle
        rw [if_pos htaken] at hstep
        cases Option.some.inj hstep
        refine ⟨⟨h.recorded.served, hwritten⟩,
          .handling c job (head.insert m hidle hne) ref request call k ?_⟩
        exact (Function.update_of_ne hne.symm _ _).trans state
  · cases hstep

omit [DecidableEq τ] in
theorem Head.only {s : AgentState τ C R A V} {thread u : τ} {job : Job A V}
    (h : Head s thread job) (hfree : ¬ (s.threads u).Free)
    (hwaiting : ∀ job', s.threads u ≠ .waiting job') : u = thread := by
  by_contra hne
  by_cases hmem : u ∈ s.cs.thread_queue
  · obtain ⟨i, m, _, hstate⟩ := h.waits.of_mem u hmem
    exact hwaiting _ hstate
  · exact hfree (h.others u hne hmem)

theorem inOrder_wake {s s' : AgentState τ C R A V} {thread : τ} (h : InOrder s)
    (hstep : s.step REQUEST (.wake thread) = some s') : InOrder s' := by
  simp only [AgentState.step] at hstep
  split at hstep
  · rename_i job hwoken
    have hfree : ¬ (s.threads thread).Free := by simp [hwoken, Thread.Free]
    have hwaiting : ∀ job', s.threads thread ≠ .waiting job' := by simp [hwoken]
    cases h.line with
    | empty current ref queue all free => exact absurd (free thread) hfree
    | woken c job' head ref state =>
        cases head.only hfree hwaiting
        cases hwoken.symm.trans state
        rw [if_pos ref] at hstep
        cases Option.some.inj hstep
        apply inOrder_recvPackage
        exact ⟨⟨h.recorded.served, h.recorded.written⟩,
          ⟨head.index, head.arrived, rfl, head.outside, head.waits, head.others⟩,
          by simp [Queue.enter, ref]⟩
    | handling c job' head ref request call k state =>
        cases head.only hfree hwaiting
        cases hwoken.symm.trans state
  · cases hstep

theorem inOrder_answer {s s' : AgentState τ C R A V} {thread : τ} {r : R} (h : InOrder s)
    (hstep : s.step REQUEST (.answer thread r) = some s') : InOrder s' := by
  simp only [AgentState.step] at hstep
  split at hstep
  · rename_i job call k hhandling
    have hfree : ¬ (s.threads thread).Free := by simp [hhandling, Thread.Free]
    have hwaiting : ∀ job', s.threads thread ≠ .waiting job' := by simp [hhandling]
    cases h.line with
    | empty current ref queue all free => exact absurd (free thread) hfree
    | woken c job' head ref state =>
        cases head.only hfree hwaiting
        cases hhandling.symm.trans state
    | handling c job' head ref request call' k' state =>
        cases head.only hfree hwaiting
        cases hhandling.symm.trans state
        cases Option.some.inj hstep
        exact inOrder_advance ⟨h.recorded, head, ref⟩ request (k r)
  · cases hstep

theorem inOrder_step {s s' : AgentState τ C R A V} {e : AgentEvent τ R A V} (h : InOrder s)
    (hstep : s.step REQUEST e = some s') : InOrder s' := by
  cases e with
  | message thread m => exact inOrder_message h hstep
  | wake thread => exact inOrder_wake h hstep
  | answer thread r => exact inOrder_answer h hstep

/-! ## What the client sees -/

theorem frameOf_index {arrived : List (Message A V)} {entry : Nat × Outcome V} {f : Nat × Bytes}
    (h : frameOf arrived entry = some f) : f.1 = entry.1 := by
  obtain ⟨m, _, hframe⟩ := Option.bind_eq_some_iff.mp h
  cases htype : m.type with
  | REQUEST =>
      rw [htype] at hframe
      obtain ⟨frame, _, rfl⟩ := Option.map_eq_some_iff.mp hframe
      rfl
  | RESPONSE =>
      rw [htype] at hframe
      cases hframe

theorem frames_index_mem {arrived : List (Message A V)} {served : List (Nat × Outcome V)}
    {f : Nat × Bytes} (h : f ∈ served.filterMap (frameOf arrived)) :
    f.1 ∈ served.map Prod.fst := by
  obtain ⟨entry, hmem, hframe⟩ := List.mem_filterMap.mp h
  rw [frameOf_index hframe]
  exact List.mem_map_of_mem hmem

/-- The frames of messages served in order are in the order of their messages. -/
theorem frames_sorted (arrived : List (Message A V)) :
    ∀ served : List (Nat × Outcome V), (served.map Prod.fst).Pairwise (· < ·) →
      ((served.filterMap (frameOf arrived)).map Prod.fst).Pairwise (· < ·) := by
  intro served
  induction served with
  | nil => intro _; exact List.Pairwise.nil
  | cons entry served ih =>
      intro h
      rw [List.map_cons, List.pairwise_cons] at h
      cases hframe : frameOf arrived entry with
      | none =>
          rw [List.filterMap_cons_none hframe]
          exact ih h.2
      | some f =>
          rw [List.filterMap_cons_some hframe, List.map_cons, List.pairwise_cons]
          refine ⟨fun i hi => ?_, ih h.2⟩
          obtain ⟨f', hf', rfl⟩ := List.mem_map.mp hi
          rw [frameOf_index hframe]
          exact h.1 _ (frames_index_mem hf')

/-- A message served once has its own reply on the socket and nothing else. -/
theorem frames_of_index (arrived : List (Message A V)) {entry : Nat × Outcome V} {f : Nat × Bytes}
    (hframe : frameOf arrived entry = some f) :
    ∀ served : List (Nat × Outcome V), (served.map Prod.fst).Nodup → entry ∈ served →
      (served.filterMap (frameOf arrived)).filter (fun f => f.1 = entry.1) = [f] := by
  intro served
  induction served with
  | nil => intro _ h; simp at h
  | cons first served ih =>
      intro hnodup hmem
      rw [List.map_cons, List.nodup_cons] at hnodup
      rcases List.mem_cons.mp hmem with rfl | hmem
      · have hrest : (served.filterMap (frameOf arrived)).filter (fun f => f.1 = entry.1) = [] := by
          apply List.filter_eq_nil_iff.mpr
          intro f' hf'
          have hne : f'.1 ≠ entry.1 := fun e => hnodup.1 (e ▸ frames_index_mem hf')
          simpa using hne
        rw [List.filterMap_cons_some hframe, List.filter_cons_of_pos (by
          simpa using frameOf_index hframe), hrest]
      · have hne : first.1 ≠ entry.1 :=
          fun e => hnodup.1 (e ▸ List.mem_map_of_mem hmem)
        cases hfirst : frameOf arrived first with
        | none =>
            rw [List.filterMap_cons_none hfirst]
            exact ih hnodup.2 hmem
        | some f' =>
            have hskip : ¬ f'.1 = entry.1 := by rwa [frameOf_index hfirst]
            rw [List.filterMap_cons_some hfirst, List.filter_cons_of_neg (by simpa using hskip)]
            exact ih hnodup.2 hmem

structure Served (s : AgentState τ C R A V) : Prop where
  /-- No two executions of `recv_package` overlap. -/
  alone : ∀ t u job job' p p', s.threads t = .handling job p → s.threads u = .handling job' p' →
    t = u
  /-- The messages are served in the order of their arrival, each once. -/
  order : s.served.map Prod.fst = List.range s.served.length
  /-- The packages on the socket are in the order of arrival of their requests. -/
  sorted : (s.written.map Prod.fst).Pairwise (· < ·)
  /-- A request with a session whose handler has returned has one response. -/
  replied : ∀ i r m response result frame, (i, .returned r) ∈ s.served → s.arrived[i]? = some m →
    m.type = .REQUEST → m.response = some response → response r = some result →
      sendPackage result = some frame → s.written.filter (fun f => f.1 = i) = [(i, frame)]
  /-- While there is a message to serve, a coroutine is at it. -/
  going : s.served.length < s.arrived.length → ∃ t job,
    job.index = s.served.length ∧ (s.threads t = .woken job ∨
      ∃ c k, s.threads t = .handling job (.call c k))

omit [DecidableEq τ] in
theorem served_of_inOrder {s : AgentState τ C R A V} (h : InOrder s) : Served s where
  alone := by
    intro t u job job' p p' ht hu
    have hhead : ∀ c head, Head s c head → t = u := by
      intro c job head
      have htc := head.only (u := t) (by simp [ht, Thread.Free]) (by simp [ht])
      have huc := head.only (u := u) (by simp [hu, Thread.Free]) (by simp [hu])
      rw [htc, huc]
    cases h.line with
    | empty current ref queue all free => exact absurd (free t) (by simp [ht, Thread.Free])
    | woken c job head ref state => exact hhead c job head
    | handling c job head ref request call k state => exact hhead c job head
  order := h.recorded.served
  sorted := by
    rw [h.recorded.written]
    apply frames_sorted
    rw [h.recorded.served]
    exact List.pairwise_lt_range
  replied := by
    intro i r m response result frame hserved hm htype hresponse hresult hframe
    have hreply : frameOf s.arrived (i, .returned r) = some (i, frame) := by
      simp [frameOf, hm, htype, recvReturn, reply, hresponse, hresult, hframe]
    rw [h.recorded.written]
    refine frames_of_index s.arrived hreply s.served ?_ hserved
    rw [h.recorded.served]
    exact List.nodup_range
  going := by
    intro hlt
    cases h.line with
    | empty current ref queue all free => omega
    | woken c job head ref state => exact ⟨c, job, head.index, Or.inl state⟩
    | handling c job head ref request call k state =>
        exact ⟨c, job, head.index, Or.inr ⟨call, k, state⟩⟩

/-! ## What has arrived -/

/-- The messages of a run, in the order of their events. -/
def messagesOf (es : List (AgentEvent τ R A V)) : List (Message A V) :=
  es.filterMap fun
    | .message _ m => some m
    | _ => none

theorem arrived_wakeup (s : AgentState τ C R A V) (thread : Option τ) :
    (s.wakeup thread).arrived = s.arrived := by
  unfold AgentState.wakeup
  split
  · rfl
  · split <;> rfl

theorem arrived_leave (s : AgentState τ C R A V) (thread : τ) (job : Job A V) (outcome : Outcome V)
    (frame : Option Bytes) (ok : Bool) :
    (s.leave thread job outcome frame ok).arrived = s.arrived := by
  unfold AgentState.leave
  exact arrived_wakeup _ _

theorem arrived_advance (s : AgentState τ C R A V) (thread : τ) (job : Job A V)
    (p : Coroutine Unit C R V) : (s.advance thread job p).arrived = s.arrived := by
  unfold AgentState.advance
  split
  · exact arrived_leave ..
  · exact arrived_leave ..
  · rfl

theorem arrived_recvPackage (REQUEST : String → Option (A → Coroutine Unit C R V))
    (s : AgentState τ C R A V) (thread : τ) (job : Job A V) :
    (s.recvPackage REQUEST thread job).arrived = s.arrived := by
  unfold AgentState.recvPackage
  split
  · exact arrived_advance ..
  · exact arrived_leave ..

theorem arrived_step {REQUEST : String → Option (A → Coroutine Unit C R V)}
    {s s' : AgentState τ C R A V} {e : AgentEvent τ R A V} (hstep : s.step REQUEST e = some s') :
    s'.arrived = s.arrived ++ messagesOf [e] := by
  cases e with
  | message thread m =>
      simp only [AgentState.step] at hstep
      split at hstep
      · split at hstep
        · cases hstep
          rfl
        · cases hstep
          exact arrived_recvPackage ..
      · cases hstep
  | wake thread =>
      simp only [AgentState.step] at hstep
      rw [messagesOf, List.filterMap_cons_none rfl, List.filterMap_nil, List.append_nil]
      split at hstep
      · split at hstep
        · cases hstep
          exact arrived_recvPackage ..
        · cases hstep
          rfl
      · cases hstep
  | answer thread r =>
      simp only [AgentState.step] at hstep
      rw [messagesOf, List.filterMap_cons_none rfl, List.filterMap_nil, List.append_nil]
      split at hstep
      · cases hstep
        exact arrived_advance ..
      · cases hstep

theorem arrived_run {REQUEST : String → Option (A → Coroutine Unit C R V)} :
    ∀ (es : List (AgentEvent τ R A V)) (s t : AgentState τ C R A V),
      run (AgentState.step REQUEST) s es = some t → t.arrived = s.arrived ++ messagesOf es := by
  intro es
  induction es with
  | nil =>
      intro s t hrun
      cases hrun
      exact (List.append_nil _).symm
  | cons e es ih =>
      intro s t hrun
      obtain ⟨s', hstep, hrest⟩ := (run_cons_eq_some _ s t e es).mp hrun
      have hcons : messagesOf (e :: es) = messagesOf [e] ++ messagesOf es :=
        List.filterMap_append (l := [e])
      rw [ih s' t hrest, arrived_step hstep, hcons, List.append_assoc]

/-- Whatever the messages, whenever they arrive, however their handlers are suspended and resumed
and whichever of them raise. -/
theorem requests_served_in_order (REQUEST : String → Option (A → Coroutine Unit C R V))
    (es : List (AgentEvent τ R A V)) :
    Always (AgentState.step REQUEST) Served
      (AgentState.start : AgentState τ C R A V) es ∧
    ∀ t, run (AgentState.step REQUEST) (AgentState.start : AgentState τ C R A V) es = some t →
      t.arrived = messagesOf es := by
  refine ⟨?_, fun t hrun => arrived_run es _ t hrun⟩
  apply always_of_invariant (AgentState.step REQUEST) (fun _ _ => True) InOrder Served
  · intro s e s' h _ hstep
    exact inOrder_step h hstep
  · intro s h
    exact served_of_inOrder h
  · exact inOrder_start
  · exact along_true (AgentState.step REQUEST) es _

end Order

/-- A handler that calls another service; any other request has no handler. -/
def askFirst : String → Option (Unit → Coroutine Unit Unit Unit Unit) := fun name =>
  if name = "ask" then some fun _ => .call () fun _ => .done () else none

def requestWith (name : String) : Message Unit Unit :=
  ⟨.REQUEST, name, (), some fun _ => some [7]⟩

/-- The second request waits for the first and raises; only the first is answered. -/
example : (run (AgentState.step askFirst) (AgentState.start : AgentState Bool Unit Unit Unit Unit)
    [.message false (requestWith "ask"), .message true (requestWith "other"), .answer false (),
      .wake true]).map (fun s => (s.served, s.written)) =
    some ([(0, .returned ()), (1, .raised)], [(0, [0, 1, 7])]) := rfl

end Doudizhu.Agent
