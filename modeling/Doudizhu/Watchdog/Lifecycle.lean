import Doudizhu.Watchdog.Service

/-! # The life of an agent

A connection goes through stages: its agent is being launched, stands in the table, is taken out
by the handler that is to kick the connection, and is disconnected.  At most one coroutine holds
a connection between two stages.  The watchdog refines the stages: the table, the suspended
coroutines and the messages sent can be read off them, and every handler moves one connection one
stage on or none. -/

set_option autoImplicit false

namespace Doudizhu.Watchdog

open Runs

/-! ## Stages -/

inductive Stage (ι : Type) where
  | fresh
  | launching (i : ι)
  | failed
  | held (a : Address)
  | kicking (i : ι) (a : Address)
  | disconnected (a : Address)

namespace Stage
variable {ι : Type}

def table : Stage ι → Option Address
  | .held a => some a
  | _ => none

def agent : Stage ι → Option Address
  | .held a => some a
  | .kicking _ a => some a
  | .disconnected a => some a
  | _ => none

def owner : Stage ι → Option ι
  | .launching i => some i
  | .kicking i _ => some i
  | _ => none

/-- The agent has been taken out of the table. -/
def Taken (stage : Stage ι) : Prop := stage.table = none ∧ stage.agent.isSome = true

theorem taken_cases {stage : Stage ι} (h : stage.Taken) :
    (∃ i a, stage = .kicking i a) ∨ ∃ a, stage = .disconnected a := by
  cases stage with
  | kicking i a => exact Or.inl ⟨i, a, rfl⟩
  | disconnected a => exact Or.inr ⟨a, rfl⟩
  | fresh => exact absurd h.2 (by simp [agent])
  | launching i => exact absurd h.2 (by simp [agent])
  | failed => exact absurd h.2 (by simp [agent])
  | held a => exact absurd h.1 (by simp [table])

end Stage

def Thread.holds {ι : Type} (i : ι) : Thread → Option (Fd × Stage ι)
  | .newservice fd => some (fd, .launching i)
  | .kicking fd a => some (fd, .kicking i a)
  | _ => none

section Refinement
variable {ι : Type}

/-- The suspended coroutines hold the connections that have an owner. -/
def Owned (threads : ι → Thread) (stages : Fd → Stage ι) : Prop :=
  ∀ i fd stage, (threads i).holds i = some (fd, stage) ↔
    stages fd = stage ∧ stage.owner = some i

/-- One coroutine moves one connection on, which it held or which nobody held. -/
theorem Owned.update [DecidableEq ι] {threads : ι → Thread} {stages : Fd → Stage ι}
    (h : Owned threads stages) {i : ι} {fd : Fd} {thread : Thread} {stage : Stage ι}
    (hold : (threads i).holds i = some (fd, stages fd) ∨
      (threads i).holds i = none ∧ (stages fd).owner = none)
    (hnew : thread.holds i = some (fd, stage) ∧ stage.owner = some i ∨
      thread.holds i = none ∧ stage.owner = none) :
    Owned (Function.update threads i thread) (Function.update stages fd stage) := by
  have hheld : (threads i).holds i = some (fd, stages fd) → (stages fd).owner = some i :=
    fun hholds => ((h i fd _).mp hholds).2
  intro j fd' stage'
  have hother := h j fd' stage'
  by_cases hj : j = i
  · subst hj
    by_cases hfd : fd' = fd
    · subst hfd
      simp only [Function.update_self]
      grind
    · simp only [Function.update_self, Function.update_of_ne hfd]
      grind
  · rw [Function.update_of_ne hj]
    by_cases hfd : fd' = fd
    · subst hfd
      rw [Function.update_self]
      grind
    · rw [Function.update_of_ne hfd]
      exact hother

/-- The tables of the watchdog agree with the stage of a connection. -/
structure Tracks (s : WatchdogState ι) (fd : Fd) (stage : Stage ι) : Prop where
  agent : s.agent fd = stage.table
  opened : fd ∈ s.opened ↔ stage ≠ .fresh
  launched : ∀ a, (fd, a) ∈ s.launched ↔ stage.agent = some a
  sent : ∀ a, (fd, a) ∈ s.sent ↔ stage = .disconnected a

structure Refines (s : WatchdogState ι) (stages : Fd → Stage ι) : Prop where
  tracks : ∀ fd, Tracks s fd (stages fd)
  owned : Owned s.threads stages
  nodup : s.sent.Nodup
  distinct : ∀ fd fd' a, (stages fd).agent = some a → (stages fd').agent = some a → fd = fd'
  closed : ∀ i fd, s.threads i = .closed fd → (stages fd).Taken
  forwarded : ∀ fd ∈ s.forwarded, (stages fd).agent.isSome = true

end Refinement

/-! ## The steps -/

section Steps
variable {ι : Type}

theorem refines_start : Refines (WatchdogState.start : WatchdogState ι) fun _ => .fresh where
  tracks fd :=
    { agent := rfl
      opened := by simp [WatchdogState.start]
      launched := by simp [WatchdogState.start, Stage.agent]
      sent := by simp [WatchdogState.start] }
  owned i fd stage := by
    constructor
    · intro h
      cases h
    · rintro ⟨rfl, h⟩
      cases h
  nodup := List.nodup_nil
  distinct fd fd' a h := by simp [Stage.agent] at h
  closed i fd h := by simp [WatchdogState.start] at h
  forwarded fd h := by simp [WatchdogState.start] at h

/-- A connection may go on to a stage: it keeps its agent, and once taken it stays so. -/
structure Follows (stage stage' : Stage ι) : Prop where
  agent : ∀ a, stage.agent = some a → stage'.agent = some a
  taken : stage.Taken → stage'.Taken

theorem Follows.stages {stages : Fd → Stage ι} {fd : Fd} {stage : Stage ι}
    (h : Follows (stages fd) stage) (fd' : Fd) :
    Follows (stages fd') (Function.update stages fd stage fd') := by
  by_cases hfd : fd' = fd
  · subst hfd
    rw [Function.update_self]
    exact h
  · rw [Function.update_of_ne hfd]
    exact ⟨fun _ => id, id⟩

theorem follows_of_agent_none {stage stage' : Stage ι} (h : stage.agent = none) :
    Follows stage stage' where
  agent a ha := by simp [h] at ha
  taken htaken := by simp [Stage.Taken, h] at htaken

variable [DecidableEq ι] {s s' : WatchdogState ι} {stages : Fd → Stage ι}

theorem Refines.move (h : Refines s stages) {i : ι} {fd : Fd} {thread : Thread} {stage : Stage ι}
    (hthreads : s'.threads = Function.update s.threads i thread)
    (hforwarded : s'.forwarded = s.forwarded)
    (hframe : ∀ fd', fd' ≠ fd → ∀ stage', Tracks s fd' stage' → Tracks s' fd' stage')
    (htracks : Tracks s' fd stage)
    (hold : (s.threads i).holds i = some (fd, stages fd) ∨
      (s.threads i).holds (ι := ι) i = none ∧ (stages fd).owner = none)
    (hnew : thread.holds i = some (fd, stage) ∧ stage.owner = some i ∨
      thread.holds (ι := ι) i = none ∧ stage.owner = none)
    (hfollows : Follows (stages fd) stage) (hnodup : s'.sent.Nodup)
    (hdistinct : ∀ a, stage.agent = some a → ∀ fd', fd' ≠ fd → (stages fd').agent ≠ some a)
    (hclosed : ∀ fd', thread = .closed fd' → fd' = fd ∧ stage.Taken) :
    Refines s' (Function.update stages fd stage) where
  tracks fd' := by
    by_cases hfd : fd' = fd
    · subst hfd
      rw [Function.update_self]
      exact htracks
    · rw [Function.update_of_ne hfd]
      exact hframe fd' hfd _ (h.tracks fd')
  owned := by
    rw [hthreads]
    exact h.owned.update hold hnew
  nodup := hnodup
  distinct := by
    intro x y a hx hy
    by_cases hxfd : x = fd
    · subst hxfd
      by_cases hyfd : y = x
      · exact hyfd.symm
      · rw [Function.update_self] at hx
        rw [Function.update_of_ne hyfd] at hy
        exact absurd hy (hdistinct a hx y hyfd)
    · rw [Function.update_of_ne hxfd] at hx
      by_cases hyfd : y = fd
      · subst hyfd
        rw [Function.update_self] at hy
        exact absurd hx (hdistinct a hy x hxfd)
      · rw [Function.update_of_ne hyfd] at hy
        exact h.distinct x y a hx hy
  closed := by
    intro j fd' hj
    rw [hthreads] at hj
    by_cases hji : j = i
    · subst hji
      rw [Function.update_self] at hj
      obtain ⟨rfl, htaken⟩ := hclosed fd' hj
      rw [Function.update_self]
      exact htaken
    · rw [Function.update_of_ne hji] at hj
      exact (hfollows.stages fd').taken (h.closed j fd' hj)
  forwarded := by
    intro fd' hmem
    rw [hforwarded] at hmem
    obtain ⟨a, ha⟩ := Option.isSome_iff_exists.mp (h.forwarded fd' hmem)
    rw [(hfollows.stages fd').agent a ha]
    rfl

/-- A coroutine that holds no connection goes on and moves none. -/
theorem Refines.idle (h : Refines s stages) {i : ι} {thread : Thread}
    (hold : (s.threads i).holds (ι := ι) i = none) (hnew : thread.holds (ι := ι) i = none)
    (hclosed : ∀ fd, thread = .closed fd → (stages fd).Taken) :
    Refines (s.setThread i thread) stages where
  tracks fd := ⟨(h.tracks fd).agent, (h.tracks fd).opened, (h.tracks fd).launched,
    (h.tracks fd).sent⟩
  owned := by
    intro j fd stage
    by_cases hj : j = i
    · subst hj
      have hother := h.owned j fd stage
      rw [hold] at hother
      simp only [WatchdogState.setThread, Function.update_self, hnew]
      exact hother
    · simp only [WatchdogState.setThread, Function.update_of_ne hj]
      exact h.owned j fd stage
  nodup := h.nodup
  distinct := h.distinct
  closed := by
    intro j fd hj
    by_cases hji : j = i
    · subst hji
      simp only [WatchdogState.setThread, Function.update_self] at hj
      exact hclosed fd hj
    · simp only [WatchdogState.setThread, Function.update_of_ne hji] at hj
      exact h.closed j fd hj
  forwarded := h.forwarded

omit [DecidableEq ι] in
theorem Refines.stage_of_holds (h : Refines s stages) {i : ι} {fd : Fd} {stage : Stage ι}
    (hholds : (s.threads i).holds i = some (fd, stage)) : stages fd = stage :=
  ((h.owned i fd stage).mp hholds).1

theorem refines_socketOpen (h : Refines s stages) {i : ι} {fd : Fd}
    (hidle : s.threads i = .idle) (hnew : fd ∉ s.opened) :
    Refines (s.socketOpen i fd) (Function.update stages fd (.launching i)) := by
  have hfresh : stages fd = .fresh := by
    by_contra hne
    exact hnew ((h.tracks fd).opened.mpr hne)
  have htracks := h.tracks fd
  rw [hfresh] at htracks
  refine h.move rfl rfl ?_ ?_ ?_ ?_ ?_ h.nodup ?_ ?_
  · intro fd' hfd stage' t
    refine ⟨t.agent, ?_, t.launched, t.sent⟩
    rw [← t.opened]
    simp [WatchdogState.socketOpen, hfd]
  · refine ⟨htracks.agent, by simp [WatchdogState.socketOpen], ?_, ?_⟩
    · intro a
      simpa [WatchdogState.socketOpen, Stage.agent] using htracks.launched a
    · intro a
      simpa [WatchdogState.socketOpen] using htracks.sent a
  · exact Or.inr ⟨by rw [hidle]; rfl, by rw [hfresh]; rfl⟩
  · exact Or.inl ⟨rfl, rfl⟩
  · rw [hfresh]
    exact follows_of_agent_none rfl
  · intro a ha
    cases ha
  · intro fd' hfd'
    cases hfd'

theorem refines_socketOpenLaunched (h : Refines s stages) {i : ι} {fd : Fd} {a : Address}
    (hthread : s.threads i = .newservice fd) (hnew : a ∉ s.launched.map Prod.snd) :
    Refines (s.socketOpenLaunched i fd a) (Function.update stages fd (.held a)) := by
  have hholds : (s.threads i).holds i = some (fd, .launching i) := by rw [hthread]; rfl
  have hstage := h.stage_of_holds hholds
  have htracks := h.tracks fd
  rw [hstage] at htracks
  refine h.move rfl rfl ?_ ?_ ?_ ?_ ?_ h.nodup ?_ ?_
  · intro fd' hfd stage' t
    refine ⟨?_, t.opened, ?_, t.sent⟩
    · rw [← t.agent]
      exact Function.update_of_ne hfd _ _
    · intro b
      rw [← t.launched b]
      simp [WatchdogState.socketOpenLaunched, hfd]
  · refine ⟨Function.update_self .., ?_, ?_, ?_⟩
    · simpa [WatchdogState.socketOpenLaunched] using htracks.opened
    · intro b
      have hnone := htracks.launched b
      simp only [Stage.agent, reduceCtorEq, iff_false] at hnone
      simp [WatchdogState.socketOpenLaunched, Stage.agent, WatchdogState.setThread, hnone,
        eq_comm]
    · intro b
      simpa [WatchdogState.socketOpenLaunched] using htracks.sent b
  · exact Or.inl (by rw [hstage]; exact hholds)
  · exact Or.inr ⟨rfl, rfl⟩
  · rw [hstage]
    exact follows_of_agent_none rfl
  · intro b hb fd' _ hother
    cases Option.some.inj hb
    exact hnew (List.mem_map_of_mem (f := Prod.snd) (((h.tracks fd').launched a).mpr hother))
  · intro fd' hfd'
    cases hfd'

theorem refines_launchFailed (h : Refines s stages) {i : ι} {fd : Fd}
    (hthread : s.threads i = .newservice fd) :
    Refines (s.setThread i (.opened fd)) (Function.update stages fd .failed) := by
  have hholds : (s.threads i).holds i = some (fd, .launching i) := by rw [hthread]; rfl
  have hstage := h.stage_of_holds hholds
  have htracks := h.tracks fd
  rw [hstage] at htracks
  refine h.move rfl rfl ?_ ?_ ?_ ?_ ?_ h.nodup ?_ ?_
  · intro fd' hfd stage' t
    exact ⟨t.agent, t.opened, t.launched, t.sent⟩
  · refine ⟨htracks.agent, ?_, htracks.launched, ?_⟩
    · simpa using htracks.opened
    · intro b
      simpa using htracks.sent b
  · exact Or.inl (by rw [hstage]; exact hholds)
  · exact Or.inr ⟨rfl, rfl⟩
  · rw [hstage]
    exact follows_of_agent_none rfl
  · intro b hb
    cases hb
  · intro fd' hfd'
    cases hfd'

/-- The first handler that closes a connection takes its agent. -/
theorem refines_closeAgent_held (h : Refines s stages) {i : ι} {fd : Fd} {a : Address}
    (hidle : s.threads i = .idle) (hagent : s.agent fd = some a) :
    Refines (s.closeAgent i fd) (Function.update stages fd (.kicking i a)) := by
  have htracks := h.tracks fd
  have hstage : stages fd = .held a := by
    have htable := htracks.agent.symm.trans hagent
    cases hstage : stages fd <;> simp_all [Stage.table]
  rw [hstage] at htracks
  have hclose : s.closeAgent i fd =
      { s.setThread i (.kicking fd a) with agent := Function.update s.agent fd none } := by
    simp only [WatchdogState.closeAgent, hagent]
    rfl
  rw [hclose]
  refine h.move rfl rfl ?_ ?_ ?_ ?_ ?_ h.nodup ?_ ?_
  · intro fd' hfd stage' t
    exact ⟨(Function.update_of_ne hfd _ _).trans t.agent, t.opened, t.launched, t.sent⟩
  · refine ⟨Function.update_self .., ?_, htracks.launched, ?_⟩
    · simpa using htracks.opened
    · intro b
      simpa using htracks.sent b
  · exact Or.inr ⟨by rw [hidle]; rfl, by rw [hstage]; rfl⟩
  · exact Or.inl ⟨rfl, rfl⟩
  · rw [hstage]
    refine ⟨fun b hb => hb, fun htaken => ?_⟩
    cases htaken.1
  · intro b hb fd' hfd hother
    exact hfd (h.distinct fd' fd b hother (by rw [hstage]; exact hb))
  · intro fd' hfd'
    cases hfd'

theorem refines_closeAgent_none (h : Refines s stages) {i : ι} {fd : Fd}
    (hidle : s.threads i = .idle) (hagent : s.agent fd = none)
    (hlaunched : (stages fd).agent.isSome = true) : Refines (s.closeAgent i fd) stages := by
  have hclose : s.closeAgent i fd = s.setThread i (.closed fd) := by
    have hsame : Function.update s.agent fd none = s.agent := by
      rw [← hagent]
      exact Function.update_eq_self ..
    simp only [WatchdogState.closeAgent, hagent, hsame]
  rw [hclose]
  apply h.idle (by rw [hidle]; rfl) rfl
  intro fd' hfd'
  cases hfd'
  exact ⟨(h.tracks fd).agent.symm.trans hagent, hlaunched⟩

theorem refines_closeAgentKicked (h : Refines s stages) {i : ι} {fd : Fd} {a : Address}
    (hthread : s.threads i = .kicking fd a) :
    Refines (s.closeAgentKicked i fd a) (Function.update stages fd (.disconnected a)) := by
  have hholds : (s.threads i).holds i = some (fd, .kicking i a) := by rw [hthread]; rfl
  have hstage := h.stage_of_holds hholds
  have htracks := h.tracks fd
  rw [hstage] at htracks
  have hunsent : ∀ b, (fd, b) ∉ s.sent := by
    intro b hb
    have hdone := (htracks.sent b).mp hb
    cases hdone
  refine h.move rfl rfl ?_ ?_ ?_ ?_ ?_ ?_ ?_ ?_
  · intro fd' hfd stage' t
    refine ⟨t.agent, t.opened, t.launched, ?_⟩
    intro b
    rw [← t.sent b]
    simp [WatchdogState.closeAgentKicked, hfd]
  · refine ⟨htracks.agent, ?_, htracks.launched, ?_⟩
    · simpa [WatchdogState.closeAgentKicked] using htracks.opened
    · intro b
      simp [WatchdogState.closeAgentKicked, WatchdogState.setThread, hunsent, eq_comm]
  · exact Or.inl (by rw [hstage]; exact hholds)
  · exact Or.inr ⟨rfl, rfl⟩
  · rw [hstage]
    exact ⟨fun b hb => hb, fun htaken => ⟨rfl, rfl⟩⟩
  · have hsnoc : (s.sent ++ [(fd, a)]).Nodup :=
      List.nodup_append.mpr ⟨h.nodup, List.nodup_singleton _, by
        intro x hx y hy hxy
        rw [List.mem_singleton] at hy
        exact hunsent a (hy ▸ hxy ▸ hx)⟩
    exact hsnoc
  · intro b hb fd' hfd hother
    exact hfd (h.distinct fd' fd b hother (by rw [hstage]; exact hb))
  · intro fd' hfd'
    cases hfd'
    exact ⟨rfl, rfl, rfl⟩

theorem refines_closeAgent (h : Refines s stages) {i : ι} {fd : Fd}
    (hidle : s.threads i = .idle) (hlaunched : (stages fd).agent.isSome = true) :
    ∃ stages', Refines (s.closeAgent i fd) stages' := by
  cases hagent : s.agent fd with
  | none => exact ⟨stages, refines_closeAgent_none h hidle hagent hlaunched⟩
  | some a => exact ⟨_, refines_closeAgent_held h hidle hagent⟩

omit [DecidableEq ι] in
theorem Refines.agent_of_launched (h : Refines s stages) {fd : Fd}
    (hmem : fd ∈ s.launched.map Prod.fst) : (stages fd).agent.isSome = true := by
  obtain ⟨⟨fd', a⟩, hlaunched, rfl⟩ := List.mem_map.mp hmem
  rw [((h.tracks fd').launched a).mp hlaunched]
  rfl

theorem refines_step {e : WatchdogEvent ι} (h : Refines s stages) (hstep : s.step e = some s') :
    ∃ stages', Refines s' stages' := by
  cases e with
  | socketOpen i fd =>
      obtain ⟨⟨hidle, hnew⟩, hstep⟩ := Option.ite_none_right_eq_some.mp hstep
      cases Option.some.inj hstep
      exact ⟨_, refines_socketOpen h hidle hnew⟩
  | launched i a =>
      simp only [WatchdogState.step] at hstep
      split at hstep
      · rename_i fd hthread
        obtain ⟨hnew, hstep⟩ := Option.ite_none_right_eq_some.mp hstep
        cases Option.some.inj hstep
        exact ⟨_, refines_socketOpenLaunched h hthread hnew⟩
      · cases hstep
  | launchFailed i =>
      simp only [WatchdogState.step] at hstep
      split at hstep
      · rename_i fd hthread
        cases Option.some.inj hstep
        exact ⟨_, refines_launchFailed h hthread⟩
      · cases hstep
  | forward fd =>
      obtain ⟨hmem, hstep⟩ := Option.ite_none_right_eq_some.mp hstep
      cases Option.some.inj hstep
      refine ⟨stages, ?_, h.owned, h.nodup, h.distinct, h.closed, ?_⟩
      · intro fd'
        exact ⟨(h.tracks fd').agent, (h.tracks fd').opened, (h.tracks fd').launched,
          (h.tracks fd').sent⟩
      · intro fd' hfd'
        rcases List.mem_cons.mp hfd' with rfl | hfd'
        · exact h.agent_of_launched hmem
        · exact h.forwarded fd' hfd'
  | started i =>
      simp only [WatchdogState.step] at hstep
      split at hstep
      · rename_i fd a hthread
        cases Option.some.inj hstep
        refine ⟨stages, h.idle (by rw [hthread]; rfl) rfl ?_⟩
        intro fd' hfd'
        cases hfd'
      · cases hstep
  | socketClose i fd =>
      obtain ⟨⟨hidle, hforwarded⟩, hstep⟩ := Option.ite_none_right_eq_some.mp hstep
      cases Option.some.inj hstep
      exact refines_closeAgent h hidle (h.forwarded fd hforwarded)
  | socketError i fd =>
      obtain ⟨⟨hidle, hforwarded⟩, hstep⟩ := Option.ite_none_right_eq_some.mp hstep
      cases Option.some.inj hstep
      exact refines_closeAgent h hidle (h.forwarded fd hforwarded)
  | cmdClose i fd =>
      obtain ⟨⟨hidle, hlaunched⟩, hstep⟩ := Option.ite_none_right_eq_some.mp hstep
      cases Option.some.inj hstep
      exact refines_closeAgent h hidle (h.agent_of_launched hlaunched)
  | kicked i =>
      simp only [WatchdogState.step] at hstep
      split at hstep
      · rename_i fd a hthread
        cases Option.some.inj hstep
        exact ⟨_, refines_closeAgentKicked h hthread⟩
      · cases hstep

end Steps

/-! ## What becomes of an agent -/

section Agents
variable {ι : Type} [DecidableEq ι]

/-- An agent is sent `disconnect` at most once, and by a handler of its own connection.  When a
handler has closed a connection, the table has no agent for it, and the agent launched for it has
been sent `disconnect`, or the one other handler that took it out is still suspended at `kick`.
A handler suspended there sends `disconnect` to the agent that it took out as soon as the gate
answers, and has then closed the connection. -/
structure DisconnectedOnce (s : WatchdogState ι) : Prop where
  once : (s.sent.map Prod.snd).Nodup
  own : ∀ fd a, (fd, a) ∈ s.sent → (fd, a) ∈ s.launched ∧ ∀ b, (fd, b) ∈ s.launched → b = a
  handled : ∀ i fd, s.threads i = .closed fd → s.agent fd = none ∧ ∃ a, (fd, a) ∈ s.launched ∧
    ((fd, a) ∈ s.sent ∨ ∃ j, s.threads j = .kicking fd a ∧
      ∀ k b, s.threads k = .kicking fd b → k = j)
  kicked : ∀ i fd a, s.threads i = .kicking fd a → ∃ s', s.step (.kicked i) = some s' ∧
    s'.sent = s.sent ++ [(fd, a)] ∧ s'.threads i = .closed fd

theorem step_kicked {s : WatchdogState ι} {i : ι} {fd : Fd} {a : Address}
    (h : s.threads i = .kicking fd a) : s.step (.kicked i) = some (s.closeAgentKicked i fd a) := by
  simp only [WatchdogState.step, h]

omit [DecidableEq ι] in
theorem holds_kicking {thread : Thread} {i j : ι} {fd : Fd} {a : Address}
    (h : thread.holds i = some (fd, .kicking j a)) : thread = .kicking fd a := by
  cases thread <;> cases h
  rfl

theorem disconnectedOnce_of_refines {s : WatchdogState ι} {stages : Fd → Stage ι}
    (h : Refines s stages) : DisconnectedOnce s where
  once := by
    apply List.Nodup.map_on ?_ h.nodup
    rintro ⟨fd, a⟩ hx ⟨fd', a'⟩ hy rfl
    have hagent := congrArg Stage.agent (((h.tracks fd).sent a).mp hx)
    have hagent' := congrArg Stage.agent (((h.tracks fd').sent a).mp hy)
    rw [h.distinct fd fd' a hagent hagent']
  own := by
    intro fd a hsent
    have hagent : (stages fd).agent = some a :=
      congrArg Stage.agent (((h.tracks fd).sent a).mp hsent)
    refine ⟨((h.tracks fd).launched a).mpr hagent, fun b hb => ?_⟩
    exact Option.some.inj ((((h.tracks fd).launched b).mp hb).symm.trans hagent)
  handled := by
    intro i fd hclosed
    have htaken := h.closed i fd hclosed
    refine ⟨(h.tracks fd).agent.trans htaken.1, ?_⟩
    rcases Stage.taken_cases htaken with ⟨j, a, hstage⟩ | ⟨a, hstage⟩
    · have hagent : (stages fd).agent = some a := congrArg Stage.agent hstage
      refine ⟨a, ((h.tracks fd).launched a).mpr hagent, Or.inr ⟨j, ?_, ?_⟩⟩
      · exact holds_kicking ((h.owned j fd _).mpr ⟨hstage, rfl⟩)
      · intro k b hk
        have hholds : (s.threads k).holds k = some (fd, .kicking k b) := by rw [hk]; rfl
        have hsame := hstage.symm.trans (h.stage_of_holds hholds)
        cases hsame
        rfl
    · have hagent : (stages fd).agent = some a := congrArg Stage.agent hstage
      exact ⟨a, ((h.tracks fd).launched a).mpr hagent, Or.inl (((h.tracks fd).sent a).mpr hstage)⟩
  kicked := by
    intro i fd a hkicking
    refine ⟨_, step_kicked hkicking, rfl, ?_⟩
    simp only [WatchdogState.closeAgentKicked, WatchdogState.setThread, Function.update_self]

/-- Whatever the connections do and in whatever order the handlers go on. -/
theorem agents_disconnected_once (es : List (WatchdogEvent ι)) :
    Always WatchdogState.step DisconnectedOnce (WatchdogState.start : WatchdogState ι) es := by
  apply always_of_invariant WatchdogState.step (fun _ _ => True)
    (fun s => ∃ stages, Refines s stages) DisconnectedOnce
  · intro s e s' h _ hstep
    obtain ⟨stages, h⟩ := h
    exact refines_step h hstep
  · intro s h
    obtain ⟨stages, h⟩ := h
    exact disconnectedOnce_of_refines h
  · exact ⟨_, refines_start⟩
  · exact along_true WatchdogState.step es _

/-- A handler that has closed a connection leaves its agent disconnected. -/
def ClosedIsDisconnected (s : WatchdogState ι) : Prop :=
  ∀ i fd, s.threads i = .closed fd →
    s.agent fd = none ∧ ∃ a, (fd, a) ∈ s.launched ∧ (fd, a) ∈ s.sent

end Agents

/-- The client closes the connection while CMD.close waits for the gate: the handler of the close
finds no agent and ends before `disconnect` is sent. -/
theorem close_handled_before_disconnect :
    ¬ Always WatchdogState.step ClosedIsDisconnected (WatchdogState.start : WatchdogState Nat)
      [.socketOpen 0 7, .launched 0 100, .forward 7, .started 0, .cmdClose 1 7,
        .socketClose 2 7] := by
  intro h
  have hlast := (((((h.2 _ rfl).2 _ rfl).2 _ rfl).2 _ rfl).2 _ rfl).2 _ rfl
  obtain ⟨_, a, _, hsent⟩ := hlast 2 7 rfl
  change (7, a) ∈ ([] : List (Fd × Address)) at hsent
  exact absurd hsent List.not_mem_nil

end Doudizhu.Watchdog
