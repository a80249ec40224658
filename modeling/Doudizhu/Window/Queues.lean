import Doudizhu.Window.Animations
import Doudizhu.Window.OneScene

/-! # The queues of one scene

When the game hides only windows that are open, every window that closes was the open one of its
id, and none that waits leaves `mWindows`.  So the head of a queue is found there when its turn
comes; and with the scene and all nodes in place no call raises. -/

set_option autoImplicit false

namespace Doudizhu.Window

open Runs Outcome

section Queues
variable {ι : Type} [DecidableEq ι]

/-- No queue has a window twice, whoever waits is the window kept for its id and is not open, and
it waits for an open window of its level. -/
structure QueuesIntact (m : WindowManager ι) : Prop where
  once : ∀ level, ((m.mWaitedWindows level).map GameWindow.id).Nodup
  kept : ∀ level, ∀ w ∈ m.mWaitedWindows level,
    m.mWindows w.id = some w ∧ m.mOpenedWindows.lookup w.id = none
  blocked : ∀ level, m.mWaitedWindows level ≠ [] → m.Occupied level

variable (WindowConfig : ι → Option Config)

/-- `showWindow` is called with configured ids, and `hide` on open windows. -/
def Proper (s : World ι) : WindowEvent ι → Prop
  | .showWindow _ id _ _ => WindowConfig id ≠ none
  | e => ∀ w, s.hides e = some w → s.manager.mOpenedWindows.lookup w.id = some w

/-- The call does not raise, as `doShowWindow` does when it finds nothing in `mWindows`. -/
def Returns (s : World ι) : WindowEvent ι → Prop
  | .showWindow parentNode id style order =>
      (s.showWindow WindowConfig parentNode id style order).result ≠ none
  | .animEnd w => (s.node w.ref).anim = some .onHideEnd →
      (w.onHideEnd (s.setNode w.ref { s.node w.ref with anim := none })).result ≠ none
  | e => ∀ w, s.hides e = some w → (w.hide s).result ≠ none

/-- Whoever is open or waits is the window kept for its id. -/
structure Linked (m : WindowManager ι) : Prop where
  opened : ∀ id w, m.mOpenedWindows.lookup id = some w → m.mWindows id = some w
  waiting : ∀ level, ∀ w ∈ m.mWaitedWindows level, m.mWindows w.id = some w

/-- A window whose closing is under way is still open. -/
structure Intact (s : World ι) : Prop where
  linked : Linked s.manager
  guarded : s.Guarded
  closing : ∀ w ∈ s.windows, (s.node w.ref).anim = some .onHideEnd →
    s.manager.mOpenedWindows.lookup w.id = some w
  scene : s.scene = 0

end Queues

section Manager
variable {ι : Type} [DecidableEq ι] {WindowConfig : ι → Option Config}
variable {windows : List (GameWindow ι)} {m : WindowManager ι}

theorem Linked.shown (h : Linked m) (scene : Nat) {w : GameWindow ι}
    (hkept : m.mWindows w.id = some w) : Linked (m.shown scene w) where
  opened id v hopen := by
    rw [lookup_shown] at hopen
    by_cases hid : id = w.id
    · rw [if_pos hid] at hopen
      cases Option.some.inj hopen
      exact hid ▸ hkept
    · rw [if_neg hid] at hopen
      exact h.opened id v hopen
  waiting := h.waiting

theorem Linked.forgotten (h : Linked m) (hc : Consistent WindowConfig windows m)
    {w : GameWindow ι} (hopen : m.mOpenedWindows.lookup w.id = some w) :
    Linked (m.forgotten w) where
  opened id v hv := by
    rw [lookup_forgotten] at hv
    by_cases hid : id = w.id
    · rw [if_pos hid] at hv
      exact absurd hv.symm (Option.some_ne_none v)
    · rw [if_neg hid] at hv
      rw [kept_forgotten, if_neg fun hand => hid hand.2]
      exact h.opened id v hv
  waiting level v hv := by
    have hid : v.id ≠ w.id := by
      intro hid
      have hclosed := (hc.waiting level v hv).2.2
      rw [hid, hopen] at hclosed
      exact Option.some_ne_none w hclosed
    rw [kept_forgotten, if_neg fun hand => hid hand.2]
    exact h.waiting level v hv

theorem Linked.closed (h : Linked m) (hc : Consistent WindowConfig windows m) (scene : Nat)
    {w : GameWindow ι} (hopen : m.mOpenedWindows.lookup w.id = some w) :
    Linked (m.closed scene w) := by
  have hforgotten := h.forgotten hc hopen
  cases hqueue : m.mWaitedWindows w.config.level with
  | nil =>
      rw [closed_of_nil m scene hqueue]
      constructor
      · intro id v hv
        rw [lookup_unmasked] at hv
        rw [kept_unmasked]
        exact hforgotten.opened id v hv
      · intro level v hv
        rw [waited_unmasked] at hv
        rw [kept_unmasked]
        exact hforgotten.waiting level v hv
  | cons next waited =>
      rw [closed_of_cons m scene hqueue]
      have hpopped : Linked ((m.forgotten w).waiting w.config.level waited) := by
        refine ⟨hforgotten.opened, fun level v hv => ?_⟩
        by_cases hlevel : level = w.config.level
        · subst hlevel
          simp only [WindowManager.waiting, Function.update_self] at hv
          exact hforgotten.waiting w.config.level v
            (hqueue.symm ▸ List.mem_cons_of_mem next hv)
        · simp only [WindowManager.waiting, Function.update_of_ne hlevel] at hv
          exact hforgotten.waiting level v hv
      exact hpopped.shown scene
        (hforgotten.waiting w.config.level next (hqueue.symm ▸ List.mem_cons_self))

end Manager

section Sessions
variable {ι : Type} [DecidableEq ι] {WindowConfig : ι → Option Config} {s t : World ι}

namespace Intact

theorem start : Intact (World.start : World ι) where
  linked :=
    { opened := fun _ w h => absurd h.symm (Option.some_ne_none w)
      waiting := fun _ _ hw => absurd hw List.not_mem_nil }
  guarded _ := NodeState.guarded_of_none rfl
  closing _ hw := absurd hw List.not_mem_nil
  scene := rfl

theorem queues (h : Intact s) (hwf : WellFormed WindowConfig s) : QueuesIntact s.manager where
  once := hwf.consistent.nodup
  kept level w hw := ⟨h.linked.waiting level w hw, (hwf.consistent.waiting level w hw).2.2⟩
  blocked := hwf.blocked

theorem closes (h : Intact s) (hwf : WellFormed WindowConfig s) {w : GameWindow ι}
    (hopen : s.manager.mOpenedWindows.lookup w.id = some w) {dies : Nat → Prop}
    (hsame : SameButNodes dies (s.setManager (s.manager.closed s.scene w)) t)
    (hguarded : t.Guarded)
    (hothers : ∀ v ∈ s.windows, (t.node v.ref).anim = some .onHideEnd →
      (s.node v.ref).anim = some .onHideEnd ∧ v ≠ w) : Intact t := by
  have hc := hwf.consistent
  constructor
  · rw [hsame.manager]
    exact h.linked.closed hc s.scene hopen
  · exact hguarded
  · intro v hv hanim
    rw [hsame.windows] at hv
    rw [hsame.manager]
    obtain ⟨hclosing, hne⟩ := hothers v hv hanim
    have hvopen := h.closing v hv hclosing
    refine open_closed hc s.scene hvopen fun hid => hne ?_
    rw [hid, hopen] at hvopen
    exact (Option.some.inj hvopen).symm
  · exact hsame.scene.trans h.scene

theorem hidden (h : Intact s) (hwf : WellFormed WindowConfig s) {w : GameWindow ι}
    (hopen : s.manager.mOpenedWindows.lookup w.id = some w) : Intact (w.hide s).world := by
  have hsame := hide_sameButNodes s w
  have hanimates := hide_animates h.guarded w
  have hw := (hwf.consistent.opened w.id w hopen).1
  by_cases hclose : s.closesAtOnce w = true
  · rw [if_pos hclose] at hsame
    refine h.closes hwf hopen hsame hanimates.guarded fun v hv hanim => ?_
    have hclosing := (hanimates.closes v.ref hanim).resolve_right
      fun hbegins => Bool.false_ne_true (hbegins.2.symm.trans hclose)
    refine ⟨hclosing, ?_⟩
    rintro rfl
    have hflag := (h.guarded v.ref (by rw [hclosing]; exact Option.some_ne_none _)).1
    rw [World.closesAtOnce, hflag] at hclose
    exact Bool.false_ne_true hclose
  · rw [if_neg hclose] at hsame
    constructor
    · rw [hsame.manager]
      exact h.linked
    · exact hanimates.guarded
    · intro v hv hanim
      rw [hsame.windows] at hv
      rw [hsame.manager]
      rcases hanimates.closes v.ref hanim with hclosing | ⟨href, _⟩
      · exact h.closing v hv hclosing
      · cases hwf.consistent.eq_of_ref hv hw href
        exact hopen
    · exact hsame.scene.trans h.scene

theorem animEnd (h : Intact s) (hwf : WellFormed WindowConfig s) {w : GameWindow ι}
    (hw : w ∈ s.windows) {anim : Anim} (hanim : (s.node w.ref).anim = some anim) :
    Intact (s.animEnd w anim) := by
  have hanimates := animEnd_animates h.guarded hanim
  have hothers : ∀ v ∈ s.windows, ((s.animEnd w anim).node v.ref).anim = some .onHideEnd →
      (s.node v.ref).anim = some .onHideEnd ∧ v ≠ w := by
    intro v _ hv
    have hbefore := (hanimates.closes v.ref hv).resolve_right id
    have hne : v.ref ≠ w.ref := by
      intro href
      rw [href, setNode_self] at hbefore
      exact Option.some_ne_none _ hbefore.symm
    refine ⟨?_, fun hvw => hne (congrArg GameWindow.ref hvw)⟩
    change (Function.update s.node w.ref _ v.ref).anim = _ at hbefore
    rwa [Function.update_of_ne hne] at hbefore
  cases anim with
  | onShowEnd =>
      exact ⟨h.linked, hanimates.guarded, fun v hv hclosing =>
        h.closing v hv (hothers v hv hclosing).1, h.scene⟩
  | onHideEnd =>
      refine h.closes hwf (h.closing w hw hanim) (show SameButNodes w.destroyed _ _ from ?_)
        hanimates.guarded hothers
      have hset : SameButNodes w.destroyed (s.setManager (s.manager.closed s.scene w))
          ((s.setNode w.ref { s.node w.ref with anim := none }).setManager
            (s.manager.closed s.scene w)) := .setNode (.inr rfl)
      exact hset.trans (onHideEnd_sameButNodes _ w)

theorem shownKept (h : Intact s) (hwf : WellFormed WindowConfig s) {id : ι} {w : GameWindow ι}
    (hkept : s.manager.mWindows id = some w) (hclosed : s.manager.mOpenedWindows.lookup id = none) :
    Intact (s.doShowKept id).world := by
  have hsame := doShowKept_sameButNodes hkept
  have hanimates := (doShowKept_showsAtMost s id).animates h.guarded
  obtain ⟨_, rfl⟩ := hwf.consistent.kept id w hkept
  constructor
  · rw [hsame.manager]
    exact h.linked.shown s.scene hkept
  · exact hanimates.guarded
  · intro v hv hanim
    rw [hsame.windows] at hv
    have hopen := h.closing v hv ((hanimates.closes v.ref hanim).resolve_right id)
    rw [hsame.manager]
    change (s.manager.shown s.scene w).mOpenedWindows.lookup v.id = some v
    rw [lookup_shown, if_neg, hopen]
    intro hid
    rw [hid, hclosed] at hopen
    exact Option.some_ne_none v hopen.symm
  · exact hsame.scene.trans h.scene

theorem ready (h : Intact s) (parentNode : Nat) (id : ι) (config : Config)
    (style : Option WindowStyle) :
    Intact (s.ready parentNode id config style) := by
  have hguarded := ready_guarded h.guarded parentNode id config style
  unfold World.ready at hguarded ⊢
  cases hkept : s.manager.mWindows id with
  | some w => exact h
  | none =>
      have hother : ∀ key v, s.manager.mWindows key = some v →
          (s.created parentNode id config style).manager.mWindows key = some v := by
        intro key v hv
        have hkey : key ≠ id := by
          rintro rfl
          exact Option.some_ne_none v (hv.symm.trans hkept)
        change Function.update s.manager.mWindows id _ key = some v
        rw [Function.update_of_ne hkey, hv]
      rw [hkept] at hguarded
      refine ⟨⟨fun key v hv => hother key v (h.linked.opened key v hv),
        fun level v hv => hother v.id v (h.linked.waiting level v hv)⟩, hguarded, ?_, h.scene⟩
      intro v hv hanim
      change (Function.update s.node s.windows.length .ctor v.ref).anim = _ at hanim
      by_cases href : v.ref = s.windows.length
      · rw [href, Function.update_self] at hanim
        exact absurd hanim.symm (Option.some_ne_none _)
      · rw [Function.update_of_ne href] at hanim
        rcases List.mem_append.mp hv with hold | hnew
        · exact h.closing v hold hanim
        · exact absurd (congrArg GameWindow.ref (List.mem_singleton.mp hnew)) href

theorem enqueue (h : Intact s) {id : ι} {w : GameWindow ι} (hwf : WellFormed WindowConfig s)
    (hkept : s.manager.mWindows id = some w) (level : Int) : Intact (s.enqueue level id) := by
  refine ⟨⟨h.linked.opened, fun l v hv => ?_⟩, h.guarded, h.closing, h.scene⟩
  by_cases hl : l = level
  · subst hl
    simp only [World.enqueue, World.setManager, Function.update_self, hkept,
      Option.toList_some] at hv
    rcases List.mem_append.mp hv with hold | hnew
    · exact h.linked.waiting l v hold
    · rw [List.mem_singleton.mp hnew]
      change s.manager.mWindows w.id = some w
      rw [(hwf.consistent.kept id w hkept).2, hkept]
  · simp only [World.enqueue, World.setManager, Function.update_of_ne hl] at hv
    exact h.linked.waiting l v hv

theorem showOrWait (h : Intact s) {id : ι} {w : GameWindow ι} {order : List ι}
    (hprepared : Prepared WindowConfig s id w order) :
    Intact (s.showOrWait order w.config.level id).world := by
  have hwf := hprepared.wellFormed
  apply hprepared.showOrWait_rule
  · intro _
    exact h.shownKept hwf hprepared.kept hprepared.closed
  · intro _
    exact h
  · intro _ _ _
    exact h.enqueue hwf hprepared.kept w.config.level
  · intro _ r _ hr
    have hhidden := h.hidden hwf hr.opened
    by_cases hresult : (r.hide s).result = none
    · rw [andThen_of_none _ hresult]
      exact hhidden
    · obtain ⟨hlookup, hsaved⟩ := hide_tables s r hr.queue id
      rw [andThen_of_some _ hresult]
      refine hhidden.shownKept (hwf.hidden hr.mem) ((hsaved hr.ne).trans hprepared.kept) ?_
      rw [hlookup, hprepared.closed, ite_self]

theorem stepWindow (h : Intact s) (hwf : WellFormed WindowConfig s) {e : WindowEvent ι}
    (hproper : Proper WindowConfig s e) (hstep : stepWindow WindowConfig s e = some t) :
    Intact t := by
  rcases stepWindow_cases WindowConfig hstep with
    ⟨parentNode, id, style, order, rfl, horder, rfl⟩ | ⟨hother, hsame⟩
  · apply hwf.showWindow_rule horder
    · intro _ style'
      exact ⟨h.linked, h.guarded, h.closing, h.scene⟩
    · intro config _ _ hprepared
      exact (h.ready parentNode id config style).showOrWait hprepared
  · clear hsame
    cases calls_of_stepWindow hother hstep with
    | nothing _ => exact h
    | @hide _ w htarget =>
        have hopen : s.manager.mOpenedWindows.lookup w.id = some w := by
          cases e with
          | showWindow parentNode id style order =>
              exact absurd rfl (hother parentNode id style order)
          | hide wnd => exact hproper w htarget
          | tapMask key => exact hproper w htarget
          | onKeyBack order => exact hproper w htarget
          | animEnd wnd => exact hproper w htarget
        exact h.hidden hwf hopen
    | animEnd hw hanim => exact h.animEnd hwf hw hanim

end Intact

/-! ## No call raises -/

/-- The states in which the calls of a step are made. -/
structure Ready (WindowConfig : ι → Option Config) (s : World ι) : Prop where
  wellFormed : WellFormed WindowConfig s
  inScene : InScene s
  linked : Linked s.manager

namespace Ready

theorem of_nothing (h : Ready WindowConfig s) (hsame : SameButNodes nothing s t) :
    Ready WindowConfig t where
  wellFormed := h.wellFormed.of_sameButNodes hsame
  inScene := h.inScene.of_nothing hsame
  linked := by rw [hsame.manager]; exact h.linked

theorem alive_of_open (h : Ready WindowConfig s) {w : GameWindow ι}
    (hopen : s.manager.mOpenedWindows.lookup w.id = some w) : (s.node w.ref).alive = true :=
  h.inScene.kept w.id w (h.linked.opened w.id w hopen)

theorem closeWindow_returns (h : Ready WindowConfig s) {w : GameWindow ι}
    (hopen : s.manager.mOpenedWindows.lookup w.id = some w) :
    (s.closeWindow w.id w.config.destroyImmediate w.config.level).result ≠ none := by
  have hc := h.wellFormed.consistent
  cases hqueue : s.manager.mWaitedWindows w.config.level with
  | nil =>
      rw [closeWindow_of_nil s w hqueue, if_pos]
      · exact Option.some_ne_none _
      · rw [Option.all_eq_true]
        exact fun b hb => h.inScene.masks _ b hb
  | cons next waited =>
      have hnext : next ∈ s.manager.mWaitedWindows w.config.level :=
        hqueue.symm ▸ List.mem_cons_self
      have hkept := (h.linked.forgotten hc hopen).waiting w.config.level next hnext
      rw [closeWindow_forgets, checkWaitedWindows_of_cons
        (s.setManager (s.manager.forgotten w)) hqueue]
      exact doShowWindow_returns (h.inScene.parents next (hc.next hqueue).1) hkept
        (h.inScene.kept next.id next (h.linked.waiting w.config.level next hnext))

theorem onHideEnd_returns (h : Ready WindowConfig s) {w : GameWindow ι}
    (hopen : s.manager.mOpenedWindows.lookup w.id = some w) :
    (w.onHideEnd s).result ≠ none := by
  have hsame := closeWindow_sameButNodes s w
  rw [ne_eq, GameWindow.onHideEnd, andThen_result, onNode_result, not_or]
  refine ⟨h.closeWindow_returns hopen, ?_⟩
  rw [setAnimFlag_alive, hsame.alive w.ref fun hdies => hdies]
  exact Bool.eq_false_iff.not_left.mpr (h.alive_of_open hopen)

theorem hide_returns (h : Ready WindowConfig s) {w : GameWindow ι}
    (hopen : s.manager.mOpenedWindows.lookup w.id = some w) : (w.hide s).result ≠ none := by
  have hset : Ready WindowConfig (s.setAnimFlag w.ref true) := h.of_nothing .setAnimFlag
  unfold GameWindow.hide
  split
  · exact Option.some_ne_none _
  · dsimp only
    rw [ne_eq, andThen_result, not_or]
    refine ⟨?_, Option.some_ne_none _⟩
    split
    · exact hset.onHideEnd_returns hopen
    · rw [onNode_result]
      exact Bool.eq_false_iff.not_left.mpr (hset.alive_of_open hopen)
    · exact Option.some_ne_none _

theorem doShowKept_returns (h : Ready WindowConfig s) {id : ι} {w : GameWindow ι}
    (hkept : s.manager.mWindows id = some w) : (s.doShowKept id).result ≠ none := by
  obtain ⟨hw, rfl⟩ := h.wellFormed.consistent.kept id w hkept
  unfold World.doShowKept
  rw [hkept]
  exact doShowWindow_returns (h.inScene.parents w hw) hkept (h.inScene.kept w.id w hkept)

theorem showOrWait_returns (h : Ready WindowConfig s) {id : ι} {w : GameWindow ι}
    {order : List ι} (hprepared : Prepared WindowConfig s id w order) :
    (s.showOrWait order w.config.level id).result ≠ none := by
  have hc := h.wellFormed.consistent
  by_cases hoccupied : s.manager.Occupied w.config.level
  · by_cases hlevel : w.config.level = WindowLevel.FullScreen
    · rw [hlevel] at hoccupied ⊢
      obtain ⟨r, hreplaced, hworld⟩ := showOrWait_replaces hprepared.order id hc.keyed hoccupied
      have hr := hc.replaced hreplaced hprepared.closed
      have hresult := h.inScene.hide_result hr
      rw [hworld, ne_eq, andThen_result, not_or]
      refine ⟨hresult, ?_⟩
      have hkept := ((hide_tables s r hr.queue id).2 hr.ne).trans hprepared.kept
      have hhidden := h.wellFormed.hidden hr.mem
      have hinScene := h.inScene.hidden h.wellFormed hr.mem
      obtain ⟨hw, rfl⟩ := hhidden.consistent.kept id w hkept
      unfold World.doShowKept
      rw [hkept]
      exact doShowWindow_returns (hinScene.parents w hw) hkept (hinScene.kept w.id w hkept)
    · rw [showOrWait_waits hprepared.order id hoccupied hlevel]
      split
      · exact Option.some_ne_none _
      · exact Option.some_ne_none _
  · rw [showOrWait_free hprepared.order id hoccupied]
    exact h.doShowKept_returns hprepared.kept

end Ready

theorem Intact.returns (h : Intact s) (hwf : WellFormed WindowConfig s) (hscene : InScene s)
    {e : WindowEvent ι} (hproper : Proper WindowConfig s e)
    (hstep : Window.stepWindow WindowConfig s e = some t) : Returns WindowConfig s e := by
  have hready : Ready WindowConfig s := ⟨hwf, hscene, h.linked⟩
  cases e with
  | showWindow parentNode id style order =>
      simp only [Window.stepWindow, Option.ite_none_right_eq_some] at hstep
      rcases Option.eq_none_or_eq_some (s.manager.mOpenedWindows.lookup id) with
        hclosed | ⟨w, hopen⟩
      · obtain ⟨config, hconfig⟩ := Option.ne_none_iff_exists'.mp hproper
        have hreach : Reaches WindowConfig s parentNode id config :=
          ⟨hclosed, hconfig, .inr (h.scene ▸ Nat.zero_le parentNode)⟩
        change (s.showWindow WindowConfig parentNode id style order).result ≠ none
        rw [showWindow_ready WindowConfig s parentNode style order hreach]
        have htarget := (hwf.target parentNode hconfig style).2.2
        have hprepared : Prepared WindowConfig (s.ready parentNode id config style) id
            (s.target parentNode id config) order :=
          { wellFormed := hwf.ready parentNode hconfig style
            kept := ready_keeps s parentNode id config style
            closed := by rw [ready_opened]; exact hclosed
            order := by rw [ready_opened]; exact hstep.1 }
        have hreturns := Ready.showOrWait_returns ⟨hprepared.wellFormed,
          hscene.ready hwf hreach style, (h.ready parentNode id config style).linked⟩ hprepared
        rwa [htarget] at hreturns
      · change (s.showWindow WindowConfig parentNode id style order).result ≠ none
        rw [showWindow_opened WindowConfig s parentNode style order hopen]
        exact Option.some_ne_none _
  | hide wnd => exact fun w hw => hready.hide_returns (hproper w hw)
  | tapMask key => exact fun w hw => hready.hide_returns (hproper w hw)
  | onKeyBack order => exact fun w hw => hready.hide_returns (hproper w hw)
  | animEnd wnd =>
      simp only [Window.stepWindow, Option.ite_none_right_eq_some] at hstep
      intro hanim
      have hset : Ready WindowConfig (s.setNode wnd.ref { s.node wnd.ref with anim := none }) :=
        hready.of_nothing (.setNode (.inr rfl))
      exact hset.onHideEnd_returns (h.closing wnd hstep.1.1 hanim)

/-- In every run of calls with configured ids that hides open windows only, the queues are intact
in every state and no call raises, so the window to be shown is always found in `mWindows`. -/
theorem queues_intact (es : List (WindowEvent ι)) (t : World ι)
    (hrun : run (stepWindow WindowConfig) World.start es = some t)
    (hproper : Along (stepWindow WindowConfig) (Proper WindowConfig) World.start es) :
    Always (stepWindow WindowConfig) (fun s => QueuesIntact s.manager) World.start es ∧
      Along (stepWindow WindowConfig) (Returns WindowConfig) World.start es := by
  let I := fun s : World ι => WellFormed WindowConfig s ∧ InScene s ∧ Intact s
  have hstart : I World.start := ⟨wellFormed_start, inScene_start, .start⟩
  have hkeeps : ∀ s e s', I s → Proper WindowConfig s e → stepWindow WindowConfig s e = some s' →
      I s' := by
    rintro s e s' ⟨hwf, hscene, h⟩ hproper hstep
    exact ⟨hwf.stepWindow hstep, hscene.stepWindow hwf hstep, h.stepWindow hwf hproper hstep⟩
  constructor
  · exact always_of_invariant (stepWindow WindowConfig) (Proper WindowConfig) I _ hkeeps
      (fun s h => h.2.2.queues h.1) es World.start hstart hproper
  · exact along_of_invariant (stepWindow WindowConfig) (Proper WindowConfig)
      (Returns WindowConfig) I hkeeps
      (fun s e s' h hproper hstep => h.2.2.returns h.1 h.2.1 hproper hstep)
      es World.start t hstart hproper hrun

end Sessions

/-! ## A popup that is hidden while another waits -/

theorem queues_intact_of_popup :
    Always (stepWindow (twoAlike ⟨20, true, true, true⟩)) (fun s => QueuesIntact s.manager)
        World.start
        [.showWindow 0 false none [], .showWindow 0 true none [false],
          .hide (firstAlike ⟨20, true, true, true⟩)] ∧
      Along (stepWindow (twoAlike ⟨20, true, true, true⟩))
        (Returns (twoAlike ⟨20, true, true, true⟩)) World.start
        [.showWindow 0 false none [], .showWindow 0 true none [false],
          .hide (firstAlike ⟨20, true, true, true⟩)] := by
  refine queues_intact _ _ rfl ⟨Option.some_ne_none _, fun s hs => ⟨Option.some_ne_none _, ?_⟩⟩
  intro s' hs'
  cases Option.some.inj hs
  cases Option.some.inj hs'
  refine ⟨fun w hw => ?_, fun _ _ => trivial⟩
  cases Option.some.inj hw
  rfl

end Doudizhu.Window
