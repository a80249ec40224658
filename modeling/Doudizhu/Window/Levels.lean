import Doudizhu.Window.Invariants

/-! # One window to a level

The comment on `WindowLevel` allows one window of a level to appear.  Two ways lead to a second
one.  A close that is not that of the open window, of a window closed before or still waiting,
lets the next in the queue in beside it.  And `showWindow` puts a new full-screen window up
whether or not the one to be replaced has gone: `hide` may refuse, or only start an animation. -/

set_option autoImplicit false

namespace Doudizhu.Window

open Runs

section Levels
variable {ι : Type} [DecidableEq ι]

def AtMostOne (m : WindowManager ι) : Prop :=
  ∀ a v b w, m.mOpenedWindows.lookup a = some v → m.mOpenedWindows.lookup b = some w →
    v.config.level = w.config.level → a = b

/-- Nobody waits at the level of `w`, or no other window of that level is open. -/
def ClosesAlone (m : WindowManager ι) (w : GameWindow ι) : Prop :=
  m.mWaitedWindows w.config.level = [] ∨
    ∀ id v, m.mOpenedWindows.lookup id = some v → v.config.level = w.config.level → id = w.id

variable (WindowConfig : ι → Option Config)

/-- The open full-screen window makes room when `showWindow` is to replace it. -/
def ReplacesCleanly (s : World ι) (parentNode : Nat) (id : ι) (order : List ι) : Prop :=
  ∀ config r, Reaches WindowConfig s parentNode id config →
    config.level = WindowLevel.FullScreen → s.manager.replaced order = some r →
      s.staysOpen r = false

def KeepsLevels (s : World ι) : Event ι → Prop
  | .window (.showWindow parentNode id _ order) =>
      ReplacesCleanly WindowConfig s parentNode id order
  | .window e => ∀ w, s.closing e = some w → ClosesAlone s.manager w
  | .enterScene => True

end Levels

section Manager
variable {ι : Type} [DecidableEq ι] {WindowConfig : ι → Option Config}
variable {windows : List (GameWindow ι)} {m : WindowManager ι}

theorem AtMostOne.shown (h : AtMostOne m) (scene : Nat) {w : GameWindow ι}
    (halone : ∀ id v, m.mOpenedWindows.lookup id = some v → v.config.level = w.config.level →
      id = w.id) : AtMostOne (m.shown scene w) := by
  intro a u b v ha hb hlevel
  rw [lookup_shown] at ha hb
  by_cases hwa : a = w.id
  · by_cases hwb : b = w.id
    · rw [hwa, hwb]
    · rw [if_pos hwa] at ha
      rw [if_neg hwb] at hb
      cases Option.some.inj ha
      rw [hwa, halone b v hb hlevel.symm]
  · rw [if_neg hwa] at ha
    by_cases hwb : b = w.id
    · rw [if_pos hwb] at hb
      cases Option.some.inj hb
      rw [hwb, halone a u ha hlevel]
    · rw [if_neg hwb] at hb
      exact h a u b v ha hb hlevel

theorem AtMostOne.of_lookup {m' : WindowManager ι} (h : AtMostOne m)
    (hless : ∀ id v, m'.mOpenedWindows.lookup id = some v → m.mOpenedWindows.lookup id = some v) :
    AtMostOne m' :=
  fun a v b w ha hb hlevel => h a v b w (hless a v ha) (hless b w hb) hlevel

theorem lookup_of_forgotten (m : WindowManager ι) (w : GameWindow ι) (id : ι)
    (v : GameWindow ι) (h : (m.forgotten w).mOpenedWindows.lookup id = some v) :
    id ≠ w.id ∧ m.mOpenedWindows.lookup id = some v := by
  rw [lookup_forgotten] at h
  by_cases hid : id = w.id
  · rw [if_pos hid] at h
    exact absurd h.symm (Option.some_ne_none v)
  · rw [if_neg hid] at h
    exact ⟨hid, h⟩

theorem AtMostOne.closed (h : AtMostOne m) (hc : Consistent WindowConfig windows m)
    (scene : Nat) {w : GameWindow ι} (halone : ClosesAlone m w) :
    AtMostOne (m.closed scene w) := by
  have hforgotten : AtMostOne (m.forgotten w) :=
    h.of_lookup fun id v hopen => (lookup_of_forgotten m w id v hopen).2
  cases hqueue : m.mWaitedWindows w.config.level with
  | nil =>
      rw [closed_of_nil m scene hqueue]
      apply hforgotten.of_lookup
      intro id v hopen
      rwa [lookup_unmasked] at hopen
  | cons next waited =>
      rw [closed_of_cons m scene hqueue]
      have hothers := halone.resolve_left fun hnil => by
        rw [hqueue] at hnil
        exact absurd hnil (List.cons_ne_nil next waited)
      refine AtMostOne.shown (hforgotten.of_lookup fun _ _ hopen => hopen) scene ?_
      intro id v hopen hlevel
      obtain ⟨hid, hopen⟩ := lookup_of_forgotten m w id v hopen
      rw [(hc.next hqueue).2.1] at hlevel
      exact absurd (hothers id v hopen hlevel) hid

theorem not_atMostOne_closed (hc : Consistent WindowConfig windows m) (scene : Nat)
    {w : GameWindow ι} (halone : ¬ ClosesAlone m w) : ¬ AtMostOne (m.closed scene w) := by
  intro h
  unfold ClosesAlone at halone
  push Not at halone
  obtain ⟨hqueue, id, v, hopen, hlevel, hid⟩ := halone
  obtain ⟨next, waited, hqueue⟩ := List.exists_cons_of_ne_nil hqueue
  obtain ⟨_, hnext, hclosed, _⟩ := hc.next hqueue
  have hne : id ≠ next.id := by
    rintro rfl
    rw [hclosed] at hopen
    exact absurd hopen.symm (Option.some_ne_none v)
  apply hne
  apply h id v next.id next
  · simp only [lookup_closed, hqueue, List.head?_cons, if_neg hne, if_neg hid, hopen]
  · simp only [lookup_closed, hqueue, List.head?_cons, if_pos]
  · rw [hlevel, hnext]

theorem not_atMostOne_shown (scene : Nat) {w v : GameWindow ι} {id : ι}
    (hopen : m.mOpenedWindows.lookup id = some v) (hid : id ≠ w.id)
    (hlevel : v.config.level = w.config.level) : ¬ AtMostOne (m.shown scene w) := by
  intro h
  apply hid
  apply h id v w.id w
  · rw [lookup_shown, if_neg hid, hopen]
  · rw [lookup_shown, if_pos rfl]
  · exact hlevel

end Manager

section Steps
variable {ι : Type}

/-- The three things `hide` can do to a window without anybody waiting. -/
theorem staysOpen_iff (s : World ι) (w : GameWindow ι) :
    s.staysOpen w = true ↔ s.closesAtOnce w = false ∧ s.hideRaises w = false := by
  unfold World.staysOpen World.closesAtOnce World.hideRaises
  cases (s.node w.ref).animFlag <;> cases s.styleOf w <;> simp

variable [DecidableEq ι] {WindowConfig : ι → Option Config} {s t : World ι}

theorem staysOpen_ready (h : WellFormed WindowConfig s) {r : GameWindow ι} (hr : r ∈ s.windows)
    (parentNode : Nat) {id : ι} (hid : r.id ≠ id) (config : Config) (style : Option WindowStyle) :
    (s.ready parentNode id config style).staysOpen r = s.staysOpen r := by
  obtain ⟨hnode, hstyle⟩ := h.ready_seen hr parentNode hid config style
  unfold World.staysOpen
  rw [hnode, hstyle]

theorem replaces_levels (h : WellFormed WindowConfig s) {id : ι} {w r : GameWindow ι}
    (hkept : s.manager.mWindows id = some w) (hlevel : w.config.level = WindowLevel.FullScreen)
    (hr : MakesRoom s.windows s.manager id r) :
    (s.staysOpen r = false → AtMostOne s.manager →
        AtMostOne ((r.hide s).andThen fun t => t.doShowKept id).world.manager) ∧
      (s.staysOpen r = true →
        ¬ AtMostOne ((r.hide s).andThen fun t => t.doShowKept id).world.manager) := by
  have hsame := hide_sameButNodes s r
  have hwid : w.id = id := (h.consistent.kept id w hkept).2
  obtain ⟨_, hsaved⟩ := hide_tables s r hr.queue id
  constructor
  · intro hgoes honce
    by_cases hclose : s.closesAtOnce r = true
    · rw [if_pos hclose] at hsame
      have hclosed : AtMostOne (r.hide s).world.manager := by
        rw [hsame.manager]
        exact honce.closed h.consistent s.scene (.inl hr.queue)
      by_cases hresult : (r.hide s).result = none
      · rw [andThen_of_none _ hresult]
        exact hclosed
      · rw [andThen_of_some _ hresult,
          (doShowKept_sameButNodes ((hsaved hr.ne).trans hkept)).manager]
        apply hclosed.shown
        intro a v hopen hv
        rw [(hide_tables s r hr.queue a).1] at hopen
        by_cases ha : a = r.id
        · rw [if_pos ⟨hclose, ha⟩] at hopen
          exact absurd hopen.symm (Option.some_ne_none v)
        · rw [if_neg fun hand => ha hand.2] at hopen
          exact absurd (honce a v r.id r hopen hr.opened (hv.trans (hlevel.trans hr.level.symm))) ha
    · have hraises : s.hideRaises r = true := by
        by_contra hquiet
        have hstays := (staysOpen_iff s r).mpr
          ⟨(Bool.not_eq_true _).mp hclose, (Bool.not_eq_true _).mp hquiet⟩
        rw [hgoes] at hstays
        exact Bool.false_ne_true hstays
      rw [if_neg hclose] at hsame
      rw [andThen_of_none _ ((hide_result s r hr.queue).mpr hraises), hsame.manager]
      exact honce
  · intro hstays
    obtain ⟨hclose, hraises⟩ := (staysOpen_iff s r).mp hstays
    rw [andThen_of_some _ (hide_quiet s r hr.queue hraises),
      (doShowKept_sameButNodes ((hsaved hr.ne).trans hkept)).manager]
    apply not_atMostOne_shown
    · rw [(hide_tables s r hr.queue r.id).1, hclose, if_neg fun hand => Bool.false_ne_true hand.1]
      exact hr.opened
    · rw [hwid]
      exact hr.ne.symm
    · rw [hlevel, hr.level]

/-- In what way the full-screen window goes decides it for a window that is there. -/
theorem Prepared.levels {id : ι} {w : GameWindow ι} {order : List ι}
    (h : Prepared WindowConfig s id w order) :
    ((w.config.level = WindowLevel.FullScreen →
        ∀ r, s.manager.replaced order = some r → s.staysOpen r = false) → AtMostOne s.manager →
          AtMostOne (s.showOrWait order w.config.level id).world.manager) ∧
      ∀ r, w.config.level = WindowLevel.FullScreen → s.manager.replaced order = some r →
        s.staysOpen r = true →
          ¬ AtMostOne (s.showOrWait order w.config.level id).world.manager := by
  constructor
  · intro hgoes honce
    apply h.showOrWait_rule (P := fun t => AtMostOne t.manager)
    · intro hfree
      rw [(doShowKept_sameButNodes h.kept).manager]
      exact honce.shown s.scene fun a v hopen hv => absurd ⟨a, v, hopen, hv⟩ hfree
    · intro _
      exact honce
    · intro _ _ _
      exact honce
    · intro hlevel r hreplaced hr
      exact (replaces_levels h.wellFormed h.kept hlevel hr).1 (hgoes hlevel r hreplaced) honce
  · intro r hlevel hreplaced hstays
    have hr := h.wellFormed.consistent.replaced hreplaced h.closed
    obtain ⟨r', hreplaced', hworld⟩ := showOrWait_replaces h.order id h.wellFormed.consistent.keyed
      ⟨r.id, r, hr.opened, hr.level⟩
    cases Option.some.inj (hreplaced.symm.trans hreplaced')
    rw [hlevel, hworld]
    exact (replaces_levels h.wellFormed h.kept hlevel hr).2 hstays

/-- Whether the call leaves one window to a level is known before it. -/
theorem showWindow_levels (h : WellFormed WindowConfig s) (honce : AtMostOne s.manager)
    (parentNode : Nat) (id : ι) (style : Option WindowStyle) {order : List ι}
    (horder : order.Perm s.manager.mOpenedWindows.keys) :
    AtMostOne (s.showWindow WindowConfig parentNode id style order).world.manager ↔
      ReplacesCleanly WindowConfig s parentNode id order := by
  apply h.showWindow_rule horder
    (P := fun t => AtMostOne t.manager ↔ ReplacesCleanly WindowConfig s parentNode id order)
  · intro hidle _
    exact ⟨fun _ config r hreach _ _ => (hidle config hreach).elim, fun _ => honce⟩
  · intro config hreach htarget hprepared
    obtain ⟨hkeeps, hbreaks⟩ := hprepared.levels
    rw [htarget] at hkeeps hbreaks ⊢
    have hstays : ∀ r, s.manager.replaced order = some r →
        (s.ready parentNode id config style).staysOpen r = s.staysOpen r := by
      intro r hr
      have hroom := h.consistent.replaced hr hreach.1
      exact staysOpen_ready h hroom.mem parentNode hroom.ne.symm config style
    rw [replaced_ready] at hkeeps
    constructor
    · intro honce' config' r hreach' hlevel hr
      cases Option.some.inj (hreach.2.1.symm.trans hreach'.2.1)
      by_contra hopen
      refine hbreaks r hlevel (by rw [replaced_ready]; exact hr) ?_ honce'
      rw [hstays r hr]
      exact (Bool.not_eq_false _).mp hopen
    · intro hclean
      apply hkeeps
      · intro hlevel r hr
        rw [hstays r hr]
        exact hclean config r hreach hlevel hr
      · exact honce.of_lookup fun a v hopen => by rwa [ready_opened] at hopen

theorem stepWindow_levels (h : WellFormed WindowConfig s) (honce : AtMostOne s.manager)
    {e : WindowEvent ι} (hstep : stepWindow WindowConfig s e = some t) :
    AtMostOne t.manager ↔ KeepsLevels WindowConfig s (.window e) := by
  rcases stepWindow_cases WindowConfig hstep with
    ⟨parentNode, id, style, order, rfl, horder, rfl⟩ | ⟨hother, hsame⟩
  · exact showWindow_levels h honce parentNode id style horder
  · have hkeeps : KeepsLevels WindowConfig s (.window e) ↔
        ∀ w, s.closing e = some w → ClosesAlone s.manager w := by
      cases e with
      | showWindow parentNode id style order =>
          exact absurd rfl (hother parentNode id style order)
      | hide wnd => exact Iff.rfl
      | tapMask key => exact Iff.rfl
      | onKeyBack order => exact Iff.rfl
      | animEnd wnd => exact Iff.rfl
    rw [hkeeps, hsame.manager]
    cases hclosing : s.closing e with
    | none => exact ⟨fun _ w hw => absurd hw.symm (Option.some_ne_none w), fun _ => honce⟩
    | some w =>
        constructor
        · intro honce' v hv
          cases Option.some.inj hv
          by_contra halone
          exact not_atMostOne_closed h.consistent s.scene halone honce'
        · intro halone
          exact honce.closed h.consistent s.scene (halone w rfl)

theorem step_levels (h : WellFormed WindowConfig s) (honce : AtMostOne s.manager) {e : Event ι}
    (hstep : step WindowConfig s e = some t) :
    AtMostOne t.manager ↔ KeepsLevels WindowConfig s e := by
  cases e with
  | window e => exact stepWindow_levels h honce hstep
  | enterScene =>
      cases Option.some.inj hstep
      exact ⟨fun _ => trivial, fun _ => honce⟩

/-- In every run, no level ever has two open windows exactly when no close lets a waiting window
in beside an open one and no full-screen window is shown over one that stays. -/
theorem at_most_one_window_per_level_iff (es : List (Event ι)) (t : World ι)
    (hrun : run (step WindowConfig) World.start es = some t) :
    Always (step WindowConfig) (fun s => AtMostOne s.manager) World.start es ↔
      Along (step WindowConfig) (KeepsLevels WindowConfig) World.start es :=
  always_iff_along (step WindowConfig) (KeepsLevels WindowConfig) (WellFormed WindowConfig)
    (fun s => AtMostOne s.manager) (fun _ _ _ h hstep => h.step hstep)
    (fun _ _ _ h honce hstep => step_levels h honce hstep) es World.start t wellFormed_start
    (fun _ v _ _ ha => absurd ha.symm (Option.some_ne_none v)) hrun

end Steps

/-! ## Two windows of one level -/

def fullScreen : Config := ⟨WindowLevel.FullScreen, true, true, false⟩

def normalPopu : Config := ⟨WindowLevel.NormalPopu, true, true, false⟩

/-- The second waits until the first is hidden. -/
theorem at_most_one_of_queue :
    Always (step (twoAlike normalPopu)) (fun s => AtMostOne s.manager) World.start
      [.window (.showWindow 0 false none []), .window (.showWindow 0 true none [false]),
        .window (.hide (firstAlike normalPopu))] := by
  refine (at_most_one_window_per_level_iff _ _ rfl).mpr ⟨?_, fun s hs => ?_⟩
  · intro config r _ _ hr
    exact absurd hr.symm (Option.some_ne_none r)
  cases Option.some.inj hs
  refine ⟨?_, fun s hs => ?_⟩
  · intro config r hreach hlevel _
    cases Option.some.inj hreach.2.1
    exact absurd hlevel (by decide)
  cases Option.some.inj hs
  refine ⟨fun w hw => ?_, fun _ _ => trivial⟩
  cases Option.some.inj hw
  right
  intro id v hopen _
  cases id with
  | false => rfl
  | true => exact absurd hopen.symm (Option.some_ne_none v)

/-- The first full-screen window is still being shown and refuses to hide. -/
theorem two_full_screen_windows :
    ¬ Always (step (twoAlike fullScreen)) (fun s => AtMostOne s.manager) World.start
      [.window (.showWindow 0 false (some .popu) []),
        .window (.showWindow 0 true none [false])] := by
  intro halways
  have hboth := ((halways.2 _ rfl).2 _ rfl).head
  exact absurd (hboth false _ true _ rfl rfl rfl) (by decide)

end Doudizhu.Window
