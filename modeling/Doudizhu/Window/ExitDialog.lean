import Doudizhu.Window.Levels

/-! # The back key and the exit dialog

`onKeyBack` hides the uppermost window and returns what `hide` returns, and false when no window
is open.  `SceneManager` takes false for "no window was closed" and offers to quit.  `hide`
returns false as well when it refuses because the window is being animated. -/

set_option autoImplicit false

namespace Doudizhu.Window

open Runs Outcome

section ExitDialog
variable {ι : Type} [DecidableEq ι]

def isBackKey (key : String) : Bool := key = "back" || key = "125"

/-- `SceneManager:onKeypadEvent`; the result is whether it offers to quit. -/
def World.onKeypadEvent (s : World ι) (key : String) (order : List ι) : Outcome ι Bool :=
  if isBackKey key then
    let back := s.onKeyBack order
    ⟨back.world, back.result.map not⟩
  else ok s false

/-- `w` is open and no open window is above it. -/
def Uppermost (m : WindowManager ι) (w : GameWindow ι) : Prop :=
  m.mOpenedWindows.lookup w.id = some w ∧
    ∀ id v, m.mOpenedWindows.lookup id = some v → v.getLevel ≤ w.getLevel

omit [DecidableEq ι] in
theorem andThen_ok_result {α β : Type} (o : Outcome ι α) (b c : β) (hne : b ≠ c) :
    (o.andThen fun s => ok s b).result ≠ some c := by
  unfold Outcome.andThen
  cases o.result with
  | none => exact Option.some_ne_none c ∘ Eq.symm
  | some a => exact fun h => hne (Option.some.inj h)

theorem hide_refuses_iff (s : World ι) (w : GameWindow ι) :
    (w.hide s).result = some false ↔ (s.node w.ref).animFlag = true := by
  unfold GameWindow.hide
  cases hflag : (s.node w.ref).animFlag with
  | true => exact iff_of_true rfl rfl
  | false =>
      rw [if_neg Bool.false_ne_true]
      exact iff_of_false (andThen_ok_result _ true false Bool.noConfusion) Bool.false_ne_true

omit [DecidableEq ι] in
/-- The loop of `findUppermostWnd` keeps the first of the windows that are highest. -/
theorem uppermost_fold (windows : List (GameWindow ι)) (best : Option ι × Int) :
    (windows.foldl (fun (best : Option ι × Int) wnd =>
        if wnd.getLevel > best.2 then (some wnd.getId, wnd.getLevel) else best) best = best ∧
      ∀ v ∈ windows, v.getLevel ≤ best.2) ∨
    ∃ before w after, windows = before ++ w :: after ∧
      windows.foldl (fun (best : Option ι × Int) wnd =>
        if wnd.getLevel > best.2 then (some wnd.getId, wnd.getLevel) else best) best =
          (some w.getId, w.getLevel) ∧
      (∀ v ∈ before, v.getLevel < w.getLevel) ∧ (∀ v ∈ after, v.getLevel ≤ w.getLevel) ∧
      best.2 < w.getLevel := by
  induction windows generalizing best with
  | nil => exact .inl ⟨rfl, fun v hv => absurd hv List.not_mem_nil⟩
  | cons u windows ih =>
      rw [List.foldl_cons]
      by_cases hhigher : u.getLevel > best.2
      · rw [if_pos hhigher]
        rcases ih (some u.getId, u.getLevel) with ⟨hfold, hrest⟩ | ⟨before, w, after, rfl, hfold,
          hbefore, hafter, hw⟩
        · exact .inr ⟨[], u, windows, rfl, hfold, fun v hv => absurd hv List.not_mem_nil, hrest,
            hhigher⟩
        · refine .inr ⟨u :: before, w, after, rfl, hfold, fun v hv => ?_, hafter,
            Int.lt_trans hhigher hw⟩
          rcases List.mem_cons.mp hv with rfl | hv
          · exact hw
          · exact hbefore v hv
      · rw [if_neg hhigher]
        rcases ih best with ⟨hfold, hrest⟩ | ⟨before, w, after, rfl, hfold, hbefore, hafter, hw⟩
        · refine .inl ⟨hfold, fun v hv => ?_⟩
          rcases List.mem_cons.mp hv with rfl | hv
          · exact Int.not_lt.mp hhigher
          · exact hrest v hv
        · refine .inr ⟨u :: before, w, after, rfl, hfold, fun v hv => ?_, hafter, hw⟩
          rcases List.mem_cons.mp hv with rfl | hv
          · exact Int.lt_of_le_of_lt (Int.not_lt.mp hhigher) hw
          · exact hbefore v hv

variable {s : World ι} {order : List ι}

theorem findUppermostWnd_cases (hkeyed : s.manager.Keyed)
    (horder : order.Perm s.manager.mOpenedWindows.keys) :
    (s.manager.findUppermostWnd order = none ∧
      ∀ id v, s.manager.mOpenedWindows.lookup id = some v → v.getLevel ≤ -999) ∨
    ∃ before w after, s.manager.pairs order = before ++ w :: after ∧
      s.manager.findUppermostWnd order = some w.id ∧ Uppermost s.manager w ∧
      (∀ v ∈ before, v.getLevel < w.getLevel) ∧ -999 < w.getLevel := by
  rcases uppermost_fold (s.manager.pairs order) (none, -999) with ⟨hfold, hlow⟩ |
    ⟨before, w, after, hsplit, hfold, hbefore, hafter, hw⟩
  · exact .inl ⟨congrArg Prod.fst hfold,
      fun id v hopen => hlow v ((mem_pairs horder).mpr ⟨id, hopen⟩)⟩
  · refine .inr ⟨before, w, after, hsplit, congrArg Prod.fst hfold, ⟨?_, fun id v hopen => ?_⟩,
      hbefore, hw⟩
    · obtain ⟨id, hopen⟩ := (mem_pairs horder).mp (hsplit ▸ List.mem_append_right before
        List.mem_cons_self)
      rw [hkeyed id w hopen]
      exact hopen
    · have hmem := (mem_pairs horder).mpr ⟨id, hopen⟩
      rw [hsplit] at hmem
      rcases List.mem_append.mp hmem with hv | hv
      · exact Int.le_of_lt (hbefore v hv)
      · rcases List.mem_cons.mp hv with rfl | hv
        · exact Int.le_refl _
        · exact hafter v hv

theorem onKeypadEvent_result {key : String} (hback : isBackKey key = true) (s : World ι)
    (order : List ι) :
    (s.onKeypadEvent key order).result = some true ↔ (s.onKeyBack order).result = some false := by
  rw [World.onKeypadEvent, if_pos hback]
  cases hresult : (s.onKeyBack order).result with
  | none => simp [hresult]
  | some closed => cases closed <;> simp [hresult]

/-- Nothing else than an animation or the lowest levels makes the back key offer to quit. -/
theorem offersToQuit_iff (hkeyed : s.manager.Keyed)
    (horder : order.Perm s.manager.mOpenedWindows.keys) {key : String}
    (hback : isBackKey key = true) :
    (s.onKeypadEvent key order).result = some true ↔
      (∀ id v, s.manager.mOpenedWindows.lookup id = some v → v.getLevel ≤ -999) ∨
        ∃ w, Uppermost s.manager w ∧ s.manager.findUppermostWnd order = some w.id ∧
          (s.node w.ref).animFlag = true := by
  rw [onKeypadEvent_result hback, World.onKeyBack]
  rcases findUppermostWnd_cases hkeyed horder with ⟨hnone, hlow⟩ |
    ⟨before, w, after, _, hfound, hw, _, hhigh⟩
  · rw [hnone]
    exact iff_of_true rfl (.inl hlow)
  · rw [hfound]
    simp only [World.hideOpened, hw.1]
    rw [hide_refuses_iff]
    constructor
    · intro hflag
      exact .inr ⟨w, hw, rfl, hflag⟩
    · rintro (hlow | ⟨v, hv, hid, hflag⟩)
      · have hle := hlow w.id w hw.1
        omega
      · have hsame := hv.1
        rw [← Option.some.inj hid, hw.1] at hsame
        cases Option.some.inj hsame
        exact hflag

theorem exists_order_first {m : WindowManager ι} {w : GameWindow ι}
    (hopen : m.mOpenedWindows.lookup w.id = some w) :
    ∃ order, order.Perm m.mOpenedWindows.keys ∧ ∃ rest, m.pairs order = w :: rest := by
  have hmem : w.id ∈ m.mOpenedWindows.keys :=
    AList.mem_keys.mp (AList.lookup_isSome.mp (Option.isSome_of_eq_some hopen))
  refine ⟨w.id :: m.mOpenedWindows.keys.erase w.id, (List.perm_cons_erase hmem).symm, ?_⟩
  exact ⟨_, List.filterMap_cons_some hopen⟩

/-- An uppermost window that comes first is the one that is found. -/
theorem eq_of_first {m : WindowManager ι} (horder : order.Perm m.mOpenedWindows.keys)
    {v w : GameWindow ι} (hw : Uppermost m w) {rest before after : List (GameWindow ι)}
    (hpairs : m.pairs order = w :: rest) (hsplit : m.pairs order = before ++ v :: after)
    (hbefore : ∀ u ∈ before, u.getLevel < v.getLevel) : v = w := by
  have hfirst : before = [] := by
    by_contra hne
    obtain ⟨u, others, rfl⟩ := List.exists_cons_of_ne_nil hne
    have hmem : v ∈ m.pairs order := by
      rw [hsplit]
      exact List.mem_append_right (u :: others) List.mem_cons_self
    obtain ⟨id, hv⟩ := (mem_pairs horder).mp hmem
    rw [hpairs, List.cons_append] at hsplit
    obtain ⟨rfl, _⟩ := List.cons.inj hsplit
    exact absurd (hw.2 id v hv) (Int.not_le.mpr (hbefore w List.mem_cons_self))
  rw [hfirst, hpairs, List.nil_append] at hsplit
  exact (List.cons.inj hsplit).1.symm

/-- Some open window is above level -999, and none of the uppermost is being animated. -/
def BackCloses (s : World ι) : Prop :=
  (∃ id w, s.manager.mOpenedWindows.lookup id = some w ∧ -999 < w.getLevel) ∧
    ∀ w, Uppermost s.manager w → (s.node w.ref).animFlag = false

/-- In whatever order `pairs` comes to the open windows. -/
def NeverOffersToQuit (s : World ι) (key : String) : Prop :=
  ∀ order, order.Perm s.manager.mOpenedWindows.keys →
    (s.onKeypadEvent key order).result ≠ some true

theorem neverOffersToQuit_iff (hkeyed : s.manager.Keyed) {key : String}
    (hback : isBackKey key = true) : NeverOffersToQuit s key ↔ BackCloses s := by
  constructor
  · intro hnever
    refine ⟨?_, fun w hw => ?_⟩
    · by_contra hlow
      exact hnever _ (List.Perm.refl _)
        ((offersToQuit_iff hkeyed (List.Perm.refl _) hback).mpr
          (.inl fun id v hopen => Int.not_lt.mp fun hhigh => hlow ⟨id, v, hopen, hhigh⟩))
    · by_contra hflag
      obtain ⟨order, horder, rest, hpairs⟩ := exists_order_first hw.1
      apply hnever order horder
      rw [offersToQuit_iff hkeyed horder hback]
      rcases findUppermostWnd_cases hkeyed horder with ⟨_, hlow⟩ |
        ⟨before, v, after, hsplit, hfound, _, hbefore, _⟩
      · exact .inl hlow
      · cases eq_of_first horder hw hpairs hsplit hbefore
        exact .inr ⟨w, hw, hfound, (Bool.not_eq_false _).mp hflag⟩
  · rintro ⟨⟨id, v, hopen, hhigh⟩, hstill⟩ order horder hoffers
    rcases (offersToQuit_iff hkeyed horder hback).mp hoffers with hlow | ⟨w, hw, _, hflag⟩
    · have hle := hlow id v hopen
      omega
    · rw [hstill w hw] at hflag
      exact Bool.false_ne_true hflag

variable {WindowConfig : ι → Option Config}

/-- In every reachable state the back key offers to quit in no order of `pairs` if and only if a
window above level -999 is open and none of the uppermost ones is being animated; no other key
ever does. -/
theorem back_never_quits_iff (es : List (Event ι)) (t : World ι)
    (hrun : run (step WindowConfig) World.start es = some t) (key : String) :
    NeverOffersToQuit t key ↔ isBackKey key = false ∨ BackCloses t := by
  have hwf : WellFormed WindowConfig t :=
    run_invariant (step WindowConfig) (fun _ _ => True) (WellFormed WindowConfig)
      (fun _ _ _ h _ hstep => h.step hstep) es World.start t wellFormed_start
      (along_true (step WindowConfig) es World.start) hrun
  cases hback : isBackKey key with
  | true =>
      rw [neverOffersToQuit_iff hwf.consistent.keyed hback]
      simp
  | false =>
      refine iff_of_true (fun order _ hoffers => ?_) (.inl rfl)
      rw [World.onKeypadEvent, hback] at hoffers
      cases hoffers

end ExitDialog

/-! ## One popup -/

/-- A window without animation is closed by the back key. -/
theorem back_closes_shown_window :
    ∃ t : World Bool,
      run (step (twoAlike normalPopu)) World.start [.window (.showWindow 0 false none [])] =
          some t ∧ NeverOffersToQuit t "back" := by
  refine ⟨_, rfl, (back_never_quits_iff [.window (.showWindow 0 false none [])] _
    (show run (step (twoAlike normalPopu)) World.start _ = some _ from rfl) "back").mpr
    (.inr ⟨?_, ?_⟩)⟩
  · exact ⟨false, firstAlike normalPopu, rfl, by decide⟩
  · intro w hw
    have hsame : w = firstAlike normalPopu := by
      have hopen := hw.1
      cases hid : w.id with
      | false =>
          rw [hid] at hopen
          exact (Option.some.inj hopen).symm
      | true =>
          rw [hid] at hopen
          exact absurd hopen.symm (Option.some_ne_none w)
    rw [hsame]
    rfl

/-- The popup is still being shown, and the back key offers to quit. -/
theorem back_quits_over_popup :
    ¬ ∀ t : World Bool,
      run (step (twoAlike normalPopu)) World.start
          [.window (.showWindow 0 false (some .popu) [])] = some t →
        t.manager.mOpenedWindows.lookup false ≠ none → NeverOffersToQuit t "back" := by
  intro hnever
  exact hnever _ rfl (Option.some_ne_none _) [false] (List.Perm.refl _) rfl

end Doudizhu.Window
