import Mathlib.Data.List.Basic
import Mathlib.Tactic.TypeStar

/-! # Runs of a partial step function

`run step s es` takes the events `es` one after another; it is `none` as soon as one of them is
not enabled.  `Along step C s es` says that `C` holds at every step the run takes, and
`Always step P s es` that `P` holds in every state it reaches.  An invariant kept by the steps
that satisfy `C` holds throughout a run along `C`; a relation kept by the retained events and
untouched by the dropped ones relates a run to the run with the latter left out. -/

set_option autoImplicit false

namespace Doudizhu.Runs

variable {S P E : Type*}

def run (step : S → E → Option S) : S → List E → Option S
  | s, [] => some s
  | s, e :: es => (step s e).bind fun s' => run step s' es

/-- `C` holds at each step, of the state before it and the event. -/
def Along (step : S → E → Option S) (C : S → E → Prop) : S → List E → Prop
  | _, [] => True
  | s, e :: es => C s e ∧ ∀ s', step s e = some s' → Along step C s' es

/-- `Q` holds in every state the events lead through, the first one included. -/
def Always (step : S → E → Option S) (Q : S → Prop) : S → List E → Prop
  | s, [] => Q s
  | s, e :: es => Q s ∧ ∀ s', step s e = some s' → Always step Q s' es

theorem run_cons_eq_some (step : S → E → Option S) (s t : S) (e : E) (es : List E) :
    run step s (e :: es) = some t ↔ ∃ s', step s e = some s' ∧ run step s' es = some t := by
  simp only [run, Option.bind_eq_some_iff]

theorem along_cons_iff {step : S → E → Option S} {C : S → E → Prop} {s s' : S} {e : E}
    {es : List E} (hstep : step s e = some s') :
    Along step C s (e :: es) ↔ C s e ∧ Along step C s' es := by
  constructor
  · exact fun h => ⟨h.1, h.2 s' hstep⟩
  · rintro ⟨hC, hrest⟩
    refine ⟨hC, fun s'' hs'' => ?_⟩
    cases Option.some.inj (hstep.symm.trans hs'')
    exact hrest

theorem always_cons_iff {step : S → E → Option S} {Q : S → Prop} {s s' : S} {e : E} {es : List E}
    (hstep : step s e = some s') :
    Always step Q s (e :: es) ↔ Q s ∧ Always step Q s' es := by
  constructor
  · exact fun h => ⟨h.1, h.2 s' hstep⟩
  · rintro ⟨hQ, hrest⟩
    refine ⟨hQ, fun s'' hs'' => ?_⟩
    cases Option.some.inj (hstep.symm.trans hs'')
    exact hrest

theorem run_append (step : S → E → Option S) :
    ∀ (es fs : List E) (s : S),
      run step s (es ++ fs) = (run step s es).bind fun s' => run step s' fs := by
  intro es
  induction es with
  | nil => intro fs s; rfl
  | cons e es ih =>
      intro fs s
      simp only [List.cons_append, run]
      cases step s e with
      | none => rfl
      | some s' => exact ih fs s'

/-- Where every event is enabled, every list of events is a run. -/
theorem exists_run (step : S → E → Option S) (total : ∀ s e, ∃ s', step s e = some s') :
    ∀ (es : List E) (s : S), ∃ t, run step s es = some t := by
  intro es
  induction es with
  | nil => intro s; exact ⟨s, rfl⟩
  | cons e es ih =>
      intro s
      obtain ⟨s', hstep⟩ := total s e
      obtain ⟨t, hrun⟩ := ih s'
      exact ⟨t, (run_cons_eq_some step s t e es).mpr ⟨s', hstep, hrun⟩⟩

theorem along_true (step : S → E → Option S) :
    ∀ (es : List E) (s : S), Along step (fun _ _ => True) s es := by
  intro es
  induction es with
  | nil => intro s; trivial
  | cons e es ih => intro s; exact ⟨trivial, fun s' _ => ih s'⟩

theorem along_and (step : S → E → Option S) {C D : S → E → Prop} :
    ∀ (es : List E) (s : S), Along step (fun s e => C s e ∧ D s e) s es ↔
      Along step C s es ∧ Along step D s es := by
  intro es
  induction es with
  | nil => intro s; exact ⟨fun _ => ⟨trivial, trivial⟩, fun _ => trivial⟩
  | cons e es ih =>
      intro s
      constructor
      · rintro ⟨hhead, hrest⟩
        exact ⟨⟨hhead.1, fun s' hs' => ((ih s').mp (hrest s' hs')).1⟩,
          ⟨hhead.2, fun s' hs' => ((ih s').mp (hrest s' hs')).2⟩⟩
      · rintro ⟨⟨hC, hCrest⟩, hD, hDrest⟩
        exact ⟨⟨hC, hD⟩, fun s' hs' => (ih s').mpr ⟨hCrest s' hs', hDrest s' hs'⟩⟩

theorem along_append (step : S → E → Option S) (C : S → E → Prop) :
    ∀ (es fs : List E) (s : S), Along step C s es →
      (∀ t, run step s es = some t → Along step C t fs) → Along step C s (es ++ fs) := by
  intro es
  induction es with
  | nil => intro fs s _ hafter; exact hafter s rfl
  | cons e es ih =>
      intro fs s along hafter
      refine ⟨along.1, fun s' hstep => ih fs s' (along.2 s' hstep) fun t hrun => ?_⟩
      exact hafter t ((run_cons_eq_some step s t e es).mpr ⟨s', hstep, hrun⟩)

theorem along_of_forall (step : S → E → Option S) {C : S → E → Prop} :
    ∀ (es : List E) (s : S), (∀ e ∈ es, ∀ t, C t e) → Along step C s es := by
  intro es
  induction es with
  | nil => intro s _; trivial
  | cons e es ih =>
      intro s hC
      exact ⟨hC e List.mem_cons_self s,
        fun s' _ => ih s' fun d hd => hC d (List.mem_cons_of_mem e hd)⟩

theorem along_of_initial (step : S → E → Option S) {C : S → E → Prop} :
    ∀ (pre es : List E) (s : S), pre <+: es → Along step C s es → Along step C s pre := by
  intro pre
  induction pre with
  | nil => intro es s _ _; trivial
  | cons e pre ih =>
      intro es s hpre along
      obtain ⟨rest, rfl⟩ := hpre
      exact ⟨along.1, fun s' hs' => ih _ s' (List.prefix_append pre rest) (along.2 s' hs')⟩

theorem along_after (step : S → E → Option S) {C : S → E → Prop} :
    ∀ (pre post : List E) (s t : S), Along step C s (pre ++ post) →
      run step s pre = some t → Along step C t post := by
  intro pre
  induction pre with
  | nil =>
      intro post s t along hrun
      cases Option.some.inj hrun
      exact along
  | cons d pre ih =>
      intro post s t along hrun
      obtain ⟨s', hstep, hrest⟩ := (run_cons_eq_some step s t d pre).mp hrun
      exact ih post s' t (along.2 s' hstep) hrest

theorem along_at (step : S → E → Option S) {C : S → E → Prop} (pre : List E) (e : E)
    (post : List E) (s t : S) (along : Along step C s (pre ++ e :: post))
    (hrun : run step s pre = some t) : C t e :=
  (along_after step pre (e :: post) s t along hrun).1

theorem exists_first_outside (step : S → E → Option S) (C : S → E → Prop) :
    ∀ (es : List E) (s t : S), run step s es = some t → ¬ Along step C s es →
      ∃ pre e u u', pre ++ [e] <+: es ∧ Along step C s pre ∧ run step s pre = some u ∧
        ¬ C u e ∧ step u e = some u' := by
  intro es
  induction es with
  | nil => intro s t _ hnot; exact absurd trivial hnot
  | cons e es ih =>
      intro s t hrun hnot
      obtain ⟨s', hstep, hrest⟩ := (run_cons_eq_some step s t e es).mp hrun
      by_cases hC : C s e
      · have hnext : ¬ Along step C s' es := by
          intro along
          apply hnot
          refine ⟨hC, fun s'' hs'' => ?_⟩
          cases Option.some.inj (hstep.symm.trans hs'')
          exact along
        obtain ⟨pre, d, u, u', hpre, along, hu, hd, hu'⟩ := ih s' t hrest hnext
        refine ⟨e :: pre, d, u, u', List.cons_prefix_cons.mpr ⟨rfl, hpre⟩, ⟨hC, ?_⟩,
          (run_cons_eq_some step s u e pre).mpr ⟨s', hstep, hu⟩, hd, hu'⟩
        intro s'' hs''
        cases Option.some.inj (hstep.symm.trans hs'')
        exact along
      · exact ⟨[], e, s, s', List.prefix_append [e] es, trivial, rfl, hC, hstep⟩

theorem run_invariant (step : S → E → Option S) (C : S → E → Prop) (I : S → Prop)
    (keeps : ∀ s e s', I s → C s e → step s e = some s' → I s') :
    ∀ (es : List E) (s t : S), I s → Along step C s es → run step s es = some t → I t := by
  intro es
  induction es with
  | nil =>
      intro s t hs _ hrun
      cases Option.some.inj hrun
      exact hs
  | cons e es ih =>
      intro s t hs along hrun
      obtain ⟨s', hstep, hrest⟩ := (run_cons_eq_some step s t e es).mp hrun
      exact ih s' t (keeps s e s' hs along.1 hstep) (along.2 s' hstep) hrest

theorem always_of_invariant (step : S → E → Option S) (C : S → E → Prop) (I Q : S → Prop)
    (keeps : ∀ s e s', I s → C s e → step s e = some s' → I s') (implies : ∀ s, I s → Q s) :
    ∀ (es : List E) (s : S), I s → Along step C s es → Always step Q s es := by
  intro es
  induction es with
  | nil => intro s hs _; exact implies s hs
  | cons e es ih =>
      intro s hs along
      exact ⟨implies s hs, fun s' hstep =>
        ih s' (keeps s e s' hs along.1 hstep) (along.2 s' hstep)⟩

theorem along_of_invariant (step : S → E → Option S) (C D : S → E → Prop) (I : S → Prop)
    (keeps : ∀ s e s', I s → C s e → step s e = some s' → I s')
    (implies : ∀ s e s', I s → C s e → step s e = some s' → D s e) :
    ∀ (es : List E) (s t : S), I s → Along step C s es → run step s es = some t →
      Along step D s es := by
  intro es
  induction es with
  | nil => intro s t _ _ _; trivial
  | cons e es ih =>
      intro s t hs along hrun
      obtain ⟨s', hstep, hrest⟩ := (run_cons_eq_some step s t e es).mp hrun
      exact (along_cons_iff hstep).mpr ⟨implies s e s' hs along.1 hstep,
        ih s' t (keeps s e s' hs along.1 hstep) (along.2 s' hstep) hrest⟩

theorem Always.head {step : S → E → Option S} {Q : S → Prop} {s : S} {es : List E}
    (h : Always step Q s es) : Q s := by
  cases es with
  | nil => exact h
  | cons e es => exact h.1

theorem Always.last (step : S → E → Option S) {Q : S → Prop} :
    ∀ (es : List E) (s t : S), Always step Q s es → run step s es = some t → Q t := by
  intro es
  induction es with
  | nil =>
      intro s t halways hrun
      cases Option.some.inj hrun
      exact halways
  | cons e es ih =>
      intro s t halways hrun
      obtain ⟨s', hstep, hrest⟩ := (run_cons_eq_some step s t e es).mp hrun
      exact ih s' t (halways.2 s' hstep) hrest

/-- When a step outside `C` always ends outside `Q`, a run within `Q` goes along `C`. -/
theorem along_of_always (step : S → E → Option S) (C : S → E → Prop) (I Q : S → Prop)
    (keeps : ∀ s e s', I s → step s e = some s' → I s')
    (breaks : ∀ s e s', I s → Q s → ¬ C s e → step s e = some s' → ¬ Q s') :
    ∀ (es : List E) (s t : S), I s → run step s es = some t → Always step Q s es →
      Along step C s es := by
  intro es
  induction es with
  | nil => intro s t _ _ _; trivial
  | cons e es ih =>
      intro s t hs hrun halways
      obtain ⟨s', hstep, hrest⟩ := (run_cons_eq_some step s t e es).mp hrun
      have hnext := halways.2 s' hstep
      refine ⟨?_, fun s'' hs'' => ?_⟩
      · by_contra hC
        exact breaks s e s' hs halways.1 hC hstep hnext.head
      · cases Option.some.inj (hstep.symm.trans hs'')
        exact ih s' t (keeps s e s' hs hstep) hrest hnext

/-- When `C` decides at each step whether `Q` is kept, it decides whether a run stays within `Q`. -/
theorem always_iff_along (step : S → E → Option S) (C : S → E → Prop) (I Q : S → Prop)
    (keeps : ∀ s e s', I s → step s e = some s' → I s')
    (decides : ∀ s e s', I s → Q s → step s e = some s' → (Q s' ↔ C s e))
    (es : List E) (s t : S) (hI : I s) (hQ : Q s) (hrun : run step s es = some t) :
    Always step Q s es ↔ Along step C s es := by
  constructor
  · exact along_of_always step C I Q keeps
      (fun s e s' hs hq hC hstep hq' => hC ((decides s e s' hs hq hstep).mp hq')) es s t hI hrun
  · exact always_of_invariant step C (fun s => I s ∧ Q s) Q
      (fun s e s' h hC hstep => ⟨keeps s e s' h.1 hstep, (decides s e s' h.1 h.2 hstep).mpr hC⟩)
      (fun _ h => h.2) es s ⟨hI, hQ⟩

/-- Conditions that say the same of every step taken within an invariant, when the invariant is
kept by the steps that meet them. -/
theorem along_iff_of_kept (step : S → E → Option S) (C D : S → E → Prop) (I : S → Prop)
    (keeps : ∀ s e s', I s → D s e → step s e = some s' → I s')
    (same : ∀ s e s', I s → step s e = some s' → (C s e ↔ D s e)) :
    ∀ (es : List E) (s t : S), I s → run step s es = some t →
      (Along step C s es ↔ Along step D s es) := by
  intro es
  induction es with
  | nil => intro s t _ _; exact Iff.rfl
  | cons e es ih =>
      intro s t hs hrun
      obtain ⟨s', hstep, hrest⟩ := (run_cons_eq_some step s t e es).mp hrun
      rw [along_cons_iff hstep, along_cons_iff hstep, same s e s' hs hstep]
      refine and_congr_right fun hD => ?_
      exact ih s' t (keeps s e s' hs hD hstep) hrest

theorem along_iff (step : S → E → Option S) (C D : S → E → Prop) (I : S → Prop)
    (keeps : ∀ s e s', I s → step s e = some s' → I s')
    (same : ∀ s e s', I s → step s e = some s' → (C s e ↔ D s e))
    (es : List E) (s t : S) (hs : I s) (hrun : run step s es = some t) :
    Along step C s es ↔ Along step D s es :=
  along_iff_of_kept step C D I (fun s e s' hs _ => keeps s e s' hs) same es s t hs hrun

/-- Leaving out the events that `keep` rejects: the reduced run exists and stays related. -/
theorem run_filter (step : S → E → Option S) (small : P → E → Option P) (keep : E → Bool)
    (C : S → E → Prop) (R : S → P → Prop)
    (retained : ∀ s p e s', R s p → C s e → keep e = true → step s e = some s' →
      ∃ p', small p e = some p' ∧ R s' p')
    (dropped : ∀ s p e s', R s p → C s e → keep e = false → step s e = some s' → R s' p) :
    ∀ (es : List E) (s t : S) (p : P), R s p → Along step C s es → run step s es = some t →
      ∃ q, run small p (es.filter keep) = some q ∧ R t q := by
  intro es
  induction es with
  | nil =>
      intro s t p hR _ hrun
      cases Option.some.inj hrun
      exact ⟨p, rfl, hR⟩
  | cons e es ih =>
      intro s t p hR along hrun
      obtain ⟨s', hstep, hrest⟩ := (run_cons_eq_some step s t e es).mp hrun
      by_cases hkeep : keep e = true
      · obtain ⟨p', hsmall, hR'⟩ := retained s p e s' hR along.1 hkeep hstep
        obtain ⟨q, hq, hRq⟩ := ih s' t p' hR' (along.2 s' hstep) hrest
        refine ⟨q, ?_, hRq⟩
        rw [List.filter_cons_of_pos hkeep]
        exact (run_cons_eq_some small p q e _).mpr ⟨p', hsmall, hq⟩
      · have hdrop : keep e = false := Bool.eq_false_iff.mpr hkeep
        obtain ⟨q, hq, hRq⟩ :=
          ih s' t p (dropped s p e s' hR along.1 hdrop hstep) (along.2 s' hstep) hrest
        exact ⟨q, by rw [List.filter_cons_of_neg hkeep]; exact hq, hRq⟩

/-! ## Outputs -/

section Outputs
variable {O : Type*}

/-- The outputs of the steps, up to the first event that is not enabled. -/
def outputs (step : S → E → Option S) (out : S → E → Option O) : S → List E → List O
  | _, [] => []
  | s, e :: es =>
      match step s e with
      | none => []
      | some s' => (out s e).toList ++ outputs step out s' es

theorem outputs_of_none (step : S → E → Option S) (out : S → E → Option O) {s : S} {e : E}
    (es : List E) (h : step s e = none) : outputs step out s (e :: es) = [] := by
  rw [outputs, h]

theorem outputs_of_some (step : S → E → Option S) (out : S → E → Option O) {s s' : S} {e : E}
    (es : List E) (h : step s e = some s') :
    outputs step out s (e :: es) = (out s e).toList ++ outputs step out s' es := by
  rw [outputs, h]

/-- The invariant rule for a state with what has been output so far. -/
theorem outputs_invariant (step : S → E → Option S) (out : S → E → Option O) (C : S → E → Prop)
    (I : S → List O → Prop)
    (keeps : ∀ s e s' log, I s log → C s e → step s e = some s' → I s' (log ++ (out s e).toList)) :
    ∀ (es : List E) (s t : S) (log : List O), I s log → Along step C s es →
      run step s es = some t → I t (log ++ outputs step out s es) := by
  intro es
  induction es with
  | nil =>
      intro s t log hs _ hrun
      cases Option.some.inj hrun
      rw [outputs, List.append_nil]
      exact hs
  | cons e es ih =>
      intro s t log hs along hrun
      obtain ⟨s', hstep, hrest⟩ := (run_cons_eq_some step s t e es).mp hrun
      rw [outputs_of_some step out es hstep, ← List.append_assoc]
      exact ih s' t _ (keeps s e s' log hs along.1 hstep) (along.2 s' hstep) hrest

/-- An output in the middle of the list is that of a step in the middle of the run. -/
theorem outputs_at (step : S → E → Option S) (out : S → E → Option O) :
    ∀ (es : List E) (s : S) (before : List O) (o : O) (after : List O),
      outputs step out s es = before ++ o :: after →
      ∃ pre e post t t', es = pre ++ e :: post ∧ run step s pre = some t ∧
        outputs step out s pre = before ∧ out t e = some o ∧ step t e = some t' ∧
        outputs step out t' post = after := by
  intro es
  induction es with
  | nil =>
      intro s before o after h
      exact absurd h.symm (List.append_ne_nil_of_right_ne_nil before (List.cons_ne_nil o after))
  | cons e es ih =>
      intro s before o after h
      cases hstep : step s e with
      | none =>
          rw [outputs_of_none step out es hstep] at h
          exact absurd h.symm (List.append_ne_nil_of_right_ne_nil before (List.cons_ne_nil o after))
      | some s' =>
          rw [outputs_of_some step out es hstep] at h
          have hlater : ∀ rest, outputs step out s' es = rest ++ o :: after →
              before = (out s e).toList ++ rest →
              ∃ pre d post t t', e :: es = pre ++ d :: post ∧ run step s pre = some t ∧
                outputs step out s pre = before ∧ out t d = some o ∧ step t d = some t' ∧
                outputs step out t' post = after := by
            intro rest hrest hbefore
            obtain ⟨pre, d, post, t, t', rfl, hrun, hpre, hd, ht, hpost⟩ := ih s' rest o after hrest
            refine ⟨e :: pre, d, post, t, t', rfl, ?_, ?_, hd, ht, hpost⟩
            · exact (run_cons_eq_some step s t e pre).mpr ⟨s', hstep, hrun⟩
            · rw [outputs_of_some step out pre hstep, hpre, hbefore]
          cases hout : out s e with
          | none =>
              rw [hout, Option.toList_none, List.nil_append] at h
              exact hlater before h (by rw [hout]; rfl)
          | some o' =>
              rw [hout, Option.toList_some, List.singleton_append] at h
              cases before with
              | nil =>
                  obtain ⟨rfl, hafter⟩ := List.cons.inj h
                  exact ⟨[], e, es, s, s', rfl, rfl, rfl, hout, hstep, hafter⟩
              | cons b rest =>
                  obtain ⟨rfl, hrest⟩ := List.cons.inj h
                  exact hlater rest hrest (by rw [hout]; rfl)

/-- An output that no step allowed by the invariant makes does not occur. -/
theorem not_mem_outputs (step : S → E → Option S) (out : S → E → Option O) (I : S → Prop) (o : O)
    (keeps : ∀ s e s', I s → step s e = some s' → I s')
    (silent : ∀ s e s', I s → step s e = some s' → out s e ≠ some o) :
    ∀ (es : List E) (s : S), I s → o ∉ outputs step out s es := by
  intro es s hs hmem
  obtain ⟨before, after, hsplit⟩ := List.append_of_mem hmem
  obtain ⟨pre, e, post, t, t', rfl, hrun, _, hout, hstep, _⟩ :=
    outputs_at step out es s before o after hsplit
  have ht : I t := run_invariant step (fun _ _ => True) I (fun u d u' hu _ => keeps u d u' hu)
    pre s t hs (along_true step pre s) hrun
  exact silent t e t' ht hstep hout

/-! ## Histories -/

/-- What the steps contribute, each as it may depend on the state it leads to. -/
def history (step : S → E → Option S) (out : S → E → S → List O) : S → List E → List O
  | _, [] => []
  | s, e :: es =>
      match step s e with
      | none => []
      | some s' => out s e s' ++ history step out s' es

theorem history_of_some (step : S → E → Option S) (out : S → E → S → List O) {s s' : S} {e : E}
    (es : List E) (h : step s e = some s') :
    history step out s (e :: es) = out s e s' ++ history step out s' es := by
  rw [history, h]

/-- Where every step puts what joins at the end of the queue and takes what leaves from its front,
everything that was in the queue or has joined it has left it or is in it, in the same order. -/
theorem history_fifo (step : S → E → Option S) (queue : S → List O)
    (joins leaves : S → E → S → List O) (I : S → Prop)
    (keeps : ∀ s e s', I s → step s e = some s' → I s')
    (balance : ∀ s e s', I s → step s e = some s' →
      queue s ++ joins s e s' = leaves s e s' ++ queue s') :
    ∀ (es : List E) (s t : S), I s → run step s es = some t →
      queue s ++ history step joins s es = history step leaves s es ++ queue t := by
  intro es
  induction es with
  | nil =>
      intro s t _ hrun
      cases Option.some.inj hrun
      rw [history, history, List.append_nil, List.nil_append]
  | cons e es ih =>
      intro s t hs hrun
      obtain ⟨s', hstep, hrest⟩ := (run_cons_eq_some step s t e es).mp hrun
      have hlater := ih s' t (keeps s e s' hs hstep) hrest
      calc queue s ++ history step joins s (e :: es)
          = (queue s ++ joins s e s') ++ history step joins s' es := by
            rw [history_of_some step joins es hstep, List.append_assoc]
        _ = leaves s e s' ++ (queue s' ++ history step joins s' es) := by
            rw [balance s e s' hs hstep, List.append_assoc]
        _ = history step leaves s (e :: es) ++ queue t := by
            rw [hlater, history_of_some step leaves es hstep, List.append_assoc]

end Outputs

end Doudizhu.Runs
