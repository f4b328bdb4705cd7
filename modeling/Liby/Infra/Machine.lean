import Liby.Infra.Fault

/-!
# Runs of a state machine

A machine is a step function that may fault. `run` folds it over a list of events.
What one step keeps, every run keeps (`run_invariant`); where a step keeps it only
under a condition on the state before it, the run has to meet the condition at
every step (`Along`, `run_invariant_along`).
-/

namespace Infra

variable {S E : Type _} (step : S → E → Exec S)

/-- The events one after the other. -/
def run : S → List E → Exec S
  | s, [] => .ok s
  | s, e :: es => step s e >>= fun s' => run s' es

@[simp] theorem run_nil (s : S) : run step s [] = .ok s := rfl

theorem run_cons (s : S) (e : E) (es : List E) :
    run step s (e :: es) = (step s e >>= fun s' => run step s' es) := rfl

theorem run_append (es fs : List E) (s : S) :
    run step s (es ++ fs) = (run step s es >>= fun s' => run step s' fs) := by
  induction es generalizing s with
  | nil => rfl
  | cons e es ih =>
    rw [List.cons_append, run_cons, run_cons]
    cases step s e with
    | error f => rfl
    | ok s' => exact ih s'

variable {step}

/-- A run that ends in one more step. -/
theorem run_snoc {es : List E} {e : E} {s s' s'' : S} (h : run step s es = .ok s')
    (he : step s' e = .ok s'') : run step s (es ++ [e]) = .ok s'' := by
  rw [run_append, h, ok_bind, run_cons, he]
  rfl

/-- A run that returns has returned from its first step. -/
theorem run_cons_ok {es : List E} {e : E} {s s' : S} (h : run step s (e :: es) = .ok s') :
    ∃ t, step s e = .ok t ∧ run step t es = .ok s' := by
  rwa [run_cons, bind_eq_ok] at h

/-- **What every step keeps, every run keeps.** -/
theorem run_invariant {I : S → Prop} (hstep : ∀ s e s', I s → step s e = .ok s' → I s')
    {es : List E} {s s' : S} (hi : I s) (h : run step s es = .ok s') : I s' := by
  induction es generalizing s with
  | nil =>
    cases h
    exact hi
  | cons e es ih =>
    obtain ⟨t, ht, hrest⟩ := run_cons_ok h
    exact ih (hstep s e t hi ht) hrest

/-- What every step keeps and no step faults on gives runs that always return. -/
theorem run_total {I : S → Prop} (hstep : ∀ s e, I s → ∃ s', step s e = .ok s' ∧ I s')
    (es : List E) {s : S} (hi : I s) : ∃ s', run step s es = .ok s' ∧ I s' := by
  induction es generalizing s with
  | nil => exact ⟨s, rfl, hi⟩
  | cons e es ih =>
    obtain ⟨t, ht, hit⟩ := hstep s e hi
    obtain ⟨s', hs', hi'⟩ := ih hit
    refine ⟨s', ?_, hi'⟩
    rw [run_cons, ht]
    exact hs'

/-- A guarantee of every step is one of every run. -/
theorem run_guarantees {I : S → Prop} {C : E → Prop}
    (hstep : ∀ s e, I s → C e → Guarantees I (step s e)) {es : List E} {s : S} (hi : I s)
    (hc : ∀ e ∈ es, C e) : Guarantees I (run step s es) := by
  induction es generalizing s with
  | nil => exact hi
  | cons e es ih =>
    rw [run_cons]
    refine (hstep s e hi (hc e List.mem_cons_self)).bind fun s' hi' => ih hi' ?_
    intro e' he'
    exact hc e' (List.mem_cons_of_mem e he')

/-- What every step ends in, every run ends in. -/
theorem run_outcome {F : Fault → Prop} {I : S → Prop}
    (hstep : ∀ s e, I s → Outcome F I (step s e)) (es : List E) {s : S} (hi : I s) :
    Outcome F I (run step s es) := by
  induction es generalizing s with
  | nil => exact hi
  | cons e es ih =>
    rw [run_cons]
    exact (hstep s e hi).bind fun s' hi' => ih hi'

variable (step) in
/-- `C` holds of every event of the run in the state before it. -/
def Along (C : S → E → Prop) : S → List E → Prop
  | _, [] => True
  | s, e :: es => C s e ∧ ∀ s', step s e = .ok s' → Along C s' es

theorem along_cons {C : S → E → Prop} {e : E} {es : List E} {s : S} :
    Along step C s (e :: es) ↔ C s e ∧ ∀ s', step s e = .ok s' → Along step C s' es := Iff.rfl

/-- There is one state after a step. -/
theorem forall_step_iff {D : S → Prop} {e : E} {s t : S} (ht : step s e = .ok t) :
    (∀ t', step s e = .ok t' → D t') ↔ D t := by
  rw [ht]
  simp

/-- A run without events stays in the state that it begins in. -/
theorem forall_reached_nil {P : S → Prop} {s : S} :
    (∀ es' t, es' <+: [] → run step s es' = .ok t → P t) ↔ P s := by
  constructor
  · exact fun h => h [] s List.nil_prefix rfl
  · intro hs es' t hes' ht
    rw [List.prefix_nil.mp hes'] at ht
    cases ht
    exact hs

/-- The states that a run comes to: the one that it begins in, and those that its rest comes to. -/
theorem forall_reached_cons {P : S → Prop} {e : E} {es : List E} {s : S} :
    (∀ es' t, es' <+: e :: es → run step s es' = .ok t → P t) ↔
      P s ∧ ∀ s', step s e = .ok s' → ∀ es' t, es' <+: es → run step s' es' = .ok t → P t := by
  constructor
  · intro h
    refine ⟨h [] s List.nil_prefix rfl, fun s' hs' es' t hes' ht => ?_⟩
    exact h (e :: es') t (List.cons_prefix_cons.mpr ⟨rfl, hes'⟩) (by rw [run_cons, hs']; exact ht)
  · rintro ⟨hs, hrest⟩ es' t hes' ht
    cases es' with
    | nil =>
      cases ht
      exact hs
    | cons e' es' =>
      obtain ⟨rfl, htail⟩ := List.cons_prefix_cons.mp hes'
      obtain ⟨s', hs', ht⟩ := run_cons_ok ht
      exact hrest s' hs' es' t htail ht

/-- A condition on the events alone. -/
theorem along_of_forall {C : S → E → Prop} {es : List E} (h : ∀ e ∈ es, ∀ s, C s e) (s : S) :
    Along step C s es := by
  induction es generalizing s with
  | nil => trivial
  | cons e es ih =>
    refine ⟨h e List.mem_cons_self s, fun s' _ => ih ?_ s'⟩
    intro e' he'
    exact h e' (List.mem_cons_of_mem e he')

theorem along_and {C D : S → E → Prop} {es : List E} {s : S} (hc : Along step C s es)
    (hd : Along step D s es) : Along step (fun s e => C s e ∧ D s e) s es := by
  induction es generalizing s with
  | nil => trivial
  | cons e es ih => exact ⟨⟨hc.1, hd.1⟩, fun s' hs' => ih (hc.2 s' hs') (hd.2 s' hs')⟩

/-- A condition on the events alone, along a run that returns. -/
theorem along_iff_forall {C : E → Prop} {es : List E} {s s' : S} (h : run step s es = .ok s') :
    Along step (fun _ e => C e) s es ↔ ∀ e ∈ es, C e := by
  induction es generalizing s with
  | nil => exact ⟨fun _ => nofun, fun _ => trivial⟩
  | cons e es ih =>
    obtain ⟨t, ht, hrest⟩ := run_cons_ok h
    rw [List.forall_mem_cons, along_cons, forall_step_iff ht, ih hrest]

/-- Conditions that say the same under an invariant say the same along a run. -/
theorem along_congr {C D : S → E → Prop} {I : S → Prop}
    (hstep : ∀ s e s', I s → step s e = .ok s' → I s') (hiff : ∀ s e, I s → (C s e ↔ D s e))
    (es : List E) {s : S} (hi : I s) : Along step C s es ↔ Along step D s es := by
  induction es generalizing s with
  | nil => exact Iff.rfl
  | cons e es ih =>
    refine and_congr (hiff s e hi) (forall_congr' fun s' => imp_congr_right fun hs' => ?_)
    exact ih (hstep s e s' hi hs')

instance decidableAlong {C : S → E → Prop} [∀ s e, Decidable (C s e)] :
    ∀ (s : S) (es : List E), Decidable (Along step C s es)
  | _, [] => isTrue trivial
  | s, e :: es =>
    match h : step s e with
    | .error f =>
      decidable_of_iff (C s e) ⟨fun hc => ⟨hc, fun s' hs => by rw [h] at hs; cases hs⟩, And.left⟩
    | .ok t =>
      haveI : Decidable (Along step C t es) := decidableAlong t es
      decidable_of_iff (C s e ∧ Along step C t es)
        ⟨fun hc => ⟨hc.1, fun s' hs => by rw [h] at hs; cases hs; exact hc.2⟩,
          fun hc => ⟨hc.1, hc.2 t h⟩⟩

/-- **What every step keeps under a condition, every run that meets the condition keeps.** -/
theorem run_invariant_along {C : S → E → Prop} {I : S → Prop}
    (hstep : ∀ s e s', I s → C s e → step s e = .ok s' → I s') {es : List E} {s s' : S} (hi : I s)
    (hc : Along step C s es) (h : run step s es = .ok s') : I s' := by
  induction es generalizing s with
  | nil =>
    cases h
    exact hi
  | cons e es ih =>
    obtain ⟨t, ht, hrest⟩ := run_cons_ok h
    exact ih (hstep s e t hi hc.1 ht) (hc.2 t ht) hrest

/-- A guarantee of every step that meets the condition is one of every run that does. -/
theorem run_guarantees_along {C : S → E → Prop} {I : S → Prop}
    (hstep : ∀ s e, I s → C s e → Guarantees I (step s e)) {es : List E} {s : S} (hi : I s)
    (hc : Along step C s es) : Guarantees I (run step s es) := by
  induction es generalizing s with
  | nil => exact hi
  | cons e es ih =>
    have hfirst := hstep s e hi hc.1
    rw [run_cons]
    cases hs : step s e with
    | error f =>
      rw [hs] at hfirst
      exact hfirst
    | ok t =>
      rw [hs] at hfirst
      exact ih hfirst (hc.2 t hs)

/--
**Where a step keeps the invariant exactly under the condition, a run does so in every state it
comes to exactly if it meets the condition at every step.**
-/
theorem along_iff_invariant {C : S → E → Prop} {I : S → Prop}
    (hstep : ∀ s e t, I s → step s e = .ok t → (I t ↔ C s e)) {es : List E} {s s' : S} (hi : I s)
    (h : run step s es = .ok s') :
    Along step C s es ↔ ∀ es' t, es' <+: es → run step s es' = .ok t → I t := by
  induction es generalizing s with
  | nil =>
    rw [forall_reached_nil]
    exact ⟨fun _ => hi, fun _ => trivial⟩
  | cons e es ih =>
    obtain ⟨t, ht, hrest⟩ := run_cons_ok h
    have hiff := hstep s e t hi ht
    rw [along_cons, forall_reached_cons, forall_step_iff ht, forall_step_iff ht]
    constructor
    · rintro ⟨hc, hcs⟩
      exact ⟨hi, (ih (hiff.mpr hc) hrest).mp hcs⟩
    · rintro ⟨-, hall⟩
      have hit : I t := hall [] t List.nil_prefix rfl
      exact ⟨hiff.mp hit, (ih hit hrest).mpr hall⟩

/-- The same, where every step keeps `B` in any case. -/
theorem along_iff_invariant_of {B I : S → Prop} {C : S → E → Prop}
    (hbase : ∀ s e t, B s → step s e = .ok t → B t)
    (hstep : ∀ s e t, B s → I s → step s e = .ok t → (I t ↔ C s e)) {es : List E} {s s' : S}
    (hb : B s) (hi : I s) (h : run step s es = .ok s') :
    Along step C s es ↔ ∀ es' t, es' <+: es → run step s es' = .ok t → I t := by
  have hboth : ∀ s e t, B s ∧ I s → step s e = .ok t → (B t ∧ I t ↔ C s e) := by
    intro s e t hs ht
    have hiff := hstep s e t hs.1 hs.2 ht
    exact ⟨fun h => hiff.mp h.2, fun h => ⟨hbase s e t hs.1 ht, hiff.mpr h⟩⟩
  rw [along_iff_invariant hboth ⟨hb, hi⟩ h]
  constructor
  · exact fun hall es' t hes' ht => (hall es' t hes' ht).2
  · exact fun hall es' t hes' ht => ⟨run_invariant hbase hb ht, hall es' t hes' ht⟩

/--
The same for runs that may fault: a step that faults meets the condition, so a run has `I` in every
state it comes to exactly if it meets the condition at every step. `K` is what is known of every step.
-/
theorem along_iff_reached {B I : S → Prop} {K C : S → E → Prop}
    (hbase : ∀ s e t, B s → K s e → step s e = .ok t → B t)
    (hstep : ∀ s e t, B s → I s → K s e → step s e = .ok t → (I t ↔ C s e))
    (herror : ∀ s e f, B s → K s e → step s e = .error f → C s e) (es : List E) {s : S} (hb : B s)
    (hi : I s) (hk : Along step K s es) :
    Along step C s es ↔ ∀ es' t, es' <+: es → run step s es' = .ok t → I t := by
  induction es generalizing s with
  | nil =>
    rw [forall_reached_nil]
    exact ⟨fun _ => hi, fun _ => trivial⟩
  | cons e es ih =>
    rw [along_cons, forall_reached_cons]
    constructor
    · rintro ⟨hc, hcs⟩
      refine ⟨hi, fun t ht => ?_⟩
      have hit := (hstep s e t hb hi hk.1 ht).mpr hc
      exact (ih (hbase s e t hb hk.1 ht) hit (hk.2 t ht)).mp (hcs t ht)
    · rintro ⟨-, hall⟩
      have hnext : ∀ t, step s e = .ok t → I t := fun t ht => hall t ht [] t List.nil_prefix rfl
      refine ⟨?_, fun t ht => ?_⟩
      · cases hs : step s e with
        | error f => exact herror s e f hb hk.1 hs
        | ok t => exact (hstep s e t hb hi hk.1 hs).mp (hnext t hs)
      · exact (ih (hbase s e t hb hk.1 ht) (hnext t ht) (hk.2 t ht)).mpr (hall t ht)

/-- **Where a step returns exactly under the condition, a run does so exactly if it meets it at every step.** -/
theorem run_returns_iff {B : S → Prop} {K C : S → E → Prop}
    (hbase : ∀ s e t, B s → K s e → step s e = .ok t → B t)
    (hstep : ∀ s e, B s → K s e → ((∃ t, step s e = .ok t) ↔ C s e)) (es : List E) {s : S} (hb : B s)
    (hk : Along step K s es) : (∃ s', run step s es = .ok s') ↔ Along step C s es := by
  induction es generalizing s with
  | nil => exact ⟨fun _ => trivial, fun _ => ⟨s, rfl⟩⟩
  | cons e es ih =>
    constructor
    · rintro ⟨s', hs'⟩
      obtain ⟨t, ht, hrest⟩ := run_cons_ok hs'
      rw [along_cons, forall_step_iff ht]
      exact ⟨(hstep s e hb hk.1).mp ⟨t, ht⟩, (ih (hbase s e t hb hk.1 ht) (hk.2 t ht)).mp ⟨s', hrest⟩⟩
    · rintro ⟨hc, hcs⟩
      obtain ⟨t, ht⟩ := (hstep s e hb hk.1).mpr hc
      obtain ⟨s', hs'⟩ := (ih (hbase s e t hb hk.1 ht) (hk.2 t ht)).mpr (hcs t ht)
      refine ⟨s', ?_⟩
      rw [run_cons, ht]
      exact hs'

/-- A run that meets the condition at every step ends in no fault that the condition excludes. -/
theorem not_along_of_error {B I : S → Prop} {C : S → E → Prop} {F : Fault → Prop}
    (hbase : ∀ s e t, B s → step s e = .ok t → B t)
    (hstep : ∀ s e t, B s → I s → step s e = .ok t → (I t ↔ C s e))
    (herror : ∀ s e f, B s → I s → step s e = .error f → F f → ¬C s e) (es : List E) {s : S} {f : Fault}
    (hb : B s) (hi : I s) (h : run step s es = .error f) (hf : F f) : ¬Along step C s es := by
  induction es generalizing s with
  | nil => cases h
  | cons e es ih =>
    rintro ⟨hc, hcs⟩
    rw [run_cons] at h
    cases hs : step s e with
    | error g =>
      rw [hs, error_bind] at h
      cases h
      exact herror s e f hb hi hs hf hc
    | ok t =>
      rw [hs, ok_bind] at h
      exact ih (hbase s e t hb hs) ((hstep s e t hb hi hs).mpr hc) h (hcs t hs)

/--
**Where the condition is also what excludes a fault of the step, a run that returns or ends in such a fault
returns and keeps the invariant exactly if it meets the condition at every step.**
-/
theorem along_iff_returns {B I : S → Prop} {C : S → E → Prop} {F : Fault → Prop}
    (hbase : ∀ s e t, B s → step s e = .ok t → B t)
    (hstep : ∀ s e t, B s → I s → step s e = .ok t → (I t ↔ C s e))
    (herror : ∀ s e f, B s → I s → step s e = .error f → F f → ¬C s e) {es : List E} {s : S}
    (hb : B s) (hi : I s) (h : ∀ f, run step s es = .error f → F f) :
    Along step C s es ↔ (∃ s', run step s es = .ok s') ∧
      ∀ es' t, es' <+: es → run step s es' = .ok t → I t := by
  cases hrun : run step s es with
  | ok s' =>
    rw [along_iff_invariant_of hbase hstep hb hi hrun]
    exact (and_iff_right ⟨s', rfl⟩).symm
  | error f =>
    refine iff_of_false (not_along_of_error hbase hstep herror es hb hi hrun (h f hrun)) ?_
    rintro ⟨⟨s', hs'⟩, -⟩
    cases hs'

/--
**Where a step returns and keeps the invariant exactly under the condition, a run does so exactly if it
meets the condition at every step.** Every step keeps `B` in any case.
-/
theorem along_iff_run {B I : S → Prop} {C : S → E → Prop}
    (hbase : ∀ s e t, B s → I s → step s e = .ok t → B t)
    (hstep : ∀ s e, B s → I s → (C s e ↔ ∃ t, step s e = .ok t ∧ I t)) (es : List E) {s : S} (hb : B s)
    (hi : I s) : Along step C s es ↔ ∃ s', run step s es = .ok s' ∧
      ∀ es' t, es' <+: es → run step s es' = .ok t → I t := by
  induction es generalizing s with
  | nil =>
    simp only [forall_reached_nil]
    exact ⟨fun _ => ⟨s, rfl, hi⟩, fun _ => trivial⟩
  | cons e es ih =>
    simp only [along_cons, forall_reached_cons]
    constructor
    · rintro ⟨hc, hcs⟩
      obtain ⟨t, ht, hit⟩ := (hstep s e hb hi).mp hc
      obtain ⟨s', hs', hall⟩ := (ih (hbase s e t hb hi ht) hit).mp (hcs t ht)
      refine ⟨s', ?_, hi, (forall_step_iff ht).mpr hall⟩
      rw [run_cons, ht]
      exact hs'
    · rintro ⟨s', hs', -, hall⟩
      obtain ⟨t, ht, hrest⟩ := run_cons_ok hs'
      rw [forall_step_iff ht] at hall ⊢
      have hit : I t := hall [] t List.nil_prefix rfl
      exact ⟨(hstep s e hb hi).mpr ⟨t, ht, hit⟩, (ih (hbase s e t hb hi ht) hit).mpr ⟨s', hrest, hall⟩⟩

/--
**Where a step keeps the invariant under the condition, and breaks `P` without it, a run has `P` in
every state it comes to exactly if it meets the condition at every step.** `K` is what is known of
every step, the environment's contract for one.
-/
theorem along_iff_guarantees {K C : S → E → Prop} {I P : S → Prop} (hP : ∀ s, I s → P s)
    (hkeep : ∀ s e, I s → K s e → C s e → Guarantees I (step s e))
    (hbreak : ∀ s e, I s → K s e → ¬C s e → ∃ t, step s e = .ok t ∧ ¬P t) (es : List E) {s : S} (hi : I s)
    (hk : Along step K s es) : Along step C s es ↔
      (∀ f, run step s es = .error f → f = .environment) ∧
      ∀ es' t, es' <+: es → run step s es' = .ok t → P t := by
  induction es generalizing s with
  | nil =>
    rw [forall_reached_nil]
    exact ⟨fun _ => ⟨nofun, hP s hi⟩, fun _ => trivial⟩
  | cons e es ih =>
    rw [along_cons, forall_reached_cons]
    constructor
    · rintro ⟨hc, hcs⟩
      have hfirst := hkeep s e hi hk.1 hc
      have hrest : ∀ t, step s e = .ok t → _ := fun t ht => (ih (hfirst.of_ok ht) (hk.2 t ht)).mp (hcs t ht)
      refine ⟨fun f hf => ?_, hP s hi, fun t ht => (hrest t ht).2⟩
      rw [run_cons] at hf
      cases hs : step s e with
      | error g =>
        rw [hs] at hf hfirst
        cases hf
        exact hfirst
      | ok t =>
        rw [hs] at hf
        exact (hrest t hs).1 f hf
    · rintro ⟨hfaults, -, hall⟩
      have hc : C s e := by
        -- a step without the condition is a run of its own that breaks `P`
        by_contra hnot
        obtain ⟨t, ht, hp⟩ := hbreak s e hi hk.1 hnot
        exact hp (hall t ht [] t List.nil_prefix rfl)
      refine ⟨hc, fun t ht => ?_⟩
      have hit := (hkeep s e hi hk.1 hc).of_ok ht
      refine (ih hit (hk.2 t ht)).mpr ⟨fun f hf => hfaults f ?_, hall t ht⟩
      rw [run_cons, ht]
      exact hf

/--
**Where a step that meets the condition has only faults that `F` allows, and one that does not has
another, a run has only such faults exactly if it meets the condition at every step.**
-/
theorem along_iff_outcome {F : Fault → Prop} {C : S → E → Prop} {I : S → Prop}
    (hkeep : ∀ s e, I s → C s e → Outcome F I (step s e))
    (hbreak : ∀ s e, I s → ¬C s e → ∃ f, step s e = .error f ∧ ¬F f) (es : List E) {s : S} (hi : I s) :
    Along step C s es ↔ ∀ f, run step s es = .error f → F f := by
  induction es generalizing s with
  | nil =>
    refine ⟨fun _ f hf => ?_, fun _ => trivial⟩
    cases hf
  | cons e es ih =>
    by_cases hc : C s e
    · have hout := hkeep s e hi hc
      rw [run_cons]
      cases hs : step s e with
      | error f =>
        rw [hs] at hout
        refine ⟨fun _ g hg => ?_, fun _ => ⟨hc, fun t ht => ?_⟩⟩
        · cases hg
          exact hout
        · rw [hs] at ht
          cases ht
      | ok t =>
        rw [hs] at hout
        rw [ok_bind, ← ih hout, along_cons, forall_step_iff hs]
        exact and_iff_right hc
    · obtain ⟨f, hf, hnot⟩ := hbreak s e hi hc
      refine ⟨fun halong => absurd halong.1 hc, fun hall => absurd (hall f ?_) hnot⟩
      rw [run_cons, hf]
      rfl

/-- Runs that meet the condition return, when no step that meets it faults. -/
theorem run_total_along {C : S → E → Prop} {I : S → Prop}
    (hstep : ∀ s e, I s → C s e → ∃ s', step s e = .ok s' ∧ I s') (es : List E) {s : S} (hi : I s)
    (hc : Along step C s es) : ∃ s', run step s es = .ok s' ∧ I s' := by
  induction es generalizing s with
  | nil => exact ⟨s, rfl, hi⟩
  | cons e es ih =>
    obtain ⟨t, ht, hit⟩ := hstep s e hi hc.1
    obtain ⟨s', hs', hi'⟩ := ih hit (hc.2 t ht)
    refine ⟨s', ?_, hi'⟩
    rw [run_cons, ht]
    exact hs'

/-- **A machine that follows a pure one at every step follows it over every run.** -/
theorem run_follows {T : Type _} {next : T → E → T} {C : S → E → Prop} {R : S → T → Prop}
    (hstep : ∀ s t e, R s t → C s e → ∃ s', step s e = .ok s' ∧ R s' (next t e)) (es : List E) {s : S}
    {t : T} (hr : R s t) (hc : Along step C s es) :
    ∃ s', run step s es = .ok s' ∧ R s' (es.foldl next t) := by
  induction es generalizing s t with
  | nil => exact ⟨s, rfl, hr⟩
  | cons e es ih =>
    obtain ⟨s1, hs1, hr1⟩ := hstep s t e hr hc.1
    obtain ⟨s', hs', hr'⟩ := ih hr1 (hc.2 s1 hs1)
    refine ⟨s', ?_, hr'⟩
    rw [run_cons, hs1]
    exact hs'

/-- **A machine that follows another one at every step that returns follows it over every run that returns.** -/
theorem run_simulates {T : Type _} {step' : T → E → Exec T} {R : S → T → Prop}
    (hstep : ∀ s t e s', R s t → step s e = .ok s' → ∃ t', step' t e = .ok t' ∧ R s' t') {es : List E}
    {s s' : S} {t : T} (hr : R s t) (h : run step s es = .ok s') : ∃ t', run step' t es = .ok t' ∧ R s' t' := by
  induction es generalizing s t with
  | nil =>
    cases h
    exact ⟨t, rfl, hr⟩
  | cons e es ih =>
    obtain ⟨s1, hs1, hrest⟩ := run_cons_ok h
    obtain ⟨t1, ht1, hr1⟩ := hstep s t e s1 hr hs1
    obtain ⟨t', ht', hr'⟩ := ih hr1 hrest
    refine ⟨t', ?_, hr'⟩
    rw [run_cons, ht1]
    exact ht'

/-- The condition along a run that goes on: along its first part, and along the rest. -/
theorem along_append {C : S → E → Prop} {es fs : List E} {s s' : S} (h : run step s es = .ok s') :
    Along step C s (es ++ fs) ↔ Along step C s es ∧ Along step C s' fs := by
  induction es generalizing s with
  | nil =>
    cases h
    exact ⟨fun hc => ⟨trivial, hc⟩, fun hc => hc.2⟩
  | cons e es ih =>
    obtain ⟨t, ht, hrest⟩ := run_cons_ok h
    rw [List.cons_append, along_cons, along_cons, forall_step_iff ht, forall_step_iff ht, ih hrest,
      and_assoc]

end Infra
