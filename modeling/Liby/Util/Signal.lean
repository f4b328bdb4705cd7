import Liby.Infra.Machine
import Mathlib.Logic.Function.Basic

/-!
# Signals

`class Signal` of `util.cpp`: the handlers, and what was in force before them. Signals come between the calls,
and handlers leave `Signal` alone. `signal` stores what it replaces, so that `reset` gives the first disposition
back; a handler that is set over another one stores `signal_handler` itself.
-/

namespace Liby

open Infra

/-- What the system does when a signal comes. -/
inductive Disposition where
  | SIG_DFL
  | SIG_IGN
  | SIG_ERR
  | signalHandler
  deriving DecidableEq, Repr

/-- `functors` and `stored_funcs`, with what the system knows. A `std::function` that is empty is `none`. -/
structure Signals (H : Type _) where
  functors : Int → Option (Option H)
  storedFuncs : Int → Option Disposition
  disposition : Int → Disposition
  ran : List (Int × H)

namespace Signals

variable {H : Type _} (caught ignored : Int → Bool)

/-- `::signal`, with what it returns. The system takes no `SIG_ERR`, and for some signals nothing at all. -/
def install (s : Signals H) (signo : Int) (f : Disposition) : Disposition × Signals H :=
  if caught signo = true ∧ f ≠ .SIG_ERR then
    (s.disposition signo, { s with disposition := Function.update s.disposition signo f })
  else (.SIG_ERR, s)

/-- `Signal::signal`. -/
def signal (s : Signals H) (signo : Int) (handler : Option H) : Signals H :=
  let s := { s with functors := Function.update s.functors signo (some handler) }
  let (old, s) := s.install caught signo .signalHandler
  { s with storedFuncs := Function.update s.storedFuncs signo (some old) }

/-- `Signal::reset`. -/
def reset (s : Signals H) (signo : Int) : Signals H :=
  let s := { s with functors := Function.update s.functors signo none }
  match s.storedFuncs signo with
  | none => s
  | some f =>
    let (_, s) := s.install caught signo f
    { s with storedFuncs := Function.update s.storedFuncs signo none }

/-- A signal comes. `signal_handler` calls `functors[signo]`, which throws if it is empty. -/
def deliver (s : Signals H) (signo : Int) : Exec (Signals H) :=
  if s.disposition signo = .signalHandler then
    match (s.functors signo).join with
    | none => .error .exception
    | some handler => .ok { s with ran := s.ran ++ [(signo, handler)] }
  else .ok s

/-- A call for a signal. -/
inductive Call (H : Type _) where
  | signal (handler : Option H)
  | reset
  deriving DecidableEq, Repr

/-- What happens to the signals of a program. -/
inductive Event (H : Type _) where
  | call (signo : Int) (c : Call H)
  | deliver (signo : Int)
  deriving DecidableEq, Repr

def step (s : Signals H) : Event H → Exec (Signals H)
  | .call signo (.signal handler) => .ok (s.signal caught signo handler)
  | .call signo .reset => .ok (s.reset caught signo)
  | .deliver signo => s.deliver signo

/-- A program begins with signals that are ignored or have their default action. -/
def first (signo : Int) : Disposition := if ignored signo then .SIG_IGN else .SIG_DFL

def start : Signals H where
  functors := fun _ => none
  storedFuncs := fun _ => none
  disposition := first ignored
  ran := []

/-! ## What the calls for one signal come to -/

/-- The calls for `signo`. -/
def callsFor (signo : Int) : List (Event H) → List (Call H)
  | [] => []
  | .call n c :: es => if n = signo then c :: callsFor signo es else callsFor signo es
  | .deliver _ :: es => callsFor signo es

/-- The handler of the last call, if that is `signal`. -/
def handlerOf (calls : List (Call H)) : Option (Option H) :=
  match calls.getLast? with
  | some (.signal handler) => some handler
  | _ => none

/-- A handler was set over another one. -/
def Nested (calls : List (Call H)) : Prop :=
  ∃ before h h' after, calls = before ++ .signal h :: .signal h' :: after

variable {calls : List (Call H)} {c : Call H} {h h' : Option H}

theorem callsFor_append (signo : Int) : ∀ es fs : List (Event H),
    callsFor signo (es ++ fs) = callsFor signo es ++ callsFor signo fs
  | [], _ => rfl
  | .deliver _ :: es, fs => callsFor_append signo es fs
  | .call n c :: es, fs => by
    have hrest := callsFor_append signo es fs
    rw [List.cons_append, callsFor, callsFor]
    split
    · rw [hrest, List.cons_append]
    · exact hrest

theorem handlerOf_append_signal : handlerOf (calls ++ [.signal h]) = some h := by
  unfold handlerOf
  rw [List.getLast?_append_of_ne_nil _ (List.cons_ne_nil _ _)]
  rfl

theorem handlerOf_append_reset : handlerOf (calls ++ [.reset]) = none := by
  unfold handlerOf
  rw [List.getLast?_append_of_ne_nil _ (List.cons_ne_nil _ _)]
  rfl

theorem handlerOf_eq_some : handlerOf calls = some h ↔ ∃ before, calls = before ++ [.signal h] := by
  constructor
  · intro hlast
    rcases List.eq_nil_or_concat calls with rfl | ⟨before, c, rfl⟩
    · cases hlast
    · rw [List.concat_eq_append] at hlast ⊢
      cases c with
      | reset =>
        rw [handlerOf_append_reset] at hlast
        cases hlast
      | signal handler =>
        rw [handlerOf_append_signal] at hlast
        cases hlast
        exact ⟨before, rfl⟩
  · rintro ⟨before, rfl⟩
    exact handlerOf_append_signal

theorem not_nested_nil : ¬Nested ([] : List (Call H)) := by
  rintro ⟨before, h, h', after, heq⟩
  exact List.append_ne_nil_of_right_ne_nil before (List.cons_ne_nil _ _) heq.symm

/-- One more call is set over a handler, or changes nothing about it. -/
theorem nested_append : Nested (calls ++ [c]) ↔
    Nested calls ∨ (∃ h', c = .signal h') ∧ (handlerOf calls).isSome = true := by
  constructor
  · rintro ⟨before, h, h', after, heq⟩
    rcases List.eq_nil_or_concat after with rfl | ⟨middle, d, rfl⟩
    · -- the two calls are the last ones
      have hcut : calls ++ [c] = (before ++ [.signal h]) ++ [.signal h'] := by
        rw [heq, List.append_assoc]
        rfl
      obtain ⟨rfl, hlast⟩ := List.append_inj' hcut rfl
      refine .inr ⟨⟨h', (List.cons.inj hlast).1⟩, ?_⟩
      rw [handlerOf_append_signal]
      rfl
    · have hcut : calls ++ [c] = (before ++ .signal h :: .signal h' :: middle) ++ [d] := by
        rw [heq, List.concat_eq_append, List.append_assoc]
        rfl
      exact .inl ⟨before, h, h', middle, (List.append_inj' hcut rfl).1⟩
  · rintro (⟨before, h, h', after, rfl⟩ | ⟨⟨h', rfl⟩, hset⟩)
    · exact ⟨before, h, h', after ++ [c], by rw [List.append_assoc]; rfl⟩
    · obtain ⟨h, hlast⟩ := Option.isSome_iff_exists.mp hset
      obtain ⟨before, rfl⟩ := handlerOf_eq_some.mp hlast
      exact ⟨before, h, h', [], by rw [List.append_assoc]; rfl⟩

/-- A signal that ends the program: the last handler is empty, or `reset` has put `signal_handler` back. -/
def Fatal (signo : Int) (calls : List (Call H)) : Prop :=
  caught signo = true ∧ (handlerOf calls = some none ∨ handlerOf calls = none ∧ Nested calls)

/-- What a signal runs after these calls. -/
def answer (signo : Int) (calls : List (Call H)) : List (Int × H) :=
  if caught signo = true then (handlerOf calls).join.toList.map fun handler => (signo, handler) else []

/-- What the signals among `es` run, after the events `past`. -/
def answers : List (Event H) → List (Event H) → List (Int × H)
  | _, [] => []
  | past, .call signo c :: es => answers (past ++ [.call signo c]) es
  | past, .deliver signo :: es =>
    answer caught signo (callsFor signo past) ++ answers (past ++ [.deliver signo]) es

/-! ## One step -/

open Classical in
/-- What is in force below the handlers. -/
noncomputable def under (signo : Int) (calls : List (Call H)) : Disposition :=
  if Nested calls then .signalHandler else first ignored signo

/-- A signal, and the calls for it so far. -/
structure Tracks (s : Signals H) (signo : Int) (calls : List (Call H)) : Prop where
  functor : s.functors signo = handlerOf calls
  stored : caught signo = true →
    s.storedFuncs signo = (handlerOf calls).map fun _ => under ignored signo calls
  handled : caught signo = true → (handlerOf calls).isSome = true → s.disposition signo = .signalHandler
  bare : caught signo = true → handlerOf calls = none → s.disposition signo = under ignored signo calls
  refused : caught signo = false → s.disposition signo = first ignored signo

variable {caught ignored} {s s' : Signals H} {signo n : Int} {f : Disposition} {past es : List (Event H)}

theorem signalHandler_ne : Disposition.signalHandler ≠ .SIG_ERR := by decide

theorem first_ne (signo : Int) : first ignored signo ≠ .SIG_ERR ∧ first ignored signo ≠ .signalHandler := by
  unfold first
  split
  · decide
  · decide

theorem under_ne (signo : Int) (calls : List (Call H)) : under ignored signo calls ≠ .SIG_ERR := by
  unfold under
  split
  · exact signalHandler_ne
  · exact (first_ne signo).1

theorem under_of_nested (h : Nested calls) : under ignored signo calls = .signalHandler := if_pos h

theorem under_of_not_nested (h : ¬Nested calls) : under ignored signo calls = first ignored signo := if_neg h

theorem under_congr {calls' : List (Call H)} (hsame : Nested calls' ↔ Nested calls) :
    under ignored signo calls' = under ignored signo calls := by
  by_cases h : Nested calls
  · rw [under_of_nested h, under_of_nested (hsame.mpr h)]
  · rw [under_of_not_nested h, under_of_not_nested fun h' => h (hsame.mp h')]

theorem under_reset : under ignored signo (calls ++ [.reset]) = under ignored signo calls := by
  refine under_congr (nested_append.trans (or_iff_left ?_))
  rintro ⟨⟨h', heq⟩, -⟩
  cases heq

/-- A handler that is set over another one has `signal_handler` below it. -/
theorem under_signal_over (hset : (handlerOf calls).isSome = true) :
    under ignored signo (calls ++ [.signal h]) = .signalHandler :=
  under_of_nested (nested_append.mpr (.inr ⟨⟨h, rfl⟩, hset⟩))

theorem under_signal (hnone : handlerOf calls = none) :
    under ignored signo (calls ++ [.signal h]) = under ignored signo calls := by
  refine under_congr (nested_append.trans (or_iff_left ?_))
  rintro ⟨-, hset⟩
  rw [hnone] at hset
  cases hset

theorem install_caught (h : caught signo = true) (hf : f ≠ .SIG_ERR) : s.install caught signo f =
    (s.disposition signo, { s with disposition := Function.update s.disposition signo f }) :=
  if_pos ⟨h, hf⟩

theorem install_refused (h : caught signo = false) : s.install caught signo f = (.SIG_ERR, s) :=
  if_neg fun h' => by
    rw [h] at h'
    cases h'.1

/-- A signal that the system keeps for itself. -/
theorem Tracks.of_refused (hcaught : caught signo = false) (hfunctor : s.functors signo = handlerOf calls)
    (hrefused : s.disposition signo = first ignored signo) : Tracks caught ignored s signo calls where
  functor := hfunctor
  stored h := by rw [hcaught] at h; cases h
  handled h := by rw [hcaught] at h; cases h
  bare h := by rw [hcaught] at h; cases h
  refused _ := hrefused

/-- A signal with a handler. -/
theorem Tracks.of_handled (hcaught : caught signo = true) (hset : handlerOf calls = some h)
    (hfunctor : s.functors signo = some h) (hstored : s.storedFuncs signo = some (under ignored signo calls))
    (hhandled : s.disposition signo = .signalHandler) : Tracks caught ignored s signo calls where
  functor := hfunctor.trans hset.symm
  stored _ := by
    rw [hset]
    exact hstored
  handled _ _ := hhandled
  bare _ hnone := by rw [hset] at hnone; cases hnone
  refused h := by rw [hcaught] at h; cases h

/-- A signal without a handler. -/
theorem Tracks.of_bare (hcaught : caught signo = true) (hset : handlerOf calls = none)
    (hfunctor : s.functors signo = none) (hstored : s.storedFuncs signo = none)
    (hbare : s.disposition signo = under ignored signo calls) : Tracks caught ignored s signo calls where
  functor := hfunctor.trans hset.symm
  stored _ := by
    rw [hset]
    exact hstored
  handled _ hsome := by rw [hset] at hsome; cases hsome
  bare _ _ := hbare
  refused h := by rw [hcaught] at h; cases h

theorem tracks_start (caught ignored : Int → Bool) (signo : Int) :
    Tracks caught ignored (start ignored : Signals H) signo [] where
  functor := rfl
  stored _ := rfl
  handled _ h := by cases h
  bare _ _ := (under_of_not_nested not_nested_nil).symm
  refused _ := rfl

/-- **`signal` sets its handler**, and stores what was in force. -/
theorem Tracks.signal (h : Tracks caught ignored s signo calls) (handler : Option H) :
    Tracks caught ignored (s.signal caught signo handler) signo (calls ++ [.signal handler]) := by
  unfold Signals.signal
  dsimp only
  cases hcaught : caught signo with
  | false =>
    rw [install_refused hcaught]
    refine .of_refused hcaught ?_ (h.refused hcaught)
    rw [handlerOf_append_signal]
    exact Function.update_self ..
  | true =>
    have hold : s.disposition signo = under ignored signo (calls ++ [.signal handler]) := by
      cases hset : handlerOf calls with
      | none => rw [under_signal hset, h.bare hcaught hset]
      | some _ =>
        have hsome : (handlerOf calls).isSome = true := by rw [hset]; rfl
        rw [under_signal_over hsome, h.handled hcaught hsome]
    rw [install_caught hcaught signalHandler_ne]
    dsimp only
    rw [hold]
    exact .of_handled hcaught handlerOf_append_signal (Function.update_self ..) (Function.update_self ..)
      (Function.update_self ..)

/-- **`reset` takes the handler away**, and puts back what was stored. -/
theorem Tracks.reset (h : Tracks caught ignored s signo calls) :
    Tracks caught ignored (s.reset caught signo) signo (calls ++ [.reset]) := by
  unfold Signals.reset
  dsimp only
  cases hcaught : caught signo with
  | false =>
    have hfunctor : Function.update s.functors signo none signo = handlerOf (calls ++ [.reset]) := by
      rw [handlerOf_append_reset]
      exact Function.update_self ..
    split
    · exact .of_refused hcaught hfunctor (h.refused hcaught)
    · rw [install_refused hcaught]
      exact .of_refused hcaught hfunctor (h.refused hcaught)
  | true =>
    have hstored := h.stored hcaught
    cases hset : handlerOf calls with
    | none =>
      rw [hset] at hstored
      rw [hstored]
      refine .of_bare hcaught handlerOf_append_reset (Function.update_self ..) hstored ?_
      rw [under_reset]
      exact h.bare hcaught hset
    | some _ =>
      rw [hset] at hstored
      rw [hstored]
      dsimp only [Option.map_some]
      rw [install_caught hcaught (under_ne signo calls)]
      refine .of_bare hcaught handlerOf_append_reset (Function.update_self ..) (Function.update_self ..) ?_
      rw [under_reset]
      exact Function.update_self ..

/-- What is in force. -/
theorem Tracks.disposition (h : Tracks caught ignored s signo calls) :
    (s.disposition signo = .signalHandler ↔
      caught signo = true ∧ ((handlerOf calls).isSome = true ∨ Nested calls)) ∧
    (s.disposition signo ≠ .signalHandler → s.disposition signo = first ignored signo) := by
  cases hcaught : caught signo with
  | false =>
    rw [h.refused hcaught]
    refine ⟨iff_of_false (first_ne signo).2 ?_, fun _ => rfl⟩
    rintro ⟨hfalse, -⟩
    cases hfalse
  | true =>
    cases hset : handlerOf calls with
    | some _ =>
      have hhandled := h.handled hcaught (by rw [hset]; rfl)
      exact ⟨iff_of_true hhandled ⟨rfl, .inl rfl⟩, fun hne => absurd hhandled hne⟩
    | none =>
      rw [h.bare hcaught hset]
      by_cases hnested : Nested calls
      · rw [under_of_nested hnested]
        exact ⟨iff_of_true rfl ⟨rfl, .inr hnested⟩, fun hne => absurd rfl hne⟩
      · rw [under_of_not_nested hnested]
        refine ⟨iff_of_false (first_ne signo).2 ?_, fun _ => rfl⟩
        rintro ⟨-, hsome | hnested'⟩
        · cases hsome
        · exact hnested hnested'

/-- The signal `n` is the same in `s'`. -/
structure SameAt (n : Int) (s s' : Signals H) : Prop where
  functor : s'.functors n = s.functors n
  stored : s'.storedFuncs n = s.storedFuncs n
  disposition : s'.disposition n = s.disposition n

theorem Tracks.same (h : Tracks caught ignored s n calls) (hsame : SameAt n s s') :
    Tracks caught ignored s' n calls where
  functor := hsame.functor.trans h.functor
  stored hcaught := hsame.stored.trans (h.stored hcaught)
  handled hcaught hset := hsame.disposition.trans (h.handled hcaught hset)
  bare hcaught hnone := hsame.disposition.trans (h.bare hcaught hnone)
  refused hcaught := hsame.disposition.trans (h.refused hcaught)

theorem install_same (caught : Int → Bool) (f : Disposition) (hne : n ≠ signo) : SameAt n s (s.install caught signo f).2 := by
  unfold install
  split
  · exact ⟨rfl, rfl, Function.update_of_ne hne ..⟩
  · exact ⟨rfl, rfl, rfl⟩

theorem signal_same (hne : n ≠ signo) (handler : Option H) : SameAt n s (s.signal caught signo handler) := by
  have hinstall := install_same (s := { s with
    functors := Function.update s.functors signo (some handler) }) caught .signalHandler hne
  exact {
    functor := hinstall.functor.trans (Function.update_of_ne hne ..)
    stored := (Function.update_of_ne hne ..).trans hinstall.stored
    disposition := hinstall.disposition }

theorem reset_same (hne : n ≠ signo) : SameAt n s (s.reset caught signo) := by
  unfold reset
  dsimp only
  split
  · exact ⟨Function.update_of_ne hne .., rfl, rfl⟩
  · next f _ =>
    have hinstall := install_same (s := { s with
      functors := Function.update s.functors signo none }) caught f hne
    exact {
      functor := hinstall.functor.trans (Function.update_of_ne hne ..)
      stored := (Function.update_of_ne hne ..).trans hinstall.stored
      disposition := hinstall.disposition }

/-- **A signal that is not fatal** runs the handler of the last call, if it is set. -/
theorem Tracks.deliver_ok (h : Tracks caught ignored s signo calls) (hfatal : ¬Fatal caught signo calls) :
    s.deliver signo = .ok { s with ran := s.ran ++ answer caught signo calls } := by
  unfold deliver answer
  rw [h.functor]
  cases hcaught : caught signo with
  | false =>
    rw [h.refused hcaught, if_neg (first_ne signo).2, if_neg Bool.false_ne_true, List.append_nil]
  | true =>
    rw [if_pos rfl]
    cases hset : handlerOf calls with
    | none =>
      have hnested : ¬Nested calls := fun hnested => hfatal ⟨hcaught, .inr ⟨hset, hnested⟩⟩
      rw [h.bare hcaught hset, under_of_not_nested hnested, if_neg (first_ne signo).2]
      show Except.ok s = .ok { s with ran := s.ran ++ [] }
      rw [List.append_nil]
    | some handler =>
      rw [if_pos (h.handled hcaught (by rw [hset]; rfl))]
      cases handler with
      | none => exact absurd ⟨hcaught, .inl hset⟩ hfatal
      | some handler => rfl

/-- A fatal one throws out of `signal_handler`. -/
theorem Tracks.deliver_fatal (h : Tracks caught ignored s signo calls) (hfatal : Fatal caught signo calls) :
    s.deliver signo = .error .exception := by
  obtain ⟨hcaught, hlast⟩ := hfatal
  unfold deliver
  rw [h.functor]
  rcases hlast with hempty | ⟨hnone, hnested⟩
  · rw [if_pos (h.handled hcaught (by rw [hempty]; rfl)), hempty]
    rfl
  · rw [if_pos ((h.bare hcaught hnone).trans (under_of_nested hnested)), hnone]
    rfl

/-! ## Runs -/

/-- No signal of `es` is fatal, after the events `past`. -/
def Spared (caught : Int → Bool) (past es : List (Event H)) : Prop :=
  ∀ before signo after, es = before ++ .deliver signo :: after →
    ¬Fatal caught signo (callsFor signo (past ++ before))

theorem spared_cons {e : Event H} : Spared caught past (e :: es) ↔
    (∀ signo, e = .deliver signo → ¬Fatal caught signo (callsFor signo past)) ∧
      Spared caught (past ++ [e]) es := by
  constructor
  · refine fun h => ⟨fun signo he => ?_, fun before signo after heq => ?_⟩
    · have hfirst := h [] signo es (by rw [he]; rfl)
      rwa [List.append_nil] at hfirst
    · rw [List.append_assoc]
      exact h (e :: before) signo after (by rw [heq]; rfl)
  · rintro ⟨hfirst, hrest⟩ before signo after heq
    cases before with
    | nil =>
      rw [List.append_nil]
      exact hfirst signo (List.cons.inj heq).1
    | cons x before =>
      obtain ⟨rfl, hes⟩ := List.cons.inj heq
      have hspared := hrest before signo after hes
      rwa [List.append_assoc] at hspared

theorem callsFor_call (signo n : Int) (c : Call H) : callsFor signo (past ++ [.call n c]) =
    if n = signo then callsFor signo past ++ [c] else callsFor signo past := by
  rw [callsFor_append]
  by_cases hsame : n = signo
  · rw [if_pos hsame, callsFor, if_pos hsame]
    rfl
  · rw [if_neg hsame, callsFor, if_neg hsame]
    exact List.append_nil _

theorem callsFor_deliver (signo n : Int) :
    callsFor signo (past ++ [(.deliver n : Event H)]) = callsFor signo past := by
  rw [callsFor_append]
  exact List.append_nil _

/-- A call for one signal. -/
theorem tracks_call (h : ∀ signo, Tracks caught ignored s signo (callsFor signo past)) (n : Int) (c : Call H) :
    ∃ s', step caught s (.call n c) = .ok s' ∧ s'.ran = s.ran ∧
      ∀ signo, Tracks caught ignored s' signo (callsFor signo (past ++ [.call n c])) := by
  cases c with
  | signal handler =>
    refine ⟨_, rfl, ?_, fun signo => ?_⟩
    · unfold Signals.signal install
      dsimp only
      split
      · rfl
      · rfl
    · rw [callsFor_call]
      split
      · next hsame =>
        rw [hsame]
        exact (h signo).signal handler
      · next hne => exact (h signo).same (signal_same (Ne.symm hne) handler)
  | reset =>
    refine ⟨_, rfl, ?_, fun signo => ?_⟩
    · unfold Signals.reset install
      dsimp only
      split
      · rfl
      · split
        · rfl
        · rfl
    · rw [callsFor_call]
      split
      · next hsame =>
        rw [hsame]
        exact (h signo).reset
      · next hne => exact (h signo).same (reset_same (Ne.symm hne))

/-- **A run goes on up to the first fatal signal.** -/
theorem tracks_run : ∀ (es past : List (Event H)) {s : Signals H},
    (∀ signo, Tracks caught ignored s signo (callsFor signo past)) →
    (Spared caught past es → ∃ s', run (step caught) s es = .ok s' ∧
      (∀ signo, Tracks caught ignored s' signo (callsFor signo (past ++ es))) ∧
      s'.ran = s.ran ++ answers caught past es) ∧
    (¬Spared caught past es → run (step caught) s es = .error .exception)
  | [], past, s, h => by
    refine ⟨fun _ => ⟨s, rfl, ?_, (List.append_nil _).symm⟩, fun hnot => ?_⟩
    · rwa [List.append_nil]
    · refine absurd (fun before signo after heq => ?_) hnot
      cases (List.append_eq_nil_iff.mp heq.symm).2
  | .call n c :: es, past, s, h => by
    obtain ⟨s1, hs1, hran1, htracks1⟩ := tracks_call h n c
    obtain ⟨hgo, hstop⟩ := tracks_run es _ htracks1
    have hsame : Spared caught past (.call n c :: es) ↔ Spared caught (past ++ [.call n c]) es := by
      rw [spared_cons]
      refine and_iff_right fun signo he => ?_
      cases he
    rw [hsame, run_cons, hs1, ok_bind]
    refine ⟨fun hspared => ?_, hstop⟩
    obtain ⟨s', hs', htracks, hran⟩ := hgo hspared
    refine ⟨s', hs', ?_, by rw [hran, hran1]; rfl⟩
    rwa [List.append_assoc] at htracks
  | .deliver n :: es, past, s, h => by
    rw [spared_cons, run_cons]
    by_cases hfatal : Fatal caught n (callsFor n past)
    · refine ⟨fun hspared => absurd hfatal (hspared.1 n rfl), fun _ => ?_⟩
      show s.deliver n >>= _ = _
      rw [(h n).deliver_fatal hfatal]
      rfl
    · have hstep : step caught s (.deliver n) =
          .ok { s with ran := s.ran ++ answer caught n (callsFor n past) } := (h n).deliver_ok hfatal
      obtain ⟨hgo, hstop⟩ := tracks_run es (past ++ [.deliver n])
        (s := { s with ran := s.ran ++ answer caught n (callsFor n past) }) fun signo => by
          rw [callsFor_deliver]
          exact (h signo).same ⟨rfl, rfl, rfl⟩
      rw [hstep, ok_bind]
      refine ⟨fun hspared => ?_, fun hnot => ?_⟩
      · obtain ⟨s', hs', htracks, hran⟩ := hgo hspared.2
        refine ⟨s', hs', ?_, ?_⟩
        · rwa [List.append_assoc] at htracks
        · rw [hran, List.append_assoc]
          rfl
      · refine hstop fun hspared => hnot ⟨fun signo he => ?_, hspared⟩
        cases he
        exact hfatal

/--
**A signal does what the last call for it says, unless a handler was set over another one.** Take any calls and
signals, in any order. A signal runs the handler of the last call for it, and nothing if that is `reset`;
`reset` leaves the disposition that the program began with, exactly if `signal` was never called twice
for that signal with no `reset` between. Otherwise `signal_handler` stays for good, and the next signal
after a `reset` ends the program, as one does whose last handler is empty; no other signal does.
-/
theorem signals_restored_iff (caught ignored : Int → Bool) (es : List (Event H)) :
    (Spared caught [] es → ∃ s, run (step caught) (start ignored) es = .ok s ∧ s.ran = answers caught [] es ∧
      ∀ signo, (s.disposition signo = .signalHandler ↔ caught signo = true ∧
          ((handlerOf (callsFor signo es)).isSome = true ∨ Nested (callsFor signo es))) ∧
        (s.disposition signo ≠ .signalHandler → s.disposition signo = first ignored signo)) ∧
    (¬Spared caught [] es → run (step caught) (start ignored) es = .error .exception) := by
  obtain ⟨hgo, hstop⟩ := tracks_run es [] (tracks_start caught ignored)
  refine ⟨fun hspared => ?_, hstop⟩
  obtain ⟨s, hs, htracks, hran⟩ := hgo hspared
  exact ⟨s, hs, hran, fun signo => (htracks signo).disposition⟩

/-- The handler of the first call is lost, and `reset` leaves `signal_handler` without one. -/
example : run (step fun _ => true) (start fun _ => false)
    [.call 15 (.signal (some 1)), .call 15 (.signal (some 2)), .deliver 15, .call 15 .reset, .deliver 15]
    = .error .exception := rfl

end Signals

end Liby
