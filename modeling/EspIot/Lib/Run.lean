/-
# `EspIot.Lib.Run` — runs of a partial step function, and the rules for them

A system is a state type, an event type and a step function that answers
`none` when the event is not enabled.  Whatever is left open by the code — a
clock reading, an answer of a driver, the choice of which task runs next — is
part of the event, so a step is a function and a run is a fold.

Three ways to speak about a run:

    run step s es        the state the events lead to
    Always step P s es   P holds in every state passed through, both ends included
    Each step C s es     C holds of every event taken, in the state it is taken in
    Meets step C s es    C holds of every event, in the state it comes in

`Always.of_each` is the induction every safety theorem goes through;
`always_iff_each` is its two-way form, for a condition that is exact.
-/
import Mathlib.Data.List.Basic

namespace EspIot.Lib

variable {σ ε : Type*}

section Defs
variable (step : σ → ε → Option σ)

/-- The state a list of events leads to; `none` as soon as one is not enabled. -/
def run : σ → List ε → Option σ
  | s, [] => some s
  | s, e :: es => (step s e).bind fun s' => run s' es

/-- `P` holds in every state the events pass through. -/
def Always (P : σ → Prop) : σ → List ε → Prop
  | s, [] => P s
  | s, e :: es => P s ∧ ∀ s', step s e = some s' → Always P s' es

/-- `C` holds of every event that is taken, in the state it is taken in. -/
def Each (C : σ → ε → Prop) : σ → List ε → Prop
  | _, [] => True
  | s, e :: es => ∀ s', step s e = some s' → C s e ∧ Each C s' es

/-- `C` holds of every event in the state it comes in, enabled there or not. -/
def Meets (C : σ → ε → Prop) : σ → List ε → Prop
  | _, [] => True
  | s, e :: es => C s e ∧ ∀ s', step s e = some s' → Meets C s' es

/-- The states some run from `s` reaches. -/
def Reachable (s s' : σ) : Prop := ∃ es, run step s es = some s'

end Defs

variable {step : σ → ε → Option σ}

@[simp] theorem run_nil (s : σ) : run step s [] = some s := rfl

theorem run_cons {s s' : σ} {e : ε} (h : step s e = some s') (es : List ε) :
    run step s (e :: es) = run step s' es := by
  simp [run, h]

theorem run_cons_some {s t : σ} {e : ε} {es : List ε} (h : run step s (e :: es) = some t) :
    ∃ s', step s e = some s' ∧ run step s' es = some t := by
  simpa [run, Option.bind_eq_some_iff] using h

theorem run_append (s : σ) (es fs : List ε) :
    run step s (es ++ fs) = (run step s es).bind fun s' => run step s' fs := by
  induction es generalizing s with
  | nil => rfl
  | cons e es ih =>
      cases h : step s e with
      | none => simp [run, h]
      | some s' => simp [run, h, ih s']

theorem run_append_of {s s' : σ} {es : List ε} (h : run step s es = some s') (fs : List ε) :
    run step s (es ++ fs) = run step s' fs := by
  rw [run_append, h]; rfl

theorem Each.cons {C : σ → ε → Prop} {s s' : σ} {e : ε} {es : List ε} (h : step s e = some s')
    (hC : C s e) (hes : Each step C s' es) : Each step C s (e :: es) := by
  intro t ht
  rw [h] at ht
  cases ht
  exact ⟨hC, hes⟩

theorem Each.at {C : σ → ε → Prop} {e : ε} {es fs : List ε} :
    ∀ {s t u : σ}, Each step C s (es ++ e :: fs) → run step s es = some t → step t e = some u →
      C t e := by
  induction es with
  | nil =>
      intro s t u h hrun hstep
      cases hrun
      exact (h u hstep).1
  | cons e' es ih =>
      intro s t u h hrun hstep
      obtain ⟨s', he, hes⟩ := run_cons_some hrun
      exact ih (h s' he).2 hes hstep

/-! ## Deciding a run -/

theorem always_cons_none {P : σ → Prop} {s : σ} {e : ε} (h : step s e = none) (es : List ε) :
    P s ↔ Always step P s (e :: es) :=
  ⟨fun hP => ⟨hP, fun _ hs' => absurd (h.symm.trans hs') (by nofun)⟩, And.left⟩

theorem always_cons_some {P : σ → Prop} {s s' : σ} {e : ε} (h : step s e = some s')
    (es : List ε) : P s ∧ Always step P s' es ↔ Always step P s (e :: es) := by
  refine and_congr_right fun _ => ⟨?_, fun hall => hall s' h⟩
  intro hes t ht
  rw [h] at ht
  cases ht
  exact hes

theorem each_cons_none {C : σ → ε → Prop} {s : σ} {e : ε} (h : step s e = none) (es : List ε) :
    True ↔ Each step C s (e :: es) :=
  ⟨fun _ _ hs' => absurd (h.symm.trans hs') (by nofun), fun _ => trivial⟩

theorem each_cons_some {C : σ → ε → Prop} {s s' : σ} {e : ε} (h : step s e = some s')
    (es : List ε) : C s e ∧ Each step C s' es ↔ Each step C s (e :: es) :=
  ⟨fun hC => .cons h hC.1 hC.2, fun hC => hC s' h⟩

/-- Whether `P` holds along a run is found by taking it. -/
def decidableAlways {P : σ → Prop} [DecidablePred P] :
    (es : List ε) → (s : σ) → Decidable (Always step P s es)
  | [], s => inferInstanceAs (Decidable (P s))
  | e :: es, s =>
      match h : step s e with
      | none => decidable_of_iff _ (always_cons_none h es)
      | some s' =>
          have := decidableAlways (P := P) es s'
          decidable_of_iff _ (always_cons_some h es)

/-- Whether each step of a run meets `C` is found by taking it. -/
def decidableEach {C : σ → ε → Prop} [∀ s e, Decidable (C s e)] :
    (es : List ε) → (s : σ) → Decidable (Each step C s es)
  | [], _ => inferInstanceAs (Decidable True)
  | e :: es, s =>
      match h : step s e with
      | none => decidable_of_iff _ (each_cons_none h es)
      | some s' =>
          have := decidableEach (C := C) es s'
          decidable_of_iff _ (each_cons_some h es)

instance {P : σ → Prop} [DecidablePred P] (s : σ) (es : List ε) :
    Decidable (Always step P s es) := decidableAlways es s

instance {C : σ → ε → Prop} [∀ s e, Decidable (C s e)] (s : σ) (es : List ε) :
    Decidable (Each step C s es) := decidableEach es s

/-! ## The rules -/

/-- An invariant that is kept by the steps that meet `C` holds after every run whose steps all
meet `C`. -/
theorem run_each_invariant {I : σ → Prop} {C : σ → ε → Prop}
    (hstep : ∀ s e s', I s → C s e → step s e = some s' → I s') {es : List ε} :
    ∀ {s s' : σ}, I s → Each step C s es → run step s es = some s' → I s' := by
  induction es with
  | nil =>
      intro s s' hI _ h
      cases h
      exact hI
  | cons e es ih =>
      intro s t hI hC h
      obtain ⟨s', he, hes⟩ := run_cons_some h
      obtain ⟨hc, hrest⟩ := hC s' he
      exact ih (hstep s e s' hI hc he) hrest hes

theorem Each.of_forall {C : σ → ε → Prop} {es : List ε} :
    ∀ {s : σ}, (∀ e ∈ es, ∀ s, C s e) → Each step C s es := by
  induction es with
  | nil =>
      intro s _
      trivial
  | cons e es ih =>
      intro s hC s' _
      exact ⟨hC e List.mem_cons_self s, ih fun e' he' => hC e' (List.mem_cons_of_mem _ he')⟩

theorem run_of_meets {I : σ → Prop} {A : ε → Prop} {C : σ → ε → Prop}
    (hstep : ∀ s e, I s → A e → C s e → ∃ s', step s e = some s' ∧ I s') {es : List ε} :
    ∀ {s : σ}, (∀ e ∈ es, A e) → I s → Meets step C s es →
      ∃ s', run step s es = some s' ∧ I s' := by
  induction es with
  | nil => exact fun _ hI _ => ⟨_, rfl, hI⟩
  | cons e es ih =>
      intro s hA hI hC
      obtain ⟨s', hs, hI'⟩ := hstep s e hI (hA e List.mem_cons_self) hC.1
      obtain ⟨t, ht, hIt⟩ := ih (fun e' he => hA e' (List.mem_cons_of_mem _ he)) hI' (hC.2 s' hs)
      exact ⟨t, (run_cons hs es).trans ht, hIt⟩

theorem meets_of_run {I : σ → Prop} {C : σ → ε → Prop}
    (hstep : ∀ s e s', I s → step s e = some s' → C s e ∧ I s') {es : List ε} :
    ∀ {s t : σ}, I s → run step s es = some t → Meets step C s es := by
  induction es with
  | nil => exact fun _ _ => trivial
  | cons e es ih =>
      intro s t hI h
      obtain ⟨s', hs, hrest⟩ := run_cons_some h
      refine ⟨(hstep s e s' hI hs).1, ?_⟩
      intro s'' hs'
      rw [hs] at hs'
      cases hs'
      exact ih (hstep s e s' hI hs).2 hrest

/-- What every enabled step of an admitted event keeps, a run of admitted events keeps. -/
theorem run_invariant_of {I : σ → Prop} {C : ε → Prop}
    (hstep : ∀ s e s', I s → C e → step s e = some s' → I s') {es : List ε} {s s' : σ}
    (hC : ∀ e ∈ es, C e) (hI : I s) (h : run step s es = some s') : I s' :=
  run_each_invariant hstep hI (Each.of_forall fun e he _ => hC e he) h

theorem run_invariant {I : σ → Prop} (hstep : ∀ s e s', I s → step s e = some s' → I s')
    {es : List ε} {s s' : σ} (hI : I s) (h : run step s es = some s') : I s' :=
  run_invariant_of (fun s e s' hI (_ : True) => hstep s e s' hI) (fun _ _ => trivial) hI h

theorem run_rel {R : σ → σ → Prop} (hrefl : ∀ s, R s s)
    (htrans : ∀ {a b c}, R a b → R b c → R a c)
    (hstep : ∀ s e s', step s e = some s' → R s s') {es : List ε} {s s' : σ}
    (h : run step s es = some s') : R s s' :=
  run_invariant (I := R s) (fun _ e _ hR ht => htrans hR (hstep _ e _ ht)) (hrefl s) h

theorem Reachable.invariant {I : σ → Prop} {s s' : σ} (h : Reachable step s s') (hI : I s)
    (hstep : ∀ s e s', I s → step s e = some s' → I s') : I s' := by
  obtain ⟨es, hes⟩ := h
  exact run_invariant hstep hI hes

theorem Reachable.refl (s : σ) : Reachable step s s := ⟨[], rfl⟩

/-- Where the steps that meet `C` keep an invariant that gives `D`, a run whose steps all meet
`C` meets `D` in each. -/
theorem Each.imp_of {I : σ → Prop} {C D : σ → ε → Prop} (hD : ∀ s e, I s → C s e → D s e)
    (hstep : ∀ s e s', I s → C s e → step s e = some s' → I s') {es : List ε} :
    ∀ {s : σ}, I s → Each step C s es → Each step D s es := by
  induction es with
  | nil =>
      intro s _ _
      trivial
  | cons e es ih =>
      intro s hI hC s' he
      obtain ⟨hc, hes⟩ := hC s' he
      exact ⟨hD s e hI hc, ih (hstep s e s' hI hc he) hes⟩

/-- Where some admitted step leads to `G`, or keeps an invariant and lessens a rank, admitted steps
lead to `G`. -/
theorem exists_run_of_decreasing {α : Type*} {r : α → α → Prop} (hr : WellFounded r) (rank : σ → α)
    {I G : σ → Prop} {A : ε → Prop}
    (hstep : ∀ s, I s → ¬ G s → ∃ e t, A e ∧ step s e = some t ∧ (G t ∨ I t ∧ r (rank t) (rank s)))
    {s : σ} (hs : I s) : ∃ es t, (∀ e ∈ es, A e) ∧ run step s es = some t ∧ G t := by
  induction s using (InvImage.wf rank hr).induction with
  | _ s ih =>
    by_cases hG : G s
    · exact ⟨[], s, fun e he => absurd he List.not_mem_nil, rfl, hG⟩
    · obtain ⟨e, t, he, ht, hGt | ⟨hI, hless⟩⟩ := hstep s hs hG
      · refine ⟨[e], t, ?_, run_cons ht [], hGt⟩
        intro e' he'
        rw [List.mem_singleton.mp he']
        exact he
      · obtain ⟨es, u, hes, hrun, hGu⟩ := ih t hless hI
        refine ⟨e :: es, u, ?_, (run_cons ht es).trans hrun, hGu⟩
        intro e' he'
        rcases List.mem_cons.mp he' with rfl | hrest
        · exact he
        · exact hes e' hrest

theorem always_iff_reached {P : σ → Prop} {es : List ε} :
    ∀ {s : σ}, Always step P s es ↔
      ∀ fs gs s', es = fs ++ gs → run step s fs = some s' → P s' := by
  induction es with
  | nil =>
      intro s
      constructor
      · intro h fs gs s' hes hrun
        obtain ⟨rfl, rfl⟩ := List.append_eq_nil_iff.mp hes.symm
        cases hrun; exact h
      · intro h
        exact h [] [] s rfl rfl
  | cons e es ih =>
      intro s
      constructor
      · rintro ⟨hs, hall⟩ fs gs s' hes hrun
        cases fs with
        | nil => cases hrun; exact hs
        | cons f fs =>
            obtain ⟨rfl, htail⟩ := List.cons.inj (hes.trans (List.cons_append ..))
            obtain ⟨t, ht, hrun⟩ := run_cons_some hrun
            exact ih.mp (hall t ht) fs gs s' htail hrun
      · intro h
        refine ⟨h [] (e :: es) s rfl rfl, fun t ht => ih.mpr ?_⟩
        intro fs gs s' hes hrun
        exact h (e :: fs) gs s' (by rw [hes]; rfl) ((run_cons ht fs).trans hrun)

theorem Always.head {P : σ → Prop} {es : List ε} {s : σ} (h : Always step P s es) : P s :=
  always_iff_reached.mp h [] es s rfl rfl

/-- An invariant that is kept by the steps that meet `C` holds along every run
whose steps all meet `C`. -/
theorem Always.of_each {I P : σ → Prop} {C : σ → ε → Prop} (hP : ∀ s, I s → P s)
    (hstep : ∀ s e s', I s → C s e → step s e = some s' → I s') {es : List ε} :
    ∀ {s : σ}, I s → Each step C s es → Always step P s es := by
  induction es with
  | nil =>
      intro s hI _
      exact hP s hI
  | cons e es ih =>
      intro s hI hC
      refine ⟨hP s hI, ?_⟩
      intro s' he
      obtain ⟨hc, hes⟩ := hC s' he
      exact ih (hstep s e s' hI hc he) hes

/-- Where every state of a run meets `P`, what an admitted step from `P` to `P` keeps, the run
keeps. -/
theorem run_always_invariant {I P : σ → Prop} {C : ε → Prop}
    (hstep : ∀ s e s', I s → P s → P s' → C e → step s e = some s' → I s') {es : List ε} :
    ∀ {s s' : σ}, I s → Always step P s es → (∀ e ∈ es, C e) → run step s es = some s' → I s' := by
  induction es with
  | nil =>
      intro s s' hI _ _ h
      cases h
      exact hI
  | cons e es ih =>
      rintro s t hI ⟨hP, hall⟩ hC h
      obtain ⟨s', he, hes⟩ := run_cons_some h
      have hP' := hall s' he
      have hI' := hstep s e s' hI hP hP'.head (hC e List.mem_cons_self) he
      exact ih hI' hP' (fun e' h' => hC e' (List.mem_cons_of_mem _ h')) hes

theorem Always.last {P : σ → Prop} {es : List ε} {s s' : σ} (h : Always step P s es)
    (hrun : run step s es = some s') : P s' :=
  always_iff_reached.mp h es [] s' (List.append_nil es).symm hrun

/-- The two-way form, for admitted events: where a step that does not meet `C` leaves `P`, a run
keeps `P` exactly when each of its steps meets `C`. -/
theorem always_iff_each_of {I P : σ → Prop} {C : σ → ε → Prop} {D : ε → Prop}
    (hP : ∀ s, I s → P s) (hstep : ∀ s e s', I s → D e → C s e → step s e = some s' → I s')
    (hbad : ∀ s e s', I s → D e → ¬ C s e → step s e = some s' → ¬ P s') {es : List ε} :
    ∀ {s : σ}, (∀ e ∈ es, D e) → I s → (Always step P s es ↔ Each step C s es) := by
  induction es with
  | nil =>
      intro s _ hI
      exact ⟨fun _ => trivial, fun _ => hP s hI⟩
  | cons e es ih =>
      intro s hD hI
      have he := hD e List.mem_cons_self
      have hrest : ∀ e' ∈ es, D e' := fun e' h' => hD e' (List.mem_cons_of_mem _ h')
      constructor
      · rintro ⟨-, hall⟩ s' hs'
        have hc : C s e := by
          by_contra hc
          exact hbad s e s' hI he hc hs' (hall s' hs').head
        exact ⟨hc, (ih hrest (hstep s e s' hI he hc hs')).mp (hall s' hs')⟩
      · intro hC
        refine ⟨hP s hI, fun s' hs' => ?_⟩
        obtain ⟨hc, hes⟩ := hC s' hs'
        exact (ih hrest (hstep s e s' hI he hc hs')).mpr hes

/-- The two-way form: where a step that does not meet `C` leaves `P`, a run
keeps `P` exactly when each of its steps meets `C`. -/
theorem always_iff_each {I P : σ → Prop} {C : σ → ε → Prop} (hP : ∀ s, I s → P s)
    (hstep : ∀ s e s', I s → C s e → step s e = some s' → I s')
    (hbad : ∀ s e s', I s → ¬ C s e → step s e = some s' → ¬ P s') {es : List ε} {s : σ}
    (hI : I s) : Always step P s es ↔ Each step C s es :=
  always_iff_each_of (D := fun _ => True) hP (fun s e s' hI _ => hstep s e s' hI)
    (fun s e s' hI _ => hbad s e s' hI) (fun _ _ => trivial) hI

/-! ## Refinement -/

/-- What the events of a run are to an abstract system, in turn. -/
def trace {ο : Type*} (step : σ → ε → Option σ) (ops : σ → ε → List ο) : σ → List ε → List ο
  | _, [] => []
  | s, e :: es =>
      match step s e with
      | some s' => ops s e ++ trace step ops s' es
      | none => []

/-- Where each step is, to the abstract system, the operations it stands for, so is each run. -/
theorem run_trace {τ ο : Type*} {ops : σ → ε → List ο} {f : τ → ο → τ} {I : σ → Prop}
    (abs : σ → τ)
    (hstep : ∀ s e s', I s → step s e = some s' → I s' ∧ abs s' = (ops s e).foldl f (abs s))
    {es : List ε} : ∀ {s s' : σ}, I s → run step s es = some s' →
      abs s' = (trace step ops s es).foldl f (abs s) := by
  induction es with
  | nil =>
      intro s s' _ h
      cases h
      rfl
  | cons e es ih =>
      intro s t hI h
      obtain ⟨s', he, hes⟩ := run_cons_some h
      obtain ⟨hI', habs⟩ := hstep s e s' hI he
      rw [trace, he, List.foldl_append, ← habs]
      exact ih hI' hes

theorem run_log {ο β : Type*} {ops : σ → ε → List ο} {g : ο → List β} {I : σ → Prop}
    (log : σ → List β)
    (hstep : ∀ s e s', I s → step s e = some s' → I s' ∧ log s' = log s ++ (ops s e).flatMap g)
    {es : List ε} {s s' : σ} (hI : I s) (h : run step s es = some s') :
    log s' = log s ++ (trace step ops s es).flatMap g := by
  have hfold : ∀ (os : List ο) (l : List β),
      os.foldl (fun l o => l ++ g o) l = l ++ os.flatMap g := by
    intro os l
    rw [List.foldl_append_eq_append, List.flatMap_def]
  rw [← hfold]
  refine run_trace (I := I) log (fun s e s' hI he => ?_) hI h
  rw [hfold]
  exact hstep s e s' hI he

theorem forall_trace {ο : Type*} {ops : σ → ε → List ο} {I : σ → Prop} {C : ε → Prop}
    {Q : ο → Prop} (hops : ∀ s e, I s → C e → ∀ o ∈ ops s e, Q o)
    (hstep : ∀ s e s', I s → C e → step s e = some s' → I s') {es : List ε} :
    ∀ {s : σ}, I s → (∀ e ∈ es, C e) → ∀ o ∈ trace step ops s es, Q o := by
  induction es with
  | nil =>
      intro s _ _ o ho
      cases ho
  | cons e es ih =>
      intro s hI hC o ho
      have he := hC e List.mem_cons_self
      rw [trace] at ho
      split at ho
      · next s' hs' =>
          rcases List.mem_append.mp ho with hfirst | hrest
          · exact hops s e hI he o hfirst
          · exact ih (hstep s e s' hI he hs')
              (fun e' he' => hC e' (List.mem_cons_of_mem e he')) o hrest
      · cases ho

theorem run_simulates {τ ο : Type*} {step' : τ → ο → Option τ} {ops : σ → ε → List ο}
    {abs : σ → τ}
    (hstep : ∀ s e s', step s e = some s' → run step' (abs s) (ops s e) = some (abs s'))
    {es : List ε} : ∀ {s s' : σ}, run step s es = some s' →
      run step' (abs s) (trace step ops s es) = some (abs s') := by
  induction es with
  | nil =>
      intro s s' h
      cases h
      rfl
  | cons e es ih =>
      intro s t h
      obtain ⟨s', he, hes⟩ := run_cons_some h
      rw [trace, he, run_append_of (hstep s e s' he)]
      exact ih hes

end EspIot.Lib
