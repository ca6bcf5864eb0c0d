import Mathlib.Tactic

/-!
# Runs of a transducer

A transducer over a state type `σ` is a relation `R s i out t`: in state `s`, the input `i`
leads to `t` and emits the list `out` of events.  `Run R s is es t` chains steps: the inputs
`is`, taken one after another from `s`, lead to `t` and emit `es` in all.

* `Run.invariant`, `Run.invariant_out`: what every step keeps, every run keeps;
* `Run.restrict`, `Run.restrict_inputs`: a run of good events, or over good inputs, is a run of
  the steps that are good in this sense;
* `Run.trans`, `Run.split`, `Run.map_inputs`: runs are composed, cut and renamed like their input
  lists;
* `Run.window`: what a run shows between an input that opens a window and one that closes it;
* `Run.simulate`: a step-by-step simulation lifts to runs;
* `Run.project`: an observation that only follows the inputs selected by a
  projection is a function of the projected inputs, so two runs with the same projection
  cannot be told apart by it;
* `Run.typestate`: a protocol of uses that every step follows, a run follows.
-/

namespace Transducer

variable {σ τ ι κ ε η : Type*}

/-- The runs of `R` from `s`: inputs taken, events emitted, state reached. -/
inductive Run (R : σ → ι → List ε → σ → Prop) (s : σ) : List ι → List ε → σ → Prop
  | nil : Run R s [] [] s
  | snoc {is : List ι} {es : List ε} {t : σ} {i : ι} {out : List ε} {u : σ} :
      Run R s is es t → R t i out u → Run R s (is ++ [i]) (es ++ out) u

variable {R R₂ : σ → ι → List ε → σ → Prop} {s t : σ} {is : List ι} {es : List ε}

theorem Run.single {i : ι} {out : List ε} (h : R s i out t) : Run R s [i] out t := by
  simpa using Run.snoc (Run.nil (R := R) (s := s)) h

theorem Run.trans {u : σ} {is' : List ι} {es' : List ε} (h : Run R s is es t)
    (h' : Run R t is' es' u) : Run R s (is ++ is') (es ++ es') u := by
  induction h' with
  | nil => simpa using h
  | snoc _ hstep ih =>
    rw [← List.append_assoc, ← List.append_assoc]
    exact ih.snoc hstep

theorem Run.mono (hR : ∀ s i out t, R s i out t → R₂ s i out t) (h : Run R s is es t) :
    Run R₂ s is es t := by
  induction h with
  | nil => exact .nil
  | snoc _ hstep ih => exact ih.snoc (hR _ _ _ _ hstep)

/-- A run over no inputs goes nowhere. -/
theorem Run.nil_inv (h : Run R s [] es t) : es = [] ∧ t = s := by
  generalize hl : ([] : List ι) = l at h
  cases h with
  | nil => exact ⟨rfl, rfl⟩
  | snoc => simp at hl

/-- The last step of a run. -/
theorem Run.snoc_inv {i : ι} (h : Run R s (is ++ [i]) es t) :
    ∃ m es₁ out, Run R s is es₁ m ∧ R m i out t ∧ es = es₁ ++ out := by
  generalize hl : is ++ [i] = l at h
  cases h with
  | nil => simp at hl
  | snoc hr hstep =>
    obtain ⟨rfl, hi⟩ := List.append_inj' hl rfl
    cases hi
    exact ⟨_, _, _, hr, hstep, rfl⟩

/-- A run over `is ++ is'` is a run over `is` followed by one over `is'`. -/
theorem Run.split {is' : List ι} (h : Run R s (is ++ is') es t) :
    ∃ m es₁ es₂, Run R s is es₁ m ∧ Run R m is' es₂ t ∧ es = es₁ ++ es₂ := by
  induction is' using List.reverseRecOn generalizing es t with
  | nil => exact ⟨t, es, [], by simpa using h, .nil, by simp⟩
  | append_singleton l i ih =>
    rw [← List.append_assoc] at h
    obtain ⟨m, es₁, out, hr, hstep, rfl⟩ := h.snoc_inv
    obtain ⟨m', es₁', es₂, h₁, h₂, rfl⟩ := ih hr
    exact ⟨m', es₁', es₂ ++ out, h₁, h₂.snoc hstep, by rw [List.append_assoc]⟩

theorem Run.cons_inv {i : ι} (h : Run R s (i :: is) es t) :
    ∃ m out es', R s i out m ∧ Run R m is es' t ∧ es = out ++ es' := by
  have h' : Run R s (([] ++ [i]) ++ is) es t := h
  obtain ⟨m, es₁, es₂, h₁, h₂, rfl⟩ := h'.split
  obtain ⟨m', es₀, out, h₀, hstep, rfl⟩ := h₁.snoc_inv
  obtain ⟨rfl, rfl⟩ := h₀.nil_inv
  exact ⟨m, out, es₂, hstep, h₂, rfl⟩

/-- The first step of a run. -/
theorem Run.cons {i : ι} {out : List ε} {m : σ} (hstep : R s i out m) (h : Run R m is es t) :
    Run R s (i :: is) (out ++ es) t :=
  (Run.single hstep).trans h

/-- Steps that are steps over other inputs make a run over these. -/
theorem Run.map_inputs {R' : σ → κ → List ε → σ → Prop} (f : ι → κ)
    (hR : ∀ s i out t, R s i out t → R' s (f i) out t) (h : Run R s is es t) :
    Run R' s (is.map f) es t := by
  induction h with
  | nil => exact .nil
  | snoc _ hstep ih =>
    rw [List.map_append]
    exact ih.snoc (hR _ _ _ _ hstep)

/-! ### Invariants -/

/-- What every step keeps holds at the end of every run. -/
theorem Run.invariant (Inv : σ → Prop) (hstep : ∀ s i out t, Inv s → R s i out t → Inv t)
    (h : Run R s is es t) (h₀ : Inv s) : Inv t := by
  induction h with
  | nil => exact h₀
  | snoc _ hs ih => exact hstep _ _ _ _ ih hs

/-- Where the invariant holds and every step from it emits good events, so does every run. -/
theorem Run.invariant_out (Inv : σ → Prop) (Good : ε → Prop)
    (hstep : ∀ s i out t, Inv s → R s i out t → Inv t ∧ ∀ e ∈ out, Good e)
    (h : Run R s is es t) (h₀ : Inv s) : Inv t ∧ ∀ e ∈ es, Good e := by
  induction h with
  | nil => exact ⟨h₀, by simp⟩
  | snoc _ hs ih =>
    obtain ⟨hi, hg⟩ := hstep _ _ _ _ ih.1 hs
    refine ⟨hi, fun e he => ?_⟩
    rcases List.mem_append.1 he with he | he
    · exact ih.2 e he
    · exact hg e he

/-- A run all of whose events are good is a run of the steps that emit only good events. -/
theorem Run.restrict (Good : ε → Prop) (h : Run R s is es t) (hg : ∀ e ∈ es, Good e) :
    Run (fun s i out t => R s i out t ∧ ∀ e ∈ out, Good e) s is es t := by
  induction h with
  | nil => exact .nil
  | snoc _ hs ih =>
    exact (ih fun e he => hg e (List.mem_append_left _ he)).snoc
      ⟨hs, fun e he => hg e (List.mem_append_right _ he)⟩

/-- What every step says of its input, every run says of all its inputs. -/
theorem Run.forall_inputs (Good : ι → Prop) (hR : ∀ s i out t, R s i out t → Good i)
    (h : Run R s is es t) : ∀ i ∈ is, Good i := by
  induction h with
  | nil => simp
  | snoc _ hs ih =>
    intro i hi
    rcases List.mem_append.1 hi with hi | hi
    · exact ih i hi
    · rw [List.mem_singleton.1 hi]
      exact hR _ _ _ _ hs

/-- A run over good inputs is a run of the steps that take only good inputs. -/
theorem Run.restrict_inputs (Good : ι → Prop) (h : Run R s is es t) (hg : ∀ i ∈ is, Good i) :
    Run (fun s i out t => R s i out t ∧ Good i) s is es t := by
  induction h with
  | nil => exact .nil
  | snoc _ hs ih =>
    exact (ih fun i hi => hg i (List.mem_append_left _ hi)).snoc
      ⟨hs, hg _ (List.mem_append_right _ List.mem_cons_self)⟩

/-! ### Simulation and projection -/

/-- A step-by-step simulation lifts to runs: each step is matched by a run of `R'` whose inputs
are read off the events the step emits and whose outputs are related to them by `Obs`. -/
theorem Run.simulate {R' : τ → κ → List η → τ → Prop} (Sim : σ → τ → Prop) (f : ε → List κ)
    (Obs : List ε → List η → Prop) (hnil : Obs [] [])
    (happ : ∀ {es outs es' outs'}, Obs es outs → Obs es' outs' → Obs (es ++ es') (outs ++ outs'))
    (hstep : ∀ s i out t a, Sim s a → R s i out t →
      ∃ b outs, Run R' a (out.flatMap f) outs b ∧ Obs out outs ∧ Sim t b)
    (h : Run R s is es t) {a : τ} (h₀ : Sim s a) :
    ∃ b outs, Run R' a (es.flatMap f) outs b ∧ Obs es outs ∧ Sim t b := by
  induction h with
  | nil => exact ⟨a, [], .nil, hnil, h₀⟩
  | snoc _ hs ih =>
    obtain ⟨b, outs, hb, ho, hsim⟩ := ih
    obtain ⟨c, outs', hc, ho', hsim'⟩ := hstep _ _ _ _ _ hsim hs
    exact ⟨c, outs ++ outs', by simpa using hb.trans hc, happ ho ho', hsim'⟩

/-- An observation `obs` that moves by `step` under the inputs `f` selects, and stays under
all others, is after any run the fold of `step` over the selected inputs. -/
theorem Run.project (Inv : σ → Prop) (obs : σ → τ) (f : ι → List κ) (step : τ → κ → τ)
    (hstep : ∀ s i out t, Inv s → R s i out t → Inv t ∧ obs t = (f i).foldl step (obs s))
    (h : Run R s is es t) (h₀ : Inv s) : obs t = (is.flatMap f).foldl step (obs s) := by
  suffices Inv t ∧ obs t = (is.flatMap f).foldl step (obs s) from this.2
  induction h with
  | nil => exact ⟨h₀, rfl⟩
  | snoc _ hs ih =>
    obtain ⟨hi, ho⟩ := hstep _ _ _ _ ih.1 hs
    refine ⟨hi, ?_⟩
    rw [ho, ih.2, List.flatMap_append, List.foldl_append, List.flatMap_singleton]

/-- The uses `f` of the events follow a protocol `next`, whose state is read off that of the
transducer, over every step; then they do over a run. -/
theorem Run.typestate (Inv : σ → Prop) (status : σ → τ) (f : ε → List κ) (next : τ → κ → Option τ)
    (hstep : ∀ s i out t, Inv s → R s i out t →
      Inv t ∧ (out.flatMap f).foldlM next (status s) = some (status t))
    (h : Run R s is es t) (h₀ : Inv s) :
    (es.flatMap f).foldlM next (status s) = some (status t) := by
  suffices Inv t ∧ (es.flatMap f).foldlM next (status s) = some (status t) from this.2
  induction h with
  | nil => exact ⟨h₀, rfl⟩
  | snoc _ hs ih =>
    obtain ⟨hi, ho⟩ := hstep _ _ _ _ ih.1 hs
    refine ⟨hi, ?_⟩
    rw [List.flatMap_append, List.foldlM_append, ih.2]
    exact ho

/-- Observations `f` of the events over a window: what holds while it is open (`Live`), the
inputs that close it, what holds ever after (`Gone`).  The run is observed as `g` says of the
inputs up to the first that closes the window, and is silent from there on. -/
theorem Run.window (Live Gone : σ → Prop) (stop : ι → Bool) (g : ι → List η) (f : ε → List η)
    (hlive : ∀ s i out t, Live s → stop i = false → R s i out t →
      Live t ∧ out.flatMap f = g i)
    (hstop : ∀ s i out t, Live s → stop i = true → R s i out t → Gone t ∧ out.flatMap f = [])
    (hgone : ∀ s i out t, Gone s → R s i out t → Gone t ∧ out.flatMap f = [])
    (h : Run R s is es t) (h₀ : Live s) :
    es.flatMap f = (is.takeWhile fun i => !stop i).flatMap g := by
  -- once closed the window stays closed
  have hsilent : ∀ {is es s}, Run R s is es t → Gone s → es.flatMap f = [] := by
    intro is
    induction is with
    | nil =>
      intro es s hr _
      simp [hr.nil_inv.1]
    | cons i is ih =>
      intro es s hr hg
      obtain ⟨m, out, es', hstep, hr', rfl⟩ := hr.cons_inv
      obtain ⟨hm, hout⟩ := hgone _ _ _ _ hg hstep
      rw [List.flatMap_append, hout, ih hr' hm, List.append_nil]
  induction is generalizing es s with
  | nil => simp [h.nil_inv.1]
  | cons i is ih =>
    obtain ⟨m, out, es', hstep, hr, rfl⟩ := h.cons_inv
    rw [List.flatMap_append]
    cases hi : stop i with
    | false =>
      obtain ⟨hm, hout⟩ := hlive _ _ _ _ h₀ hi hstep
      rw [List.takeWhile_cons_of_pos (by simp [hi]), List.flatMap_cons, hout, ih hr hm]
    | true =>
      obtain ⟨hm, hout⟩ := hstop _ _ _ _ h₀ hi hstep
      rw [List.takeWhile_cons_of_neg (by simp [hi]), hout, hsilent hr hm, List.append_nil,
        List.flatMap_nil]

end Transducer
