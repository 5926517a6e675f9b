/-
Runs of a labelled step function, and the rules every whole-run result
of this development is an instance of.

# Two shapes of system

- `run step`: a machine whose actions are chosen by an environment (a
  scheduler, a driver, a caller). `step s a = none` says that `a` is not
  enabled in `s`, so a run is a list of enabled actions.
- `trace exec`: a machine whose actions are calls that return a value.
  `exec s a = none` says that the call never returns, so a trace is a list
  of completed calls together with what they returned.

# The rules

`run_invariant` carries a predicate along a run, given that every action
keeps it; the actions may be restricted by a condition on the state they
are taken in (`AllSteps`), which is how a result about "every run whose
steps all meet the condition" is stated. `run_observed` carries a relation
between the state and what was seen on the way, and `run_observed_of` does
so under a condition. `trace_simulates` carries a simulation relation along
a trace: if every call returns, and what it returns is allowed by the
abstract step relation, then whole traces are abstract runs (`SpecRun`). No
rule knows what the states are.
-/
import Mathlib.Data.List.Basic

namespace Lts

variable {σ α β μ : Type*}

-- ================================================================= runs

/-- Run a list of actions from a state, failing on the first disabled
one. -/
def run (step : σ → α → Option σ) : σ → List α → Option σ
  | s, [] => some s
  | s, a :: rest => (step s a).bind fun s' => run step s' rest

/-- Every step of the run meets `P` in the state it is taken in. -/
def AllSteps (step : σ → α → Option σ) (P : σ → α → Prop) :
    σ → List α → Prop
  | _, [] => True
  | s, a :: rest => P s a ∧ ∀ s', step s a = some s' → AllSteps step P s' rest

/-- The condition can be checked along a given run. -/
def decidableAllSteps (step : σ → α → Option σ) (P : σ → α → Prop)
    [∀ s a, Decidable (P s a)] :
    (s : σ) → (as : List α) → Decidable (AllSteps step P s as)
  | _, [] => .isTrue trivial
  | s, a :: rest =>
      match h : step s a with
      | none => decidable_of_iff (P s a)
          ⟨fun hp => ⟨hp, fun _ hs => by simp [h] at hs⟩, fun hp => hp.1⟩
      | some s₁ =>
          have := decidableAllSteps step P s₁ rest
          decidable_of_iff (P s a ∧ AllSteps step P s₁ rest)
            ⟨fun hp => ⟨hp.1, fun _ hs => by
              rw [h, Option.some.injEq] at hs
              exact hs ▸ hp.2⟩, fun hp => ⟨hp.1, hp.2 s₁ h⟩⟩

instance (step : σ → α → Option σ) (P : σ → α → Prop)
    [∀ s a, Decidable (P s a)] (s : σ) (as : List α) :
    Decidable (AllSteps step P s as) := decidableAllSteps step P s as

section Runs

variable {step : σ → α → Option σ} {P Q : σ → α → Prop}

@[simp] theorem run_nil (s : σ) : run step s [] = some s := rfl

theorem run_cons (s : σ) (a : α) (rest : List α) :
    run step s (a :: rest) = (step s a).bind fun s' => run step s' rest := rfl

/-- A run with a first action splits at the state that action leads to. -/
theorem run_cons_eq_some {s s' : σ} {a : α} {rest : List α} :
    run step s (a :: rest) = some s'
      ↔ ∃ s₁, step s a = some s₁ ∧ run step s₁ rest = some s' := by
  rw [run_cons, Option.bind_eq_some_iff]

/-- Runs compose. -/
theorem run_append (s : σ) (as bs : List α) :
    run step s (as ++ bs) = (run step s as).bind fun s' => run step s' bs := by
  induction as generalizing s with
  | nil => rfl
  | cons a as ih =>
      cases hs : step s a with
      | none => simp [run_cons, hs]
      | some s' => simp [run_cons, hs, ih]

/-- A predicate kept by every action that meets `P` holds after every run
whose steps all meet `P`. -/
theorem run_invariant {I : σ → Prop}
    (hstep : ∀ {s a s'}, I s → P s a → step s a = some s' → I s') :
    ∀ {as : List α} {s s' : σ}, I s → AllSteps step P s as →
      run step s as = some s' → I s' := by
  intro as
  induction as with
  | nil =>
      intro s s' hI _ hrun
      simp only [run_nil, Option.some.injEq] at hrun
      exact hrun ▸ hI
  | cons a rest ih =>
      intro s s' hI hP hrun
      obtain ⟨s₁, ha, hrest⟩ := run_cons_eq_some.mp hrun
      exact ih (hstep hI hP.1 ha) (hP.2 s₁ ha) hrest

/-- A condition that holds at every state of an invariant holds along every
run from one, provided the steps that meet it keep the invariant. -/
theorem AllSteps.of_invariant {I : σ → Prop}
    (hstep : ∀ {s a s'}, I s → step s a = some s' → I s')
    (hP : ∀ {s a}, I s → P s a) :
    ∀ {as : List α} {s : σ}, I s → AllSteps step P s as := by
  intro as
  induction as with
  | nil => intro s _; trivial
  | cons a rest ih =>
      intro s hI
      exact ⟨hP hI, fun s' ha => ih (hstep hI ha)⟩

/-- Every prefix of a run whose steps meet a condition is one too. -/
theorem AllSteps.initial {as bs : List α} {s : σ} (h : AllSteps step P s bs)
    (hpre : as <+: bs) : AllSteps step P s as := by
  induction as generalizing s bs with
  | nil => trivial
  | cons a as ih =>
      obtain ⟨rest, rfl⟩ := hpre
      refine ⟨h.1, ?_⟩
      intro s₁ ha
      exact ih (h.2 s₁ ha) (List.prefix_append as rest)

/-- So is what follows a prefix. -/
theorem AllSteps.rest {as bs : List α} {s s' : σ} (h : AllSteps step P s (as ++ bs))
    (hrun : run step s as = some s') : AllSteps step P s' bs := by
  induction as generalizing s with
  | nil =>
      rw [run_nil, Option.some.injEq] at hrun
      exact hrun ▸ h
  | cons a as ih =>
      obtain ⟨s₁, ha, hrest⟩ := run_cons_eq_some.mp hrun
      exact ih (h.2 s₁ ha) hrest

/-- The unrestricted form of `run_invariant`. -/
theorem run_invariant_all {I : σ → Prop}
    (hstep : ∀ {s a s'}, I s → step s a = some s' → I s')
    {as : List α} {s s' : σ} (hI : I s) (hrun : run step s as = some s') :
    I s' :=
  run_invariant (P := fun _ _ => True) (fun hI _ ha => hstep hI ha) hI
    (AllSteps.of_invariant (I := I) hstep (fun _ => trivial) hI) hrun

/-- A measure that no action raises and some take from: they are taken at most
so often. -/
theorem run_countP {I : σ → Prop} {rank : σ → ℕ} {b : α → Bool}
    (hstep : ∀ {s a s'}, I s → step s a = some s' →
      I s' ∧ (if b a then 1 else 0) + rank s' ≤ rank s) :
    ∀ {as : List α} {s s' : σ}, I s → run step s as = some s' →
      as.countP b + rank s' ≤ rank s := by
  intro as
  induction as with
  | nil =>
      intro s s' _ hrun
      cases hrun
      exact Nat.le_of_eq (Nat.zero_add _)
  | cons a rest ih =>
      intro s s' hI hrun
      obtain ⟨s₁, ha, hrest⟩ := run_cons_eq_some.mp hrun
      obtain ⟨hI₁, hone⟩ := hstep hI ha
      have hall := ih hI₁ hrest
      rw [List.countP_cons]
      omega

/-- What is seen along a run, where a step shows a list of things. -/
def observe {ω : Type*} (step : σ → α → Option σ) (obs : σ → α → List ω) :
    σ → List α → List ω
  | _, [] => []
  | s, a :: rest =>
      match step s a with
      | none => []
      | some s' => obs s a ++ observe step obs s' rest

section Observe

variable {ω : Type*} {obs : σ → α → List ω}

@[simp] theorem observe_nil (s : σ) : observe step obs s [] = [] := rfl

theorem observe_cons {s s' : σ} {a : α} (h : step s a = some s') (rest : List α) :
    observe step obs s (a :: rest) = obs s a ++ observe step obs s' rest := by
  rw [observe, h]

/-- A relation between the state and what was seen before it, if every step
that meets `P` keeps it, holds after every run whose steps all meet `P`. -/
theorem run_observed_of {I : σ → List ω → Prop}
    (hstep : ∀ {s s' : σ} {a : α} {seen : List ω}, I s seen → P s a → step s a = some s' →
      I s' (seen ++ obs s a)) :
    ∀ {as : List α} {s s' : σ} {seen : List ω}, I s seen → AllSteps step P s as →
      run step s as = some s' → I s' (seen ++ observe step obs s as) := by
  intro as
  induction as with
  | nil =>
      intro s s' seen hI _ hrun
      cases hrun
      rwa [observe_nil, List.append_nil]
  | cons a rest ih =>
      intro s s' seen hI hP hrun
      obtain ⟨s₁, ha, hrest⟩ := run_cons_eq_some.mp hrun
      rw [observe_cons ha, ← List.append_assoc]
      exact ih (hstep hI hP.1 ha) (hP.2 s₁ ha) hrest

/-- The unrestricted form. -/
theorem run_observed {I : σ → List ω → Prop}
    (hstep : ∀ {s s' : σ} {a : α} {seen : List ω}, I s seen → step s a = some s' →
      I s' (seen ++ obs s a))
    {as : List α} {s s' : σ} {seen : List ω} (hI : I s seen) (hrun : run step s as = some s') :
    I s' (seen ++ observe step obs s as) :=
  run_observed_of (P := fun _ _ => True) (fun hI _ ha => hstep hI ha) hI
    (AllSteps.of_invariant (I := fun _ => True) (fun _ _ => trivial) (fun _ => trivial) trivial)
    hrun

end Observe

end Runs

-- ===================================================== traces of calls

/-- Make a list of calls in a row and collect what they return; `none` when
one of them does not return. -/
def trace (exec : σ → α → Option (σ × β)) : σ → List α → Option (σ × List β)
  | s, [] => some (s, [])
  | s, a :: rest =>
      (exec s a).bind fun r =>
        (trace exec r.1 rest).map fun t => (t.1, r.2 :: t.2)

/-- A run of an abstract component: a step relation that may use the value
the call returned. -/
inductive SpecRun (A : μ → α → β → μ → Prop) :
    μ → List α → List β → μ → Prop
  | nil (m : μ) : SpecRun A m [] [] m
  | cons {m m' m'' : μ} {a : α} {b : β} {as : List α} {bs : List β} :
      A m a b m' → SpecRun A m' as bs m'' →
      SpecRun A m (a :: as) (b :: bs) m''

section Traces

variable {exec : σ → α → Option (σ × β)} {A : μ → α → β → μ → Prop}

@[simp] theorem trace_nil (s : σ) : trace exec s [] = some (s, []) := rfl

/-- A trace with a first call splits at the state that call leads to. -/
theorem trace_cons_of_some {s s' : σ} {a : α} {b : β} {rest : List α}
    (h : exec s a = some (s', b)) :
    trace exec s (a :: rest)
      = (trace exec s' rest).map fun t => (t.1, b :: t.2) := by
  rw [trace, h, Option.bind_some]

theorem trace_cons_eq_some {s s' : σ} {a : α} {rest : List α} {bs : List β} :
    trace exec s (a :: rest) = some (s', bs)
      ↔ ∃ s₁ b bs', exec s a = some (s₁, b)
          ∧ trace exec s₁ rest = some (s', bs') ∧ bs = b :: bs' := by
  constructor
  · intro htrace
    obtain ⟨⟨s₁, b⟩, ha, hmap⟩ := Option.bind_eq_some_iff.mp htrace
    obtain ⟨⟨s₂, bs'⟩, hrest, heq⟩ := Option.map_eq_some_iff.mp hmap
    obtain ⟨rfl, rfl⟩ := Prod.mk.inj heq
    exact ⟨s₁, b, bs', ha, hrest, rfl⟩
  · rintro ⟨s₁, b, bs', ha, hrest, rfl⟩
    rw [trace_cons_of_some ha, hrest]
    rfl

/-- Without the values a trace is a fold. -/
theorem trace_map_fst (s : σ) (as : List α) :
    (trace exec s as).map (·.1)
      = as.foldlM (fun s a => (exec s a).map (·.1)) s := by
  induction as generalizing s with
  | nil => rfl
  | cons a as ih =>
      rw [trace, List.foldlM_cons]
      cases hs : exec s a with
      | none => rfl
      | some r =>
          rw [Option.bind_some, Option.map_map, Option.map_some]
          exact ih r.1

/-- Traces compose. -/
theorem trace_append (s : σ) (as cs : List α) :
    trace exec s (as ++ cs)
      = (trace exec s as).bind fun r =>
          (trace exec r.1 cs).map fun t => (t.1, r.2 ++ t.2) := by
  induction as generalizing s with
  | nil =>
      rw [List.nil_append, trace_nil, Option.bind_some]
      exact Option.map_id'.symm
  | cons a as ih =>
      rw [List.cons_append, trace, trace]
      cases hs : exec s a with
      | none => rfl
      | some r =>
          rw [Option.bind_some, Option.bind_some, ih]
          cases trace exec r.1 as with
          | none => rfl
          | some t =>
              rw [Option.bind_some, Option.map_some, Option.bind_some,
                Option.map_map]
              rfl

/-- A step-by-step simulation carries over to whole traces: every call
returns, and the calls with what they returned are an abstract run. `V`
restricts the calls to the ones a caller may make. -/
theorem trace_simulates {R : σ → μ → Prop} {V : α → Prop}
    (hsim : ∀ {s m} (a : α), R s m → V a →
      ∃ s' b m', exec s a = some (s', b) ∧ A m a b m' ∧ R s' m') :
    ∀ {as : List α} {s : σ} {m : μ}, R s m → (∀ a ∈ as, V a) →
      ∃ s' bs m', trace exec s as = some (s', bs)
        ∧ SpecRun A m as bs m' ∧ R s' m' := by
  intro as
  induction as with
  | nil => intro s m hR _; exact ⟨s, [], m, rfl, .nil m, hR⟩
  | cons a rest ih =>
      intro s m hR hV
      obtain ⟨s₁, b, m₁, ha, hA, hR₁⟩ := hsim a hR (hV a List.mem_cons_self)
      obtain ⟨s', bs, m', hrest, hrun, hR'⟩ :=
        ih hR₁ fun x hx => hV x (List.mem_cons_of_mem _ hx)
      exact ⟨s', b :: bs, m', trace_cons_eq_some.mpr ⟨s₁, b, bs, ha, hrest, rfl⟩,
        .cons hA hrun, hR'⟩

end Traces

end Lts
