import Mathlib
import ChainIR.Program.Edit

/-! # What a step leads to

Edits of a program and steps along a line are functions on a state that may fail. `Step.Yields`
says that a step succeeds, and what then holds of its answer and of the state behind it;
`Step.Decides` that it succeeds or fails as a question has an answer or none, and
`Step.OnSuccess` only what holds if it succeeds. The equations here take a step apart into the
steps that it is made of. -/

namespace ChainIR.Step

universe u v

variable {σ ε α β : Type u}

/-! ## Steps applied to a state -/

/-- A pure step gives its answer and leaves the state alone. -/
@[simp] theorem pure_apply (answer : α) (state : σ) :
    (pure answer : StateT σ (Except ε) α) state = .ok (answer, state) := rfl

/-- A failed step gives no state. -/
@[simp] theorem throw_apply (error : ε) (state : σ) :
    (throw error : StateT σ (Except ε) α) state = .error error := rfl

@[simp] theorem get_apply (state : σ) :
    (get : StateT σ (Except ε) σ) state = .ok (state, state) := rfl

@[simp] theorem set_apply (state other : σ) :
    (set other : StateT σ (Except ε) PUnit) state = .ok (⟨⟩, other) := rfl

@[simp] theorem modify_apply (change : σ → σ) (state : σ) :
    (modify change : StateT σ (Except ε) PUnit) state = .ok (⟨⟩, change state) := rfl

/-- A step that has succeeded hands its answer and its state on. -/
theorem bind_of_ok {step : StateT σ (Except ε) α} {next : α → StateT σ (Except ε) β}
    {state middle : σ} {answer : α} (h : step state = .ok (answer, middle)) :
    (step >>= next) state = next answer middle := by
  show (step state >>= fun result => next result.1 result.2) = _
  rw [h]
  rfl

/-- A step that has failed ends the steps behind it. -/
theorem bind_of_error {step : StateT σ (Except ε) α} {next : α → StateT σ (Except ε) β}
    {state : σ} {error : ε} (h : step state = .error error) :
    (step >>= next) state = .error error := by
  show (step state >>= fun result => next result.1 result.2) = _
  rw [h]
  rfl

/-- Two steps in a row succeed exactly when both of them do. -/
theorem bind_eq_ok {step : StateT σ (Except ε) α} {next : α → StateT σ (Except ε) β}
    {state final : σ} {answer : β} :
    (step >>= next) state = .ok (answer, final) ↔
      ∃ first middle, step state = .ok (first, middle) ∧ next first middle = .ok (answer, final) := by
  cases h : step state with
  | error error => simp [bind_of_error h]
  | ok result =>
    obtain ⟨first, middle⟩ := result
    rw [bind_of_ok h]
    simp

/-- A step whose answer is dropped. -/
theorem drop_eq_ok {step : StateT σ (Except ε) α} {next : α → StateT σ (Except ε) PUnit}
    (hnext : ∀ answer, next answer = pure ⟨⟩) {state final : σ} {result : PUnit} :
    (step >>= next) state = .ok (result, final) ↔ ∃ answer, step state = .ok (answer, final) := by
  rw [bind_eq_ok]
  constructor
  · rintro ⟨answer, middle, hrun, hlast⟩
    obtain rfl : middle = final := by simpa [hnext] using hlast
    exact ⟨answer, hrun⟩
  · rintro ⟨answer, hrun⟩
    exact ⟨answer, final, hrun, by simp [hnext]⟩

/-! ## Steps that succeed -/

/-- A step succeeds from a state, with an answer and a state as described. -/
def Yields (step : StateT σ (Except ε) α) (state : σ) (post : α → σ → Prop) : Prop :=
  ∃ answer final, step state = .ok (answer, final) ∧ post answer final

namespace Yields

variable {step : StateT σ (Except ε) α} {next : α → StateT σ (Except ε) β} {state : σ}

/-- What a step yields may be weakened. -/
theorem mono {post weaker : α → σ → Prop} (h : Yields step state post)
    (weaken : ∀ answer final, post answer final → weaker answer final) :
    Yields step state weaker := by
  obtain ⟨answer, final, hrun, hpost⟩ := h
  exact ⟨answer, final, hrun, weaken answer final hpost⟩

/-- What a step yields holds of what it has led to. -/
theorem of_eq_ok {post : α → σ → Prop} (h : Yields step state post) {answer : α} {final : σ}
    (hrun : step state = .ok (answer, final)) : post answer final := by
  obtain ⟨answer', final', hrun', hpost⟩ := h
  obtain ⟨rfl, rfl⟩ : answer' = answer ∧ final' = final := by simpa [hrun'] using hrun
  exact hpost

/-- Steps in a row: the second starts from what the first yields. -/
theorem bind {middle : α → σ → Prop} {post : β → σ → Prop} (h : Yields step state middle)
    (hnext : ∀ answer between, middle answer between → Yields (next answer) between post) :
    Yields (step >>= next) state post := by
  obtain ⟨answer, between, hrun, hmiddle⟩ := h
  obtain ⟨result, final, hresult, hpost⟩ := hnext answer between hmiddle
  exact ⟨result, final, by rw [Step.bind_of_ok hrun, hresult], hpost⟩

/-- Steps in a row, the first of which is known to succeed. -/
theorem bind_of_ok {answer : α} {between : σ} {post : β → σ → Prop}
    (h : step state = .ok (answer, between)) (hnext : Yields (next answer) between post) :
    Yields (step >>= next) state post := by
  obtain ⟨result, final, hresult, hpost⟩ := hnext
  exact ⟨result, final, by rw [Step.bind_of_ok h, hresult], hpost⟩

/-- Looking at the state first. -/
theorem get {next : σ → StateT σ (Except ε) β} {post : β → σ → Prop}
    (h : Yields (next state) state post) :
    Yields ((MonadState.get : StateT σ (Except ε) σ) >>= next) state post := by
  obtain ⟨answer, final, hrun, hpost⟩ := h
  exact ⟨answer, final, by rw [Step.bind_of_ok (get_apply state), hrun], hpost⟩

/-- Changing the answer of a step. -/
theorem map {change : α → β} {post : β → σ → Prop}
    (h : Yields step state fun answer final => post (change answer) final) :
    Yields (change <$> step) state post := by
  rw [map_eq_pure_bind]
  exact h.bind fun answer final hpost => ⟨change answer, final, rfl, hpost⟩

/-- What a step with a changed answer yields. -/
theorem of_map {change : α → β} {post : α → σ → Prop} (h : Yields step state post) :
    Yields (change <$> step) state fun result final =>
      ∃ answer, result = change answer ∧ post answer final :=
  .map (h.mono fun answer _ hpost => ⟨answer, rfl, hpost⟩)

/-- A pure step yields its answer. -/
theorem pure {answer : α} {post : α → σ → Prop} (h : post answer state) :
    Yields (Pure.pure answer : StateT σ (Except ε) α) state post :=
  ⟨answer, state, rfl, h⟩

end Yields

/-! ## Steps that decide a question -/

/-- A step succeeds exactly if a question has an answer, and what then holds of the answer. -/
def Decides {ρ : Type v} (step : StateT σ (Except ε) α) (state : σ) (answer? : Option ρ)
    (post : ρ → α → σ → Prop) : Prop :=
  match answer? with
  | some answer => Yields step state (post answer)
  | none => ∃ error, step state = .error error

namespace Decides

variable {ρ : Type v} {step : StateT σ (Except ε) α} {next : α → StateT σ (Except ε) β}
  {state : σ} {answer? : Option ρ}

/-- The first of two steps decides, and the second succeeds. -/
theorem bind {middle : ρ → α → σ → Prop} {post : ρ → β → σ → Prop}
    (h : Decides step state answer? middle)
    (hnext : ∀ answer result between, answer? = some answer → middle answer result between →
      Yields (next result) between (post answer)) :
    Decides (step >>= next) state answer? post := by
  cases answer? with
  | some answer => exact Yields.bind h fun result between => hnext answer result between rfl
  | none =>
    obtain ⟨error, hrun⟩ := h
    exact ⟨error, bind_of_error hrun⟩

/-- Both of two steps decide, the second a question that the first answer raises. -/
theorem seq {ω : Type v} {question : ρ → Option ω} {middle : ρ → α → σ → Prop}
    {post : ω → β → σ → Prop} (h : Decides step state answer? middle)
    (hnext : ∀ answer result between, answer? = some answer → middle answer result between →
      Decides (next result) between (question answer) post) :
    Decides (step >>= next) state (answer?.bind question) post := by
  cases answer? with
  | some answer =>
    obtain ⟨result, between, hrun, hmiddle⟩ := h
    have hdecides := hnext answer result between rfl hmiddle
    rw [Option.bind_some]
    cases hquestion : question answer with
    | some other =>
      rw [hquestion] at hdecides
      exact Yields.bind_of_ok hrun hdecides
    | none =>
      rw [hquestion] at hdecides
      obtain ⟨error, herror⟩ := hdecides
      exact ⟨error, by rw [Step.bind_of_ok hrun, herror]⟩
  | none =>
    obtain ⟨error, hrun⟩ := h
    exact ⟨error, bind_of_error hrun⟩

/-- The first of two steps succeeds, and the second decides. -/
theorem after {middle : α → σ → Prop} {post : ρ → β → σ → Prop}
    (h : Yields step state middle)
    (hnext : ∀ result between, middle result between →
      Decides (next result) between answer? post) :
    Decides (step >>= next) state answer? post := by
  obtain ⟨result, between, hrun, hmiddle⟩ := h
  have hdecides := hnext result between hmiddle
  cases answer? with
  | some answer => exact Yields.bind_of_ok hrun hdecides
  | none =>
    obtain ⟨error, herror⟩ := hdecides
    exact ⟨error, by rw [bind_of_ok hrun, herror]⟩

/-- The first of two steps is known to succeed, and the second decides. -/
theorem bind_of_ok {result : α} {between : σ} {post : ρ → β → σ → Prop}
    (h : step state = .ok (result, between))
    (hnext : Decides (next result) between answer? post) :
    Decides (step >>= next) state answer? post :=
  have hrun : Yields step state fun other after => other = result ∧ after = between :=
    ⟨result, between, h, rfl, rfl⟩
  .after hrun fun _ _ hmiddle => by
    rw [hmiddle.1, hmiddle.2]
    exact hnext

/-- A step that succeeds decides a question that has an answer. -/
theorem of_yields {answer : ρ} {post : ρ → α → σ → Prop} (h : Yields step state (post answer)) :
    Decides step state (some answer) post := h

/-- Changing the answer. -/
theorem map {ω : Type v} {change : ρ → ω} {post : ω → α → σ → Prop}
    (h : Decides step state answer? fun answer => post (change answer)) :
    Decides step state (answer?.map change) post := by
  cases answer? <;> exact h

/-- What holds of the answer may be weakened. -/
theorem mono {post weaker : ρ → α → σ → Prop} (h : Decides step state answer? post)
    (weaken : ∀ answer result final, answer? = some answer → post answer result final →
      weaker answer result final) : Decides step state answer? weaker := by
  cases answer? with
  | some answer => exact Yields.mono h fun result final => weaken answer result final rfl
  | none => exact h

end Decides

/-! ## What holds if a step succeeds -/

/-- What holds of the answer of a step and of the state behind it, if it succeeds. -/
def OnSuccess (step : StateT σ (Except ε) α) (state : σ) (post : α → σ → Prop) : Prop :=
  ∀ answer final, step state = .ok (answer, final) → post answer final

namespace OnSuccess

variable {step : StateT σ (Except ε) α} {next : α → StateT σ (Except ε) β} {state : σ}

/-- What holds on success may be weakened. -/
theorem mono {post weaker : α → σ → Prop} (h : OnSuccess step state post)
    (weaken : ∀ answer final, post answer final → weaker answer final) :
    OnSuccess step state weaker :=
  fun answer final hrun => weaken answer final (h answer final hrun)

/-- Steps in a row: the second starts from what holds behind the first. -/
theorem bind {middle : α → σ → Prop} {post : β → σ → Prop} (h : OnSuccess step state middle)
    (hnext : ∀ answer between, middle answer between → OnSuccess (next answer) between post) :
    OnSuccess (step >>= next) state post := by
  intro answer final hrun
  obtain ⟨first, between, hfirst, hlast⟩ := bind_eq_ok.1 hrun
  exact hnext first between (h first between hfirst) answer final hlast

/-- Steps in a row, whatever the first of them leads to. -/
theorem seq {post : β → σ → Prop}
    (hnext : ∀ answer between, OnSuccess (next answer) between post) :
    OnSuccess (step >>= next) state post := by
  intro answer final hrun
  obtain ⟨first, between, -, hlast⟩ := bind_eq_ok.1 hrun
  exact hnext first between answer final hlast

/-- Steps in a row, the first of which is known to succeed. -/
theorem bind_of_ok {answer : α} {between : σ} {post : β → σ → Prop}
    (h : step state = .ok (answer, between)) (hnext : OnSuccess (next answer) between post) :
    OnSuccess (step >>= next) state post := by
  intro result final hrun
  rw [Step.bind_of_ok h] at hrun
  exact hnext result final hrun

/-- Looking at the state first. -/
theorem get {next : σ → StateT σ (Except ε) β} {post : β → σ → Prop}
    (h : OnSuccess (next state) state post) :
    OnSuccess ((MonadState.get : StateT σ (Except ε) σ) >>= next) state post :=
  bind_of_ok (get_apply state) h

/-- What holds behind a step with a changed answer. -/
theorem of_map {change : α → β} {post : α → σ → Prop} (h : OnSuccess step state post) :
    OnSuccess (change <$> step) state fun result final =>
      ∃ answer, result = change answer ∧ post answer final := by
  rw [map_eq_pure_bind]
  refine h.bind fun answer between hpost result final hrun => ?_
  obtain ⟨rfl, rfl⟩ : change answer = result ∧ between = final := by simpa using hrun
  exact ⟨answer, rfl, hpost⟩

/-- A pure step succeeds with its answer. -/
theorem pure {answer : α} {post : α → σ → Prop} (h : post answer state) :
    OnSuccess (Pure.pure answer : StateT σ (Except ε) α) state post := by
  intro result final hrun
  obtain ⟨rfl, rfl⟩ : answer = result ∧ state = final := by simpa using hrun
  exact h

/-- A step that fails has no success. -/
theorem of_error {error : ε} {post : α → σ → Prop} (h : step state = .error error) :
    OnSuccess step state post := by
  intro answer final hrun
  exact absurd (h.symm.trans hrun) (by simp)

end OnSuccess

/-- Whether a step succeeds and leads to a state that passes a test. -/
def leadsTo (step : StateT σ (Except ε) α) (state : σ) (test : σ → Bool) : Bool :=
  match step state with
  | .ok result => test result.2
  | .error _ => false

/-- A step that leads to a state has succeeded. -/
theorem exists_of_leadsTo {step : StateT σ (Except ε) α} {state : σ} {test : σ → Bool}
    (h : leadsTo step state test) :
    ∃ answer final, step state = .ok (answer, final) ∧ test final := by
  rw [leadsTo] at h
  split at h
  · next result hrun => exact ⟨result.1, result.2, hrun, h⟩
  · exact absurd h Bool.false_ne_true

end ChainIR.Step

/-! ## Questions to a program -/

namespace ChainIR.Program

/-- An entry has to be there, and it is, exactly when it is found. -/
@[simp] theorem found_eq_ok {α : Type} {stored? : Option α} {entry : α} :
    found stored? = .ok entry ↔ stored? = some entry := by
  cases stored? <;> simp [found]

/-- A query that uses the answer to another one succeeds exactly when both do. -/
theorem query_bind_eq_ok {α β ε : Type} {query : Except ε α} {next : α → Except ε β} {answer : β} :
    (query >>= next) = .ok answer ↔ ∃ middle, query = .ok middle ∧ next middle = .ok answer := by
  cases query <;> simp [bind, Except.bind]

end ChainIR.Program

namespace ChainIR.Edit

variable {α : Type}

/-- A question is answered without a change of the program. -/
theorem ask_of_ok {query : Program → Except Fault α} {program : Program} {answer : α}
    (h : query program = .ok answer) : ask query program = .ok (answer, program) := by
  rw [ask, h]
  rfl

/-- A question succeeds exactly when it has an answer. -/
theorem ask_eq_ok {query : Program → Except Fault α} {program final : Program} {answer : α} :
    ask query program = .ok (answer, final) ↔ query program = .ok answer ∧ final = program := by
  rw [ask]
  cases query program <;> simp [Except.map, eq_comm]

/-- Questions about the elements of a list are answered one by one. -/
theorem mapM_ask_of_ok {β : Type} {query : β → Program → Except Fault α} {program : Program}
    {items : List β} {answers : List α}
    (h : List.Forall₂ (fun item answer => query item program = .ok answer) items answers) :
    (items.mapM fun item => ask (query item)) program = .ok (answers, program) := by
  induction h with
  | nil => rfl
  | cons hfirst _ ih =>
    rw [List.mapM_cons, Step.bind_of_ok (ask_of_ok hfirst), Step.bind_of_ok ih]
    rfl

/-- Whoever has answered questions about a list has answered each of them. -/
theorem forall₂_of_mapM_ask {β : Type} {query : β → Program → Except Fault α}
    {program final : Program} {items : List β} {answers : List α}
    (h : (items.mapM fun item => ask (query item)) program = .ok (answers, final)) :
    List.Forall₂ (fun item answer => query item program = .ok answer) items answers ∧
      final = program := by
  induction items generalizing answers final with
  | nil =>
    obtain ⟨rfl, rfl⟩ : answers = [] ∧ final = program := by simpa [eq_comm] using h
    exact ⟨.nil, rfl⟩
  | cons item items ih =>
    rw [List.mapM_cons, Step.bind_eq_ok] at h
    obtain ⟨first, middle, hfirst, hothers⟩ := h
    obtain ⟨hanswer, rfl⟩ := ask_eq_ok.1 hfirst
    obtain ⟨rest, after, hrest, hlist⟩ := Step.bind_eq_ok.1 hothers
    obtain ⟨hanswers, rfl⟩ := ih hrest
    obtain ⟨rfl, rfl⟩ : first :: rest = answers ∧ after = final := by simpa using hlist
    exact ⟨.cons hanswer hanswers, rfl⟩

end ChainIR.Edit
