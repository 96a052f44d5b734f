import Mathlib.Order.Basic

/-!
# Programs over a state

A program of `EStateM` fails or returns, and keeps the state it reached in either case. `Costs`
is a rule-based way to say what running it does to the state: a family `R n` of relations says
what a run of cost at most `n` may do, and the cost of a run depends on how it ended. A program
is then taken apart along its own structure, one rule for each construct.
-/
namespace Coaptic.Program

variable {σ ε α β : Type}

section

variable (p : EStateM ε σ α)

/-- Outcome of a run, and the state it leaves behind. -/
def exec (s : σ) : Except ε α × σ :=
  match p s with
  | .ok a s => (.ok a, s)
  | .error e s => (.error e, s)

/-- Run `p` and hand its outcome on instead of failing. -/
def attempt : EStateM ε σ (Except ε α) := fun s =>
  match p s with
  | .ok a s => .ok (.ok a) s
  | .error e s => .ok (.error e) s

@[simp] theorem exec_pure (a : α) (s : σ) : exec (pure a : EStateM ε σ α) s = (.ok a, s) := rfl

@[simp] theorem exec_throw (e : ε) (s : σ) : exec (throw e : EStateM ε σ α) s = (.error e, s) := rfl

@[simp] theorem exec_get (s : σ) : exec (get : EStateM ε σ σ) s = (.ok s, s) := rfl

@[simp] theorem exec_set (t s : σ) : exec (set t : EStateM ε σ PUnit) s = (.ok ⟨⟩, t) := rfl

@[simp] theorem exec_modify (f : σ → σ) (s : σ) :
    exec (modify f : EStateM ε σ PUnit) s = (.ok ⟨⟩, f s) := rfl

@[simp] theorem exec_modifyGet (f : σ → α × σ) (s : σ) :
    exec (modifyGet f : EStateM ε σ α) s = (.ok (f s).1, (f s).2) := rfl

theorem exec_bind (f : α → EStateM ε σ β) (s : σ) : exec (p >>= f) s =
      match exec p s with
      | (.ok a, s) => exec (f a) s
      | (.error e, s) => (.error e, s) := by
  change exec (EStateM.bind p f) s = _
  unfold exec EStateM.bind
  cases p s with
  | ok a s => rfl
  | error e s => rfl

end

variable {p : EStateM ε σ α} {f : α → EStateM ε σ β} {s s' : σ}

theorem exec_bind_ok {a : α} (h : exec p s = (.ok a, s')) : exec (p >>= f) s = exec (f a) s' := by
  rw [exec_bind, h]

theorem exec_bind_error {e : ε} (h : exec p s = (.error e, s')) :
    exec (p >>= f) s = (.error e, s') := by
  rw [exec_bind, h]

@[simp] theorem exec_get_bind (f : σ → EStateM ε σ β) (s : σ) :
    exec (get >>= f) s = exec (f s) s := rfl

@[simp] theorem exec_attempt (p : EStateM ε σ α) (s : σ) :
    exec (attempt p) s = (.ok (exec p s).1, (exec p s).2) := by
  unfold exec attempt
  cases p s with
  | ok a s => rfl
  | error e s => rfl

/-- What relations of a given cost must satisfy for costs to add up along a program. -/
structure Ledger (R : Nat → σ → σ → Prop) : Prop where
  refl : ∀ s, R 0 s s
  trans : ∀ {m n s t u}, R m s t → R n t u → R (m + n) s u
  mono : ∀ {m n s t}, m ≤ n → R m s t → R n s t

attribute [class] Ledger

/-- What keeps an invariant costs nothing and adds up. -/
instance Ledger.ofInvariant (Inv : σ → Prop) : Ledger fun _ s t => Inv s → Inv t where
  refl _ := id
  trans h h' := h' ∘ h
  mono _ h := h

/-- Nothing is asked of the steps themselves. -/
instance Ledger.trivial : Ledger fun _ (_ _ : σ) => True where
  refl _ := True.intro
  trans _ _ := True.intro
  mono _ _ := True.intro

/-- One step of a run, when what follows depends on the state the step was taken in. -/
theorem Ledger.step {R : Nat → σ → σ → Prop} (led : Ledger R) (hp : R 0 s (exec p s).2)
    (hf : ∀ a t, exec p s = (.ok a, t) → R 0 t (exec (f a) t).2) :
    R 0 s (exec (p >>= f) s).2 := by
  rw [exec_bind]
  generalize reached : exec p s = r at hp
  obtain ⟨outcome | a, t⟩ := r
  · exact hp
  · exact led.trans hp (hf a t reached)

/-- Every run of `p` costs at most what `cost` gives for its outcome. -/
def Costs (R : Nat → σ → σ → Prop) (p : EStateM ε σ α) (cost : Except ε α → Nat) : Prop :=
  ∀ s, R (cost (exec p s).1) s (exec p s).2

namespace Costs

variable {R : Nat → σ → σ → Prop} {p : EStateM ε σ α} {f : α → EStateM ε σ β}

theorem get_bind {f : σ → EStateM ε σ β} (hf : ∀ s, Costs R (f s) fun _ => 0) :
    Costs R (get >>= f) fun _ => 0 :=
  fun s => hf s s

theorem attempt (h : Costs R p fun _ => 0) : Costs R (Program.attempt p) fun _ => 0 := by
  intro s
  rw [exec_attempt]
  exact h s

theorem ite {c : Prop} [Decidable c] {q : EStateM ε σ α} (hp : Costs R p fun _ => 0)
    (hq : Costs R q fun _ => 0) : Costs R (if c then p else q) fun _ => 0 := by
  split
  · exact hp
  · exact hq

variable [led : Ledger R]

theorem pure (a : α) : Costs R (Pure.pure a : EStateM ε σ α) fun _ => 0 := led.refl

theorem throw (e : ε) : Costs R (MonadExceptOf.throw e : EStateM ε σ α) fun _ => 0 := led.refl

theorem bind (hp : Costs R p fun _ => 0) (hf : ∀ a, Costs R (f a) fun _ => 0) :
    Costs R (p >>= f) fun _ => 0 :=
  fun s => led.step (hp s) fun a t _ => hf a t

theorem forM {items : List α} {body : α → EStateM ε σ PUnit} (h : ∀ a, Costs R (body a) fun _ => 0) :
    Costs R (items.forM body) fun _ => 0 := by
  induction items with
  | nil => exact pure _
  | cons a items ih => exact (h a).bind fun _ => ih

end Costs

/-! ### Preconditions, and what is known afterwards -/

/-- From a state that meets `pre`, a run of `p` costs at most `n`, and `post` holds of the outcome
and the state it leaves behind. -/
def Runs (R : Nat → σ → σ → Prop) (pre : σ → Prop) (p : EStateM ε σ α) (n : Nat)
    (post : Except ε α → σ → Prop) : Prop :=
  ∀ s, pre s → R n s (exec p s).2 ∧ post (exec p s).1 (exec p s).2

namespace Runs

variable {R : Nat → σ → σ → Prop} {pre : σ → Prop} {p : EStateM ε σ α}
  {f : α → EStateM ε σ β} {m n : Nat} {post : Except ε α → σ → Prop}

variable [led : Ledger R]

theorem pure (a : α) (holds : ∀ s, pre s → post (.ok a) s) :
    Runs R pre (Pure.pure a : EStateM ε σ α) 0 post :=
  fun s h => ⟨led.refl s, holds s h⟩

theorem throw (e : ε) (holds : ∀ s, pre s → post (.error e) s) :
    Runs R pre (MonadExceptOf.throw e : EStateM ε σ α) 0 post :=
  fun s h => ⟨led.refl s, holds s h⟩

variable {second : Except ε β → σ → Prop}

/-- Sequencing: what is known after `p` is what the rest may assume. -/
theorem bind (hp : Runs R pre p m post)
    (hf : ∀ a, Runs R (post (.ok a)) (f a) n second)
    (fails : ∀ e s, post (.error e) s → second (.error e) s) :
    Runs R pre (p >>= f) (m + n) second := by
  intro s holds
  have head := hp s holds
  rw [exec_bind]
  generalize exec p s = reached at head
  obtain ⟨e | a, t⟩ := reached
  · exact ⟨led.mono (Nat.le_add_right m n) head.1, fails e t head.2⟩
  · obtain ⟨cost, after⟩ := hf a t head.2
    exact ⟨led.trans head.1 cost, after⟩

/-- What follows may go on from either outcome. -/
theorem attempt_bind {f : Except ε α → EStateM ε σ β} (hp : Runs R pre p m post)
    (hf : ∀ outcome, Runs R (post outcome) (f outcome) n second) :
    Runs R pre (Program.attempt p >>= f) (m + n) second := by
  intro s holds
  have head := hp s holds
  rw [exec_bind, exec_attempt]
  obtain ⟨cost, after⟩ := hf _ _ head.2
  exact ⟨led.trans head.1 cost, after⟩

end Runs

/-! ### One condition for failures -/

/-- From a state that meets `pre`, `post` holds if `p` returns, and `fails` if it does not. -/
abbrev Ensures (fails pre : σ → Prop) (p : EStateM ε σ α) (post : α → σ → Prop) : Prop :=
  Runs (fun _ _ _ => True) pre p 0 fun
    | .ok a => post a
    | .error _ => fails

namespace Ensures

variable {fails pre : σ → Prop} {p : EStateM ε σ α} {post : α → σ → Prop}
  {f : α → EStateM ε σ β} {last : β → σ → Prop}

theorem bind (hp : Ensures fails pre p post) (hf : ∀ a, Ensures fails (post a) (f a) last) :
    Ensures fails pre (p >>= f) last :=
  Runs.bind (n := 0) hp hf fun _ _ failed => failed

theorem pure (a : α) (holds : ∀ s, pre s → post a s) :
    Ensures fails pre (Pure.pure a : EStateM ε σ α) post :=
  fun s h => ⟨trivial, holds s h⟩

theorem throw (e : ε) (holds : ∀ s, pre s → fails s) :
    Ensures fails pre (MonadExceptOf.throw e : EStateM ε σ α) post :=
  fun s h => ⟨trivial, holds s h⟩

theorem modify {g : σ → σ} {after : σ → Prop} (holds : ∀ s, pre s → after (g s)) :
    Ensures fails pre (modifyGet fun s => (PUnit.unit, g s) : EStateM ε σ PUnit) fun _ => after :=
  fun s h => ⟨trivial, holds s h⟩

theorem modify_bind {g : σ → σ} {q : σ → Prop} {k : PUnit → EStateM ε σ β}
    (holds : ∀ s, pre s → q (g s)) (hk : Ensures fails q (k ⟨⟩) last) :
    Ensures fails pre (modifyGet (fun s => (PUnit.unit, g s)) >>= k) last :=
  (modify holds).bind fun _ => hk

/-- What holds before and after the program, whether it returns or fails. -/
theorem keeping (holds : ∀ s, pre s → pre (exec p s).2) (weaker : ∀ s, pre s → fails s) :
    Ensures fails pre p fun _ => pre := by
  intro s h
  refine ⟨trivial, ?_⟩
  cases (exec p s).1 with
  | ok a => exact holds s h
  | error e => exact weaker _ (holds s h)

/-- A program that goes on from the state it reads. -/
theorem get_bind {f : σ → EStateM ε σ β} (hf : ∀ s, pre s → Ensures fails (fun t => t = s) (f s) last) :
    Ensures fails pre (MonadState.get >>= f) last := by
  intro s h
  rw [exec_get_bind]
  exact hf s h s rfl

theorem start (h : Ensures fails pre p post) (holds : pre s) :
    Ensures fails (fun t => t = s) p post := by
  rintro _ rfl
  exact h _ holds

theorem ite {c : Prop} [Decidable c] {q : EStateM ε σ α} (hp : c → Ensures fails pre p post)
    (hq : ¬ c → Ensures fails pre q post) : Ensures fails pre (if c then p else q) post := by
  split
  next h => exact hp h
  next h => exact hq h

/-- The state it leaves, when both ways out are alike. -/
theorem either (hp : Ensures fails pre p fun _ => fails) (holds : pre s) : fails (exec p s).2 := by
  have after := (hp s holds).2
  cases outcome : (exec p s).1 with
  | ok a => rw [outcome] at after; exact after
  | error e => rw [outcome] at after; exact after

end Ensures

end Coaptic.Program
