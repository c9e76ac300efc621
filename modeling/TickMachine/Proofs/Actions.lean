import TickMachine.Engine

/-!
# How actions end

An action of the engine either returns a value, perhaps with the engine changed, or fails with a
cause.  `Exec.Returns` and `Exec.Fails` say which of the two happens, and are computed along the
way an action is put together: a sequence returns if both its parts return, one after the other,
and fails if the first part fails, or the second after the first.

* `returns_bind`, `fails_bind`   sequences;
* `returns_ensure`, `fails_ensure`, ...   one pair of lemmas for every action that instructions
                       are made of, so that no other proof opens an action again.
-/

namespace TickMachine

variable {σ : Type}

namespace Exec

variable {α β : Type}

def outcome (x : Exec σ α) (e : Engine σ) : Except Cause α × Engine σ := x.run e

/-- The action succeeds on `e` with the value `a` and leaves `e'`. -/
def Returns (x : Exec σ α) (e : Engine σ) (a : α) (e' : Engine σ) : Prop :=
  x.outcome e = (.ok a, e')

def Fails (x : Exec σ α) (e : Engine σ) (c : Cause) : Prop := (x.outcome e).1 = .error c

theorem outcome_bind (x : Exec σ α) (f : α → Exec σ β) (e : Engine σ) :
    (x >>= f).outcome e = match x.outcome e with
      | (.ok a, e') => (f a).outcome e'
      | (.error c, e') => (.error c, e') := by
  show ExceptT.bindCont f (x.outcome e).1 (x.outcome e).2 = _
  rcases x.outcome e with ⟨r, e'⟩
  cases r with
  | ok a => rfl
  | error c => rfl

section
variable {e e' : Engine σ} {c : Cause}

@[simp] theorem returns_bind {x : Exec σ α} {f : α → Exec σ β} {b : β} :
    Returns (x >>= f) e b e' ↔ ∃ a e₁, Returns x e a e₁ ∧ Returns (f a) e₁ b e' := by
  unfold Returns
  rw [outcome_bind]
  rcases x.outcome e with ⟨r, e₁⟩
  cases r with
  | ok a => simp [and_assoc]
  | error c => simp

@[simp] theorem fails_bind {x : Exec σ α} {f : α → Exec σ β} :
    Fails (x >>= f) e c ↔ Fails x e c ∨ ∃ a e₁, Returns x e a e₁ ∧ Fails (f a) e₁ c := by
  unfold Fails Returns
  rw [outcome_bind]
  rcases x.outcome e with ⟨r, e₁⟩
  cases r with
  | ok a => simp [and_assoc]
  | error c => simp

@[simp] theorem returns_map {x : Exec σ α} {f : α → β} {b : β} :
    Returns (f <$> x) e b e' ↔ ∃ a, Returns x e a e' ∧ b = f a := by
  rw [← bind_pure_comp, returns_bind]
  constructor
  · rintro ⟨a, e₁, hx, hb⟩
    cases hb
    exact ⟨a, hx, rfl⟩
  · rintro ⟨a, hx, rfl⟩
    exact ⟨a, e', hx, rfl⟩

@[simp] theorem fails_map {x : Exec σ α} {f : α → β} : Fails (f <$> x) e c ↔ Fails x e c := by
  rw [← bind_pure_comp, fails_bind, or_iff_left]
  rintro ⟨a, e₁, -, h⟩
  cases h

@[simp] theorem returns_pure {a b : α} :
    Returns (pure a : Exec σ α) e b e' ↔ b = a ∧ e' = e := by
  show (Except.ok a, e) = (Except.ok b, e') ↔ _
  simp [eq_comm]

@[simp] theorem fails_pure {a : α} : Fails (pure a : Exec σ α) e c ↔ False := by
  show Except.ok a = Except.error c ↔ _
  simp

@[simp] theorem returns_throw {d : Cause} {a : α} :
    Returns (throw d : Exec σ α) e a e' ↔ False := by
  show (Except.error d, e) = (Except.ok a, e') ↔ _
  simp

@[simp] theorem fails_throw {d : Cause} : Fails (throw d : Exec σ α) e c ↔ c = d := by
  show Except.error d = Except.error c ↔ _
  simp [eq_comm]

@[simp] theorem returns_ite {P : Prop} [Decidable P] {x y : Exec σ α} {a : α} :
    Returns (if P then x else y) e a e' ↔ (P ∧ Returns x e a e') ∨ (¬ P ∧ Returns y e a e') := by
  by_cases h : P <;> simp [h]

@[simp] theorem fails_ite {P : Prop} [Decidable P] {x y : Exec σ α} :
    Fails (if P then x else y) e c ↔ (P ∧ Fails x e c) ∨ (¬ P ∧ Fails y e c) := by
  by_cases h : P <;> simp [h]

/-! ### reading and changing the engine -/

@[simp] theorem returns_image {img : Image} : Returns image e img e' ↔ img = e.image ∧ e' = e := by
  show (Except.ok e.image, e) = (Except.ok img, e') ↔ _
  simp [eq_comm]

@[simp] theorem fails_image : Fails image e c ↔ False := by
  show Except.ok e.image = Except.error c ↔ _
  simp

@[simp] theorem returns_thread {t : Thread} :
    Returns thread e t e' ↔ t = e.thread ∧ e' = e := by
  show (Except.ok e.thread, e) = (Except.ok t, e') ↔ _
  simp [eq_comm]

@[simp] theorem fails_thread : Fails thread e c ↔ False := by
  show Except.ok e.thread = Except.error c ↔ _
  simp

@[simp] theorem returns_modifyThread {f : Thread → Thread} {u : Unit} :
    Returns (modifyThread f) e u e' ↔ e' = { e with thread := f e.thread } := by
  show (Except.ok (), { e with thread := f e.thread }) = (Except.ok u, e') ↔ _
  simp [eq_comm]

@[simp] theorem fails_modifyThread {f : Thread → Thread} : Fails (modifyThread f) e c ↔ False := by
  show Except.ok () = Except.error c ↔ _
  simp

@[simp] theorem returns_modifyImage {f : Image → Image} {u : Unit} :
    Returns (modifyImage f) e u e' ↔ e' = { e with image := f e.image } := by
  show (Except.ok (), { e with image := f e.image }) = (Except.ok u, e') ↔ _
  simp [eq_comm]

@[simp] theorem fails_modifyImage {f : Image → Image} : Fails (modifyImage f) e c ↔ False := by
  show Except.ok () = Except.error c ↔ _
  simp

@[simp] theorem returns_proceed {pc : Nat} {o : Outcome} :
    Returns (proceed pc) e o e' ↔ o = .running ∧ e' = { e with thread := e.thread.jump pc } := by
  simp [proceed, and_comm]

@[simp] theorem fails_proceed {pc : Nat} : Fails (proceed pc) e c ↔ False := by
  simp [proceed]

/-! ### checks -/

@[simp] theorem returns_ensure {n : Nat} {u : Unit} :
    Returns (ensure n) e u e' ↔ e.thread.fp + n ≤ e.thread.sp ∧ e' = e := by
  simp [ensure, and_assoc]

@[simp] theorem fails_ensure {n : Nat} :
    Fails (ensure n) e c ↔ e.thread.sp < e.thread.fp + n ∧ c = .stackUnderflow := by
  simp [ensure]

@[simp] theorem returns_push {v : Value} {u : Unit} :
    Returns (push v) e u e' ↔
      e.thread.sp < stackSize ∧ e' = { e with thread := e.thread.push v } := by
  simp [push, and_assoc]

@[simp] theorem fails_push {v : Value} :
    Fails (push v) e c ↔
      stackSize ≤ e.thread.sp ∧ c = .exhausted .operandStack (e.thread.sp + 1) stackSize := by
  simp [push]

@[simp] theorem returns_routine {i : Nat} {r : Routine} :
    Returns (routine i) e r e' ↔ e.image.routine? i = some r ∧ e' = e := by
  cases h : e.image.routine? i <;> simp [routine, h, and_assoc, eq_comm]

@[simp] theorem fails_routine {i : Nat} :
    Fails (routine i) e c ↔ e.image.routine? i = none ∧ c = .unknownRoutine i := by
  cases h : e.image.routine? i <;> simp [routine, h, and_assoc]

@[simp] theorem returns_currentIndex {i : Nat} :
    Returns currentIndex e i e' ↔ e.thread.routine = some i ∧ e' = e := by
  cases h : e.thread.routine <;> simp [currentIndex, h, and_assoc, eq_comm]

@[simp] theorem fails_currentIndex :
    Fails currentIndex e c ↔ e.thread.routine = none ∧ c = .noActiveRoutine := by
  cases h : e.thread.routine <;> simp [currentIndex, h, and_assoc]

end
end Exec

/-- The thread is in routine `i`, whose record is `r`. -/
def Engine.Runs (e : Engine σ) (i : Nat) (r : Routine) : Prop :=
  e.thread.routine = some i ∧ e.image.routine? i = some r

/-- The thread is in no routine of the image. -/
def Engine.Lost (e : Engine σ) (c : Cause) : Prop :=
  (e.thread.routine = none ∧ c = .noActiveRoutine) ∨
    ∃ i, e.thread.routine = some i ∧ e.image.routine? i = none ∧ c = .unknownRoutine i

theorem Engine.Runs.not_lost {e : Engine σ} {i : Nat} {r : Routine} {c : Cause} (hr : e.Runs i r) :
    ¬ e.Lost c := by
  rintro (⟨hn, -⟩ | ⟨j, hj, hn, -⟩)
  · rw [hr.1] at hn
    cases hn
  · rw [hr.1, Option.some.injEq] at hj
    rw [← hj, hr.2] at hn
    cases hn

theorem Engine.Runs.unique {e : Engine σ} {i j : Nat} {r s : Routine} (hr : e.Runs i r)
    (hs : e.Runs j s) : i = j ∧ r = s := by
  obtain ⟨hi, hr⟩ := hr
  obtain ⟨hj, hs⟩ := hs
  rw [hi, Option.some.injEq] at hj
  subst hj
  rw [hr, Option.some.injEq] at hs
  exact ⟨rfl, hs⟩

namespace Exec

section
variable {e e' : Engine σ} {c : Cause}

@[simp] theorem returns_current {r : Routine} :
    Returns current e r e' ↔ (∃ i, e.Runs i r) ∧ e' = e := by
  simp only [current, returns_bind, returns_currentIndex, returns_routine]
  constructor
  · rintro ⟨i, e₁, ⟨hi, rfl⟩, hr, rfl⟩
    exact ⟨⟨i, hi, hr⟩, rfl⟩
  · rintro ⟨⟨i, hi, hr⟩, rfl⟩
    exact ⟨i, e', ⟨hi, rfl⟩, hr, rfl⟩

@[simp] theorem fails_current : Fails current e c ↔ e.Lost c := by
  simp [current, Engine.Lost, and_assoc]

@[simp] theorem returns_localSlot {k slot : Nat} :
    Returns (localSlot k) e slot e' ↔
      (∃ i r, e.Runs i r ∧ k < r.frameSize) ∧ e.thread.fp + k < stackSize ∧
        slot = e.thread.fp + k ∧ e' = e := by
  have h : Returns (localSlot k) e slot e' ↔ ∃ r, (∃ i, e.Runs i r) ∧ k < r.frameSize ∧
      e.thread.fp + k < stackSize ∧ slot = e.thread.fp + k ∧ e' = e := by
    simp [localSlot, and_assoc]
  rw [h]
  constructor
  · rintro ⟨r, ⟨i, hr⟩, hk, rest⟩
    exact ⟨⟨i, r, hr, hk⟩, rest⟩
  · rintro ⟨⟨i, r, hr, hk⟩, rest⟩
    exact ⟨r, ⟨i, hr⟩, hk, rest⟩

@[simp] theorem fails_localSlot {k : Nat} :
    Fails (localSlot k) e c ↔
      e.Lost c ∨ ∃ i r, e.Runs i r ∧ (r.frameSize ≤ k ∨ stackSize ≤ e.thread.fp + k) ∧
        c = .localOutOfRange k r.frameSize := by
  have h : Fails (localSlot k) e c ↔ e.Lost c ∨ ∃ r, (∃ i, e.Runs i r) ∧
      (r.frameSize ≤ k ∨ stackSize ≤ e.thread.fp + k) ∧ c = .localOutOfRange k r.frameSize := by
    simp [localSlot, and_assoc]
  rw [h]
  constructor
  · rintro (lost | ⟨r, ⟨i, hr⟩, rest⟩)
    · exact .inl lost
    · exact .inr ⟨i, r, hr, rest⟩
  · rintro (lost | ⟨i, r, hr, rest⟩)
    · exact .inl lost
    · exact .inr ⟨r, ⟨i, hr⟩, rest⟩

@[simp] theorem returns_jumpTarget {next target : Nat} {d : Value} :
    Returns (jumpTarget next d) e target e' ↔ (target : Int) = next + d.toInt ∧ e' = e := by
  simp only [jumpTarget, returns_ite, returns_throw, returns_pure, and_false, false_or]
  rw [← and_assoc]
  refine and_congr_left fun _ => ?_
  omega

@[simp] theorem fails_jumpTarget {next : Nat} {d : Value} :
    Fails (jumpTarget next d) e c ↔
      (next : Int) + d.toInt < 0 ∧ c = .jumpOutOfRange (next + d.toInt) := by
  simp [jumpTarget]

@[simp] theorem returns_getGlobal {k : Nat} {v : Value} :
    Returns (getGlobal k) e v e' ↔ e.image.global? k = some v ∧ e' = e := by
  cases h : e.image.global? k <;> simp [getGlobal, h, and_assoc, eq_comm]

@[simp] theorem fails_getGlobal {k : Nat} :
    Fails (getGlobal k) e c ↔
      e.image.global? k = none ∧ c = .globalOutOfRange k e.image.globalCount := by
  cases h : e.image.global? k <;> simp [getGlobal, h, and_assoc]

@[simp] theorem returns_setGlobal {k : Nat} {v : Value} {u : Unit} :
    Returns (setGlobal k v) e u e' ↔
      k < e.image.globalCount ∧ e' = { e with image := e.image.setGlobal k v } := by
  rcases Nat.lt_or_ge k e.image.globalCount with hk | hk
  · simp [setGlobal, Image.setGlobal?_of_lt _ v hk, hk, and_assoc]
  · simp [setGlobal, Image.setGlobal?_of_le _ v hk, Nat.not_lt.mpr hk]

@[simp] theorem fails_setGlobal {k : Nat} {v : Value} :
    Fails (setGlobal k v) e c ↔
      e.image.globalCount ≤ k ∧ c = .globalOutOfRange k e.image.globalCount := by
  rcases Nat.lt_or_ge k e.image.globalCount with hk | hk
  · simp [setGlobal, Image.setGlobal?_of_lt _ v hk, Nat.not_le.mpr hk]
  · simp [setGlobal, Image.setGlobal?_of_le _ v hk, hk, and_assoc]

end
end Exec

end TickMachine
