import Mathlib.Data.List.Forall2
import Rigging.Act

/-!
# Laws of actions

How an action in sequence ends: the first part decides which state the second one sees, and an
error of the first part ends the whole.  The small steps (`state`, `modify`, `notify`, `fail`) are
run by `simp`; what a loop over items does is read off its single step.
-/

namespace Rigging

/-! ### Going through a list -/

section ComesTo

variable {α β : Type} {P P' Q Q' : α → Prop} {x : α} {xs : List α}

/-- Going through a list, past elements for which `P` holds, one comes to an element for which `Q`
does. -/
def ComesTo (P Q : α → Prop) (xs : List α) : Prop :=
  ∃ front x back, xs = front ++ x :: back ∧ (∀ y ∈ front, P y) ∧ Q x

@[simp] theorem not_comesTo_nil : ¬ComesTo P Q [] := by
  simp [ComesTo]

@[simp] theorem comesTo_cons : ComesTo P Q (x :: xs) ↔ Q x ∨ P x ∧ ComesTo P Q xs := by
  constructor
  · rintro ⟨front, y, back, hxs, hfront, hy⟩
    cases front with
    | nil =>
      obtain ⟨rfl, rfl⟩ := List.cons.inj hxs
      exact .inl hy
    | cons z front =>
      obtain ⟨rfl, rfl⟩ := List.cons.inj hxs
      rw [List.forall_mem_cons] at hfront
      exact .inr ⟨hfront.1, front, y, back, rfl, hfront.2, hy⟩
  · rintro (hx | ⟨hx, front, y, back, rfl, hfront, hy⟩)
    · exact ⟨[], x, xs, rfl, List.forall_mem_nil _, hx⟩
    · exact ⟨x :: front, y, back, rfl, List.forall_mem_cons.mpr ⟨hx, hfront⟩, hy⟩

theorem comesTo_congr (hP : ∀ x, P x ↔ P' x) (hQ : ∀ x, Q x ↔ Q' x) :
    ComesTo P Q xs ↔ ComesTo P' Q' xs := by
  induction xs with
  | nil => simp
  | cons x xs ih => rw [comesTo_cons, comesTo_cons, hP, hQ, ih]

/-- Where nothing holds up the way, one comes to every element. -/
theorem comesTo_of_forall (h : ∀ x ∈ xs, P x) : ComesTo P Q xs ↔ ∃ x ∈ xs, Q x := by
  induction xs with
  | nil => simp
  | cons x xs ih =>
    obtain ⟨hx, hxs⟩ := List.forall_mem_cons.mp h
    rw [comesTo_cons, ih hxs]
    simp [hx]

/-- A condition that has nothing to do with the elements can be taken first. -/
theorem comesTo_and_left {c : Prop} : ComesTo P (fun x => c ∧ Q x) xs ↔ c ∧ ComesTo P Q xs := by
  induction xs with
  | nil => simp
  | cons x xs ih => rw [comesTo_cons, comesTo_cons, ih, and_or_left, and_left_comm]

/-- A computation for each element fails at the first one for which it does. -/
theorem mapM_error_iff {f : α → Except Error β} {Q : Error → Prop} :
    (∃ e, xs.mapM f = .error e ∧ Q e) ↔
      ComesTo (fun x => ∃ y, f x = .ok y) (fun x => ∃ e, f x = .error e ∧ Q e) xs := by
  induction xs with
  | nil => simp [pure, Except.pure]
  | cons x xs ih =>
    rw [List.mapM_cons, comesTo_cons, ← ih]
    cases f x with
    | error e => simp [bind, Except.bind]
    | ok y => cases xs.mapM f <;> simp [bind, Except.bind, pure, Except.pure]

end ComesTo

/-! ### Computing something for each element -/

section MapM

variable {α β : Type} {f g : α → Except Error β} {xs : List α} {ys : List β}

theorem mapM_of_same (h : ∀ x ∈ xs, f x = g x) : xs.mapM f = xs.mapM g := by
  induction xs with
  | nil => rfl
  | cons x xs ih =>
    rw [List.mapM_cons, List.mapM_cons, h x List.mem_cons_self,
      ih fun y hy => h y (List.mem_cons_of_mem _ hy)]

/-- **What is computed for all** is what is computed for each, one by one. -/
theorem mapM_ok_iff : xs.mapM f = .ok ys ↔ List.Forall₂ (fun x y => f x = .ok y) xs ys := by
  induction xs generalizing ys with
  | nil =>
    rw [List.forall₂_nil_left_iff]
    exact ⟨fun h => (Except.ok.inj h).symm, fun h => h ▸ rfl⟩
  | cons x xs ih =>
    rw [List.mapM_cons]
    constructor
    · intro h
      cases hx : f x with
      | error e =>
        rw [hx] at h
        cases h
      | ok y =>
        cases hxs : xs.mapM f with
        | error e =>
          rw [hx, hxs] at h
          cases h
        | ok ys' =>
          rw [hx, hxs] at h
          rw [← Except.ok.inj h]
          exact .cons hx (ih.mp hxs)
    · rintro (_ | ⟨hx, hxs⟩)
      rw [hx, ih.mpr hxs]
      rfl

/-- Every element has its part in what is computed for all. -/
theorem exists_of_mapM (h : xs.mapM f = .ok ys) : ∀ x ∈ xs, ∃ y ∈ ys, f x = .ok y := by
  induction mapM_ok_iff.mp h with
  | nil => exact List.forall_mem_nil _
  | @cons x y xs ys hx hxs ih =>
    refine List.forall_mem_cons.mpr ⟨⟨y, List.mem_cons_self, hx⟩, fun z hz => ?_⟩
    obtain ⟨w, hw, hfz⟩ := ih (mapM_ok_iff.mpr hxs) z hz
    exact ⟨w, List.mem_cons_of_mem _ hw, hfz⟩

/-- Every part of what is computed for all comes from an element. -/
theorem exists_of_mem_mapM (h : xs.mapM f = .ok ys) : ∀ y ∈ ys, ∃ x ∈ xs, f x = .ok y := by
  induction mapM_ok_iff.mp h with
  | nil => exact List.forall_mem_nil _
  | @cons x y xs ys hx hxs ih =>
    refine List.forall_mem_cons.mpr ⟨⟨x, List.mem_cons_self, hx⟩, fun z hz => ?_⟩
    obtain ⟨w, hw, hfw⟩ := ih (mapM_ok_iff.mpr hxs) z hz
    exact ⟨w, List.mem_cons_of_mem _ hw, hfw⟩

/-- What goes wrong for all goes wrong for one. -/
theorem exists_of_mapM_error {e : Error} (h : xs.mapM f = .error e) : ∃ x ∈ xs, f x = .error e := by
  obtain ⟨_, x, _, rfl, _, _, hx, rfl⟩ := mapM_error_iff.mp ⟨e, h, rfl⟩
  exact ⟨x, List.mem_append_right _ List.mem_cons_self, hx⟩

/-- Something is computed for all just if it is for each. -/
theorem exists_mapM_iff : (∃ ys, xs.mapM f = .ok ys) ↔ ∀ x ∈ xs, ∃ y, f x = .ok y := by
  constructor
  · rintro ⟨ys, h⟩ x hx
    obtain ⟨y, _, hy⟩ := exists_of_mapM h x hx
    exact ⟨y, hy⟩
  · intro h
    cases hxs : xs.mapM f with
    | ok ys => exact ⟨ys, rfl⟩
    | error e =>
      obtain ⟨x, hx, he⟩ := exists_of_mapM_error hxs
      obtain ⟨y, hy⟩ := h x hx
      rw [he] at hy
      cases hy

end MapM

namespace Act

variable {σ τ α β : Type}

/-! ### Single steps -/

@[simp] theorem pure_apply (x : α) (s : σ) : (pure x : Act σ α) s = ⟨.ok x, s, []⟩ := rfl

@[simp] theorem state_apply (s : σ) : (state : Act σ σ) s = ⟨.ok s, s, []⟩ := rfl

@[simp] theorem modify_apply (f : σ → σ) (s : σ) : modify f s = ⟨.ok (), f s, []⟩ := rfl

@[simp] theorem notify_apply (n : Notice) (s : σ) : (notify n : Act σ Unit) s = ⟨.ok (), s, [n]⟩ :=
  rfl

@[simp] theorem fail_apply (e : Error) (s : σ) : (fail e : Act σ α) s = ⟨.error e, s, []⟩ := rfl

@[simp] theorem ofExcept_ok (x : α) : (ofExcept (.ok x) : Act σ α) = pure x := rfl

@[simp] theorem ofExcept_error (e : Error) : (ofExcept (.error e) : Act σ α) = fail e := rfl

@[simp] theorem result_ofExcept (x : Except Error α) (s : σ) : (ofExcept x s).result = x := by
  cases x <;> rfl

@[simp] theorem onOwn_apply (inner : τ) (a : Act τ α) (s : σ) :
    onOwn inner a s =
      ⟨(a inner).result.map fun x => (x, (a inner).state), s, (a inner).notices⟩ := rfl

/-! ### Sequences -/

@[simp] theorem pure_bind (x : α) (f : α → Act σ β) : (pure x >>= f) = f x := rfl

@[simp] theorem state_bind (f : σ → Act σ β) (s : σ) : (state >>= f) s = f s s := rfl

@[simp] theorem modify_bind (g : σ → σ) (f : Unit → Act σ β) (s : σ) :
    (modify g >>= f) s = f () (g s) := rfl

@[simp] theorem fail_bind (e : Error) (f : α → Act σ β) : (fail e >>= f) = fail e := rfl

@[simp] theorem notify_bind (n : Notice) (f : Unit → Act σ β) (s : σ) :
    (notify n >>= f) s = ⟨(f () s).result, (f () s).state, n :: (f () s).notices⟩ := rfl

theorem bind_of_ok {a : Act σ α} {f : α → Act σ β} {s : σ} {x : α} (h : (a s).result = .ok x) :
    (a >>= f) s =
      ⟨(f x (a s).state).result, (f x (a s).state).state,
        (a s).notices ++ (f x (a s).state).notices⟩ := by
  simp only [bind, h]

theorem bind_congr_left {a b : Act σ α} {s : σ} (h : a s = b s) (f : α → Act σ β) :
    (a >>= f) s = (b >>= f) s := by
  simp only [bind, h]

theorem bind_assoc {γ : Type} (a : Act σ α) (f : α → Act σ β) (g : β → Act σ γ) :
    (a >>= f >>= g) = (a >>= fun x => f x >>= g) := by
  funext s
  cases hx : (a s).result with
  | error e => simp only [bind, hx]
  | ok x =>
    cases hy : (f x (a s).state).result with
    | error e => simp only [bind, hx, hy]
    | ok y => simp only [bind, hx, hy, List.append_assoc]

theorem bind_of_error {a : Act σ α} {f : α → Act σ β} {s : σ} {e : Error}
    (h : (a s).result = .error e) : (a >>= f) s = ⟨.error e, (a s).state, (a s).notices⟩ := by
  simp only [bind, h]

/-- A sequence succeeds when both of its parts do. -/
theorem bind_result_ok {a : Act σ α} {f : α → Act σ β} {s : σ} {y : β}
    (h : ((a >>= f) s).result = .ok y) :
    ∃ x, (a s).result = .ok x ∧ (f x (a s).state).result = .ok y ∧
      ((a >>= f) s).state = (f x (a s).state).state := by
  cases hx : (a s).result with
  | ok x =>
    rw [bind_of_ok hx] at h ⊢
    exact ⟨x, rfl, h, rfl⟩
  | error e =>
    rw [bind_of_error hx] at h
    cases h

/-- An error of a sequence is the error of one of its parts. -/
theorem bind_result_error {a : Act σ α} {f : α → Act σ β} {s : σ} {e : Error}
    (h : ((a >>= f) s).result = .error e) :
    ((a s).result = .error e ∧ ((a >>= f) s).state = (a s).state) ∨
      ∃ x, (a s).result = .ok x ∧ (f x (a s).state).result = .error e ∧
        ((a >>= f) s).state = (f x (a s).state).state := by
  cases hx : (a s).result with
  | ok x =>
    rw [bind_of_ok hx] at h ⊢
    exact Or.inr ⟨x, rfl, h, rfl⟩
  | error e' =>
    rw [bind_of_error hx] at h ⊢
    cases h
    exact Or.inl ⟨rfl, rfl⟩

/-- A notice of a sequence is a notice of one of its parts. -/
theorem bind_notices {a : Act σ α} {f : α → Act σ β} {s : σ} {n : Notice}
    (h : n ∈ ((a >>= f) s).notices) :
    n ∈ (a s).notices ∨ ∃ x, (a s).result = .ok x ∧ n ∈ (f x (a s).state).notices := by
  cases hx : (a s).result with
  | ok x =>
    rw [bind_of_ok hx] at h
    rcases List.mem_append.mp h with h | h
    · exact Or.inl h
    · exact Or.inr ⟨x, rfl, h⟩
  | error e =>
    rw [bind_of_error hx] at h
    exact Or.inl h

/-! ### What an action leaves alone, and what it can report -/

/-- A part of the state that an action never changes, however it ends. -/
def Keeps {γ : Type} (view : σ → γ) (a : Act σ α) : Prop :=
  ∀ s, view (a s).state = view s

/-- All notices of an action are of one sort. -/
def Notes (P : Notice → Prop) (a : Act σ α) : Prop :=
  ∀ s, ∀ n ∈ (a s).notices, P n

/-- All errors of an action are of one sort. -/
def Fails (P : Error → Prop) (a : Act σ α) : Prop :=
  ∀ s e, (a s).result = .error e → P e

section Rules

variable {γ : Type} {view : σ → γ} {P : Notice → Prop} {Q : Error → Prop}
variable {a : Act σ α} {f : α → Act σ β}

theorem keeps_bind (ha : Keeps view a) (hf : ∀ x, Keeps view (f x)) : Keeps view (a >>= f) := by
  intro s
  cases hx : (a s).result with
  | ok x =>
    rw [bind_of_ok hx]
    exact (hf x _).trans (ha s)
  | error e =>
    rw [bind_of_error hx]
    exact ha s

theorem notes_bind (ha : Notes P a) (hf : ∀ x, Notes P (f x)) : Notes P (a >>= f) := by
  intro s n hn
  rcases bind_notices hn with hn | ⟨x, _, hn⟩
  · exact ha s n hn
  · exact hf x _ n hn

theorem fails_bind (ha : Fails Q a) (hf : ∀ x, Fails Q (f x)) : Fails Q (a >>= f) := by
  intro s e he
  rcases bind_result_error he with ⟨he, _⟩ | ⟨x, _, he, _⟩
  · exact ha s e he
  · exact hf x _ e he

theorem keeps_pure (x : α) : Keeps view (pure x : Act σ α) := fun _ => rfl

theorem notes_pure (x : α) : Notes P (pure x : Act σ α) := fun _ _ h => nomatch h

theorem fails_pure (x : α) : Fails Q (pure x : Act σ α) := fun _ _ h => nomatch h

theorem keeps_state : Keeps view (state : Act σ σ) := fun _ => rfl

theorem notes_state : Notes P (state : Act σ σ) := fun _ _ h => nomatch h

theorem fails_state : Fails Q (state : Act σ σ) := fun _ _ h => nomatch h

theorem keeps_fail (e : Error) : Keeps view (fail e : Act σ α) := fun _ => rfl

theorem notes_fail (e : Error) : Notes P (fail e : Act σ α) := fun _ _ h => nomatch h

theorem fails_fail {e : Error} (h : Q e) : Fails Q (fail e : Act σ α) :=
  fun _ _ he => Except.error.inj he ▸ h

theorem keeps_notify (n : Notice) : Keeps view (notify n : Act σ Unit) := fun _ => rfl

theorem notes_notify {n : Notice} (h : P n) : Notes P (notify n : Act σ Unit) :=
  fun _ _ hn => List.mem_singleton.mp hn ▸ h

theorem fails_notify (n : Notice) : Fails Q (notify n : Act σ Unit) := fun _ _ h => nomatch h

theorem keeps_modify {g : σ → σ} (h : ∀ s, view (g s) = view s) : Keeps view (modify g) := h

theorem notes_modify (g : σ → σ) : Notes P (modify g) := fun _ _ h => nomatch h

theorem fails_modify (g : σ → σ) : Fails Q (modify g) := fun _ _ h => nomatch h

theorem keeps_ofExcept (x : Except Error α) : Keeps view (ofExcept x : Act σ α) := by
  cases x <;> exact fun _ => rfl

theorem notes_ofExcept (x : Except Error α) : Notes P (ofExcept x : Act σ α) := by
  cases x <;> exact fun _ _ h => nomatch h

/-- An action that is taken on a condition, in front of another. -/
theorem keeps_when {c : Prop} [Decidable c] {b : Act σ Unit} {g : Unit → Act σ β}
    (hb : Keeps view b) (hg : Keeps view (g ())) : Keeps view (if c then b >>= g else g ()) := by
  split
  · exact keeps_bind hb fun _ => hg
  · exact hg

theorem fails_when {c : Prop} [Decidable c] {b : Act σ Unit} {g : Unit → Act σ β}
    (hb : Fails Q b) (hg : Fails Q (g ())) : Fails Q (if c then b >>= g else g ()) := by
  split
  · exact fails_bind hb fun _ => hg
  · exact hg

theorem fails_ofExcept {x : Except Error α} (h : ∀ e, x = .error e → Q e) :
    Fails Q (ofExcept x : Act σ α) := by
  cases x with
  | ok x => exact fails_pure x
  | error e => exact fails_fail (h e rfl)

end Rules

/-! ### Loops -/

@[simp] theorem forEach_nil (f : α → Act σ Unit) : forEach f [] = pure () := rfl

@[simp] theorem forEach_cons (f : α → Act σ Unit) (x : α) (xs : List α) :
    forEach f (x :: xs) = f x >>= fun _ => forEach f xs := rfl

@[simp] theorem mapEach_nil (f : α → Act σ β) : mapEach f [] = pure [] := rfl

@[simp] theorem mapEach_cons (f : α → Act σ β) (x : α) (xs : List α) :
    mapEach f (x :: xs) = f x >>= fun y => mapEach f xs >>= fun ys => pure (y :: ys) := rfl

theorem mapEach_append (f : α → Act σ β) (xs ys : List α) :
    mapEach f (xs ++ ys) =
      (mapEach f xs >>= fun as => mapEach f ys >>= fun bs => pure (as ++ bs)) := by
  induction xs with
  | nil =>
    rw [List.nil_append, mapEach_nil, pure_bind]
    funext s
    cases hys : (mapEach f ys s).result with
    | ok bs => rw [bind_of_ok hys]; simp [← hys]
    | error e => rw [bind_of_error hys]; simp [← hys]
  | cons x xs ih =>
    simp only [List.cons_append, mapEach_cons, ih, bind_assoc, pure_bind]

section Loops

variable {γ : Type} {view : σ → γ} {Q : Error → Prop} {xs : List α}

theorem keeps_forEach {f : α → Act σ Unit} (h : ∀ x ∈ xs, Keeps view (f x)) :
    Keeps view (forEach f xs) := by
  induction xs with
  | nil => exact keeps_pure ()
  | cons x xs ih =>
    exact keeps_bind (h x List.mem_cons_self) fun _ => ih fun y hy => h y (List.mem_cons_of_mem _ hy)

theorem keeps_mapEach {f : α → Act σ β} (h : ∀ x ∈ xs, Keeps view (f x)) :
    Keeps view (mapEach f xs) := by
  induction xs with
  | nil => exact keeps_pure []
  | cons x xs ih =>
    exact keeps_bind (h x List.mem_cons_self) fun y =>
      keeps_bind (ih fun z hz => h z (List.mem_cons_of_mem _ hz)) fun ys => keeps_pure (y :: ys)

theorem keeps_onOwn (inner : τ) (a : Act τ α) : Keeps view (onOwn inner a : Act σ (α × τ)) :=
  fun _ => rfl

theorem fails_forEach {f : α → Act σ Unit} (h : ∀ x ∈ xs, Fails Q (f x)) :
    Fails Q (forEach f xs) := by
  induction xs with
  | nil => exact fails_pure ()
  | cons x xs ih =>
    exact fails_bind (h x List.mem_cons_self) fun _ => ih fun y hy => h y (List.mem_cons_of_mem _ hy)

theorem fails_mapEach {f : α → Act σ β} (h : ∀ x ∈ xs, Fails Q (f x)) :
    Fails Q (mapEach f xs) := by
  induction xs with
  | nil => exact fails_pure []
  | cons x xs ih =>
    exact fails_bind (h x List.mem_cons_self) fun y =>
      fails_bind (ih fun z hz => h z (List.mem_cons_of_mem _ hz)) fun ys => fails_pure (y :: ys)

end Loops

/-- A loop of actions that only look succeeds when each of them does. -/
theorem forEach_ok_iff {f : α → Act σ Unit} {xs : List α} (h : ∀ x ∈ xs, Keeps id (f x)) {s : σ} :
    (forEach f xs s).result = .ok () ↔ ∀ x ∈ xs, (f x s).result = .ok () := by
  induction xs with
  | nil => simp
  | cons x xs ih =>
    have hkept : (f x s).state = s := h x List.mem_cons_self s
    rw [forEach_cons, List.forall_mem_cons]
    cases hx : (f x s).result with
    | ok u =>
      rw [bind_of_ok hx, hkept]
      exact (ih fun y hy => h y (List.mem_cons_of_mem _ hy)).trans (and_iff_right rfl).symm
    | error e =>
      rw [bind_of_error hx]
      exact iff_of_false (fun h => nomatch h) fun h => nomatch h.1

/-- A loop of actions that only look fails at the first of them that does. -/
theorem forEach_error_iff {f : α → Act σ Unit} {xs : List α} (h : ∀ x ∈ xs, Keeps id (f x)) {s : σ}
    {Q : Error → Prop} :
    (∃ e, (forEach f xs s).result = .error e ∧ Q e) ↔
      ComesTo (fun x => (f x s).result = .ok ()) (fun x => ∃ e, (f x s).result = .error e ∧ Q e)
        xs := by
  induction xs with
  | nil => simp
  | cons x xs ih =>
    have hkept : (f x s).state = s := h x List.mem_cons_self s
    rw [forEach_cons, comesTo_cons]
    cases hx : (f x s).result with
    | ok u =>
      rw [bind_of_ok hx, hkept]
      exact (ih fun y hy => h y (List.mem_cons_of_mem _ hy)).trans (by simp)
    | error e =>
      rw [bind_of_error hx]
      simp

/-- The notices of a loop of actions that only look are those of the actions that it comes to. -/
theorem mem_notices_forEach {f : α → Act σ Unit} {xs : List α} (h : ∀ x ∈ xs, Keeps id (f x)) {s : σ}
    {n : Notice} :
    n ∈ (forEach f xs s).notices ↔
      ComesTo (fun x => (f x s).result = .ok ()) (fun x => n ∈ (f x s).notices) xs := by
  induction xs with
  | nil => simp
  | cons x xs ih =>
    have hkept : (f x s).state = s := h x List.mem_cons_self s
    rw [forEach_cons, comesTo_cons]
    cases hx : (f x s).result with
    | ok u =>
      rw [bind_of_ok hx, hkept, List.mem_append, ih fun y hy => h y (List.mem_cons_of_mem _ hy)]
      simp
    | error e =>
      rw [bind_of_error hx]
      simp

theorem map_eq_ok_iff {f : α → β} {result : Except Error α} {b : β} :
    result.map f = .ok b ↔ ∃ a, result = .ok a ∧ f a = b := by
  cases result <;> simp [Except.map]

/-- What is computed from the result of an action. -/
theorem result_bind_pure (a : Act σ α) (f : α → β) (s : σ) :
    ((a >>= fun x => pure (f x) : Act σ β) s).result = (a s).result.map f := by
  cases h : (a s).result with
  | ok x => rw [bind_of_ok h]; rfl
  | error e => rw [bind_of_error h]; rfl

/-- What is computed from the result of an action is not reported. -/
theorem notices_bind_pure (a : Act σ α) (f : α → β) (s : σ) :
    ((a >>= fun x => pure (f x) : Act σ β) s).notices = (a s).notices := by
  cases h : (a s).result with
  | ok x => rw [bind_of_ok h, pure_apply, List.append_nil]
  | error e => rw [bind_of_error h]

/-- A notice that is left on a condition decides nothing. -/
theorem result_when_notify {c : Prop} [Decidable c] (n : Notice) (f : Unit → Act σ β) (s : σ) :
    ((if c then notify n >>= f else f ()) s).result = (f () s).result := by
  split <;> rfl

theorem notices_when_notify {c : Prop} [Decidable c] (n : Notice) (f : Unit → Act σ β) (s : σ) :
    ((if c then notify n >>= f else f ()) s).notices = (if c then [n] else []) ++ (f () s).notices := by
  split <;> rfl

/-- A loop that leaves notices and computes gives what is computed. -/
theorem result_mapEach_notify (n : α → Notice) (g : α → β) (xs : List α) (s : σ) :
    (mapEach (fun x => notify (n x) >>= fun _ => pure (g x)) xs s).result = .ok (xs.map g) := by
  induction xs with
  | nil => rfl
  | cons x xs ih =>
    have hkept : ((notify (n x) >>= fun _ => pure (g x) : Act σ β) s).state = s := rfl
    rw [mapEach_cons, bind_of_ok rfl, hkept, bind_of_ok ih]
    rfl

/-! ### What an action has done when it succeeds -/

/-- Whenever an action succeeds, the states before and after it are related. -/
def Ensures (R : σ → σ → Prop) (a : Act σ α) : Prop :=
  ∀ s x, (a s).result = .ok x → R s (a s).state

/-- Whatever an action gives is of one sort. -/
def Gives (P : α → Prop) (a : Act σ α) : Prop :=
  ∀ s x, (a s).result = .ok x → P x

section Success

variable {R S T : σ → σ → Prop} {P : α → Prop} {P' : β → Prop} {a : Act σ α} {f : α → Act σ β}

theorem ensures_bind (hcomp : ∀ s t u, R s t → S t u → T s u) (ha : Ensures R a)
    (hf : ∀ x, Ensures S (f x)) : Ensures T (a >>= f) := by
  intro s y h
  obtain ⟨x, hx, hy, hstate⟩ := bind_result_ok h
  rw [hstate]
  exact hcomp _ _ _ (ha s x hx) (hf x _ y hy)

theorem ensures_of_keeps (hrefl : ∀ s, R s s) (ha : Keeps id a) : Ensures R a := by
  intro s x _
  have hstate : (a s).state = s := ha s
  rw [hstate]
  exact hrefl s

theorem ensures_mapEach (hrefl : ∀ s, R s s) (htrans : ∀ s t u, R s t → R t u → R s u)
    {xs : List α} (h : ∀ x ∈ xs, Ensures R (f x)) : Ensures R (mapEach f xs) := by
  induction xs with
  | nil => exact ensures_of_keeps hrefl (keeps_pure [])
  | cons x xs ih =>
    refine ensures_bind htrans (h x List.mem_cons_self) fun y => ?_
    exact ensures_bind htrans (ih fun z hz => h z (List.mem_cons_of_mem _ hz)) fun ys =>
      ensures_of_keeps hrefl (keeps_pure (y :: ys))

theorem ensures_forEach (hrefl : ∀ s, R s s) (htrans : ∀ s t u, R s t → R t u → R s u)
    {g : α → Act σ Unit} {xs : List α} (h : ∀ x ∈ xs, Ensures R (g x)) :
    Ensures R (forEach g xs) := by
  induction xs with
  | nil => exact ensures_of_keeps hrefl (keeps_pure ())
  | cons x xs ih =>
    exact ensures_bind htrans (h x List.mem_cons_self) fun _ =>
      ih fun y hy => h y (List.mem_cons_of_mem _ hy)

theorem gives_bind (ha : Gives P a) (hf : ∀ x, P x → Gives P' (f x)) : Gives P' (a >>= f) := by
  intro s y h
  obtain ⟨x, hx, hy, _⟩ := bind_result_ok h
  exact hf x (ha s x hx) _ y hy

theorem gives_pure {x : α} (h : P x) : Gives P (pure x : Act σ α) :=
  fun _ _ hx => Except.ok.inj hx ▸ h

theorem gives_fail (e : Error) : Gives P (fail e : Act σ α) := fun _ _ h => nomatch h

/-- What an action on a state of its own gives is its result and the state it leaves. -/
theorem gives_onOwn {C : α × τ → Prop} {b : Act τ α} {inner : τ}
    (h : ∀ x, (b inner).result = .ok x → C (x, (b inner).state)) :
    Gives C (onOwn inner b : Act σ (α × τ)) := by
  intro s y hy
  rw [onOwn_apply] at hy
  cases hx : (b inner).result with
  | ok x =>
    rw [hx] at hy
    rw [← Except.ok.inj hy]
    exact h x hx
  | error e =>
    rw [hx] at hy
    cases hy

theorem gives_mapEach {xs : List α} (h : ∀ x ∈ xs, Gives P' (f x)) :
    Gives (fun ys => ∀ y ∈ ys, P' y) (mapEach f xs) := by
  induction xs with
  | nil => exact gives_pure fun _ hy => nomatch hy
  | cons x xs ih =>
    refine gives_bind (h x List.mem_cons_self) fun y hy => ?_
    refine gives_bind (ih fun z hz => h z (List.mem_cons_of_mem _ hz)) fun ys hys => ?_
    refine gives_pure fun z hz => ?_
    rcases List.mem_cons.mp hz with rfl | hz
    · exact hy
    · exact hys z hz

theorem gives_any (a : Act σ α) : Gives (fun _ => True) a := fun _ _ _ => trivial

end Success

/-! ### What an action never spoils -/

/-- A property that the state keeps, however an action ends. -/
def Preserves (I : σ → Prop) (a : Act σ α) : Prop :=
  ∀ s, I s → I (a s).state

section Preserves

variable {I : σ → Prop} {P : α → Prop} {a : Act σ α} {f : α → Act σ β}

theorem preserves_of_keeps (h : Keeps id a) : Preserves I a := by
  intro s hs
  have hstate : (a s).state = s := h s
  rwa [hstate]

theorem preserves_modify {g : σ → σ} (h : ∀ s, I s → I (g s)) : Preserves I (modify g) := h

/-- The second part of a sequence may rely on what the first one gives. -/
theorem preserves_bind_of_gives (ha : Preserves I a) (hgives : Gives P a)
    (hf : ∀ x, P x → Preserves I (f x)) : Preserves I (a >>= f) := by
  intro s hs
  cases hx : (a s).result with
  | ok x =>
    rw [bind_of_ok hx]
    exact hf x (hgives s x hx) _ (ha s hs)
  | error e =>
    rw [bind_of_error hx]
    exact ha s hs

theorem preserves_bind (ha : Preserves I a) (hf : ∀ x, Preserves I (f x)) : Preserves I (a >>= f) :=
  preserves_bind_of_gives ha (gives_any a) fun x _ => hf x

theorem preserves_forEach {g : α → Act σ Unit} {xs : List α} (h : ∀ x ∈ xs, Preserves I (g x)) :
    Preserves I (forEach g xs) := by
  induction xs with
  | nil => exact preserves_of_keeps (keeps_pure ())
  | cons x xs ih =>
    exact preserves_bind (h x List.mem_cons_self) fun _ =>
      ih fun y hy => h y (List.mem_cons_of_mem _ hy)

end Preserves

theorem mapEach_congr {f g : α → Act σ β} {xs : List α} (h : ∀ x ∈ xs, f x = g x) :
    mapEach f xs = mapEach g xs := by
  induction xs with
  | nil => rfl
  | cons x xs ih =>
    rw [mapEach_cons, mapEach_cons, h x List.mem_cons_self, ih fun y hy => h y (List.mem_cons_of_mem _ hy)]

/-- Two loops that take the same steps in all states of an invariant are the same from there on. -/
theorem forEach_congr (I : σ → Prop) {f g : α → Act σ Unit}
    (hstep : ∀ x s, I s → f x s = g x s) (hkeep : ∀ x s, I s → I (g x s).state) (xs : List α) :
    ∀ s, I s → forEach f xs s = forEach g xs s := by
  induction xs with
  | nil => exact fun _ _ => rfl
  | cons x xs ih =>
    intro s hs
    rw [forEach_cons, forEach_cons]
    cases hx : (g x s).result with
    | ok u =>
      have hx' : (f x s).result = .ok u := by rw [hstep x s hs, hx]
      rw [bind_of_ok hx, bind_of_ok hx', hstep x s hs, ih _ (hkeep x s hs)]
    | error e =>
      have hx' : (f x s).result = .error e := by rw [hstep x s hs, hx]
      rw [bind_of_error hx, bind_of_error hx', hstep x s hs]

/-! ### Actions that do the same -/

/-- Two actions that do the same to every state and give the same; where they fail, they may report
different errors. -/
def Alike (a b : Act σ α) : Prop :=
  ∀ s, (a s).result.toOption = (b s).result.toOption ∧ (a s).state = (b s).state

section Alike

variable {a b : Act σ α} {f g : α → Act σ β}

theorem alike_refl (a : Act σ α) : Alike a a := fun _ => ⟨rfl, rfl⟩

theorem alike_ofExcept {x y : Except Error α} (h : x.toOption = y.toOption) :
    Alike (ofExcept x : Act σ α) (ofExcept y) := by
  cases x <;> cases y <;> simp_all [Except.toOption, Alike]

theorem Alike.result_ok_iff (h : Alike a b) {s : σ} {x : α} :
    (a s).result = .ok x ↔ (b s).result = .ok x := by
  have hresult := (h s).1
  cases ha : (a s).result <;> cases hb : (b s).result <;>
    simp_all [Except.toOption]

theorem alike_bind (ha : Alike a b) (hf : ∀ x, Alike (f x) (g x)) :
    Alike (a >>= f) (b >>= g) := by
  intro s
  obtain ⟨hresult, hstate⟩ := ha s
  cases hx : (a s).result with
  | ok x =>
    rw [bind_of_ok hx, bind_of_ok (ha.result_ok_iff.mp hx), hstate]
    exact hf x _
  | error e =>
    cases hy : (b s).result with
    | ok y => rw [hx, hy] at hresult; cases hresult
    | error e' =>
      rw [bind_of_error hx, bind_of_error hy]
      exact ⟨rfl, hstate⟩

end Alike

/-- Of what has been computed, only a view is passed on. -/
theorem ofExcept_bind_view {γ : Type} (view : α → γ) (x : Except Error α) (f : γ → Act σ β) :
    (ofExcept x >>= fun y => f (view y)) = (ofExcept (x.map view) >>= f) := by
  cases x <;> rfl

end Act

end Rigging
