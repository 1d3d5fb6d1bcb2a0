/-! Computations that may fail: what can be said of their values and of their faults. -/
namespace BlockTrace

section Attempt
variable {ε ε' α β : Type} {P : α → Prop} {Q : ε → Prop}

theorem ok_bind (a : α) (f : α → Except ε β) : (Except.ok a : Except ε α) >>= f = f a := rfl

theorem bind_eq_ok_iff {x : Except ε α} {f : α → Except ε β} {b : β} :
    x >>= f = .ok b ↔ ∃ a, x = .ok a ∧ f a = .ok b := by
  cases x with
  | error e => simp [bind, Except.bind]
  | ok a => simp [bind, Except.bind]

theorem map_eq_ok_iff {x : Except ε α} {f : α → β} {b : β} :
    x.map f = .ok b ↔ ∃ a, x = .ok a ∧ f a = b := by
  cases x with
  | error e => simp [Except.map]
  | ok a => simp [Except.map]

theorem mapError_eq_ok_iff {x : Except ε α} {f : ε → ε'} {a : α} :
    x.mapError f = .ok a ↔ x = .ok a := by
  cases x with
  | error e =>
    constructor
    · intro h
      cases h
    · intro h
      cases h
  | ok b =>
    constructor
    · intro h
      cases h
      rfl
    · intro h
      cases h
      rfl

theorem mapError_map (lift : ε → ε') (f : α → β) (x : Except ε α) :
    (x.map f).mapError lift = (x.mapError lift).map f := by
  cases x with
  | error e => rfl
  | ok a => rfl

theorem bind_mapError (lift : ε → ε') (x : Except ε α) (f : α → Except ε β) :
    (x.mapError lift >>= fun a => (f a).mapError lift) = (x >>= f).mapError lift := by
  cases x with
  | error e => rfl
  | ok a => rfl

theorem foldlM_mapError (lift : ε → ε') (f : β → α → Except ε β) (as : List α) (b : β) :
    as.foldlM (fun b a => (f b a).mapError lift) b = (as.foldlM f b).mapError lift := by
  induction as generalizing b with
  | nil => rfl
  | cons a as ih =>
    rw [List.foldlM_cons, List.foldlM_cons]
    cases f b a with
    | error e => rfl
    | ok b => exact ih b

/-- The value satisfies `P` if there is one, and otherwise the fault satisfies `Q`. -/
def Gives (P : α → Prop) (Q : ε → Prop) : Except ε α → Prop
  | .ok a => P a
  | .error e => Q e

theorem Gives.bind_of_eq_ok {P' : β → Prop} {x : Except ε α} {f : α → Except ε β}
    (hx : Gives P Q x) (hf : ∀ a, x = .ok a → P a → Gives P' Q (f a)) :
    Gives P' Q (x >>= f) := by
  cases x with
  | error e => exact hx
  | ok a => exact hf a rfl hx

theorem Gives.bind {P' : β → Prop} {x : Except ε α} {f : α → Except ε β} (hx : Gives P Q x)
    (hf : ∀ a, P a → Gives P' Q (f a)) : Gives P' Q (x >>= f) :=
  hx.bind_of_eq_ok fun a _ => hf a

theorem Gives.imp {P' : α → Prop} {x : Except ε α} (hx : Gives P Q x) (h : ∀ a, P a → P' a) :
    Gives P' Q x := by
  cases x with
  | error e => exact hx
  | ok a => exact h a hx

theorem gives_mapError {Q : ε' → Prop} (x : Except ε α) {f : ε → ε'} (h : ∀ e, Q (f e)) :
    Gives (fun a => x = .ok a) Q (x.mapError f) := by
  cases x with
  | error e => exact h e
  | ok a => exact (rfl : Except.ok a = .ok a)

end Attempt

end BlockTrace
