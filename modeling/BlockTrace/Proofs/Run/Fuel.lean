import BlockTrace.Proofs.Run.Machine

/-! Execution with fuel. More fuel does not change how a piece of a program ends, and executing a
block is executing what it leaves after one step. -/
namespace BlockTrace.Run
open Program (Block Parameters)

namespace Outcome

/-- Goes on after a piece that completes. -/
def andThen (o : Outcome) (next : Config → Outcome) : Outcome :=
  match o with
  | completed c => next c
  | aborted fault c => aborted fault c
  | unfinished => unfinished

/-- The same outcome, unless `a` ran out of fuel. -/
def Below (a b : Outcome) : Prop :=
  a = unfinished ∨ a = b

theorem Below.refl (o : Outcome) : o.Below o :=
  .inr rfl

theorem below_unfinished (o : Outcome) : unfinished.Below o :=
  .inl rfl

theorem Below.eq {a b : Outcome} (h : a.Below b) (ha : a ≠ unfinished) : b = a := by
  rcases h with h | h
  · exact absurd h ha
  · exact h.symm

theorem Below.andThen {a b : Outcome} {f g : Config → Outcome} (h : a.Below b)
    (hf : ∀ c, (f c).Below (g c)) : (a.andThen f).Below (b.andThen g) := by
  rcases h with rfl | rfl
  · exact below_unfinished _
  · cases a with
    | completed c => exact hf c
    | aborted fault c => exact .refl _
    | unfinished => exact .refl _

private theorem andThen_assoc (o : Outcome) (f g : Config → Outcome) :
    (o.andThen f).andThen g = o.andThen fun c => (f c).andThen g := by
  cases o <;> rfl

private theorem andThen_completed (o : Outcome) : o.andThen completed = o := by
  cases o <;> rfl

end Outcome

section Equations
variable (limits : Limits) (fuel : Nat)

theorem executeAll_nil (c : Config) : executeAll limits fuel [] c = .completed c := by
  rw [executeAll]

theorem executeAll_cons (block : Block) (rest : List Block) (c : Config) :
    executeAll limits fuel (block :: rest) c =
      (execute limits fuel block c).andThen (executeAll limits fuel rest) := by
  rw [executeAll]
  cases execute limits fuel block c <;> rfl

theorem executeAll_singleton (block : Block) (c : Config) :
    executeAll limits fuel [block] c = execute limits fuel block c := by
  rw [executeAll_cons]
  exact (congrArg _ (funext fun d => executeAll_nil limits fuel d)).trans
    (Outcome.andThen_completed _)

theorem executeAll_append (front rest : List Block) (c : Config) :
    executeAll limits fuel (front ++ rest) c =
      (executeAll limits fuel front c).andThen (executeAll limits fuel rest) := by
  induction front generalizing c with
  | nil => rw [executeAll_nil]; rfl
  | cons block front ih =>
    rw [List.cons_append, executeAll_cons, executeAll_cons, Outcome.andThen_assoc]
    exact congrArg _ (funext ih)

/-- A test of a loop's condition, and a round if it holds. -/
theorem repeatWhile_succ (condition : String) (body : Config → Outcome) (c : Config) :
    repeatWhile limits condition body (fuel + 1) c =
      match test c.state.store condition with
      | .error fault => .aborted fault c
      | .ok false => .completed (c.emit (.looped condition false))
      | .ok true =>
        match beginIteration limits c with
        | (d, some fault) => .aborted fault d
        | (d, none) => (body (d.emit (.looped condition true))).andThen
            (repeatWhile limits condition body fuel) := by
  rw [repeatWhile]
  cases test c.state.store condition with
  | error fault => rfl
  | ok holds =>
    cases holds with
    | false => rfl
    | true =>
      obtain ⟨d, _ | fault⟩ := beginIteration limits c
      · dsimp only
        cases body (d.emit (.looped condition true)) <;> rfl
      · rfl

end Equations

/-- Goes on with what a block leaves. -/
def Advance.finish (run : List Block → Config → Outcome) : Advance → Outcome
  | .fail fault c => .aborted fault c
  | .go front c => run front c

section Finish
variable (limits : Limits) (fuel : Nat) (p : Parameters) (c : Config)

private theorem ofAction_eq_finish (action : Action Unit) :
    Outcome.ofAction c action = (Advance.ofAction c action).finish (executeAll limits fuel) := by
  unfold Outcome.ofAction Advance.ofAction
  cases action c.state with
  | ok _ state => exact (executeAll_nil limits fuel _).symm
  | error fault state => rfl

private theorem execute_ifThen (body : List Block) :
    execute limits fuel (.ifThen p body) c =
      (advance limits (.ifThen p body) c).finish (executeAll limits fuel) := by
  simp only [execute, advance, decideCondition]
  cases require p .condition with
  | error fault => rfl
  | ok condition =>
    simp only [bind, Except.bind, pure, Except.pure]
    cases test c.state.store condition with
    | error fault => rfl
    | ok holds => cases holds <;> simp [Advance.finish, executeAll_nil]

private theorem execute_ifElse (thenBranch elseBranch : List Block) :
    execute limits fuel (.ifElse p thenBranch elseBranch) c =
      (advance limits (.ifElse p thenBranch elseBranch) c).finish (executeAll limits fuel) := by
  simp only [execute, advance, decideCondition]
  cases require p .condition with
  | error fault => rfl
  | ok condition =>
    simp only [bind, Except.bind, pure, Except.pure]
    cases test c.state.store condition with
    | error fault => rfl
    | ok holds => cases holds <;> rfl

/-- A block that is no loop is executed by executing what it leaves. -/
theorem execute_eq_finish (block : Block) (h : ∀ p body, block ≠ .whileLoop p body) :
    execute limits fuel block c = (advance limits block c).finish (executeAll limits fuel) := by
  cases block with
  | declareVars p => rw [execute, advance]; exact ofAction_eq_finish limits fuel c _
  | assign p => rw [execute, advance]; exact ofAction_eq_finish limits fuel c _
  | arithmetic p => rw [execute, advance]; exact ofAction_eq_finish limits fuel c _
  | ifThen p body => exact execute_ifThen limits fuel p c body
  | ifElse p thenBranch elseBranch => exact execute_ifElse limits fuel p c thenBranch elseBranch
  | whileLoop p body => exact absurd rfl (h p body)
  | declareArray p => rw [execute, advance]; exact ofAction_eq_finish limits fuel c _
  | arrayAccess p => rw [execute, advance]; exact ofAction_eq_finish limits fuel c _

end Finish

section Monotone
variable {limits : Limits} {fuel more : Nat}

theorem repeatWhile_below {body body' : Config → Outcome} (condition : String)
    (hb : ∀ c, (body c).Below (body' c)) (h : fuel ≤ more) (c : Config) :
    (repeatWhile limits condition body fuel c).Below
      (repeatWhile limits condition body' more c) := by
  induction fuel generalizing more c with
  | zero => exact Outcome.below_unfinished _
  | succ fuel ih =>
    obtain ⟨more, rfl⟩ := Nat.exists_eq_add_one_of_ne_zero (Nat.ne_of_gt (Nat.zero_lt_of_lt h))
    rw [repeatWhile_succ, repeatWhile_succ]
    split
    · exact .refl _
    · exact .refl _
    · split
      · exact .refl _
      · exact (hb _).andThen fun d => ih (Nat.le_of_succ_le_succ h) d

/-- More fuel does not change an outcome that is one. -/
theorem executeAll_below (h : fuel ≤ more) (blocks : List Block) (c : Config) :
    (executeAll limits fuel blocks c).Below (executeAll limits more blocks c) := by
  refine blocks_induction
    (P := fun blocks => ∀ c,
      (executeAll limits fuel blocks c).Below (executeAll limits more blocks c))
    (Q := fun block => ∀ c, (execute limits fuel block c).Below (execute limits more block c))
    ?_ ?_ ?_ ?_ blocks c
  · intro c
    rw [executeAll_nil, executeAll_nil]
    exact .refl _
  · intro block rest hb hr c
    rw [executeAll_cons, executeAll_cons]
    exact (hb c).andThen hr
  · intro p body hb c
    rw [execute, execute]
    split
    · exact .refl _
    · exact repeatWhile_below _ hb h c
  · intro block hk hf c
    rw [execute_eq_finish limits fuel c block hk, execute_eq_finish limits more c block hk]
    cases ha : advance limits block c with
    | fail fault d => exact .refl _
    | go front d => exact hf front (mem_fronts_of_advance ha) d

end Monotone

end BlockTrace.Run
