import BlockTrace.Proofs.Run.Footprint
import BlockTrace.Proofs.Text.Trimming
import Mathlib

/-! A list of declarations keeps the names before the first that is refused. Whether a name is
refused can be told from the store before the list and from the list itself, and the list does what
blocks with one name each do one after the other. -/
namespace BlockTrace.Text

private theorem not_mem_of_mem_pieces {mark : Char} {text piece : List Char}
    (h : piece ∈ pieces mark text) : mark ∉ piece := by
  induction text generalizing piece with
  | nil =>
    obtain rfl := List.mem_singleton.1 h
    exact List.not_mem_nil
  | cons c rest ih =>
    rw [pieces] at h
    split at h
    · rcases List.mem_cons.1 h with rfl | h
      · exact List.not_mem_nil
      · exact ih h
    next hc =>
      cases hp : pieces mark rest with
      | nil => exact absurd hp (by simp [pieces_eq_splitOn])
      | cons first more =>
        rw [hp] at h ih
        rcases List.mem_cons.1 h with rfl | h
        · have hf := ih List.mem_cons_self
          simp [hf, Ne.symm hc]
        · exact ih (List.mem_cons_of_mem _ h)

end BlockTrace.Text

namespace BlockTrace.Run
open Program (Block Parameters)
open Text (trim)

/-- The name at place `k` of the list cannot be declared: it is empty, or there is such a variable
before the list, or it stands in the list before. -/
def Refused (store : Store) (names : List String) (k : Nat) : Prop :=
  ∃ name ∈ names[k]?, name = "" ∨ name ∈ store.vars ∨ name ∈ names.take k

instance (store : Store) (names : List String) : DecidablePred (Refused store names) :=
  fun k => inferInstanceAs (Decidable (∃ name ∈ names[k]?, _))

def refusal (name : String) : Fault :=
  if name = "" then .emptyVariableName else .store (.duplicateVariable name)

/-- From `s` to `t` the names are declared in their order, each as zero, and nothing else is
different. -/
structure Declares (names : List String) (s t : State) : Prop where
  vars : ∀ name, t.store.vars[name]? = if name ∈ names then some 0 else s.store.vars[name]?
  arrays : t.store.arrays = s.store.arrays
  trace : t.trace = s.trace ++ names.map Event.declared
  lines : t.lines = s.lines ++ names.map fun name => "Declared variable: " ++ name ++ " = 0"
  halted : t.halted = s.halted
  iterations : t.iterations = s.iterations

def State.declareNext (s : State) (name : String) : State :=
  s.apply ⟨{ s.store with vars := s.store.vars.insert name 0 }, .declared name⟩

section Names
variable {store : Store} {names rest : List String} {name : String} {s t : State} {k : Nat}

private theorem declareName_eq_error (h : name = "" ∨ name ∈ store.vars) :
    declareName name store = .error (refusal name) := by
  unfold declareName refusal
  by_cases he : name = ""
  · simp [he]
  · have hm : name ∈ store.vars := h.resolve_left he
    simp [he, hm, Store.declare_eq, Except.mapError]

theorem declareEach_cons (he : name ≠ "") (hm : name ∉ s.store.vars) :
    declareEach (name :: rest) s = declareEach rest (s.declareNext name) := by
  simp [declareEach, declareName, he, hm, Store.declare_eq, Except.mapError, State.declareNext]

theorem refused_zero : Refused store (name :: rest) 0 ↔ name = "" ∨ name ∈ store.vars := by
  simp [Refused]

/-- To check a name against the store that grows with the list is to check it against the store
before the list and the names before it. -/
theorem refused_succ :
    Refused s.store (name :: rest) (k + 1) ↔ Refused (s.declareNext name).store rest k := by
  simp only [Refused, State.declareNext, State.apply, List.getElem?_cons_succ, List.take_succ_cons,
    List.mem_cons, Std.ExtTreeMap.mem_insert, Std.LawfulEqCmp.compare_eq_iff_eq]
  grind

theorem lines_of_declared (h : t.trace = s.trace ++ names.map Event.declared) :
    t.lines = s.lines ++ names.map fun name => "Declared variable: " ++ name ++ " = 0" := by
  rw [State.lines, h]
  simp only [Array.toList_appendList, List.map_append, List.map_map]
  rfl

theorem Declares.refl (s : State) : Declares [] s s where
  vars := by simp
  arrays := rfl
  trace := by simp
  lines := lines_of_declared (by simp)
  halted := rfl
  iterations := rfl

theorem Declares.cons (h : Declares rest (s.declareNext name) t) :
    Declares (name :: rest) s t :=
  have ht : t.trace = s.trace ++ (name :: rest).map Event.declared := by
    rw [h.trace]
    simp [State.declareNext, State.apply]
  { vars := by
      intro other
      rw [h.vars]
      simp only [State.declareNext, State.apply, Std.ExtTreeMap.getElem?_insert]
      grind
    arrays := h.arrays
    trace := ht
    lines := lines_of_declared ht
    halted := h.halted
    iterations := h.iterations }

/-- If no name is refused, all are declared. -/
theorem declareEach_of_not_refused (h : ∀ k, ¬ Refused s.store names k) :
    ∃ t, declareEach names s = (t, none) ∧ Declares names s t := by
  -- The state is generalized, since the rest of the list goes on from the larger store.
  induction names generalizing s with
  | nil => exact ⟨s, rfl, .refl s⟩
  | cons name rest ih =>
    have hn := mt refused_zero.2 (h 0)
    rw [not_or] at hn
    obtain ⟨t, ht, hd⟩ := ih fun k => mt refused_succ.2 (h (k + 1))
    exact ⟨t, (declareEach_cons hn.1 hn.2).trans ht, hd.cons⟩

/-- Otherwise those before the first that is refused are. -/
theorem declareEach_of_refused (hk : Refused s.store names k)
    (h : ∀ j < k, ¬ Refused s.store names j) :
    ∃ name t, names[k]? = some name ∧ declareEach names s = (t, some (refusal name)) ∧
      Declares (names.take k) s t := by
  induction names generalizing s k with
  | nil =>
    obtain ⟨name, hn, -⟩ := hk
    cases hn
  | cons name rest ih =>
    cases k with
    | zero =>
      refine ⟨name, s, rfl, ?_, .refl s⟩
      rw [declareEach, declareName_eq_error (refused_zero.1 hk)]
    | succ k =>
      have hn := mt refused_zero.2 (h 0 (Nat.succ_pos k))
      rw [not_or] at hn
      obtain ⟨last, t, hl, ht, hd⟩ := ih (refused_succ.1 hk) fun j hj =>
        mt refused_succ.2 (h (j + 1) (Nat.succ_lt_succ hj))
      exact ⟨last, t, hl, (declareEach_cons hn.1 hn.2).trans ht, hd.cons⟩

end Names

section Blocks
variable {limits : Limits} {fuel : Nat} {p : Parameters} {text : String}

private theorem listedNames_of_not_mem (h : ',' ∉ text.toList) :
    listedNames text = [String.ofList (trim text.toList)] := by
  rw [listedNames, Text.pieces_eq_splitOn, List.splitOn_eq_singleton h]
  rfl

theorem execute_declareVars_of_names (hp : p.get? .names = some text) (c : Config) :
    execute limits fuel (.declareVars p) c =
      .ofPartly c.interrupt (declareEach (listedNames text) c.state) := by
  rw [execute_declareVars, declareVars, require_eq_ok_iff.2 hp]

/-- Blocks with one piece each do one after the other what a list of the pieces does. How a piece is
spelled matters only up to the blanks around it. -/
theorem executeAll_declareVars_singly (spell : List Char → List Char) {pieces : List (List Char)}
    {blocks : List Parameters}
    (hb : blocks.map (·.get? .names) = pieces.map fun piece => some (String.ofList (spell piece)))
    (hs : ∀ piece ∈ pieces, ',' ∉ spell piece ∧ trim (spell piece) = trim piece) (c : Config) :
    executeAll limits fuel (blocks.map .declareVars) c =
      .ofPartly c.interrupt
        (declareEach (pieces.map fun piece => String.ofList (trim piece)) c.state) := by
  induction pieces generalizing blocks c with
  | nil =>
    obtain rfl := List.map_eq_nil_iff.1 hb
    exact executeAll_nil limits fuel c
  | cons piece pieces ih =>
    cases blocks with
    | nil => cases hb
    | cons p blocks =>
      rw [List.forall_mem_cons] at hs
      obtain ⟨hp, hb⟩ := List.cons.inj hb
      have hl : listedNames (String.ofList (spell piece)) = [String.ofList (trim piece)] := by
        rw [listedNames_of_not_mem, String.toList_ofList, hs.1.2]
        rw [String.toList_ofList]
        exact hs.1.1
      rw [List.map_cons, executeAll_cons, execute_declareVars_of_names hp, hl, List.map_cons,
        declareEach, declareEach]
      cases declareName (String.ofList (trim piece)) c.state.store with
      | error fault => rfl
      | ok effect => exact ih hb hs.2 (c.apply effect)

end Blocks

/-- A list of declarations takes the pieces between its commas without the blanks around them. It
declares the names before the first that is refused, or all of them if none is; only then does it
complete. It does the same as blocks that hold one piece each, with the blanks or without. -/
theorem declarations_stop_at_first_refused (limits : Limits) (fuel : Nat) {p : Parameters}
    {text : String} {names : List String} (hp : p.get? .names = some text)
    (hn : names = (text.toList.splitOn ',').map fun piece => String.ofList (trim piece))
    (c : Config) :
    ((∀ k, ¬ Refused c.state.store names k) →
      ∃ t, execute limits fuel (.declareVars p) c = .completed ⟨t, c.interrupt⟩ ∧
        Declares names c.state t) ∧
    (∀ k, Refused c.state.store names k → (∀ j < k, ¬ Refused c.state.store names j) →
      ∃ name t, names[k]? = some name ∧
        execute limits fuel (.declareVars p) c = .aborted (refusal name) ⟨t, c.interrupt⟩ ∧
        Declares (names.take k) c.state t) ∧
    ((∃ d, execute limits fuel (.declareVars p) c = .completed d) ↔
      ∀ k, ¬ Refused c.state.store names k) ∧
    ∀ blocks : List Parameters,
      blocks.map (·.get? .names) =
          (text.toList.splitOn ',').map (fun piece => some (String.ofList piece)) ∨
        blocks.map (·.get? .names) = names.map some →
      executeAll limits fuel (blocks.map .declareVars) c =
        execute limits fuel (.declareVars p) c := by
  have hx : execute limits fuel (.declareVars p) c =
      .ofPartly c.interrupt (declareEach names c.state) := by
    rw [execute_declareVars_of_names hp, listedNames, Text.pieces_eq_splitOn, hn]
  have hall : (∀ k, ¬ Refused c.state.store names k) →
      ∃ t, execute limits fuel (.declareVars p) c = .completed ⟨t, c.interrupt⟩ ∧
        Declares names c.state t := by
    intro h
    obtain ⟨t, ht, hd⟩ := declareEach_of_not_refused h
    exact ⟨t, hx.trans (congrArg _ ht), hd⟩
  have hfirst : ∀ k, Refused c.state.store names k → (∀ j < k, ¬ Refused c.state.store names j) →
      ∃ name t, names[k]? = some name ∧
        execute limits fuel (.declareVars p) c = .aborted (refusal name) ⟨t, c.interrupt⟩ ∧
        Declares (names.take k) c.state t := by
    intro k hk hj
    obtain ⟨name, t, hname, ht, hd⟩ := declareEach_of_refused hk hj
    exact ⟨name, t, hname, hx.trans (congrArg _ ht), hd⟩
  refine ⟨hall, hfirst, ⟨?_, ?_⟩, ?_⟩
  · rintro ⟨d, hd⟩ k hk
    -- Some place that is refused is not enough: the run stops at the first one.
    have hex : ∃ k, Refused c.state.store names k := ⟨k, hk⟩
    obtain ⟨name, t, -, ha, -⟩ :=
      hfirst (Nat.find hex) (Nat.find_spec hex) fun j hj => Nat.find_min hex hj
    cases hd.symm.trans ha
  · intro h
    obtain ⟨t, ht, -⟩ := hall h
    exact ⟨_, ht⟩
  · intro blocks hb
    have hcomma : ∀ piece ∈ text.toList.splitOn ',', ',' ∉ piece := by
      rw [← Text.pieces_eq_splitOn]
      exact fun piece => Text.not_mem_of_mem_pieces
    rw [hx, hn]
    rcases hb with hb | hb
    · exact executeAll_declareVars_singly id hb (fun piece hm => ⟨hcomma piece hm, rfl⟩) c
    · rw [hn, List.map_map] at hb
      exact executeAll_declareVars_singly trim hb
        (fun piece hm => ⟨mt Text.mem_of_mem_trim (hcomma piece hm), Text.trim_trim piece⟩) c

/-- The third name repeats the first. Neither the empty name behind it nor the variable that was
there before is reached. -/
theorem declarations_stop_at_repeated_name :
    ∃ c t, execute {} 0 (.declareNames "x,\u3000y , x,,b") c =
        .aborted (.store (.duplicateVariable "x")) ⟨t, c.interrupt⟩ ∧
      c.state.store.vars["b"]? = some 5 ∧ Declares ["x", "y"] c.state t ∧
      executeAll {} 0 [.declareNames "x", .declareNames "\u3000y ", .declareNames " x",
        .declareNames "", .declareNames "b"] c =
        execute {} 0 (.declareNames "x,\u3000y , x,,b") c := by
  have hp : (Parameters.ofList [("names", "x,\u3000y , x,,b")]).get? .names =
      some "x,\u3000y , x,,b" := by
    cbv
  have hn : ["x", "y", "x", "", "b"] = ("x,\u3000y , x,,b".toList.splitOn ',').map fun piece =>
      String.ofList (trim piece) := by
    decide
  let c : Config := ⟨{ store := { vars := (∅ : Expression.Variables).insert "b" 5 } }, true⟩
  obtain ⟨-, hfirst, -, hsingly⟩ := declarations_stop_at_first_refused {} 0 hp hn c
  obtain ⟨name, t, hname, hx, hd⟩ := hfirst 2 ⟨"x", rfl, by simp⟩ (by decide)
  cases hname
  refine ⟨c, t, hx, by simp [c], hd, ?_⟩
  exact hsingly (["x", "\u3000y ", " x", "", "b"].map fun piece => .ofList [("names", piece)])
    (.inl (by cbv))

end BlockTrace.Run
