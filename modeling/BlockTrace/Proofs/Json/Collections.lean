import BlockTrace.Proofs.Json.Scalars

/-! Arrays and objects are read as the grammar says, whatever is made of their items and members. -/
namespace BlockTrace.Json

section Pieces
variable {α : Type} {close : Char} {P : List Char → α → Prop} {text : List Char} {as : List α}

theorem Row.exists_text (h : Row close P text as) : ∀ a ∈ as, ∃ piece, P piece a := by
  induction h with
  | last hp _ =>
    intro a ha
    obtain rfl := List.mem_singleton.1 ha
    exact ⟨_, hp⟩
  | more hp _ _ ih =>
    rw [List.forall_mem_cons]
    exact ⟨⟨_, hp⟩, ih⟩

theorem Enclosed.exists_text (h : Enclosed close P text as) : ∀ a ∈ as, ∃ piece, P piece a := by
  cases h with
  | none _ => simp
  | some h => exact h.exists_text

end Pieces

section Decodes
variable {ε α β : Type}

/-- The reader takes what `P` derives, and nothing else, and gives what `decode` makes of the value
that was derived. -/
structure Decodes (read : Reader ε β) (P : List Char → α → Prop) (decode : α → Except ε β) :
    Prop where
  sound : ∀ {text rest b}, plain (read text) = .ok (b, rest) →
    ∃ core a, P core a ∧ decode a = .ok b ∧ text = core ++ rest
  complete : ∀ {core a rest}, P core a → Ends rest →
    plain (read (core ++ rest)) = (decode a).map (·, rest)

/-- Either both fail in the same way, or both give the same. -/
theorem Decodes.cases {read : Reader ε β} {P : List Char → α → Prop} {decode : α → Except ε β}
    (hd : Decodes read P decode) {core rest : List Char} {a : α} (h : P core a) (hr : Ends rest) :
    (∃ fault, decode a = .error fault ∧ read (core ++ rest) = .error fault) ∨
      ∃ b hb, decode a = .ok b ∧ read (core ++ rest) = .ok ⟨b, rest, hb⟩ := by
  have hc := hd.complete h hr
  cases ha : decode a with
  | error fault =>
    rw [ha] at hc
    cases hx : read (core ++ rest) with
    | error e =>
      rw [hx] at hc
      cases hc
      exact .inl ⟨_, rfl, rfl⟩
    | ok r =>
      rw [hx] at hc
      cases hc
  | ok b =>
    rw [ha] at hc
    obtain ⟨hb, hx⟩ := plain_eq_ok_iff.1 hc
    exact .inr ⟨b, hb, rfl, hx⟩

/-- What `P` derives does not start like the end of an array. -/
def Opens (P : List Char → α → Prop) : Prop :=
  ∀ core a rest, P core a → ∃ c more, skipSpace (core ++ rest) = c :: more ∧ c ≠ ']'

theorem Opens.row {P : List Char → α → Prop} (ho : Opens P) {close : Char} {core : List Char}
    {as : List α} (h : Row close P core as) (rest : List Char) :
    ∃ c more, skipSpace (core ++ rest) = c :: more ∧ c ≠ ']' := by
  cases h with
  | last hp _ =>
    rw [List.append_assoc]
    exact ho _ _ _ hp
  | more hp _ _ =>
    rw [List.append_assoc]
    exact ho _ _ _ hp

end Decodes

section Items
variable {ε α β : Type} {lift : Fault → ε} {item : Reader ε β} {P : List Char → α → Prop}
  {decode : α → Except ε β} {bound : Nat} {seen : List β} {text rest core : List Char} {as : List α}

private theorem plain_moreItems_close (hs : skipSpace text = ']' :: rest)
    (h : text.length ≤ bound) :
    plain (moreItems lift item bound seen text h) = .ok (seen.reverse, rest) := by
  rw [moreItems]
  split
  next he => cases hs.symm.trans he
  next c more he =>
    obtain ⟨rfl, rfl⟩ := List.cons.inj (hs.symm.trans he)
    rfl

section Comma
variable {c : Char} {more : List Char}

private theorem moreItems_comma_error {fault : ε} (hs : skipSpace text = ',' :: rest)
    (hc : skipSpace rest = c :: more) (hne : c ≠ ']') (hi : item rest = .error fault)
    (h : text.length ≤ bound) : moreItems lift item bound seen text h = .error fault := by
  rw [moreItems]
  split
  next he => cases hs.symm.trans he
  next d left he =>
    obtain ⟨rfl, rfl⟩ := List.cons.inj (hs.symm.trans he)
    simp only [Char.reduceEq, if_false, if_true, hc, hi]

/-- After a comma the next item is read. -/
theorem moreItems_comma_ok {b : β} {after : List Char} {ha : after.length < rest.length}
    (hs : skipSpace text = ',' :: rest) (hc : skipSpace rest = c :: more) (hne : c ≠ ']')
    (hi : item rest = .ok ⟨b, after, ha⟩) (h : text.length ≤ bound) :
    moreItems lift item bound seen text h =
      moreItems lift item bound (b :: seen) after
        (by have := skipSpace_shorter hs; omega) := by
  rw [moreItems]
  split
  next he => cases hs.symm.trans he
  next d left he =>
    obtain ⟨rfl, rfl⟩ := List.cons.inj (hs.symm.trans he)
    simp only [Char.reduceEq, if_false, if_true, hc, hi]

end Comma

/-- The items of a row are decoded one after another. The reader of the first one is left to the
caller, since both `items` and `moreItems` start with it. -/
theorem moreItems_row (hd : Decodes item P decode) (ho : Opens P) (h : Row ']' P core as)
    (rest : List Char) :
    (∃ fault, item (core ++ rest) = .error fault ∧ as.mapM decode = .error fault) ∨
      ∃ b after ha, item (core ++ rest) = .ok ⟨b, after, ha⟩ ∧ ∀ bound seen hb,
        plain (moreItems lift item bound (b :: seen) after hb) =
          (as.mapM decode).map fun bs => (seen.reverse ++ bs, rest) := by
  induction h with
  | @last text blanks a hp hb =>
    have he : Ends (blanks ++ ']' :: rest) := ends_of_mark hb (by simp) rest
    have ht : text ++ (blanks ++ [']']) ++ rest = text ++ (blanks ++ ']' :: rest) := by simp
    have hs : skipSpace (blanks ++ ']' :: rest) = ']' :: rest :=
      skipSpace_append_cons hb rfl _
    rw [ht]
    obtain ⟨fault, ha, hi⟩ | ⟨b, hl, ha, hi⟩ := hd.cases hp he
    · exact .inl ⟨fault, hi, by simp [ha, bind, Except.bind]⟩
    · refine .inr ⟨b, _, hl, hi, fun bound seen hb => ?_⟩
      rw [plain_moreItems_close hs]
      simp [ha, Except.map, bind, Except.bind, pure, Except.pure]
  | @more text blanks core a as hp hb hrow ih =>
    have he : Ends (blanks ++ ',' :: (core ++ rest)) := ends_of_mark hb (by simp) _
    have ht : text ++ (blanks ++ ',' :: core) ++ rest =
        text ++ (blanks ++ ',' :: (core ++ rest)) := by simp
    have hs : skipSpace (blanks ++ ',' :: (core ++ rest)) = ',' :: (core ++ rest) :=
      skipSpace_append_cons hb rfl _
    rw [ht]
    obtain ⟨fault, ha, hi⟩ | ⟨b, hl, ha, hi⟩ := hd.cases hp he
    · exact .inl ⟨fault, hi, by simp [ha, bind, Except.bind]⟩
    · refine .inr ⟨b, _, hl, hi, fun bound seen hb => ?_⟩
      obtain ⟨c, left, hc, hne⟩ := ho.row hrow rest
      obtain ⟨fault, hf, hm⟩ | ⟨next, after, hn, hf, hm⟩ := ih
      · rw [moreItems_comma_error hs hc hne hf]
        simp [ha, hm, plain, Except.map, bind, Except.bind]
      · rw [moreItems_comma_ok hs hc hne hf, hm]
        cases hx : as.mapM decode with
        | error fault => simp [ha, hx, Except.map, bind, Except.bind]
        | ok bs => simp [ha, hx, Except.map, bind, Except.bind, pure, Except.pure]

/-- What follows an item completes a row. -/
theorem row_of_moreItems (hd : Decodes item P decode) {bs : List β} (hb : text.length ≤ bound)
    (h : plain (moreItems lift item bound seen text hb) = .ok (bs, rest)) :
    ∃ core as cs, (∀ first a, P first a → Row ']' P (first ++ core) (a :: as)) ∧
      as.mapM decode = .ok cs ∧ bs = seen.reverse ++ cs ∧ text = core ++ rest := by
  fun_induction moreItems lift item bound seen text hb with
  | case1 => cases h
  | case2 seen text hb left hs =>
    obtain ⟨rfl, rfl⟩ : seen.reverse = bs ∧ left = rest := by simpa [plain, Except.map] using h
    obtain ⟨blanks, hk, rfl⟩ := exists_blanks_of_skipSpace hs
    exact ⟨blanks ++ [']'], [], [], fun _ _ hp => .last hp hk, rfl, by simp, by simp⟩
  | case3 => cases h
  | case4 => cases h
  | case5 => cases h
  | case6 seen text hb left _ _ _ _ value after ha hi hs _ _ ih =>
    -- The item that was read here is the first one of the row that the rest completes.
    obtain ⟨core, as, cs, hrow, hm, rfl, rfl⟩ := ih h
    obtain ⟨one, a, hp, hv, rfl⟩ := hd.sound (plain_eq_ok_iff.2 ⟨ha, hi⟩)
    obtain ⟨blanks, hk, rfl⟩ := exists_blanks_of_skipSpace hs
    refine ⟨blanks ++ ',' :: (one ++ core), a :: as, value :: cs,
      fun _ _ hf => .more hf hk (hrow one a hp), ?_, by simp, by simp⟩
    simp [hv, hm, bind, Except.bind, pure, Except.pure]
  | case7 => cases h

theorem decodes_items (hd : Decodes item P decode) (ho : Opens P) :
    Decodes (items lift item) (Enclosed ']' P) (List.mapM decode) where
  sound := by
    intro text rest bs h
    unfold items at h
    split at h
    · cases h
    next left hs =>
      obtain ⟨rfl, rfl⟩ : [] = bs ∧ left = rest := by simpa [plain, Except.map] using h
      obtain ⟨blanks, hk, rfl⟩ := exists_blanks_of_skipSpace hs
      exact ⟨blanks ++ [']'], [], .none hk, rfl, by simp⟩
    · split at h
      · cases h
      next value after ha hi =>
        obtain ⟨core, as, cs, hrow, hm, rfl, rfl⟩ := row_of_moreItems hd _ h
        obtain ⟨one, a, hp, hv, rfl⟩ := hd.sound (plain_eq_ok_iff.2 ⟨ha, hi⟩)
        refine ⟨one ++ core, a :: as, .some (hrow one a hp), ?_, by simp⟩
        simp [hv, hm, bind, Except.bind, pure, Except.pure]
  complete := by
    intro core as rest h _
    cases h with
    | @none blanks hk =>
      have hs : skipSpace (blanks ++ [']'] ++ rest) = ']' :: rest := by
        rw [List.append_assoc]
        exact skipSpace_append_cons hk rfl rest
      unfold items
      split
      next he => cases hs.symm.trans he
      next left he =>
        obtain rfl := (List.cons.inj (hs.symm.trans he)).2
        rfl
      next c left hne he => exact absurd (List.cons.inj (hs.symm.trans he)).1.symm hne
    | some hrow =>
      obtain ⟨c, more, hc, hne⟩ := ho.row hrow rest
      unfold items
      split
      next he => cases hc.symm.trans he
      next left he => exact absurd (List.cons.inj (hc.symm.trans he)).1 hne
      next c left _ he =>
        obtain ⟨fault, hi, hm⟩ | ⟨b, after, ha, hi, hm⟩ := moreItems_row hd ho hrow rest
        · rw [hi, hm]
          rfl
        · rw [hi]
          exact hm _ [] _

end Items

section Members
variable {ε α σ : Type} {lift : Fault → ε} {member : σ → String → Reader ε σ}
  {P : List Char → α → Prop} {step : σ → String → α → Except ε σ} {bound : Nat} {state : σ}
  {text rest core : List Char} {ms : List (String × α)}

theorem plain_colon {blanks : List Char} (h : Blanks blanks) (rest : List Char) :
    plain (colon (blanks ++ ':' :: rest)) = .ok ((), rest) := by
  have hs : skipSpace (blanks ++ ':' :: rest) = ':' :: rest := skipSpace_append_cons h rfl rest
  unfold colon
  split
  next he => cases hs.symm.trans he
  next c left he =>
    obtain ⟨rfl, rfl⟩ := List.cons.inj (hs.symm.trans he)
    rfl

theorem blanks_of_colon {u : Unit} (h : plain (colon text) = .ok (u, rest)) :
    ∃ blanks, Blanks blanks ∧ text = blanks ++ ':' :: rest := by
  unfold colon at h
  split at h
  · cases h
  next c left hs =>
    split at h
    next hc =>
      obtain rfl : left = rest := by simpa [plain, Except.map] using h
      exact exists_blanks_of_skipSpace (hc ▸ hs)
    · cases h

section Step
variable {name : String} {afterName afterValue more : List Char} {next : σ}
  {hn : afterName.length < text.length} {hv : afterValue.length < afterName.length}

theorem membersFrom_error {fault : ε} (hs : string text = .ok ⟨name, afterName, hn⟩)
    (hm : member state name afterName = .error fault) (h : text.length ≤ bound) :
    membersFrom lift member bound state text h = .error fault := by
  rw [membersFrom]
  simp only [hs, hm]

private theorem plain_membersFrom_close (hs : string text = .ok ⟨name, afterName, hn⟩)
    (hm : member state name afterName = .ok ⟨next, afterValue, hv⟩)
    (hc : skipSpace afterValue = '\x7d' :: rest) (h : text.length ≤ bound) :
    plain (membersFrom lift member bound state text h) = .ok (next, rest) := by
  rw [membersFrom]
  simp only [hs, hm]
  split
  next he => cases hc.symm.trans he
  next c left he =>
    obtain ⟨rfl, rfl⟩ := List.cons.inj (hc.symm.trans he)
    rfl

private theorem membersFrom_comma (hs : string text = .ok ⟨name, afterName, hn⟩)
    (hm : member state name afterName = .ok ⟨next, afterValue, hv⟩)
    (hc : skipSpace afterValue = ',' :: rest) (hq : skipSpace rest = '"' :: more)
    (h : text.length ≤ bound) :
    membersFrom lift member bound state text h =
      membersFrom lift member bound next more (by
        have := skipSpace_shorter hc
        have := skipSpace_shorter hq
        omega) := by
  rw [membersFrom]
  simp only [hs, hm]
  split
  next he => cases hc.symm.trans he
  next c left he =>
    obtain ⟨rfl, rfl⟩ := List.cons.inj (hc.symm.trans he)
    simp only [Char.reduceEq, if_false, if_true]
    split
    next he => cases hq.symm.trans he
    next d left he =>
      obtain ⟨rfl, rfl⟩ := List.cons.inj (hq.symm.trans he)
      simp only [if_true]

end Step

/-- The name at the front of a member is read from behind its quote. -/
theorem IsMember.exists_string {m : String × α} (h : IsMember P text m) (rest : List Char) :
    ∃ given body hn, IsGiven P given m.2 ∧ skipSpace (text ++ rest) = '"' :: body ∧
      string body = .ok ⟨m.1, given ++ rest, hn⟩ := by
  obtain ⟨_, given, ⟨blanks, quoted, hk, hq, rfl⟩, hg, rfl⟩ := h
  obtain ⟨body, rfl, hs⟩ := plain_string hq (given ++ rest)
  obtain ⟨hn, hs⟩ := plain_eq_ok_iff.1 hs
  refine ⟨given, body ++ (given ++ rest), hn, hg, ?_, hs⟩
  rw [List.append_assoc, List.append_assoc]
  exact skipSpace_append_cons hk rfl _

/-- The members of an object are taken one after another from behind the first quote. -/
theorem plain_membersFrom (hd : ∀ s name, Decodes (member s name) (IsGiven P) (step s name))
    (h : Row '\x7d' (IsMember P) core ms) (rest : List Char) :
    ∃ body, skipSpace (core ++ rest) = '"' :: body ∧ ∀ bound state hb,
      plain (membersFrom lift member bound state body hb) =
        (ms.foldlM (fun s m => step s m.1 m.2) state).map (·, rest) := by
  induction h with
  | @last text blanks m hm hk =>
    have he : Ends (blanks ++ '\x7d' :: rest) := ends_of_mark hk (by simp) rest
    have hc : skipSpace (blanks ++ '\x7d' :: rest) = '\x7d' :: rest :=
      skipSpace_append_cons hk rfl _
    have ht : text ++ (blanks ++ ['\x7d']) ++ rest = text ++ (blanks ++ '\x7d' :: rest) := by simp
    obtain ⟨given, body, hn, hg, hq, hs⟩ := hm.exists_string (blanks ++ '\x7d' :: rest)
    refine ⟨body, ht ▸ hq, fun bound state hb => ?_⟩
    obtain ⟨fault, hf, hr⟩ | ⟨next, hv, hf, hr⟩ := (hd state m.1).cases hg he
    · rw [membersFrom_error hs hr]
      simp [hf, plain, Except.map, bind, Except.bind]
    · rw [plain_membersFrom_close hs hr hc]
      simp [hf, Except.map, bind, Except.bind, pure, Except.pure]
  | @more text blanks core m ms hm hk _ ih =>
    have he : Ends (blanks ++ ',' :: (core ++ rest)) := ends_of_mark hk (by simp) _
    have hc : skipSpace (blanks ++ ',' :: (core ++ rest)) = ',' :: (core ++ rest) :=
      skipSpace_append_cons hk rfl _
    have ht : text ++ (blanks ++ ',' :: core) ++ rest =
        text ++ (blanks ++ ',' :: (core ++ rest)) := by simp
    obtain ⟨more, hq', hrow⟩ := ih
    obtain ⟨given, body, hn, hg, hq, hs⟩ := hm.exists_string (blanks ++ ',' :: (core ++ rest))
    refine ⟨body, ht ▸ hq, fun bound state hb => ?_⟩
    obtain ⟨fault, hf, hr⟩ | ⟨next, hv, hf, hr⟩ := (hd state m.1).cases hg he
    · rw [membersFrom_error hs hr]
      simp [hf, plain, Except.map, bind, Except.bind]
    · rw [membersFrom_comma hs hr hc hq', hrow]
      simp [hf, bind, Except.bind]

/-- What is read behind a quote is a row of members. -/
theorem row_of_membersFrom (hd : ∀ s name, Decodes (member s name) (IsGiven P) (step s name))
    {final : σ} (hb : text.length ≤ bound)
    (h : plain (membersFrom lift member bound state text hb) = .ok (final, rest)) :
    ∃ core ms, (∀ blanks, Blanks blanks → Row '\x7d' (IsMember P) (blanks ++ '"' :: core) ms) ∧
      ms.foldlM (fun s m => step s m.1 m.2) state = .ok final ∧ text = core ++ rest := by
  fun_induction membersFrom lift member bound state text hb with
  | case1 => cases h
  | case2 => cases h
  | case3 => cases h
  | case4 state text hb name afterName hn hs next afterValue hv hm left hc =>
    obtain ⟨rfl, rfl⟩ : next = final ∧ left = rest := by simpa [plain, Except.map] using h
    obtain ⟨quoted, hq, rfl⟩ := isString_of_string (plain_eq_ok_iff.2 ⟨hn, hs⟩)
    obtain ⟨given, a, hg, hf, rfl⟩ := (hd state name).sound (plain_eq_ok_iff.2 ⟨hv, hm⟩)
    obtain ⟨trail, hk, rfl⟩ := exists_blanks_of_skipSpace hc
    refine ⟨quoted ++ (given ++ (trail ++ ['\x7d'])), [(name, a)], fun blanks hl => ?_, ?_, by simp⟩
    · have hm : IsMember P ((blanks ++ '"' :: quoted) ++ given) (name, a) :=
        ⟨_, given, ⟨blanks, _, hl, hq, rfl⟩, hg, rfl⟩
      simpa using Row.last hm hk
    · simp [hf, bind, Except.bind, pure, Except.pure]
  | case5 => cases h
  | case6 state text hb name afterName hn hs next afterValue hv hm left more hc _ _ hl _ ih =>
    -- The reader has passed the blanks and the quote before the next name; the row gets them back.
    obtain ⟨core, ms, hrow, hfold, rfl⟩ := ih h
    obtain ⟨quoted, hq, rfl⟩ := isString_of_string (plain_eq_ok_iff.2 ⟨hn, hs⟩)
    obtain ⟨given, a, hg, hf, rfl⟩ := (hd state name).sound (plain_eq_ok_iff.2 ⟨hv, hm⟩)
    obtain ⟨trail, hk, rfl⟩ := exists_blanks_of_skipSpace hc
    obtain ⟨lead, hlead, rfl⟩ := exists_blanks_of_skipSpace hl
    refine ⟨quoted ++ (given ++ (trail ++ ',' :: (lead ++ '"' :: core))), (name, a) :: ms,
      fun blanks hb => ?_, ?_, by simp⟩
    · have hm : IsMember P ((blanks ++ '"' :: quoted) ++ given) (name, a) :=
        ⟨_, given, ⟨blanks, _, hb, hq, rfl⟩, hg, rfl⟩
      simpa using Row.more hm hk (hrow lead hlead)
    · simp [hf, hfold, bind, Except.bind]
  | case7 => cases h
  | case8 => cases h

theorem decodes_members (hd : ∀ s name, Decodes (member s name) (IsGiven P) (step s name))
    (state : σ) :
    Decodes (members lift member state) (Enclosed '\x7d' (IsMember P))
      (List.foldlM (fun s m => step s m.1 m.2) state) where
  sound := by
    intro text rest final h
    unfold members at h
    split at h
    · cases h
    next c left hs =>
      dsimp only at h
      split at h
      next hc =>
        obtain ⟨rfl, rfl⟩ : state = final ∧ left = rest := by simpa [plain, Except.map] using h
        obtain ⟨blanks, hk, rfl⟩ := exists_blanks_of_skipSpace (hc ▸ hs)
        exact ⟨blanks ++ ['\x7d'], [], .none hk, rfl, by simp⟩
      · split at h
        next hq =>
          obtain ⟨core, ms, hrow, hfold, rfl⟩ := row_of_membersFrom hd _ h
          obtain ⟨blanks, hk, rfl⟩ := exists_blanks_of_skipSpace (hq ▸ hs)
          exact ⟨_, ms, .some (hrow blanks hk), hfold, by simp⟩
        · cases h
  complete := by
    intro core ms rest h _
    cases h with
    | @none blanks hk =>
      have hs : skipSpace (blanks ++ ['\x7d'] ++ rest) = '\x7d' :: rest := by
        rw [List.append_assoc]
        exact skipSpace_append_cons hk rfl rest
      unfold members
      split
      next he => cases hs.symm.trans he
      next c left he =>
        obtain ⟨rfl, rfl⟩ := List.cons.inj (hs.symm.trans he)
        rfl
    | some hrow =>
      obtain ⟨body, hs, hm⟩ := plain_membersFrom hd hrow rest
      unfold members
      split
      next he => cases hs.symm.trans he
      next c left he =>
        obtain ⟨rfl, rfl⟩ := List.cons.inj (hs.symm.trans he)
        exact hm _ state _

end Members

end BlockTrace.Json
