import BlockTrace.Proofs.Json.Collections

/-! A text is read as a value exactly if the grammar derives that value. -/
namespace BlockTrace.Json

section Readers
variable {ε α β γ : Type} {P : List Char → α → Prop}

/-- What is made of the value afterwards. -/
theorem Decodes.map {read : Reader ε β} {decode : α → Except ε β} (hd : Decodes read P decode)
    (f : β → γ) :
    Decodes (fun text => (read text).map (Parsed.map f)) P fun a => (decode a).map f where
  sound := by
    intro text rest c h
    obtain ⟨b, hb, rfl⟩ := (plain_map_eq_ok_iff f).1 h
    obtain ⟨core, a, hp, ha, rfl⟩ := hd.sound hb
    exact ⟨core, a, hp, by rw [ha]; rfl, rfl⟩
  complete := by
    intro core a rest hp hr
    have hm : plain ((read (core ++ rest)).map (Parsed.map f)) =
        (plain (read (core ++ rest))).map fun p => (f p.1, p.2) := plain_map _ f
    rw [hm, hd.complete hp hr]
    cases decode a with
    | error fault => rfl
    | ok b => rfl

/-- Faults may be dressed up. -/
theorem Decodes.mapError {ε' : Type} {read : Reader ε β} {decode : α → Except ε β}
    (hd : Decodes read P decode) (lift : ε → ε') :
    Decodes (fun text => (read text).mapError lift) P fun a => (decode a).mapError lift where
  sound := by
    intro text rest b h
    obtain ⟨hr, h⟩ := plain_eq_ok_iff.1 h
    obtain ⟨core, a, hp, ha, rfl⟩ := hd.sound (plain_eq_ok_iff.2 ⟨hr, mapError_eq_ok_iff.1 h⟩)
    exact ⟨core, a, hp, mapError_eq_ok_iff.2 ha, rfl⟩
  complete := by
    intro core a rest hp hr
    obtain ⟨fault, ha, hi⟩ | ⟨b, hb, ha, hi⟩ := hd.cases hp hr
    · rw [ha, hi]
      rfl
    · rw [ha, hi]
      rfl

/-- The value is passed on to what may fail. -/
theorem Decodes.andThen {read : Reader ε β} {decode : α → Except ε β} (hd : Decodes read P decode)
    (f : β → Except ε γ) :
    Decodes (fun text => do
      let r ← read text
      let c ← f r.value
      return r.map fun _ => c) P fun a => decode a >>= f where
  sound := by
    intro text rest c h
    obtain ⟨hr, h⟩ := plain_eq_ok_iff.1 h
    obtain ⟨⟨b, left, hl⟩, hb, h⟩ := bind_eq_ok_iff.1 h
    obtain ⟨d, hf, h⟩ := bind_eq_ok_iff.1 h
    obtain ⟨rfl, rfl⟩ : d = c ∧ left = rest := by simpa [pure, Except.pure, Parsed.map] using h
    obtain ⟨core, a, hp, ha, rfl⟩ := hd.sound (plain_eq_ok_iff.2 ⟨hl, hb⟩)
    exact ⟨core, a, hp, bind_eq_ok_iff.2 ⟨b, ha, hf⟩, rfl⟩
  complete := by
    intro core a rest hp hr
    obtain ⟨fault, ha, hi⟩ | ⟨b, hb, ha, hi⟩ := hd.cases hp hr
    · simp only [ha, hi]
      rfl
    · simp only [ha, hi, ok_bind]
      cases f b with
      | error fault => rfl
      | ok c => rfl

/-- A reader that takes a colon and leaves the rest to another one. -/
theorem Decodes.given {inner read : Reader ε β} {decode : α → Except ε β}
    (hd : Decodes inner P decode)
    (hok : ∀ {text rest h}, colon text = .ok ⟨(), rest, h⟩ → plain (read text) = plain (inner rest))
    (herror : ∀ {text fault}, colon text = .error fault → ∃ e, read text = .error e) :
    Decodes read (IsGiven P) decode where
  sound := by
    intro text rest b h
    cases hc : colon text with
    | error fault =>
      obtain ⟨e, he⟩ := herror hc
      rw [he] at h
      cases h
    | ok r =>
      obtain ⟨_, left, hl⟩ := r
      rw [hok hc] at h
      obtain ⟨core, a, hp, ha, rfl⟩ := hd.sound h
      obtain ⟨blanks, hk, rfl⟩ := blanks_of_colon (plain_eq_ok_iff.2 ⟨hl, hc⟩)
      exact ⟨blanks ++ ':' :: core, a, ⟨blanks, core, hk, hp, rfl⟩, ha, by simp⟩
  complete := by
    rintro _ a rest ⟨blanks, core, hk, hp, rfl⟩ hr
    obtain ⟨hl, hc⟩ := plain_eq_ok_iff.1 (plain_colon hk (core ++ rest))
    have ht : blanks ++ ':' :: core ++ rest = blanks ++ ':' :: (core ++ rest) := by simp
    rw [ht, hok hc]
    exact hd.complete hp hr

/-- A string is read from behind its opening quote. -/
theorem decodes_string : Decodes string (fun core s => IsString ('"' :: core) s) .ok where
  sound := by
    intro text rest s h
    obtain ⟨body, hs, ht⟩ := isString_of_string h
    exact ⟨body, s, hs, rfl, ht⟩
  complete := by
    intro core s rest hs _
    obtain ⟨body, he, hp⟩ := plain_string hs rest
    obtain rfl := (List.cons.inj he).2
    exact hp

end Readers

section Values
variable {inner : Reader Fault Value} {depth : Nat} {text rest : List Char} {v : Value}

/-- Reads a member of an object; those so far are `seen`, last first. -/
def keptMember (inner : Reader Fault Value) (seen : List (String × Value)) (name : String) :
    Reader Fault (List (String × Value)) := fun text => do
  let mark ← colon text
  let value ← inner mark.rest
  return (value.map fun v => (name, v) :: seen).widen (Nat.le_of_lt mark.shorter)

theorem decodes_keptMember {P : List Char → Value → Prop} (hd : Decodes inner P .ok)
    (seen : List (String × Value)) (name : String) :
    Decodes (keptMember inner seen name) (IsGiven P) fun v => .ok ((name, v) :: seen) := by
  refine (hd.map fun v => (name, v) :: seen).given ?_ ?_
  · intro text rest h hc
    simp only [keptMember, hc, ok_bind]
    cases inner rest with
    | error fault => rfl
    | ok r => rfl
  · intro text fault hc
    exact ⟨fault, by simp only [keptMember, hc]; rfl⟩

theorem foldlM_keep (ms seen : List (String × Value)) :
    ms.foldlM (fun s m => (.ok ((m.1, m.2) :: s) : Except Fault _)) seen =
      .ok (ms.reverse ++ seen) := by
  refine List.foldlM_pure.trans (congrArg Except.ok ?_)
  simp

theorem mapM_ok (items : List Value) :
    items.mapM (.ok : Value → Except Fault Value) = .ok items := by
  refine List.mapM_pure.trans (congrArg Except.ok ?_)
  exact List.map_id items

theorem plain_valueWith_none {c : Char} {more : List Char} (hs : skipSpace text = c :: more) :
    plain (valueWith none text) =
      if c = '[' ∨ c = '\x7b' then .error .malformed else plain (scalar c more) := by
  unfold valueWith
  split
  next he => cases hs.symm.trans he
  next d left he =>
    obtain ⟨rfl, rfl⟩ := List.cons.inj (hs.symm.trans he)
    by_cases ha : c = '['
    · simp [ha, plain, Except.map]
    · by_cases ho : c = '\x7b'
      · simp [ho, plain, Except.map]
      · simp only [ha, ho, if_false, or_self]
        exact plain_rebound _

theorem plain_valueWith_some {c : Char} {more : List Char} (hs : skipSpace text = c :: more) :
    plain (valueWith (some inner) text) =
      if c = '[' then (plain (items id inner more)).map fun p => (.array p.1, p.2)
      else if c = '\x7b' then
        (plain (members id (keptMember inner) [] more)).map fun p => (.object p.1.reverse, p.2)
      else plain (scalar c more) := by
  unfold valueWith
  split
  next he => cases hs.symm.trans he
  next d left he =>
    obtain ⟨rfl, rfl⟩ := List.cons.inj (hs.symm.trans he)
    by_cases ha : c = '['
    · simp only [ha, if_true]
      exact plain_map _ Value.array
    · by_cases ho : c = '\x7b'
      · simp only [ho, Char.reduceEq, if_true, if_false]
        exact plain_map _ fun seen : List (String × Value) => Value.object seen.reverse
      · simp only [ha, ho, if_false]
        exact plain_rebound _

theorem valueWith_blanks {nested : Option (Reader Fault Value)} (hs : skipSpace text = []) :
    valueWith nested text = .error .truncated := by
  unfold valueWith
  split
  · rfl
  next he => cases hs.symm.trans he

theorem led_of_skipSpace {α : Type} {P : List Char → α → Prop} {a : α} {c : Char}
    {more core : List Char} (hs : skipSpace text = c :: more) (h : P (c :: core) a)
    (hm : more = core ++ rest) : ∃ led, Led P led a ∧ text = led ++ rest := by
  obtain ⟨blanks, hk, rfl⟩ := exists_blanks_of_skipSpace hs
  exact ⟨blanks ++ c :: core, ⟨blanks, c :: core, hk, h, rfl⟩, by simp [hm]⟩

theorem skipSpace_led {blanks : List Char} {c : Char} (hk : Blanks blanks) (hc : isSpace c = false)
    (core rest : List Char) : skipSpace (blanks ++ c :: core ++ rest) = c :: (core ++ rest) := by
  rw [List.append_assoc]
  exact skipSpace_append_cons hk hc _

private theorem decodes_valueWith_none : Decodes (valueWith none) (Led IsScalar) .ok where
  sound := by
    intro text rest v h
    cases hs : skipSpace text with
    | nil =>
      rw [valueWith_blanks hs] at h
      cases h
    | cons c more =>
      rw [plain_valueWith_none hs] at h
      split at h
      · cases h
      · obtain ⟨core, hc, hm⟩ := isScalar_of_scalar h
        obtain ⟨led, hl, ht⟩ := led_of_skipSpace hs hc hm
        exact ⟨led, v, hl, rfl, ht⟩
  complete := by
    rintro _ v rest ⟨blanks, core, hk, hc, rfl⟩ hr
    obtain ⟨c, more, rfl, hsp, ha, -, ho⟩ := hc.exists_head
    rw [plain_valueWith_none (skipSpace_led hk hsp more rest), if_neg (not_or.2 ⟨ha, ho⟩)]
    exact plain_scalar hc rfl hr

private theorem decodes_valueWith_some {P : List Char → Value → Prop} (hd : Decodes inner P .ok)
    (ho : Opens P) : Decodes (valueWith (some inner)) (Led (IsNested P)) .ok where
  sound := by
    intro text rest v h
    cases hs : skipSpace text with
    | nil =>
      rw [valueWith_blanks hs] at h
      cases h
    | cons c more =>
      rw [plain_valueWith_some hs] at h
      suffices hn : ∃ core, IsNested P (c :: core) v ∧ more = core ++ rest by
        obtain ⟨core, hc, hm⟩ := hn
        obtain ⟨led, hl, ht⟩ := led_of_skipSpace hs hc hm
        exact ⟨led, v, hl, rfl, ht⟩
      split at h
      next ha =>
        obtain ⟨⟨vs, left⟩, hi, he⟩ := map_eq_ok_iff.1 h
        obtain ⟨rfl, rfl⟩ : Value.array vs = v ∧ left = rest := by simpa using he
        obtain ⟨core, as, hc, hm, rfl⟩ := (decodes_items hd ho).sound hi
        obtain rfl : as = vs := by simpa [mapM_ok] using hm
        exact ⟨core, ha ▸ .array hc, rfl⟩
      · split at h
        next hb =>
          obtain ⟨⟨seen, left⟩, hi, he⟩ := map_eq_ok_iff.1 h
          obtain ⟨rfl, rfl⟩ : Value.object seen.reverse = v ∧ left = rest := by simpa using he
          obtain ⟨core, ms, hc, hm, rfl⟩ := (decodes_members (decodes_keptMember hd) []).sound hi
          obtain rfl : ms.reverse = seen := by simpa [foldlM_keep] using hm
          exact ⟨core, by simpa [hb] using IsNested.object hc, rfl⟩
        · obtain ⟨core, hc, hm⟩ := isScalar_of_scalar h
          exact ⟨core, .scalar hc, hm⟩
  complete := by
    rintro _ v rest ⟨blanks, core, hk, hc, rfl⟩ hr
    cases hc with
    | scalar hc =>
      obtain ⟨c, more, rfl, hsp, ha, -, hb⟩ := hc.exists_head
      rw [plain_valueWith_some (skipSpace_led hk hsp more rest), if_neg ha, if_neg hb]
      exact plain_scalar hc rfl hr
    | @array text items hi =>
      rw [plain_valueWith_some (skipSpace_led hk rfl text rest), if_pos rfl,
        (decodes_items hd ho).complete hi hr, mapM_ok]
      rfl
    | @object text ms hm =>
      rw [plain_valueWith_some (skipSpace_led hk rfl text rest), if_neg (by decide), if_pos rfl,
        (decodes_members (decodes_keptMember hd) []).complete hm hr, foldlM_keep]
      simp [Except.map]

theorem IsNested.exists_head {P : List Char → Value → Prop} (h : IsNested P text v) :
    ∃ c more, text = c :: more ∧ isSpace c = false ∧ c ≠ ']' := by
  cases h with
  | scalar hc =>
    obtain ⟨c, more, rfl, hsp, -, hne, -⟩ := hc.exists_head
    exact ⟨c, more, rfl, hsp, hne⟩
  | array _ => exact ⟨'[', _, rfl, rfl, by decide⟩
  | object _ => exact ⟨'\x7b', _, rfl, rfl, by decide⟩

/-- The first character tells arrays, objects and strings from each other and from the rest. -/
theorem IsNested.head_cases {P : List Char → Value → Prop} {c : Char} {core : List Char}
    (h : IsNested P text v) (ht : text = c :: core) :
    (c = '[' ∧ ∃ items, Enclosed ']' P core items ∧ v = .array items) ∨
      (c = '\x7b' ∧ ∃ ms, Enclosed '\x7d' (IsMember P) core ms ∧ v = .object ms) ∨
      (c = '"' ∧ ∃ s, IsString ('"' :: core) s ∧ v = .string s) ∨
      (c ∉ ['[', '\x7b', '"'] ∧
        (v = .null ∨ (∃ b, v = .bool b) ∨ (∃ n, v = .integer n) ∨ ∃ x, v = .double x)) := by
  cases h with
  | array hi =>
    obtain ⟨rfl, rfl⟩ := List.cons.inj ht
    exact .inl ⟨rfl, _, hi, rfl⟩
  | object hm =>
    obtain ⟨rfl, rfl⟩ := List.cons.inj ht
    exact .inr (.inl ⟨rfl, _, hm, rfl⟩)
  | scalar hc =>
    right; right
    cases hc with
    | null =>
      obtain ⟨rfl, -⟩ := List.cons.inj (show 'n' :: "ull".toList = c :: core from ht)
      exact .inr ⟨by decide, .inl rfl⟩
    | yes =>
      obtain ⟨rfl, -⟩ := List.cons.inj (show 't' :: "rue".toList = c :: core from ht)
      exact .inr ⟨by decide, .inr (.inl ⟨_, rfl⟩)⟩
    | no =>
      obtain ⟨rfl, -⟩ := List.cons.inj (show 'f' :: "alse".toList = c :: core from ht)
      exact .inr ⟨by decide, .inr (.inl ⟨_, rfl⟩)⟩
    | string hs =>
      subst ht
      obtain ⟨body, -, he⟩ := id hs
      obtain ⟨rfl, -⟩ := List.cons.inj he
      exact .inl ⟨rfl, _, hs, rfl⟩
    | number hn =>
      obtain ⟨t, -, -, hv, -⟩ := id hn
      refine .inr ⟨?_, .inr (.inr (integer_or_double hv))⟩
      obtain ⟨d, more, he, hd⟩ := hn.exists_head
      obtain ⟨rfl, -⟩ := List.cons.inj (he.symm.trans ht)
      intro hm
      simp only [List.mem_cons, List.not_mem_nil, or_false] at hm
      rcases hm with rfl | rfl | rfl <;> exact absurd hd (by decide)

theorem opens_isValue (depth : Nat) : Opens (IsValue depth) := by
  have led {P : List Char → Value → Prop} : Opens (Led (IsNested P)) := by
    rintro _ v rest ⟨blanks, core, hk, hc, rfl⟩
    obtain ⟨c, more, rfl, hsp, hne⟩ := hc.exists_head
    exact ⟨c, more ++ rest, skipSpace_led hk hsp more rest, hne⟩
  intro core v rest h
  cases depth with
  | zero =>
    obtain ⟨blanks, core, hk, hc, rfl⟩ := h
    exact led _ v rest ⟨blanks, core, hk, .scalar (P := fun _ _ => False) hc, rfl⟩
  | succ depth => exact led core v rest h

theorem decodes_value (depth : Nat) : Decodes (value depth) (IsValue depth) .ok := by
  induction depth with
  | zero => exact decodes_valueWith_none
  | succ depth ih => exact decodes_valueWith_some ih (opens_isValue depth)

theorem parse_eq_ok_iff : parse text = .ok v ↔ Document text v := by
  have hd := decodes_value nestingLimit
  constructor
  · intro h
    obtain ⟨⟨value, left, hl⟩, hv, h⟩ := bind_eq_ok_iff.1 h
    split at h
    next hs =>
      obtain rfl : value = v := by simpa [pure, Except.pure] using h
      obtain ⟨core, a, hc, ha, rfl⟩ := hd.sound (plain_eq_ok_iff.2 ⟨hl, hv⟩)
      obtain rfl : a = value := by simpa using ha
      exact ⟨core, left, hc, blanks_of_skipSpace hs, rfl⟩
    · cases h
  · rintro ⟨core, blanks, hc, hk, rfl⟩
    obtain ⟨hl, hv⟩ := plain_eq_ok_iff.1 (hd.complete hc (ends_of_blanks hk))
    simp only [parse, hv, ok_bind, skipSpace_of_blanks hk, if_true]
    rfl

end Values

end BlockTrace.Json
