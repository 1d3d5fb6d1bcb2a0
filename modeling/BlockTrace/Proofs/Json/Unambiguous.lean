import BlockTrace.Proofs.Json.Raw
import Mathlib

/-! JSON text can be read in one way only. What is derived at the front of a text determines what is
left of it, so that pieces in a row are found one after another. -/
namespace BlockTrace.Json

/-- Of one text, only one thing is derived at the front, and only one rest is left, as long as `E`
holds of the rest. -/
def Determined {α : Type} (E : List Char → Prop) (P : List Char → α → Prop) : Prop :=
  ∀ ⦃core core' rest rest' : List Char⦄ ⦃a a' : α⦄, P core a → P core' a' → E rest → E rest' →
    core ++ rest = core' ++ rest' → a = a' ∧ rest = rest'

section Strings
variable {digits digits' e text rest rest' : List Char} {unit unit' : Nat} {c : Char}

private theorem hexUnit_unique (h : HexUnit digits unit) (h' : HexUnit digits' unit')
    (he : digits ++ rest = digits' ++ rest') : unit = unit' ∧ rest = rest' := by
  obtain ⟨rfl, rfl⟩ := List.append_inj he (h.1.trans h'.1.symm)
  exact ⟨Option.some.inj (h.2.symm.trans h'.2), rfl⟩

private theorem hexUnit_no_quote (h : HexUnit digits unit) : '"' ∉ digits := by
  obtain ⟨hl, hv⟩ := h
  match digits, hl with
  | [a, b, c, d], _ =>
    rintro hq
    simp only [List.mem_cons, List.not_mem_nil, or_false] at hq
    rcases hq with rfl | rfl | rfl | rfl <;>
      simp [hexValue?, show hexValue?.digit? '"' = none from rfl] at hv

/-- The quote that ends a string cannot stand inside an escape. -/
private theorem startsLow_of_quote (h : StartsLow (text ++ '"' :: rest)) : StartsLow text := by
  obtain ⟨digits, low, more, hd, hl, hu, he⟩ := h
  have hq : '"' ∉ '\\' :: 'u' :: digits := by simp [hexUnit_no_quote hd]
  have he' : text ++ '"' :: rest = ('\\' :: 'u' :: digits) ++ more := by simp [he]
  rcases List.append_eq_append_iff.1 he' with ⟨mid, hm, hr⟩ | ⟨mid, rfl, -⟩
  · cases mid with
    | nil => exact ⟨digits, low, [], hd, hl, hu, by simpa using hm.symm⟩
    | cons d mid =>
      obtain ⟨rfl, -⟩ := List.cons.inj hr
      exact absurd (hm ▸ List.mem_append_right _ List.mem_cons_self) hq
  · exact ⟨digits, low, mid, hd, hl, hu, by simp⟩

/-- Half of a pair that stands alone cannot be read as an escape as well. -/
private theorem half_not_escape (hd : HexUnit digits unit) (hl : 0xD800 ≤ unit)
    (hu : unit ≤ 0xDFFF) (hs : unit < 0xDC00 → ¬ StartsLow text) (he : Escape e c) :
    e ++ rest' ≠ 'u' :: (digits ++ (text ++ '"' :: rest)) := by
  intro h
  cases he with
  | @short letter meant hm =>
    obtain ⟨rfl, -⟩ := List.cons.inj h
    simp [shortEscapes] at hm
  | unit hd' hu' =>
    obtain ⟨rfl, -⟩ := hexUnit_unique hd' hd (List.cons.inj h).2
    omega
  | @pair digits' more high low hd' _ hh hm hl' hu' =>
    simp only [List.cons_append, List.append_assoc, List.cons.injEq, true_and] at h
    obtain ⟨rfl, ht⟩ := hexUnit_unique hd' hd h
    exact hs hh (startsLow_of_quote ⟨more, low, rest', hm, hl', hu', ht.symm⟩)

private theorem rawBody_unique {body body' : List Char} {ls ls' : List Letter}
    (h : RawBody body ls) (h' : RawBody body' ls')
    (he : body ++ '"' :: rest = body' ++ '"' :: rest') : ls = ls' ∧ rest = rest' := by
  induction h generalizing body' ls' with
  | nil =>
    cases h' with
    | nil => exact ⟨rfl, (List.cons.inj he).2⟩
    | plain hq => exact absurd (List.cons.inj he).1.symm hq
    | escape => simp at he
    | half => simp at he
  | plain hq hs _ _ ih =>
    cases h' with
    | nil => exact absurd (List.cons.inj he).1 hq
    | plain _ _ _ h' =>
      obtain ⟨rfl, ht⟩ := List.cons.inj he
      obtain ⟨rfl, hr⟩ := ih h' ht
      exact ⟨rfl, hr⟩
    | escape => exact absurd (List.cons.inj he).1 hs
    | half => exact absurd (List.cons.inj he).1 hs
  | escape hx _ ih =>
    cases h' with
    | nil => simp at he
    | plain _ hs => exact absurd (List.cons.inj he).1.symm hs
    | @escape _ _ text' _ hx' h' =>
      simp only [List.cons_append, List.append_assoc, List.cons.injEq, true_and] at he
      have hp := plain_escape hx' (text' ++ '"' :: rest')
      rw [← he, plain_escape hx] at hp
      obtain ⟨rfl, ht⟩ := Prod.mk.inj (Except.ok.inj hp)
      obtain ⟨rfl, hr⟩ := ih h' ht
      exact ⟨rfl, hr⟩
    | half hd hl hu hs h' =>
      simp only [List.cons_append, List.append_assoc, List.cons.injEq, true_and] at he
      exact absurd he (half_not_escape hd hl hu hs hx)
  | half hd hl hu hs _ ih =>
    cases h' with
    | nil => simp at he
    | plain _ hs => exact absurd (List.cons.inj he).1.symm hs
    | escape hx h' =>
      simp only [List.cons_append, List.append_assoc, List.cons.injEq, true_and] at he
      exact absurd he.symm (half_not_escape hd hl hu hs hx)
    | half hd' _ _ _ h' =>
      simp only [List.cons_append, List.append_assoc, List.cons.injEq, true_and] at he
      obtain ⟨rfl, ht⟩ := hexUnit_unique hd hd' he
      obtain ⟨rfl, hr⟩ := ih h' ht
      exact ⟨rfl, hr⟩

theorem determined_isRawString : Determined (fun _ => True) IsRawString := by
  rintro _ _ rest rest' ls ls' ⟨body, h, rfl⟩ ⟨body', h', rfl⟩ - - he
  simp only [List.cons_append, List.append_assoc, List.cons.injEq, true_and] at he
  exact rawBody_unique h h' he

end Strings

private theorem determined_isRawNumber : Determined Ends IsRawNumber := by
  rintro _ _ rest rest' t t' ⟨size, h, rfl⟩ ⟨size', h', rfl⟩ hr hr' he
  have hn : t.negative = t'.negative ∧ size ++ rest = size' ++ rest' := by
    obtain ⟨c, more, rfl, hc⟩ := h.exists_digit
    obtain ⟨d, more', rfl, hd⟩ := h'.exists_digit
    cases ht : t.negative <;> cases ht' : t'.negative <;> simp only [ht, ht', if_true] at he
    · exact ⟨rfl, he⟩
    · exact absurd (List.cons.inj he).1 (ne_of_isDigit hc rfl)
    · exact absurd (List.cons.inj he).1.symm (ne_of_isDigit hd rfl)
    · exact ⟨rfl, (List.cons.inj he).2⟩
  have hp := plain_numberText h hr
  rw [hn.1, hn.2, plain_numberText h' hr'] at hp
  obtain ⟨rfl, rfl⟩ := Prod.mk.inj (Except.ok.inj hp)
  exact ⟨rfl, rfl⟩

section Collections
variable {α κ : Type} {P : List Char → α → Prop} {E : List Char → Prop} {close : Char}

/-- What `P` derives does not start with a blank. -/
def Solid (P : List Char → α → Prop) : Prop :=
  ∀ core a, P core a → ∃ c more, core = c :: more ∧ isSpace c = false

theorem Determined.led (h : Determined E P) (hs : Solid P) : Determined E (Led P) := by
  rintro _ _ rest rest' a a' ⟨blanks, core, hb, hp, rfl⟩ ⟨blanks', core', hb', hp', rfl⟩ hr hr' he
  obtain ⟨c, more, rfl, hc⟩ := hs core a hp
  obtain ⟨c', more', rfl, hc'⟩ := hs core' a' hp'
  have ht := congrArg skipSpace he
  rw [skipSpace_led hb hc, skipSpace_led hb' hc'] at ht
  exact h hp hp' hr hr' ht

/-- Marks behind blanks are the same, and so is what follows them. -/
private theorem mark_unique {blanks blanks' rest rest' : List Char} {c c' : Char}
    (hb : Blanks blanks) (hb' : Blanks blanks') (hc : isSpace c = false) (hc' : isSpace c' = false)
    (he : blanks ++ c :: rest = blanks' ++ c' :: rest') : c = c' ∧ rest = rest' := by
  have ht := congrArg skipSpace he
  rw [skipSpace_append_cons hb hc, skipSpace_append_cons hb' hc'] at ht
  exact List.cons.inj ht

theorem Determined.pair {K : List Char → κ → Prop} (hk : Determined (fun _ => True) K)
    (hs : Solid K) (h : Determined E P) : Determined E (IsPair K P) := by
  rintro _ _ rest rest' ⟨k, a⟩ ⟨k', a'⟩ ⟨name, _, hn, ⟨blanks, value, hb, hv, rfl⟩, rfl⟩
    ⟨name', _, hn', ⟨blanks', value', hb', hv', rfl⟩, rfl⟩ hr hr' he
  simp only [List.append_assoc, List.cons_append] at he
  obtain ⟨rfl, ht⟩ := hk.led hs hn hn' trivial trivial he
  obtain ⟨-, ht⟩ := mark_unique hb hb' rfl rfl ht
  obtain ⟨rfl, hr⟩ := h hv hv' hr hr' ht
  exact ⟨rfl, hr⟩

private theorem isSpace_close (hc : close ∈ [']', '\x7d']) : isSpace close = false := by
  simp only [List.mem_cons, List.not_mem_nil, or_false] at hc
  rcases hc with rfl | rfl <;> rfl

theorem Determined.row (h : Determined Ends P) (hc : close ∈ [']', '\x7d']) :
    Determined (fun _ => True) (Row close P) := by
  have hm : close ∈ [',', ']', '\x7d'] := List.mem_cons_of_mem _ hc
  have hsp := isSpace_close hc
  have hne : close ≠ ',' := by
    rintro rfl
    simp at hc
  intro core core' rest rest' as as' hrow hrow' _ _ he
  induction hrow generalizing core' as' with
  | last hp hb =>
    cases hrow' with
    | last hp' hb' =>
      simp only [List.append_assoc, List.cons_append, List.nil_append] at he
      obtain ⟨rfl, ht⟩ := h hp hp' (ends_of_mark hb hm _) (ends_of_mark hb' hm _) he
      exact ⟨rfl, (mark_unique hb hb' hsp hsp ht).2⟩
    | more hp' hb' _ =>
      simp only [List.append_assoc, List.cons_append, List.nil_append] at he
      obtain ⟨-, ht⟩ := h hp hp' (ends_of_mark hb hm _) (ends_of_mark hb' (by simp) _) he
      exact absurd (mark_unique hb hb' hsp rfl ht).1 hne
  | more hp hb _ ih =>
    cases hrow' with
    | last hp' hb' =>
      simp only [List.append_assoc, List.cons_append, List.nil_append] at he
      obtain ⟨-, ht⟩ := h hp hp' (ends_of_mark hb (by simp) _) (ends_of_mark hb' hm _) he
      exact absurd (mark_unique hb hb' rfl hsp ht).1.symm hne
    | more hp' hb' hrow' =>
      simp only [List.append_assoc, List.cons_append] at he
      obtain ⟨rfl, ht⟩ := h hp hp' (ends_of_mark hb (by simp) _) (ends_of_mark hb' (by simp) _) he
      obtain ⟨rfl, hr⟩ := ih hrow' (mark_unique hb hb' rfl rfl ht).2
      exact ⟨rfl, hr⟩

/-- What `P` derives does not start like the end of a collection. -/
def Distinct (close : Char) (P : List Char → α → Prop) : Prop :=
  ∀ core a rest, P core a → ∃ c more, skipSpace (core ++ rest) = c :: more ∧ c ≠ close

private theorem row_not_empty (hd : Distinct close P) (hsp : isSpace close = false)
    {core blanks rest rest' : List Char} {as : List α} (h : Row close P core as)
    (hb : Blanks blanks) : core ++ rest ≠ blanks ++ [close] ++ rest' := by
  intro he
  have ht := congrArg skipSpace he
  rw [skipSpace_led hb hsp] at ht
  cases h with
  | last hp _ | more hp _ _ =>
    rw [List.append_assoc] at ht
    obtain ⟨c, more, hs, hne⟩ := hd _ _ _ hp
    exact hne (List.cons.inj (hs.symm.trans ht)).1

theorem Determined.enclosed (h : Determined Ends P) (hd : Distinct close P)
    (hc : close ∈ [']', '\x7d']) : Determined (fun _ => True) (Enclosed close P) := by
  have hsp := isSpace_close hc
  intro core core' rest rest' as as' hp hp' _ _ he
  cases hp with
  | none hb =>
    cases hp' with
    | none hb' =>
      simp only [List.append_assoc, List.cons_append, List.nil_append] at he
      exact ⟨rfl, (mark_unique hb hb' hsp hsp he).2⟩
    | some hrow => exact absurd he.symm (row_not_empty hd hsp hrow hb)
  | some hrow =>
    cases hp' with
    | none hb' => exact absurd he (row_not_empty hd hsp hrow hb')
    | some hrow' => exact h.row hc hrow hrow' trivial trivial he

end Collections

section Values
variable {P : List Char → Raw → Prop} {text : List Char} {r r' : Raw}

/-- The kind of value that a text starts, by its first character. -/
private def kindOfFirst (c : Char) : Char :=
  if c = '-' ∨ c.isDigit then '0' else c

private def kindOfRaw : Raw → Char
  | .null => 'n'
  | .bool true => 't'
  | .bool false => 'f'
  | .number _ => '0'
  | .string _ => '"'
  | .array _ => '['
  | .object _ => '\x7b'

private theorem IsRawNested.exists_first (h : IsRawNested P text r) :
    ∃ c more, text = c :: more ∧ isSpace c = false ∧ c ≠ ']' ∧ kindOfFirst c = kindOfRaw r := by
  cases h with
  | scalar h =>
    cases h with
    | null => exact ⟨'n', _, rfl, rfl, by decide, rfl⟩
    | yes => exact ⟨'t', _, rfl, rfl, by decide, rfl⟩
    | no => exact ⟨'f', _, rfl, rfl, by decide, rfl⟩
    | string h =>
      obtain ⟨body, -, rfl⟩ := h
      exact ⟨'"', _, rfl, rfl, by decide, rfl⟩
    | @number _ t h =>
      obtain ⟨size, ht, rfl⟩ := h
      cases t.negative with
      | true => exact ⟨'-', size, rfl, rfl, by decide, rfl⟩
      | false =>
        obtain ⟨c, more, rfl, hc⟩ := ht.exists_digit
        exact ⟨c, more, rfl, isSpace_of_isDigit hc, ne_of_isDigit hc rfl,
          by simp [kindOfFirst, kindOfRaw, hc]⟩
  | array _ => exact ⟨'[', _, rfl, rfl, by decide, rfl⟩
  | object _ => exact ⟨'\x7b', _, rfl, rfl, by decide, rfl⟩

private theorem solid_isRawNested : Solid (IsRawNested P) := by
  intro core a h
  obtain ⟨c, more, rfl, hc, -, -⟩ := h.exists_first
  exact ⟨c, more, rfl, hc⟩

private theorem solid_isRawString : Solid IsRawString := by
  rintro _ ls ⟨body, -, rfl⟩
  exact ⟨'"', _, rfl, rfl⟩

private theorem distinct_led : Distinct ']' (Led (IsRawNested P)) := by
  rintro _ a rest ⟨blanks, core, hb, h, rfl⟩
  obtain ⟨c, more, rfl, hc, hne, -⟩ := h.exists_first
  exact ⟨c, more ++ rest, skipSpace_led hb hc more rest, hne⟩

private theorem distinct_pair : Distinct '\x7d' (IsPair IsRawString P) := by
  rintro _ m rest ⟨_, given, ⟨blanks, _, hb, ⟨body, -, rfl⟩, rfl⟩, -, rfl⟩
  refine ⟨'"', body ++ ['"'] ++ given ++ rest, ?_, by decide⟩
  simp only [List.append_assoc, List.cons_append]
  exact skipSpace_append_cons hb rfl _

private theorem kind_unique {core core' rest rest' : List Char} (h : IsRawNested P core r)
    (h' : IsRawNested P core' r') (he : core ++ rest = core' ++ rest') :
    kindOfRaw r = kindOfRaw r' := by
  obtain ⟨c, more, rfl, -, -, hc⟩ := h.exists_first
  obtain ⟨c', more', rfl, -, -, hc'⟩ := h'.exists_first
  rw [← hc, ← hc', (List.cons.inj he).1]

private theorem determined_isRawScalar : Determined Ends IsRawScalar := by
  intro core core' rest rest' r r' hp hp' hr hr' he
  have hk := kind_unique (P := fun _ _ => False) (.scalar hp) (.scalar hp') he
  cases hp <;> cases hp' <;> simp only [kindOfRaw, Char.reduceEq] at hk
  case null.null => exact ⟨rfl, List.append_cancel_left he⟩
  case yes.yes => exact ⟨rfl, List.append_cancel_left he⟩
  case no.no => exact ⟨rfl, List.append_cancel_left he⟩
  case number.number t h t' h' =>
    obtain ⟨rfl, hr⟩ := determined_isRawNumber h h' hr hr' he
    exact ⟨rfl, hr⟩
  case string.string ls h ls' h' =>
    obtain ⟨rfl, hr⟩ := determined_isRawString h h' trivial trivial he
    exact ⟨rfl, hr⟩

private theorem kind_of_isRawScalar (h : IsRawScalar text r) :
    kindOfRaw r ≠ '[' ∧ kindOfRaw r ≠ '\x7b' := by
  cases h <;> simp [kindOfRaw]

private theorem determined_isRawNested (h : Determined Ends P) (hd : Distinct ']' P) :
    Determined Ends (IsRawNested P) := by
  intro core core' rest rest' r r' hp hp' hr hr' he
  have hk := kind_unique hp hp' he
  cases hp with
  | scalar hs =>
    cases hp' with
    | scalar hs' => exact determined_isRawScalar hs hs' hr hr' he
    | array => exact absurd hk (kind_of_isRawScalar hs).1
    | object => exact absurd hk (kind_of_isRawScalar hs).2
  | array hi =>
    cases hp' with
    | scalar hs => exact absurd hk.symm (kind_of_isRawScalar hs).1
    | array hi' =>
      obtain ⟨rfl, hr⟩ := h.enclosed hd (by simp) hi hi' trivial trivial (List.cons.inj he).2
      exact ⟨rfl, hr⟩
    | object => simp [kindOfRaw] at hk
  | object hm =>
    cases hp' with
    | scalar hs => exact absurd hk.symm (kind_of_isRawScalar hs).2
    | array => simp [kindOfRaw] at hk
    | object hm' =>
      obtain ⟨rfl, hr⟩ := (determined_isRawString.pair solid_isRawString h).enclosed distinct_pair
        (by simp) hm hm' trivial trivial (List.cons.inj he).2
      exact ⟨rfl, hr⟩

private theorem determined_isRaw (depth : Nat) :
    Determined Ends (IsRaw depth) ∧ Distinct ']' (IsRaw depth) := by
  induction depth with
  | zero =>
    -- A scalar is a nested value that holds nothing.
    have hn {core : List Char} {r : Raw} (h : Led IsRawScalar core r) :
        Led (IsRawNested fun _ _ => False) core r := by
      obtain ⟨blanks, core, hb, hs, rfl⟩ := h
      exact ⟨blanks, core, hb, .scalar hs, rfl⟩
    refine ⟨determined_isRawScalar.led fun core r h => ?_, fun core r rest h => ?_⟩
    · exact solid_isRawNested (P := fun _ _ => False) core r (.scalar h)
    · exact distinct_led core r rest (hn h)
  | succ depth ih => exact ⟨(determined_isRawNested ih.1 ih.2).led solid_isRawNested, distinct_led⟩

/-- A text can be read as JSON in one way only. -/
theorem isText_unique (h : IsText text r) (h' : IsText text r') : r = r' := by
  obtain ⟨core, blanks, hc, hb, rfl⟩ := h
  obtain ⟨core', blanks', hc', hb', he⟩ := h'
  exact ((determined_isRaw _).1 hc hc' (ends_of_blanks hb) (ends_of_blanks hb') he).1

end Values

end BlockTrace.Json
