import BlockTrace.Proofs.Attempt
import BlockTrace.Proofs.Json.Grammar
import Mathlib

/-! What a reader gives apart from its bounds, and how blanks and strings are read: as the grammar
says. -/
namespace BlockTrace.Json

/-- What a reader gives, without the bound on the characters that it leaves. -/
def plain {ε α : Type} {n : Nat} (x : Except ε (Parsed α n)) : Except ε (α × List Char) :=
  x.map fun r => (r.value, r.rest)

section Plain
variable {ε ε' α β : Type} {m n : Nat}

theorem plain_eq_ok_iff {x : Except ε (Parsed α n)} {a : α} {rest : List Char} :
    plain x = .ok (a, rest) ↔ ∃ h, x = .ok ⟨a, rest, h⟩ := by
  cases x with
  | error e => simp [plain, Except.map]
  | ok r =>
    obtain ⟨value, left, h⟩ := r
    simp only [plain, Except.map, Except.ok.injEq, Prod.mk.injEq, Parsed.mk.injEq]
    constructor
    · rintro ⟨rfl, rfl⟩
      exact ⟨h, rfl, rfl⟩
    · rintro ⟨-, hv⟩
      exact hv

/-- A change of the bound does not show. -/
theorem plain_rebound (x : Except ε (Parsed α m)) {f : Parsed α m → Parsed α n}
    (hf : ∀ r, (f r).value = r.value ∧ (f r).rest = r.rest := by exact fun _ => ⟨rfl, rfl⟩) :
    plain (x.map f) = plain x := by
  cases x with
  | error e => rfl
  | ok r => exact congrArg Except.ok (Prod.ext (hf r).1 (hf r).2)

theorem plain_map (x : Except ε (Parsed α m)) (g : α → β) {f : Parsed α m → Parsed β n}
    (hf : ∀ r, (f r).value = g r.value ∧ (f r).rest = r.rest := by exact fun _ => ⟨rfl, rfl⟩) :
    plain (x.map f) = (plain x).map fun p => (g p.1, p.2) := by
  cases x with
  | error e => rfl
  | ok r => exact congrArg Except.ok (Prod.ext (hf r).1 (hf r).2)

theorem plain_map_eq_ok_iff {x : Except ε (Parsed α m)} (g : α → β) {f : Parsed α m → Parsed β n}
    {b : β} {rest : List Char}
    (hf : ∀ r, (f r).value = g r.value ∧ (f r).rest = r.rest := by exact fun _ => ⟨rfl, rfl⟩) :
    plain (x.map f) = .ok (b, rest) ↔ ∃ a, plain x = .ok (a, rest) ∧ g a = b := by
  rw [plain_map x g hf, map_eq_ok_iff]
  simp only [Prod.exists, Prod.mk.injEq]
  exact ⟨fun ⟨a, left, h, hb, hl⟩ => ⟨a, hl ▸ h, hb⟩, fun ⟨a, h, hb⟩ => ⟨a, rest, h, hb, rfl⟩⟩

end Plain

section Spaces

private theorem skipSpace_append {blanks : List Char} (h : Blanks blanks) (text : List Char) :
    skipSpace (blanks ++ text) = skipSpace text := by
  unfold skipSpace
  exact List.dropWhile_append_of_pos h

private theorem skipSpace_cons {c : Char} (h : isSpace c = false) (text : List Char) :
    skipSpace (c :: text) = c :: text := by
  simp [skipSpace, h]

theorem skipSpace_append_cons {blanks : List Char} {c : Char} (h : Blanks blanks)
    (hc : isSpace c = false) (text : List Char) : skipSpace (blanks ++ c :: text) = c :: text := by
  rw [skipSpace_append h, skipSpace_cons hc]

/-- Before what is left after the blanks stand blanks. -/
theorem exists_blanks_append_skipSpace (text : List Char) :
    ∃ blanks, Blanks blanks ∧ text = blanks ++ skipSpace text :=
  ⟨text.takeWhile isSpace, fun _ hc => List.mem_takeWhile_imp hc,
    List.takeWhile_append_dropWhile.symm⟩

theorem exists_blanks_of_skipSpace {text rest : List Char} {c : Char}
    (h : skipSpace text = c :: rest) : ∃ blanks, Blanks blanks ∧ text = blanks ++ c :: rest := by
  rw [← h]
  exact exists_blanks_append_skipSpace text

theorem blanks_of_skipSpace {text : List Char} (h : skipSpace text = []) : Blanks text := by
  obtain ⟨blanks, hb, ht⟩ := exists_blanks_append_skipSpace text
  rw [h, List.append_nil] at ht
  exact ht ▸ hb

theorem skipSpace_of_blanks {text : List Char} (h : Blanks text) : skipSpace text = [] :=
  List.dropWhile_eq_nil_iff.2 h

end Spaces

section Strings
variable {text rest digits : List Char} {unit : Nat} {c : Char}

theorem plain_hexEscape (h : HexUnit digits unit) (rest : List Char) :
    plain (hexEscape (digits ++ rest)) = .ok (unit, rest) := by
  obtain ⟨hl, hv⟩ := h
  match digits, hl with
  | [a, b, c, d], _ => simp [hexEscape, hv, plain, Except.map]

theorem hexUnit_of_hexEscape (h : plain (hexEscape text) = .ok (unit, rest)) :
    ∃ digits, HexUnit digits unit ∧ text = digits ++ rest := by
  unfold hexEscape at h
  split at h
  next a b c d more =>
    split at h
    next value hv =>
      obtain ⟨rfl, rfl⟩ : value = unit ∧ more = rest := by simpa [plain, Except.map] using h
      exact ⟨[a, b, c, d], ⟨rfl, hv⟩, rfl⟩
    · simp [plain, Except.map] at h
  · simp [plain, Except.map] at h

/-- The surrogates are read as a pair, or not at all. -/
theorem plain_lowSurrogate {high low : Nat} (h : HexUnit digits low) (hl : 0xDC00 ≤ low)
    (hu : low ≤ 0xDFFF) (rest : List Char) :
    plain (lowSurrogate high ('\\' :: 'u' :: (digits ++ rest))) =
      .ok (Char.ofNat ((high - 0xD800) * 0x400 + (low - 0xDC00) + 0x10000), rest) := by
  obtain ⟨hr, he⟩ := plain_eq_ok_iff.1 (plain_hexEscape h rest)
  simp [lowSurrogate, he, hl, hu, plain, Except.map]

private theorem hexUnit_of_lowSurrogate {high : Nat}
    (h : plain (lowSurrogate high text) = .ok (c, rest)) :
    ∃ digits low, HexUnit digits low ∧ 0xDC00 ≤ low ∧ low ≤ 0xDFFF ∧
      c = Char.ofNat ((high - 0xD800) * 0x400 + (low - 0xDC00) + 0x10000) ∧
      text = '\\' :: 'u' :: (digits ++ rest) := by
  unfold lowSurrogate at h
  split at h
  next more =>
    split at h
    · cases h
    next low left hs he =>
      split at h
      next hb =>
        obtain ⟨rfl, rfl⟩ : _ = c ∧ left = rest := by simpa [plain, Except.map] using h
        obtain ⟨digits, hd, rfl⟩ := hexUnit_of_hexEscape (plain_eq_ok_iff.2 ⟨hs, he⟩)
        exact ⟨digits, low, hd, hb.1, hb.2, rfl, rfl⟩
      · cases h
  · cases h
  · cases h
  · cases h

theorem plain_escape {e : List Char} (h : Escape e c) (rest : List Char) :
    plain (escape (e ++ rest)) = .ok (c, rest) := by
  cases h with
  | short hm =>
    simp only [shortEscapes, List.mem_cons, Prod.mk.injEq, List.not_mem_nil, or_false] at hm
    rcases hm with ⟨rfl, rfl⟩ | ⟨rfl, rfl⟩ | ⟨rfl, rfl⟩ | ⟨rfl, rfl⟩ | ⟨rfl, rfl⟩ | ⟨rfl, rfl⟩ |
      ⟨rfl, rfl⟩ | ⟨rfl, rfl⟩ <;> rfl
  | @unit digits unit hd hu =>
    obtain ⟨hr, he⟩ := plain_eq_ok_iff.1 (plain_hexEscape hd rest)
    have h1 : ¬ (0xDC00 ≤ unit ∧ unit ≤ 0xDFFF) := by omega
    have h2 : ¬ (0xD800 ≤ unit ∧ unit ≤ 0xDBFF) := by omega
    simp [escape, he, h1, h2, plain, Except.map]
  | @pair digits more high low hd h1 h2 hm h3 h4 =>
    obtain ⟨hr, he⟩ := plain_eq_ok_iff.1 (plain_hexEscape hd ('\\' :: 'u' :: (more ++ rest)))
    have hn : ¬ (0xDC00 ≤ high ∧ high ≤ 0xDFFF) := by omega
    have hp : 0xD800 ≤ high ∧ high ≤ 0xDBFF := by omega
    have ht : 'u' :: (digits ++ '\\' :: 'u' :: more) ++ rest =
        'u' :: (digits ++ '\\' :: 'u' :: (more ++ rest)) := by simp
    rw [ht]
    simp only [escape, he, if_neg hn, if_pos hp]
    exact (plain_rebound _).trans (plain_lowSurrogate hm h3 h4 rest)

private theorem escape_of_plain (h : plain (escape text) = .ok (c, rest)) :
    ∃ e, Escape e c ∧ text = e ++ rest := by
  unfold escape at h
  split at h
  · cases h
  next letter more =>
    have short {meant : Char} (hm : (letter, meant) ∈ shortEscapes)
        (h : plain (.ok (Parsed.before meant more) : Except Fault _) = .ok (c, rest)) :
        ∃ e, Escape e c ∧ letter :: more = e ++ rest := by
      obtain ⟨rfl, rfl⟩ : meant = c ∧ more = rest := by
        simpa [plain, Except.map, Parsed.before] using h
      exact ⟨[letter], .short hm, rfl⟩
    dsimp only at h
    split at h
    case h_9 =>
      split at h
      · cases h
      next unit left hs he =>
        obtain ⟨digits, hd, rfl⟩ := hexUnit_of_hexEscape (plain_eq_ok_iff.2 ⟨hs, he⟩)
        split at h
        · cases h
        next hn =>
          split at h
          next hp =>
            rw [plain_rebound] at h
            obtain ⟨more, low, hm, h3, h4, hc, rfl⟩ := hexUnit_of_lowSurrogate h
            rw [hc]
            exact ⟨_, .pair hd hp.1 (by omega) hm h3 h4, by simp⟩
          next hp =>
            obtain ⟨rfl, rfl⟩ : Char.ofNat unit = c ∧ left = rest := by
              simpa [plain, Except.map] using h
            exact ⟨_, .unit hd (by omega), rfl⟩
    case h_10 => cases h
    all_goals exact short (by decide) h

private theorem plain_stringFrom {body cs : List Char} (h : StringBody body cs) (bound : Nat)
    (seen rest : List Char) (hb : (body ++ '"' :: rest).length ≤ bound) :
    plain (stringFrom bound seen (body ++ '"' :: rest) hb) =
      .ok (String.ofList (seen.reverse ++ cs), rest) := by
  induction h generalizing seen with
  | nil =>
    rw [List.append_nil]
    simp only [List.nil_append, stringFrom, if_true]
    rfl
  | @plain c text cs hq hs hc _ ih =>
    simp only [List.cons_append, stringFrom, if_neg hq, if_neg hs, if_neg (Nat.not_lt.2 hc)]
    rw [ih]
    simp
  | @escape e c text cs he _ ih =>
    obtain ⟨hr, hx⟩ := plain_eq_ok_iff.1 (plain_escape he (text ++ '"' :: rest))
    have ht : '\\' :: (e ++ text) ++ '"' :: rest = '\\' :: (e ++ (text ++ '"' :: rest)) := by simp
    simp only [ht, stringFrom, hx]
    simp only [Char.reduceEq, if_false, if_true]
    rw [ih]
    simp

private theorem stringBody_of_stringFrom {bound : Nat} {seen : List Char} {s : String}
    (hb : text.length ≤ bound) (h : plain (stringFrom bound seen text hb) = .ok (s, rest)) :
    ∃ body cs, StringBody body cs ∧ s = String.ofList (seen.reverse ++ cs) ∧
      text = body ++ '"' :: rest := by
  fun_induction stringFrom bound seen text hb with
  | case1 => cases h
  | case2 seen more hb =>
    obtain ⟨rfl, rfl⟩ : String.ofList seen.reverse = s ∧ more = rest := by
      simpa [plain, Except.map] using h
    exact ⟨[], [], .nil, by simp, rfl⟩
  | case3 => cases h
  | case4 seen more meant after ha he _ _ _ ih =>
    obtain ⟨body, cs, hs, rfl, rfl⟩ := ih h
    obtain ⟨e, hm, rfl⟩ := escape_of_plain (plain_eq_ok_iff.2 ⟨ha, he⟩)
    exact ⟨_, _, .escape hm hs, by simp, by simp⟩
  | case5 => cases h
  | case6 seen c more _ hq hs hc _ ih =>
    obtain ⟨body, cs, hb, rfl, rfl⟩ := ih h
    exact ⟨_, _, .plain hq hs (Nat.not_lt.1 hc) hb, by simp, rfl⟩

/-- A string is read from behind its opening quote. -/
theorem plain_string {s : String} (h : IsString text s) (rest : List Char) :
    ∃ body, text = '"' :: body ∧ plain (string (body ++ rest)) = .ok (s, rest) := by
  obtain ⟨body, hb, rfl⟩ := h
  refine ⟨body ++ ['"'], rfl, ?_⟩
  have ht : body ++ ['"'] ++ rest = body ++ '"' :: rest := by simp
  have hs := plain_stringFrom hb _ [] rest (Nat.le_refl _)
  rw [ht, string, hs]
  simp

theorem isString_of_string {s : String} (h : plain (string text) = .ok (s, rest)) :
    ∃ body, IsString ('"' :: body) s ∧ text = body ++ rest := by
  obtain ⟨body, cs, hb, rfl, rfl⟩ := stringBody_of_stringFrom _ h
  exact ⟨body ++ ['"'], ⟨body, by simpa using hb, rfl⟩, by simp⟩

end Strings

end BlockTrace.Json
