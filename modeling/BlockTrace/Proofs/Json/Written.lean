import BlockTrace.Json.Writer
import BlockTrace.Proofs.Json.Grammar
import Mathlib

/-! What is written is JSON, and its value is the one that was written. Numbers are left out. -/
namespace BlockTrace.Json

/-- A value without numbers in which at most `depth` arrays and objects stand inside one another. -/
inductive NumberFree : Nat → Value → Prop
  | null {depth : Nat} : NumberFree depth .null
  | bool {depth : Nat} (b : Bool) : NumberFree depth (.bool b)
  | string {depth : Nat} (s : String) : NumberFree depth (.string s)
  | array {depth : Nat} {items : List Value} : (∀ v ∈ items, NumberFree depth v) →
      NumberFree (depth + 1) (.array items)
  | object {depth : Nat} {members : List (String × Value)} : (∀ m ∈ members, NumberFree depth m.2) →
      NumberFree (depth + 1) (.object members)

section Strings

private theorem hexValue?_control : ∀ n < 0x20,
    hexValue? ['0', '0', Nat.digitChar (n / 16), Nat.digitChar (n % 16)] = some n := by
  decide

private theorem stringBody_escaped (c : Char) {text cs : List Char} (h : StringBody text cs) :
    StringBody (escaped c ++ text) (c :: cs) := by
  have short {letter meant : Char} (hm : (letter, meant) ∈ shortEscapes) :
      StringBody (['\\', letter] ++ text) (meant :: cs) := .escape (.short hm) h
  unfold escaped
  split
  case h_8 hq hb _ _ _ _ _ =>
    split
    next hc =>
      have hu : HexUnit ['0', '0', Nat.digitChar (c.toNat / 16), Nat.digitChar (c.toNat % 16)]
          c.toNat := ⟨rfl, hexValue?_control c.toNat hc⟩
      have he := Escape.unit hu (.inl (by omega))
      rw [Char.ofNat_toNat] at he
      exact .escape he h
    next hc => exact .plain hq hb (Nat.not_lt.1 hc) h
  all_goals exact short (by decide)

private theorem stringBody_flatMap_escaped (cs : List Char) :
    StringBody (cs.flatMap escaped) cs := by
  induction cs with
  | nil => exact .nil
  | cons c cs ih =>
    rw [List.flatMap_cons]
    exact stringBody_escaped c ih

theorem isString_writeString (s : String) : IsString (writeString s) s :=
  ⟨s.toList.flatMap escaped, stringBody_flatMap_escaped s.toList, rfl⟩

end Strings

section Collections
variable {P : List Char → Value → Prop}

private theorem row_writeItems {item : Value} {items : List Value}
    (h : ∀ v ∈ item :: items, P (write v) v) :
    Row ']' P (writeItems (item :: items) ++ [']']) (item :: items) := by
  induction items generalizing item with
  | nil => exact row_last (h item List.mem_cons_self)
  | cons next more ih =>
    have hrow := ih fun v hv => h v (List.mem_cons_of_mem item hv)
    have hw := row_more (h item List.mem_cons_self) hrow
    rw [writeItems]
    simpa using hw

private theorem enclosed_writeItems {items : List Value} (h : ∀ v ∈ items, P (write v) v) :
    Enclosed ']' P (writeItems items ++ [']']) items := by
  cases items with
  | nil => exact .none blanks_nil
  | cons item items => exact .some (row_writeItems h)

theorem isMember_write {m : String × Value} (h : P (write m.2) m.2) :
    IsMember P (writeString m.1 ++ ':' :: write m.2) m :=
  isPair_compact (isString_writeString m.1) h

private theorem row_writeMembers {m : String × Value} {ms : List (String × Value)}
    (h : ∀ n ∈ m :: ms, P (write n.2) n.2) :
    Row '\x7d' (IsMember P) (writeMembers (m :: ms) ++ ['\x7d']) (m :: ms) := by
  induction ms generalizing m with
  | nil =>
    rw [writeMembers]
    exact row_last (isMember_write (h m List.mem_cons_self))
  | cons next more ih =>
    have hrow := ih fun n hn => h n (List.mem_cons_of_mem m hn)
    have hw := row_more (isMember_write (h m List.mem_cons_self)) hrow
    rw [writeMembers]
    simpa using hw

private theorem enclosed_writeMembers {ms : List (String × Value)}
    (h : ∀ m ∈ ms, P (write m.2) m.2) :
    Enclosed '\x7d' (IsMember P) (writeMembers ms ++ ['\x7d']) ms := by
  cases ms with
  | nil => exact .none blanks_nil
  | cons m ms => exact .some (row_writeMembers h)

end Collections

theorem isValue_of_isScalar {depth : Nat} {text : List Char} {v : Value} (h : IsScalar text v) :
    IsValue depth text v := by
  cases depth with
  | zero => exact led_self h
  | succ depth => exact led_self (.scalar h)

/-- Writing a value derives it. -/
theorem isValue_write {depth : Nat} {v : Value} (h : NumberFree depth v) :
    IsValue depth (write v) v := by
  induction h with
  | null => exact isValue_of_isScalar .null
  | bool b =>
    cases b with
    | true => exact isValue_of_isScalar .yes
    | false => exact isValue_of_isScalar .no
  | string s => exact isValue_of_isScalar (.string (isString_writeString s))
  | array _ ih =>
    rw [write]
    exact led_self (.array (enclosed_writeItems ih))
  | object _ ih =>
    rw [write]
    exact led_self (.object (enclosed_writeMembers ih))

theorem document_write {v : Value} (h : NumberFree nestingLimit v) : Document (write v) v :=
  ⟨write v, [], isValue_write h, blanks_nil, (List.append_nil _).symm⟩

section Lines

/-- A string on a line of its own. -/
def onLine (s : String) : List Char :=
  '\n' :: ' ' :: ' ' :: writeString s

private theorem isValue_onLine (depth : Nat) (s : String) :
    IsValue (depth + 1) (onLine s) (.string s) :=
  ⟨['\n', ' ', ' '], writeString s, by simp [Blanks, isSpace],
    .scalar (.string (isString_writeString s)), rfl⟩

private theorem row_onLine {P : List Char → Value → Prop} (h : ∀ s, P (onLine s) (.string s))
    (first : String) (rest : List String) :
    Row ']' P (onLine first ++ (rest.flatMap (fun s => ',' :: onLine s) ++ ['\n', ']']))
      (.string first :: rest.map .string) := by
  induction rest generalizing first with
  | nil =>
    have hn : Blanks ['\n'] := by simp [Blanks, isSpace]
    exact .last (h first) hn
  | cons next rest ih =>
    have hrow := row_more (h first) (ih next)
    simpa using hrow

private theorem isValue_writeLines (depth : Nat) (lines : List String) :
    IsValue (depth + 2) (writeLines lines) (.array (lines.map .string)) := by
  apply led_self
  cases lines with
  | nil => exact .array (.none blanks_nil)
  | cons first rest =>
    have hrow := row_onLine (isValue_onLine depth) first rest
    have hw : writeLines (first :: rest) =
        '[' :: (onLine first ++ (rest.flatMap (fun s => ',' :: onLine s) ++ ['\n', ']'])) := by
      simp [writeLines, onLine]
    rw [hw]
    exact .array (.some hrow)

/-- Strings that are written line by line are an array of these strings. -/
theorem document_writeLines (lines : List String) {blanks : List Char} (h : Blanks blanks) :
    Document (writeLines lines ++ blanks) (.array (lines.map .string)) :=
  ⟨writeLines lines, blanks, isValue_writeLines 125 lines, h, rfl⟩

end Lines

end BlockTrace.Json
