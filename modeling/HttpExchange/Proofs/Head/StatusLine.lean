import HttpExchange.Proofs.Head.Form
import HttpExchange.Proofs.Text.Digits

/-!
The form of a response head. What is accepted is said of the text alone: the version, the code and
the reason on its first line, and the fields that the lines behind it make up.
-/

namespace HttpExchange

theorem Version.Spelled.solid {version : Version} {token : String}
    (spelled : version.Spelled token) : ' ' ∉ token.toList := by
  cases spelled <;> decide

namespace ResponseHead

open Numeral (Spells)

variable {x : Bytes} {first code tail : List Char} {version : Version} {status : Nat}
  {reason : String} {head : ResponseHead}

def ThreeDigits (code : List Char) (n : Nat) : Prop := code.length = 3 ∧ Spells 10 code n

/-- The code is one that is taken for this number: three digits, or two behind a plus sign. -/
def Coded (code : List Char) (n : Nat) : Prop :=
  ThreeDigits code n ∨ ∃ digits, code = '+' :: digits ∧ digits.length = 2 ∧ Spells 10 digits n

/-- What follows the code states this reason: a space and any text, of which the blanks at its ends
do not count, or nothing at all. -/
inductive Reasoned : List Char → String → Prop where
  | absent : Reasoned [] ""
  | stated (text : List Char) : Reasoned (' ' :: text) (String.ofList (Text.trim text))

/-- A status line: a version, one space, a code of this kind, and perhaps a reason. -/
def StatusLine (codes : List Char → Nat → Prop) (first : List Char) (version : Version)
    (status : Nat) (reason : String) : Prop :=
  ∃ token code tail, first = token.toList ++ ' ' :: (code ++ tail) ∧ version.Spelled token ∧
    codes code status ∧ Reasoned tail reason

/-- The bytes are the text of this head: a status line with a code of this kind, and lines that
make up the fields. -/
def Form (codes : List Char → Nat → Prop) (x : Bytes) (head : ResponseHead) : Prop :=
  ∃ text first rest, x = Utf8.encodeChars text ∧ Text.Lined text (first :: rest) ∧
    StatusLine codes first head.version head.status head.reason ∧
    Fields.ofLines rest = .ok head.fields

theorem parseStatus_eq_ok_iff : parseStatus code = .ok status ↔
    (Utf8.encodeChars code).length = 3 ∧ Numeral.read 10 Numeral.bound16 code = some status := by
  rw [parseStatus]
  by_cases size : (Utf8.encodeChars code).length = 3
  · rw [if_neg (not_not.mpr size)]
    cases Numeral.read 10 Numeral.bound16 code with
    | none => exact ⟨nofun, nofun⟩
    | some n => rw [Except.ok.injEq, Option.some.injEq, and_iff_right size]
  · rw [if_pos size]
    exact ⟨nofun, fun read => absurd read.1 size⟩

/-- The bytes of a numeral, signed or not, are as many as its characters. -/
theorem length_numeral {sign digits : List Char} (signed : sign = [] ∨ sign = ['+'])
    (spells : Spells 10 digits status) :
    (Utf8.encodeChars (sign ++ digits)).length = (sign ++ digits).length :=
  Utf8.length_encodeChars_of_ascii fun c member => (spells.plain_signed signed c member).1

theorem small_of_spells {digits : List Char} (few : digits.length ≤ 3)
    (spells : Spells 10 digits status) : status < Numeral.bound16 :=
  calc status < 10 ^ digits.length := spells.lt_pow (by decide)
    _ ≤ 10 ^ 3 := Nat.pow_le_pow_right (by decide) few
    _ < Numeral.bound16 := by decide

theorem parseStatus_iff_coded : parseStatus code = .ok status ↔ Coded code status := by
  rw [parseStatus_eq_ok_iff, Numeral.read_eq_some_iff]
  constructor
  · rintro ⟨size, ⟨sign, digits, rfl, signed, spells⟩, _⟩
    rw [length_numeral signed spells] at size
    rcases signed with rfl | rfl
    · exact .inl ⟨size, spells⟩
    · exact .inr ⟨digits, rfl, Nat.succ.inj size, spells⟩
  · rintro (⟨size, spells⟩ | ⟨digits, rfl, size, spells⟩)
    · refine ⟨?_, ⟨[], code, rfl, .inl rfl, spells⟩, small_of_spells size.le spells⟩
      rw [← size]
      exact length_numeral (.inl rfl) spells
    · refine ⟨?_, ⟨['+'], digits, rfl, .inr rfl, spells⟩, small_of_spells (by omega) spells⟩
      rw [← List.singleton_append, length_numeral (.inr rfl) spells, List.length_append, size]
      rfl

theorem Coded.solid (coded : Coded code status) : ' ' ∉ code := by
  have plain : ∀ c ∈ code, c.toNat < 0x80 ∧ isBlank c = false := by
    rcases coded with ⟨_, spells⟩ | ⟨digits, rfl, _, spells⟩
    · exact spells.plain
    · exact spells.plain_signed (.inr rfl)
  intro member
  exact absurd (plain ' ' member).2 (by decide)

theorem reasoned_cut (tail : List Char) : ∃ code behind reason, tail = code ++ behind ∧
    (Text.cut ' ' tail).getD (tail, []) = (code, reason) ∧
    Reasoned behind (String.ofList (Text.trim reason)) := by
  cases found : Text.cut ' ' tail with
  | none => exact ⟨tail, [], [], (List.append_nil tail).symm, rfl, .absent⟩
  | some parts =>
      obtain ⟨code, reason⟩ := parts
      obtain ⟨rfl, _⟩ := Text.cut_eq_some_iff.mp found
      exact ⟨code, ' ' :: reason, reason, rfl, rfl, .stated reason⟩

theorem cut_reasoned (coded : Coded code status) (reasoned : Reasoned tail reason) :
    ∃ text, (Text.cut ' ' (code ++ tail)).getD (code ++ tail, []) = (code, text) ∧
      String.ofList (Text.trim text) = reason := by
  cases reasoned with
  | absent =>
      have whole : Text.cut ' ' (code ++ []) = none := by
        cases found : Text.cut ' ' (code ++ []) with
        | none => rfl
        | some parts =>
            obtain ⟨same, _⟩ := Text.cut_eq_some_iff.mp found
            refine absurd ?_ coded.solid
            rw [← List.append_nil code, same]
            exact List.mem_append_right _ List.mem_cons_self
      exact ⟨[], by rw [whole, Option.getD_none, List.append_nil], rfl⟩
  | stated text =>
      exact ⟨text, by rw [Text.cut_append coded.solid, Option.getD_some], rfl⟩

theorem opening_iff_statusLine : opening first = .ok (version, status, reason) ↔
    StatusLine Coded first version status reason := by
  constructor
  · intro said
    rw [opening] at said
    split at said
    · cases said
    · next token tail found =>
        obtain ⟨rfl, _⟩ := Text.cut_eq_some_iff.mp found
        obtain ⟨code, behind, text, rfl, cut, reasoned⟩ := reasoned_cut tail
        simp only [cut, bind, Except.bind, pure, Except.pure] at said
        rcases spelled : Version.parse (String.ofList token) with e | v
        · simp only [spelled, reduceCtorEq] at said
        rcases coded : parseStatus code with e | n
        · simp only [spelled, coded, reduceCtorEq] at said
        simp only [spelled, coded] at said
        cases said
        refine ⟨String.ofList token, code, behind, ?_, Version.parse_eq_ok_iff.mp spelled,
          parseStatus_iff_coded.mp coded, reasoned⟩
        rw [String.toList_ofList]
  · rintro ⟨token, code, tail, rfl, spelled, coded, reasoned⟩
    obtain ⟨text, cut, rfl⟩ := cut_reasoned coded reasoned
    rw [opening, Text.cut_append spelled.solid]
    simp only [cut, String.ofList_toList, Version.parse_eq_ok_iff.mpr spelled,
      parseStatus_iff_coded.mpr coded]
    rfl

/-- A response head is accepted if and only if its bytes have this form, and then it says what they
say. The code may be three digits, or two digits behind a plus sign. -/
theorem parse_iff_form (x : Bytes) (head : ResponseHead) :
    parse x = .ok head ↔ Form Coded x head := by
  constructor
  · intro parsed
    by_cases isText : Utf8.IsText x
    · obtain ⟨text, rfl⟩ := isText
      rw [parses.text] at parsed
      cases lines : Text.lines text with
      | nil =>
          rw [lines] at parsed
          cases parsed
      | cons first rest =>
          rw [lines, readLines_eq_ok_iff] at parsed
          obtain ⟨said, fields, opened, read, closed⟩ := parsed
          cases closed
          exact ⟨text, first, rest, rfl, Text.lines_eq_iff.mp lines,
            opening_iff_statusLine.mp opened, read⟩
    · rw [parses.notText x isText] at parsed
      cases parsed
  · rintro ⟨text, first, rest, rfl, lined, line, read⟩
    rw [parses.text, Text.lines_eq_iff.mpr lined, readLines_eq_ok_iff]
    exact ⟨_, _, opening_iff_statusLine.mpr line, read, rfl⟩

/-- Three digits are not required: a plus sign is taken for one of them. -/
theorem status_plus_twenty :
    ¬ ∀ (x : Bytes) (head : ResponseHead), parse x = .ok head ↔ Form ThreeDigits x head := by
  intro only
  let text := "HTTP/1.1 +20 OK\r\n\r\n".toList
  have parsed : parse (Utf8.encodeChars text) = .ok ⟨.http11, 20, "OK", []⟩ := by decide +kernel
  obtain ⟨text', first, rest, encoded, lined, line, _⟩ := (only _ _).mp parsed
  have decoded := Utf8.decodeChars_encodeChars text
  rw [encoded, Utf8.decodeChars_encodeChars] at decoded
  cases decoded
  have lines : Text.lines text = ["HTTP/1.1 +20 OK".toList, []] := by decide +kernel
  cases lines.symm.trans (Text.lines_eq_iff.mpr lined)
  obtain ⟨token, code, tail, parts, spelled, ⟨size, spells⟩, _⟩ := line
  rw [spelled.http11_iff.mp rfl] at parts
  have behind : "+20 OK".toList = code ++ tail := congrArg (List.drop 9) parts
  cases code with
  | nil => cases size
  | cons c code =>
      have sign : '+' = c := (List.cons.inj behind).1
      exact spells.ne_plus (congrArg (· :: code) sign.symm)

end ResponseHead

end HttpExchange
