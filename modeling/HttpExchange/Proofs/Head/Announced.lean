import HttpExchange.Framing
import HttpExchange.Proofs.Head.Accepting
import HttpExchange.Proofs.Text.Digits

/-!
What the lines of a head announce of its body. Chunks are announced by the last element of the last
line of encodings; else the number in the lines with a content length counts, which have to be the
same text and one numeral.
-/

namespace HttpExchange

open Fields (Agree Folds valuesOf folded trimmed)
open Numeral (Spells)

namespace Framing

variable {x : Bytes} {first : List Char} {given : List (String × String)} {fields : Fields}
  {text last : List Char} {value : String} {values : List String} {n : Nat}

/-- The last element of a list: what stands behind the last comma, or the whole text. -/
inductive LastElement : List Char → List Char → Prop where
  | only {last : List Char} (free : ',' ∉ last) : LastElement last last
  | behind (front : List Char) {last : List Char} (free : ',' ∉ last) :
      LastElement (front ++ ',' :: last) last

theorem exists_lastElement (text : List Char) : ∃ last, LastElement text last := by
  induction text with
  | nil => exact ⟨[], .only List.not_mem_nil⟩
  | cons c text ih =>
      obtain ⟨last, ⟨free⟩ | ⟨front, free⟩⟩ := ih
      · by_cases comma : c = ','
        · exact ⟨text, comma ▸ .behind [] free⟩
        · refine ⟨c :: text, .only ?_⟩
          rw [List.mem_cons, not_or]
          exact ⟨fun same => comma same.symm, free⟩
      · exact ⟨last, .behind (c :: front) free⟩

theorem LastElement.append (element : LastElement text last) (front : List Char) :
    LastElement (front ++ ',' :: text) last := by
  cases element with
  | only free => exact .behind front free
  | behind front' free =>
      have whole := LastElement.behind (front ++ ',' :: front') free
      rwa [List.append_assoc, List.cons_append] at whole

/-- Blanks around a list stand around its elements. -/
theorem LastElement.around (element : LastElement text last) (before after : List Char)
    (blank : ∀ c ∈ before, isBlank c = true) (blank' : ∀ c ∈ after, isBlank c = true) :
    ∃ last', LastElement (before ++ (text ++ after)) last' ∧ Text.trim last' = Text.trim last := by
  have free {cs : List Char} (blank : ∀ c ∈ cs, isBlank c = true) : ',' ∉ cs := by
    intro member
    exact absurd (blank _ member) (by decide)
  cases element with
  | only free' =>
      refine ⟨_, .only ?_, Text.trim_around blank blank' _⟩
      rw [List.mem_append, List.mem_append, not_or, not_or]
      exact ⟨free blank, free', free blank'⟩
  | behind front free' =>
      refine ⟨last ++ after, ?_, Text.trim_around (List.forall_mem_nil _) blank' last⟩
      have whole : LastElement ((before ++ front) ++ ',' :: (last ++ after)) (last ++ after) := by
        refine .behind _ ?_
        rw [List.mem_append, not_or]
        exact ⟨free', free blank'⟩
      rwa [List.append_assoc, ← List.cons_append, ← List.append_assoc front] at whole

theorem endsChunked_of_lastElement (element : LastElement value.toList last) :
    endsChunked value = sameName (String.ofList (Text.trim last)) "chunked" := by
  rw [endsChunked]
  generalize value.toList = text at element
  cases element with
  | only free => rw [Text.splitOn_of_notMem free, List.getLast?_singleton]
  | behind front free =>
      rw [Text.splitOn_append, Text.splitOn_of_notMem free, List.getLast?_append,
        List.getLast?_singleton, Option.some_or]

/-- What lines with these values are folded into ends as the last of them does. -/
theorem lastElement_joined (init : List String) (element : LastElement value.toList last) :
    ∃ text last', Fields.joined (init ++ [value]) = some text ∧ LastElement text.toList last' ∧
      Text.trim last' = Text.trim last := by
  rw [Fields.joined_concat]
  cases Fields.joined init with
  | none => exact ⟨value, last, rfl, element, rfl⟩
  | some old =>
      obtain ⟨last', element', same⟩ :=
        element.around [' '] [] (List.forall_mem_singleton.mpr rfl) (List.forall_mem_nil _)
      refine ⟨_, last', rfl, ?_, same⟩
      rw [List.append_nil] at element'
      have whole := element'.append old.toList
      rw [Option.elim_some, String.toList_append, String.toList_append, List.append_assoc]
      exact whole

/-- The last element of the encodings that the lines list is the chunked one, in any case. -/
def EndsChunked (given : List (String × String)) : Prop :=
  ∃ value last, (valuesOf given Fields.transferEncoding).getLast? = some value ∧
    LastElement value.toList last ∧ sameName (String.ofList (Text.trim last)) "chunked" = true

theorem endsChunked_iff_of_last
    (found : (valuesOf given Fields.transferEncoding).getLast? = some value) :
    EndsChunked given ↔ endsChunked value = true := by
  constructor
  · rintro ⟨value', last, found', element, chunked⟩
    cases found.symm.trans found'
    rwa [endsChunked_of_lastElement element]
  · intro chunked
    obtain ⟨last, element⟩ := exists_lastElement value.toList
    rw [endsChunked_of_lastElement element] at chunked
    exact ⟨value, last, found, element, chunked⟩

theorem endsChunked_iff (folds : Folds given fields) :
    ((fields.find? Fields.transferEncoding).map endsChunked).getD false = true ↔
      EndsChunked given := by
  rw [folds.find, folded, if_neg (by decide)]
  rcases List.eq_nil_or_concat' (valuesOf given Fields.transferEncoding) with
    none | ⟨init, value, some⟩
  · rw [none]
    refine iff_of_false Bool.false_ne_true ?_
    rintro ⟨value, last, found, _⟩
    rw [none] at found
    cases found
  · obtain ⟨last, element⟩ := exists_lastElement value.toList
    obtain ⟨text, last', joined, element', same⟩ := lastElement_joined init element
    have found : (valuesOf given Fields.transferEncoding).getLast? = Option.some value := by
      rw [some, List.getLast?_concat]
    rw [endsChunked_iff_of_last found, some, joined, Option.map_some, Option.getD_some,
      endsChunked_of_lastElement element', endsChunked_of_lastElement element, same]

theorem endsChunked_behind {whole : String} {front : List Char} (rest : String)
    (list : whole.toList = front ++ ',' :: rest.toList) :
    endsChunked whole = endsChunked (trimmed rest) := by
  obtain ⟨before, after, around, blank, blank'⟩ := Text.eq_around_trim rest.toList
  obtain ⟨last, element⟩ := exists_lastElement (trimmed rest).toList
  obtain ⟨last', element', same⟩ := element.around before after blank blank'
  rw [trimmed, String.toList_ofList, ← around] at element'
  have behind := element'.append front
  rw [← list] at behind
  rw [endsChunked_of_lastElement behind, endsChunked_of_lastElement element, same]

theorem announced_chunked (folds : Folds given fields) (chunked : EndsChunked given) :
    announced fields = .ok (some .chunked) := by
  rw [announced, if_pos ((endsChunked_iff folds).mpr chunked)]

theorem announced_plain (folds : Folds given fields) (plain : ¬ EndsChunked given) :
    announced fields = (valuesOf given Fields.contentLength).head?.elim (.ok none)
      fun text => (ofLength text).map some := by
  rw [announced, if_neg fun chunked => plain ((endsChunked_iff folds).mp chunked), folds.find,
    folded, if_pos (sameName_refl Fields.contentLength)]
  cases (valuesOf given Fields.contentLength).head? <;> rfl

def sized : Nat → Framing
  | 0 => empty
  | n + 1 => length (n + 1)

theorem sized_injective {n m : Nat} (same : sized n = sized m) : n = m := by
  cases n <;> cases m <;> cases same <;> rfl

/-- The values are one and the same text, which is this sign and then the digits of a number of at
most 64 bits. -/
def Counts (values : List String) (sign : List Char) (n : Nat) : Prop :=
  ∃ digits, (∀ value ∈ values, value.toList = sign ++ digits) ∧ Spells 10 digits n ∧
    n < Numeral.bound64

theorem counts_iff {sign : List Char} (some : values ≠ []) (same : ∀ v ∈ values, v = value) :
    Counts values sign n ↔ ∃ digits, value.toList = sign ++ digits ∧ Spells 10 digits n ∧
      n < Numeral.bound64 := by
  constructor
  · rintro ⟨digits, each, spells, small⟩
    obtain ⟨v, member⟩ := List.exists_mem_of_ne_nil values some
    exact ⟨digits, same v member ▸ each v member, spells, small⟩
  · rintro ⟨digits, numeral, spells, small⟩
    exact ⟨digits, fun v member => same v member ▸ numeral, spells, small⟩

theorem ofLength_eq (tidy : trimmed value = value) : ofLength value =
    match Numeral.read 10 Numeral.bound64 value.toList with
    | some n => .ok (sized n)
    | none => .error (.length value) := by
  have same : Text.trim value.toList = value.toList := by
    rw [← String.toList_ofList (l := Text.trim value.toList)]
    exact congrArg String.toList tidy
  rw [ofLength, same]
  rcases Numeral.read 10 Numeral.bound64 value.toList with _ | _ | n <;> rfl

/-- What comes of these values of the content length: the framing of the number that they are, or,
where they are none, a refusal that shows one of them. -/
structure Sizes (values : List String) (out : Except WireError Framing) : Prop where
  accepted : ∀ n, out = .ok (sized n) ↔ Counts values [] n ∨ Counts values ['+'] n
  refused : (∀ n, ¬ Counts values [] n ∧ ¬ Counts values ['+'] n) →
    ∃ value ∈ values, out = .error (.length value)

theorem sizes_ofLength (tidy : trimmed value = value) (member : value ∈ values)
    (same : ∀ v ∈ values, v = value) : Sizes values (ofLength value) := by
  have counts (n : Nat) : Counts values [] n ∨ Counts values ['+'] n ↔
      Numeral.read 10 Numeral.bound64 value.toList = some n := by
    have some : values ≠ [] := List.ne_nil_of_mem member
    rw [counts_iff some same, counts_iff some same, Numeral.read_eq_some_iff]
    constructor
    · rintro (⟨digits, numeral, spells, small⟩ | ⟨digits, numeral, spells, small⟩)
      · exact ⟨⟨_, digits, numeral, .inl rfl, spells⟩, small⟩
      · exact ⟨⟨_, digits, numeral, .inr rfl, spells⟩, small⟩
    · rintro ⟨⟨sign, digits, numeral, rfl | rfl, spells⟩, small⟩
      · exact .inl ⟨digits, numeral, spells, small⟩
      · exact .inr ⟨digits, numeral, spells, small⟩
  rw [ofLength_eq tidy]
  refine ⟨fun n => ?_, fun none => ⟨value, member, ?_⟩⟩
  · rw [counts]
    split
    · next m read =>
        rw [read, Except.ok.injEq, Option.some.injEq]
        exact ⟨sized_injective, congrArg sized⟩
    · next unread => exact iff_of_false nofun (by rw [unread]; exact nofun)
  · split
    · next m read => exact absurd ((counts m).mpr read) (not_or.mpr (none m))
    · rfl

/-- What becomes of a body whose head has these lines and announces no chunks. Without a content
length it is framed as unannounced. -/
def Measured (given : List (String × String)) (unannounced : Framing)
    (out : Except WireError Framing) : Prop :=
  ¬ EndsChunked given →
    if valuesOf given Fields.contentLength = [] then out = .ok unannounced
    else Sizes (valuesOf given Fields.contentLength) out

theorem measured_of_folds (folds : Folds given fields)
    (tidy : ∀ value ∈ valuesOf given Fields.contentLength, trimmed value = value)
    (unannounced : Framing) :
    Measured given unannounced ((announced fields).map fun found => found.getD unannounced) := by
  intro plain
  have agree := folds.agree
  rw [announced_plain folds plain]
  cases values : valuesOf given Fields.contentLength with
  | nil =>
      rw [if_pos rfl]
      rfl
  | cons value rest =>
      rw [Agree, values] at agree
      rw [values] at tidy
      have sizes : Sizes (value :: rest) (ofLength value) :=
        sizes_ofLength (tidy value List.mem_cons_self) List.mem_cons_self
          fun v member => agree v member value List.mem_cons_self
      rw [if_neg (List.cons_ne_nil value rest), List.head?_cons, Option.elim_some]
      cases found : ofLength value <;> rwa [found] at sizes

/-- A content length counts exactly if all lines that state one state the same numeral of at most
64 bits, in decimal digits with a plus sign or none in front. Otherwise the body is refused, and
where the lines differ the head is, unless its first line is. -/
theorem measured_of_parse (x : Bytes) :
    (∀ head, RequestHead.parse x = .ok head →
      ∃ first given, Laid x first given ∧ Measured given .empty (ofRequest head)) ∧
    (∀ head, ResponseHead.parse x = .ok head →
      ∃ first given, Laid x first given ∧ ∀ method, bodiless method head.status = false →
        Measured given .untilClose (ofResponse head method)) ∧
    ∀ first given, Laid x first given → ¬ Agree given →
      (∃ e, RequestHead.parse x = .error e ∧
        (e = .badField ∨ ∀ y given', Laid y first given' → RequestHead.parse y = .error e)) ∧
      ∃ e, ResponseHead.parse x = .error e ∧
        (e = .badField ∨ ∀ y given', Laid y first given' → ResponseHead.parse y = .error e) := by
  refine ⟨fun head parsed => ?_, fun head parsed => ?_, fun first given laid differ =>
    ⟨RequestHead.refused_of_not_agree laid differ, ResponseHead.refused_of_not_agree laid differ⟩⟩
  · obtain ⟨first, given, laid⟩ := RequestHead.laid_of_parse parsed
    obtain ⟨_, folds, _⟩ := RequestHead.parse_laid laid parsed
    exact ⟨first, given, laid, measured_of_folds folds laid.tidy .empty⟩
  · obtain ⟨first, given, laid⟩ := ResponseHead.laid_of_parse parsed
    obtain ⟨_, folds⟩ := ResponseHead.parse_laid laid parsed
    refine ⟨first, given, laid, fun method allowed => ?_⟩
    rw [ofResponse, allowed, if_neg Bool.false_ne_true]
    exact measured_of_folds folds laid.tidy .untilClose

/-- A plus sign is taken for a part of the content length. -/
theorem contentLength_plus_five :
    ¬ ∀ (x : Bytes) (head : RequestHead) (first : List Char) (given : List (String × String)),
      RequestHead.parse x = .ok head → Laid x first given → ¬ EndsChunked given →
      valuesOf given Fields.contentLength ≠ [] →
      ∀ n, ofRequest head = .ok (sized n) ↔
        Counts (valuesOf given Fields.contentLength) [] n := by
  intro only
  let text := "POST / HTTP/1.1\r\nHost: h\r\nContent-Length: +5\r\n\r\n".toList
  let given := [("Host", "h"), ("Content-Length", "+5")]
  have laid : Laid (Utf8.encodeChars text) "POST / HTTP/1.1".toList given :=
    laid_encodeChars ["Host: h".toList, "Content-Length: +5".toList, []] (by decide +kernel)
      (by decide +kernel)
  have parsed : RequestHead.parse (Utf8.encodeChars text) = .ok ⟨.post, "/", .http11, given⟩ := by
    decide +kernel
  have none : (valuesOf given Fields.transferEncoding).getLast? = none := by decide +kernel
  have plain : ¬ EndsChunked given := by
    rintro ⟨_, _, found, _⟩
    cases none.symm.trans found
  have values : valuesOf given Fields.contentLength = ["+5"] := by decide +kernel
  have framed : ofRequest ⟨.post, "/", .http11, given⟩ = .ok (sized 5) := by decide +kernel
  have counts := (only _ _ _ _ parsed laid plain (values ▸ List.cons_ne_nil _ _) 5).mp framed
  rw [values] at counts
  obtain ⟨digits, each, spells, _⟩ := counts
  have numeral : "+5".toList = digits := each "+5" List.mem_cons_self
  exact spells.ne_plus numeral.symm

end Framing

end HttpExchange
