import HttpExchange.Head.Fields
import HttpExchange.Proofs.Text.Split
import HttpExchange.Proofs.Wire.Head

/-!
The lines of fields, and the fields that are read back from them. Under each name stand the values
of all lines with that name, in order and without the blanks around them.
-/

namespace HttpExchange

theorem sameName_congr {a b : String} (same : sameName a b = true) (n : String) :
    sameName a n = sameName b n := by
  rw [sameName, sameName, sameName_iff.mp same]

theorem sameName_congr_right {a b : String} (same : sameName a b = true) (n : String) :
    sameName n a = sameName n b := by
  rw [sameName_comm, sameName_congr same, sameName_comm]

theorem sameName_common {a b n : String} (first : sameName a n = true)
    (second : sameName b n = true) : sameName a b = true := by
  rw [sameName_iff] at first second ⊢
  exact first.trans second.symm

namespace Fields

def isTokenChar (c : Char) : Bool :=
  ('0' ≤ c && c ≤ '9') || ('A' ≤ c && c ≤ 'Z') || ('a' ≤ c && c ≤ 'z') ||
    "!#$%&'*+-.^_`|~".toList.contains c

structure IsToken (name : String) : Prop where
  some : name.toList ≠ []
  each : ∀ c ∈ name.toList, isTokenChar c = true

structure OneLine (text : String) : Prop where
  noCr : '\r' ∉ text.toList
  noLf : '\n' ∉ text.toList

structure Writable (field : String × String) : Prop where
  name : IsToken field.1
  value : OneLine field.2

/-- The line of a field, without its end. -/
def lineOf (field : String × String) : List Char := field.1.toList ++ ':' :: ' ' :: field.2.toList

def trimmed (text : String) : String := String.ofList (Text.trim text.toList)

/-- A field that may be sent, without blanks around its value. -/
structure Clean (field : String × String) : Prop extends Writable field where
  tidy : trimmed field.2 = field.2

def received (field : String × String) : String × String := (field.1, trimmed field.2)

instance (name : String) : Decidable (IsToken name) :=
  decidable_of_iff (name.toList ≠ [] ∧ name.toList.all isTokenChar = true)
    ⟨fun token => ⟨token.1, List.all_eq_true.mp token.2⟩,
      fun token => ⟨token.some, List.all_eq_true.mpr token.each⟩⟩

instance (text : String) : Decidable (OneLine text) :=
  decidable_of_iff ('\r' ∉ text.toList ∧ '\n' ∉ text.toList)
    ⟨fun ⟨noCr, noLf⟩ => ⟨noCr, noLf⟩, fun ⟨noCr, noLf⟩ => ⟨noCr, noLf⟩⟩

instance (field : String × String) : Decidable (Writable field) :=
  decidable_of_iff (IsToken field.1 ∧ OneLine field.2)
    ⟨fun ⟨name, value⟩ => ⟨name, value⟩, fun ⟨name, value⟩ => ⟨name, value⟩⟩

instance (field : String × String) : Decidable (Clean field) :=
  decidable_of_iff (Writable field ∧ trimmed field.2 = field.2)
    ⟨fun ⟨writable, tidy⟩ => ⟨writable, tidy⟩, fun ⟨writable, tidy⟩ => ⟨writable, tidy⟩⟩

/-- The values of all lines with this name, in any spelling. -/
def valuesOf (given : List (String × String)) (name : String) : List String :=
  (given.filter fun field => sameName field.1 name).map Prod.snd

/-- No two fields have one name, in any spelling. -/
def Apart (given : List (String × String)) : Prop :=
  given.Pairwise fun a b => sameName a.1 b.1 = false

/-- What lines with these values are folded into. -/
def joined : List String → Option String
  | [] => none
  | value :: values => some (", ".intercalate (value :: values))

theorem plain_of_isTokenChar {c : Char} (token : isTokenChar c = true) :
    0x21 ≤ c.toNat ∧ c.toNat ≤ 0x7E ∧ c ≠ ':' := by
  rw [isTokenChar, Bool.or_eq_true, Bool.or_eq_true, Bool.or_eq_true, Bool.and_eq_true,
    Bool.and_eq_true, Bool.and_eq_true, decide_eq_true_iff, decide_eq_true_iff, decide_eq_true_iff,
    decide_eq_true_iff, decide_eq_true_iff, decide_eq_true_iff, List.contains_iff_mem] at token
  -- letters and digits lie in ranges; the other characters are few enough to try
  rcases token with ((⟨low, high⟩ | ⟨low, high⟩) | ⟨low, high⟩) | listed
  · have := Nat.le_trans (show 0x21 ≤ 0x30 by decide) low
    have := Nat.le_trans high (show 0x39 ≤ 0x7E by decide)
    exact ⟨‹_›, ‹_›, fun same => absurd (same ▸ high) (by decide)⟩
  · have := Nat.le_trans (show 0x21 ≤ 0x41 by decide) low
    have := Nat.le_trans high (show 0x5A ≤ 0x7E by decide)
    exact ⟨‹_›, ‹_›, fun same => absurd (same ▸ low) (by decide)⟩
  · have := Nat.le_trans (show 0x21 ≤ 0x61 by decide) low
    have := Nat.le_trans high (show 0x7A ≤ 0x7E by decide)
    exact ⟨‹_›, ‹_›, fun same => absurd (same ▸ low) (by decide)⟩
  · have table : ("!#$%&'*+-.^_`|~".toList.all fun c =>
        decide (0x21 ≤ c.toNat ∧ c.toNat ≤ 0x7E ∧ c ≠ ':')) = true := by decide
    exact of_decide_eq_true (List.all_eq_true.mp table c listed)

theorem isBlank_of_isTokenChar {c : Char} (token : isTokenChar c = true) : isBlank c = false := by
  have ⟨low, high, _⟩ := plain_of_isTokenChar token
  have range : ∀ n < 0x7F, 0x21 ≤ n → isBlank (Char.ofNat n) = false := by decide
  have found := range c.toNat (Nat.lt_succ_of_le high) low
  rwa [Char.ofNat_toNat] at found

theorem IsToken.blankless {name : String} (token : IsToken name) :
    ∀ c ∈ name.toList, isBlank c = false :=
  fun c member => isBlank_of_isTokenChar (token.each c member)

theorem IsToken.notMem {name : String} (token : IsToken name) {c : Char}
    (other : isTokenChar c = false) : c ∉ name.toList := by
  intro member
  have := token.each c member
  rw [other] at this
  exact absurd this Bool.false_ne_true

theorem OneLine.of_blankless {text : String} (none : ∀ c ∈ text.toList, isBlank c = false) :
    OneLine text := by
  constructor
  · intro member
    exact absurd (none _ member) (by decide)
  · intro member
    exact absurd (none _ member) (by decide)

theorem trimmed_of_blankless {text : String} (none : ∀ c ∈ text.toList, isBlank c = false) :
    trimmed text = text := by
  rw [trimmed, Text.trim_eq_self none, String.ofList_toList]

theorem encode_writeLine (field : String × String) :
    Utf8.encode (writeLine field.1 field.2) = Utf8.encodeChars (lineOf field) ++ Bytes.crlf := by
  have text : (writeLine field.1 field.2).toList = lineOf field ++ ['\r', '\n'] := by
    rw [writeLine, lineOf, String.toList_append, String.toList_append, String.toList_append]
    simp only [List.append_assoc, List.cons_append]
    rfl
  rw [Utf8.encode, text, Utf8.encodeChars_append]
  rfl

/-- A head is its first line, the lines of its fields, and a blank line. -/
theorem headOf_lineOf (first : List Char) (given : List (String × String)) :
    Wire.headOf (first :: given.map lineOf) = Utf8.encodeChars (first ++ ['\r', '\n']) ++
      given.flatMap (fun field => Utf8.encode (writeLine field.1 field.2)) ++ Bytes.crlf := by
  have lines : Wire.headOf (given.map lineOf) =
      given.flatMap (fun field => Utf8.encode (writeLine field.1 field.2)) ++ Bytes.crlf := by
    induction given with
    | nil => exact Wire.headOf_nil
    | cons field given ih =>
        rw [List.map_cons, Wire.headOf_cons, ih, List.flatMap_cons, encode_writeLine,
          List.append_assoc, List.append_assoc]
  have ending : Utf8.encodeChars ['\r', '\n'] = Bytes.crlf := by decide
  rw [Wire.headOf_cons, lines, Utf8.encodeChars_append, ending, List.append_assoc, List.append_assoc]

theorem notMem_lineOf {c : Char} {field : String × String} (colon : c ≠ ':') (space : c ≠ ' ')
    (name : c ∉ field.1.toList) (value : c ∉ field.2.toList) : c ∉ lineOf field := by
  refine Text.notMem_append_cons name colon ?_
  rw [List.mem_cons, not_or]
  exact ⟨space, value⟩

theorem lineOf_ne_nil (field : String × String) : lineOf field ≠ [] :=
  List.append_ne_nil_of_right_ne_nil _ (List.cons_ne_nil _ _)

theorem headLine_lineOf {field : String × String} (writable : Writable field) :
    Wire.HeadLine (lineOf field) := by
  refine ⟨lineOf_ne_nil field, ?_, ?_⟩
  · exact notMem_lineOf (by decide) (by decide) (writable.name.notMem (by decide))
      writable.value.noCr
  · exact notMem_lineOf (by decide) (by decide) (writable.name.notMem (by decide))
      writable.value.noLf

theorem headLines {first : List Char} (here : Wire.HeadLine first)
    {given : List (String × String)} (writable : ∀ field ∈ given, Writable field) :
    ∀ line ∈ first :: given.map lineOf, Wire.HeadLine line := by
  intro line member
  rcases List.mem_cons.mp member with rfl | inside
  · exact here
  · obtain ⟨field, found, rfl⟩ := List.mem_map.mp inside
    exact headLine_lineOf (writable field found)

theorem splitLine_lineOf {field : String × String} (token : IsToken field.1) :
    splitLine (lineOf field) = .ok (received field) := by
  have name : Text.trim field.1.toList = field.1.toList := Text.trim_eq_self token.blankless
  have some : field.1.toList.isEmpty = false := List.isEmpty_eq_false_iff.mpr token.some
  rw [splitLine, lineOf, Text.cut_append (token.notMem (by decide))]
  simp only [name, some, Bool.false_eq_true, if_false, String.ofList_toList]
  rw [Text.trim_cons (by decide)]
  rfl

theorem find?_cons (field : String × String) (fields : Fields) (n : String) :
    find? (field :: fields) n = if sameName field.1 n then some field.2 else fields.find? n := by
  rw [find?, List.find?_cons]
  cases sameName field.1 n with
  | true => rfl
  | false => rfl

theorem valuesOf_append (first second : List (String × String)) (n : String) :
    valuesOf (first ++ second) n = valuesOf first n ++ valuesOf second n := by
  rw [valuesOf, valuesOf, valuesOf, List.filter_append, List.map_append]

theorem valuesOf_singleton (field : String × String) (n : String) :
    valuesOf [field] n = if sameName field.1 n then [field.2] else [] := by
  rw [valuesOf, List.filter_cons]
  split <;> rfl

theorem valuesOf_received (given : List (String × String)) (n : String) :
    valuesOf (given.map received) n = (valuesOf given n).map trimmed := by
  rw [valuesOf, List.filter_map, List.map_map, valuesOf, List.map_map]
  rfl

theorem map_trimmed_valuesOf {given : List (String × String)}
    (tidy : ∀ field ∈ given, trimmed field.2 = field.2) (n : String) :
    (valuesOf given n).map trimmed = valuesOf given n := by
  have same : ∀ value ∈ valuesOf given n, trimmed value = id value := by
    intro value member
    obtain ⟨field, found, rfl⟩ := List.mem_map.mp member
    exact tidy field (List.mem_filter.mp found).1
  rw [List.map_congr_left same, List.map_id]

theorem valuesOf_perm {given other : List (String × String)} (same : given.Perm other)
    (n : String) : (valuesOf given n).Perm (valuesOf other n) :=
  (same.filter _).map _

theorem valuesOf_eq_nil {given : List (String × String)} {n : String}
    (none : ∀ field ∈ given, sameName field.1 n = false) : valuesOf given n = [] := by
  rw [valuesOf, List.map_eq_nil_iff, List.filter_eq_nil_iff]
  intro field member same
  exact absurd (same.symm.trans (none field member)) (by decide)

theorem valuesOf_ne_nil_iff {given : List (String × String)} {n : String} :
    valuesOf given n ≠ [] ↔ ∃ field ∈ given, sameName field.1 n = true := by
  rw [valuesOf, ne_eq, List.map_eq_nil_iff, List.filter_eq_nil_iff]
  simp only [Bool.not_eq_true, not_forall, Bool.not_eq_false, exists_prop]

theorem mem_valuesOf_iff {given : List (String × String)} {n v : String} :
    v ∈ valuesOf given n ↔ ∃ field ∈ given, sameName field.1 n = true ∧ field.2 = v := by
  simp only [valuesOf, List.mem_map, List.mem_filter, and_assoc]

theorem isReserved_congr {a b : String} (same : sameName a b = true) :
    isReserved a = isReserved b := by
  have names : (fun r => sameName r a) = fun r => sameName r b := by
    funext r
    exact sameName_congr_right same r
  rw [isReserved, names, isReserved]

theorem valuesOf_of_isReserved_ne {given : List (String × String)} {n : String}
    (differ : ∀ field ∈ given, isReserved field.1 ≠ isReserved n) : valuesOf given n = [] := by
  apply valuesOf_eq_nil
  intro field member
  rw [Bool.eq_false_iff]
  intro same
  exact differ field member (isReserved_congr same)

theorem valuesOf_filter (keep : String → Bool)
    (alike : ∀ {a b}, sameName a b = true → keep a = keep b) (given : List (String × String))
    (n : String) :
    valuesOf (given.filter fun field => keep field.1) n =
      if keep n then valuesOf given n else [] := by
  have found : ∀ field ∈ given,
      (sameName field.1 n && keep field.1) = (sameName field.1 n && keep n) := by
    intro field _
    cases same : sameName field.1 n with
    | false => rfl
    | true => rw [alike same]
  rw [valuesOf, List.filter_filter, List.filter_congr found]
  cases keep n with
  | true =>
      simp only [Bool.and_true]
      rfl
  | false =>
      simp only [Bool.and_false]
      rw [if_neg Bool.false_ne_true, List.map_eq_nil_iff, List.filter_eq_nil_iff]
      intro field _
      exact Bool.false_ne_true

theorem valuesOf_unreserved (given : List (String × String)) (n : String) :
    valuesOf (given.filter fun field => !isReserved field.1) n =
      if isReserved n then [] else valuesOf given n := by
  have kept := valuesOf_filter (fun name => !isReserved name)
    (fun same => congrArg (!·) (isReserved_congr same)) given n
  rw [kept]
  cases isReserved n with
  | true => rfl
  | false => rfl

theorem joined_toList (value : Option String) : joined value.toList = value := by
  cases value with
  | none => rfl
  | some value => exact congrArg some (String.intercalate_singleton)

theorem valuesOf_eq_toList {given : List (String × String)} (apart : Apart given) (n : String) :
    valuesOf given n = (find? given n).toList := by
  induction given with
  | nil => rfl
  | cons field given ih =>
      obtain ⟨first, later⟩ := List.pairwise_cons.mp apart
      rw [← List.singleton_append, valuesOf_append, valuesOf_singleton, List.singleton_append,
        find?_cons]
      by_cases here : sameName field.1 n = true
      · have none : valuesOf given n = [] := by
          apply valuesOf_eq_nil
          intro other member
          rw [Bool.eq_false_iff]
          intro there
          have differ := first other member
          rw [sameName_common here there] at differ
          exact Bool.false_ne_true differ.symm
        rw [if_pos here, if_pos here, none]
        rfl
      · rw [if_neg here, if_neg here, List.nil_append]
        exact ih later

/-- No two fields have one name if and only if no name has two values. -/
theorem apart_iff_length_le {given : List (String × String)} :
    Apart given ↔ ∀ n, (valuesOf given n).length ≤ 1 := by
  constructor
  · intro apart n
    rw [valuesOf_eq_toList apart]
    exact Option.length_toList_le
  · intro once
    induction given with
    | nil => exact .nil
    | cons field given ih =>
        have split (n : String) : (valuesOf (field :: given) n).length =
            (valuesOf [field] n).length + (valuesOf given n).length := by
          rw [← List.singleton_append, valuesOf_append, List.length_append]
        refine List.pairwise_cons.mpr ⟨fun other member => ?_, ih fun n => ?_⟩
        · rw [Bool.eq_false_iff]
          intro same
          have few := once other.1
          rw [split, valuesOf_singleton, if_pos same, List.length_singleton] at few
          have none : valuesOf given other.1 = [] := List.eq_nil_of_length_eq_zero (by omega)
          exact valuesOf_ne_nil_iff.mpr ⟨other, member, sameName_refl other.1⟩ none
        · have few := once n
          rw [split] at few
          omega

theorem find?_of_mem {given : List (String × String)} (apart : Apart given)
    {field : String × String} (member : field ∈ given) : find? given field.1 = some field.2 := by
  have listed : field.2 ∈ valuesOf given field.1 :=
    mem_valuesOf_iff.mpr ⟨field, member, sameName_refl field.1, rfl⟩
  rw [valuesOf_eq_toList apart] at listed
  exact Option.mem_toList.mp listed

theorem joined_concat (values : List String) (value : String) :
    joined (values ++ [value]) =
      some ((joined values).elim value fun old => old ++ ", " ++ value) := by
  cases values with
  | nil => rw [List.nil_append, joined, joined, String.intercalate_singleton, Option.elim]
  | cons first values =>
      rw [joined, List.cons_append, joined, ← List.cons_append,
        String.intercalate_append_of_ne_nil (List.cons_ne_nil _ _) (List.cons_ne_nil _ _),
        String.intercalate_singleton, Option.elim]

/-- A line puts its value behind those that came under its name. Only a second content length may
be refused. -/
theorem find?_fold {fields : Fields} {name : String} (value : String)
    (free : sameName name contentLength = true → fields.find? name = none) :
    ∃ fields', fold fields name value = .ok fields' ∧ ∀ n, fields'.find? n =
      if sameName name n then some ((fields.find? n).elim value fun old => old ++ ", " ++ value)
      else fields.find? n := by
  induction fields with
  | nil =>
      refine ⟨[(name, value)], rfl, fun n => ?_⟩
      rw [find?_cons]
      rfl
  | cons field rest ih =>
      cases same : sameName field.1 name with
      | true =>
          have other : sameName name contentLength = false := by
            rw [Bool.eq_false_iff]
            intro single
            have found := free single
            rw [find?_cons, if_pos same] at found
            exact absurd found (Option.some_ne_none _)
          refine ⟨(field.1, field.2 ++ ", " ++ value) :: rest, ?_, fun n => ?_⟩
          · rw [fold, if_pos same, if_neg (by rw [other]; exact Bool.false_ne_true)]
          · rw [find?_cons, find?_cons]
            simp only [sameName_congr same n]
            cases sameName name n with
            | true => rfl
            | false => rfl
      | false =>
          have free' : sameName name contentLength = true → find? rest name = none := by
            intro single
            have found := free single
            rwa [find?_cons, if_neg (by rw [same]; exact Bool.false_ne_true)] at found
          obtain ⟨fields', folded, spec⟩ := ih free'
          refine ⟨field :: fields', ?_, fun n => ?_⟩
          · rw [fold, if_neg (by rw [same]; exact Bool.false_ne_true), folded, Except.map]
          · rw [find?_cons, find?_cons, spec]
            by_cases here : sameName field.1 n = true
            · have apart : ¬ sameName name n = true := by
                intro there
                rw [sameName_common here there] at same
                exact absurd same.symm Bool.false_ne_true
              rw [if_pos here, if_pos here, if_neg apart]
            · rw [if_neg here, if_neg here]

theorem named_congr {a b : String} (same : sameName a b = true) :
    (fun field : String × String => sameName field.1 a) = fun field => sameName field.1 b := by
  funext field
  exact sameName_congr_right same field.1

theorem valuesOf_congr {a b : String} (same : sameName a b = true)
    (given : List (String × String)) : valuesOf given a = valuesOf given b := by
  rw [valuesOf, named_congr same, valuesOf]

theorem find?_congr {a b : String} (same : sameName a b = true)
    (given : List (String × String)) : find? given a = find? given b := by
  rw [find?, named_congr same, find?]

theorem joined_eq_none {values : List String} : joined values = none ↔ values = [] := by
  cases values with
  | nil => exact iff_of_true rfl rfl
  | cons value values => exact iff_of_false (Option.some_ne_none _) (List.cons_ne_nil _ _)

theorem fold_joined {fields : Fields} {before : List (String × String)}
    (known : ∀ n, fields.find? n = joined (valuesOf before n)) (field : String × String)
    (single : (valuesOf (before ++ [field]) contentLength).length ≤ 1) :
    ∃ fields', fold fields field.1 field.2 = .ok fields' ∧
      ∀ n, fields'.find? n = joined (valuesOf (before ++ [field]) n) := by
  have free : sameName field.1 contentLength = true → fields.find? field.1 = none := by
    intro length
    rw [valuesOf_append, valuesOf_singleton, if_pos length, List.length_append,
      List.length_singleton] at single
    rw [known, joined_eq_none, valuesOf_congr length]
    exact List.eq_nil_of_length_eq_zero (by omega)
  obtain ⟨fields', folded, spec⟩ := find?_fold field.2 free
  refine ⟨fields', folded, fun n => ?_⟩
  rw [spec, known, valuesOf_append, valuesOf_singleton]
  by_cases here : sameName field.1 n = true
  · rw [if_pos here, if_pos here, joined_concat]
  · rw [if_neg here, if_neg here, List.append_nil]

theorem foldLines_lineOf {given before : List (String × String)} {fields : Fields}
    (token : ∀ field ∈ given, IsToken field.1)
    (known : ∀ n, fields.find? n = joined (valuesOf before n))
    (single : (valuesOf (before ++ given.map received) contentLength).length ≤ 1) :
    ∃ fields', foldLines fields (given.map lineOf ++ [[]]) = .ok fields' ∧
      ∀ n, fields'.find? n = joined (valuesOf (before ++ given.map received) n) := by
  induction given generalizing before fields with
  | nil =>
      refine ⟨fields, ?_, fun n => ?_⟩
      · rw [List.map_nil, List.nil_append, foldLines, if_pos List.isEmpty_nil]
      · rw [List.map_nil, List.append_nil, known]
  | cons field given ih =>
      have split : before ++ (field :: given).map received =
          (before ++ [received field]) ++ given.map received := by
        rw [List.map_cons, List.append_assoc, List.singleton_append]
      rw [split] at single ⊢
      have first : (valuesOf (before ++ [received field]) contentLength).length ≤ 1 := by
        rw [valuesOf_append, List.length_append] at single
        omega
      have name := token field List.mem_cons_self
      obtain ⟨fields₁, folded, known₁⟩ := fold_joined known (received field) first
      obtain ⟨fields', rest, spec⟩ :=
        ih (fun f member => token f (List.mem_cons_of_mem field member)) known₁ single
      refine ⟨fields', ?_, spec⟩
      have some : (lineOf field).isEmpty = false :=
        List.isEmpty_eq_false_iff.mpr (lineOf_ne_nil field)
      rw [List.map_cons, List.cons_append, foldLines, if_neg (by rw [some]; exact Bool.false_ne_true),
        splitLine_lineOf name]
      simp only [folded]
      exact rest

/-- Fields are read back from their lines, those with one name as one. -/
theorem ofLines_lineOf {given : List (String × String)}
    (token : ∀ field ∈ given, IsToken field.1)
    (single : (valuesOf (given.map received) contentLength).length ≤ 1) :
    ∃ fields, ofLines (given.map lineOf ++ [[]]) = .ok fields ∧
      ∀ n, fields.find? n = joined (valuesOf (given.map received) n) := by
  have none : ∀ n, find? [] n = joined (valuesOf [] n) := fun _ => rfl
  exact foldLines_lineOf token none single

end Fields

end HttpExchange
