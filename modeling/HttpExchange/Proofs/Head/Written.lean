import HttpExchange.Proofs.Head.Accepting

/-!
Fields with any names, as their lines are read. A reader leaves out the blanks around a name, so
that a line may be taken for another field than the one it was written for: a derived one. Where no
line slips in like that, the derived fields are read as they were written.
-/

namespace HttpExchange

theorem isBlank_foldChar (c : Char) : isBlank (foldChar c) = isBlank c := by
  rw [foldChar]
  split
  · next upper =>
      have least : 65 ≤ c.toNat := upper.1
      have most : c.toNat ≤ 90 := upper.2
      have table : ∀ n < 91, 65 ≤ n →
        isBlank (Char.ofNat (n + 32)) = isBlank (Char.ofNat n) := by decide
      have same := table c.toNat (by omega) least
      rwa [Char.ofNat_toNat] at same
  · rfl

theorem blankless_of_sameName {a b : String} (same : sameName a b = true)
    (blankless : ∀ c ∈ b.toList, isBlank c = false) : ∀ c ∈ a.toList, isBlank c = false := by
  intro c member
  have folded : foldChar c ∈ foldCase b := by
    rw [← sameName_iff.mp same]
    exact List.mem_map_of_mem member
  obtain ⟨d, inside, alike⟩ := List.mem_map.mp folded
  rw [← isBlank_foldChar, ← alike, isBlank_foldChar]
  exact blankless d inside

namespace Fields

variable {x : Bytes} {first : List Char} {given own derived : List (String × String)}
  {field : String × String} {n : String}

/-- A name that may stand in a line: it is not blank, and has no colon and no line end. -/
structure IsLabel (name : String) : Prop where
  some : Text.trim name.toList ≠ []
  noColon : ':' ∉ name.toList
  oneLine : OneLine name

structure Statable (field : String × String) : Prop where
  name : IsLabel field.1
  value : OneLine field.2

instance (name : String) : Decidable (IsLabel name) :=
  decidable_of_iff (Text.trim name.toList ≠ [] ∧ ':' ∉ name.toList ∧ OneLine name)
    ⟨fun label => ⟨label.1, label.2.1, label.2.2⟩,
      fun label => ⟨label.some, label.noColon, label.oneLine⟩⟩

instance (field : String × String) : Decidable (Statable field) :=
  decidable_of_iff (IsLabel field.1 ∧ OneLine field.2)
    ⟨fun ⟨name, value⟩ => ⟨name, value⟩, fun ⟨name, value⟩ => ⟨name, value⟩⟩

/-- A field as its line is read, without the blanks around name and value. -/
def stripped (field : String × String) : String × String := (trimmed field.1, trimmed field.2)

theorem IsToken.isLabel {name : String} (token : IsToken name) : IsLabel name := by
  refine ⟨?_, token.notMem (by decide), .of_blankless token.blankless⟩
  rw [Text.trim_eq_self token.blankless]
  exact token.some

theorem Writable.statable (writable : Writable field) : Statable field :=
  ⟨writable.name.isLabel, writable.value⟩

theorem Clean.stripped_eq (clean : Clean field) : stripped field = field := by
  rw [stripped, trimmed_of_blankless clean.name.blankless, clean.tidy]

theorem states_lineOf (statable : Statable field) : States (lineOf field) (stripped field) := by
  refine ⟨field.1.toList, ' ' :: field.2.toList, rfl, statable.name.noColon, statable.name.some, ?_⟩
  rw [Text.trim_cons (by decide)]
  rfl

theorem lf_notMem_lineOf (statable : Statable field) : '\n' ∉ lineOf field :=
  notMem_lineOf (by decide) (by decide) statable.name.oneLine.noLf statable.value.noLf

theorem block_concat (lines : List (List Char)) (each : ∀ line ∈ lines, line ≠ []) :
    block (lines ++ [[]]) = lines := by
  rw [block, List.takeWhile_append_of_pos]
  · exact List.append_nil lines
  · intro line member
    rw [List.isEmpty_eq_false_iff.mpr (each line member), Bool.not_false]

theorem laid_headOf (noLf : '\n' ∉ first) (statable : ∀ field ∈ given, Statable field) :
    Laid (Wire.headOf (first :: given.map lineOf)) first (given.map stripped) := by
  have each : ∀ line ∈ first :: given.map lineOf, '\n' ∉ line := by
    rw [List.forall_mem_cons, List.forall_mem_map]
    exact ⟨noLf, fun field member => lf_notMem_lineOf (statable field member)⟩
  refine ⟨_, given.map lineOf ++ [[]], rfl, ?_, ?_⟩
  · rw [Wire.lines_headText each, List.cons_append]
  · have some : ∀ line ∈ given.map lineOf, line ≠ [] :=
      List.forall_mem_map.mpr fun field _ => lineOf_ne_nil field
    rw [block_concat _ some, List.forall₂_map_left_iff, List.forall₂_map_right_iff]
    exact List.forall₂_same.mpr fun field member => states_lineOf (statable field member)

/-- Whether the name of a field is a derived one without the blanks around it, though not with
them. -/
def slips (field : String × String) : Bool := !isReserved field.1 && isReserved (trimmed field.1)

def slipped (own : List (String × String)) : List (String × String) :=
  (own.filter slips).map stripped

/-- Some fields are free, and behind them stand derived ones, each of which has its own name. -/
structure Parted (own derived : List (String × String)) : Prop where
  free : ∀ field ∈ own, isReserved field.1 = false
  clean : ∀ field ∈ derived, Clean field
  apart : Apart derived

/-- Under the derived names nothing else is found than the derived fields. -/
def Owned (derived : List (String × String)) (fields : Fields) : Prop :=
  ∀ n, isReserved n = true → fields.find? n = find? derived n

/-- A field that is read as the content length that is derived anyway. -/
def Harmless (derived : List (String × String)) (field : String × String) : Prop :=
  sameName field.1 contentLength = true ∧ find? derived contentLength = some field.2

/-- How a head is read that has these fields, free ones and derived ones. -/
structure Owns (own derived : List (String × String)) (read : Except HeadError Fields) : Prop where
  /-- The head is accepted with the derived fields as they were written if and only if no field
  slips, or does no harm where it does. -/
  owned : (∃ fields, read = .ok fields ∧ Owned derived fields) ↔
    ∀ field ∈ own, slips field = true → Harmless derived (stripped field)
  /-- In any case the fields that slip count like derived ones, and in front of them. -/
  found : ∀ fields, read = .ok fields → ∀ n, isReserved n = true →
    fields.find? n = folded n (valuesOf (slipped own ++ derived) n)
  accepted : Agree (slipped own ++ derived) → ∃ fields, read = .ok fields
  refused : ¬ Agree (slipped own ++ derived) → read = .error .badField

theorem folded_toList (n : String) (value : Option String) : folded n value.toList = value := by
  rw [folded]
  split
  · exact Option.head?_toList
  · exact joined_toList value

theorem forall_mem_slipped {P : String × String → Prop} : (∀ field ∈ slipped own, P field) ↔
    ∀ field ∈ own, slips field = true → P (stripped field) := by
  simp only [slipped, List.forall_mem_map, List.mem_filter, and_imp]

theorem joined_append_eq_iff {values : List String} {value : Option String} :
    joined (values ++ value.toList) = value ↔ values = [] := by
  cases value with
  | none => rw [Option.toList_none, List.append_nil, joined_eq_none]
  | some value =>
      rw [Option.toList_some, joined_concat, Option.some_inj]
      cases front : joined values with
      | none => exact iff_of_true rfl (joined_eq_none.mp front)
      | some old =>
          refine iff_of_false (fun same => ?_) fun none => ?_
          · -- The comma alone makes the text longer.
            have length := congrArg String.length same
            have comma : ", ".length = 2 := by decide
            rw [Option.elim_some, String.length_append, String.length_append] at length
            omega
          · rw [joined_eq_none.mpr none] at front
            cases front

theorem valuesOf_front (apart : Apart derived) (n : String) :
    valuesOf (given ++ derived) n = valuesOf given n ++ (find? derived n).toList := by
  rw [valuesOf_append, valuesOf_eq_toList apart]

/-- A field in front of the derived ones that makes no difference to its name does no harm. -/
theorem harmless_of_kept (apart : Apart derived) (agree : Agree (given ++ derived))
    (member : field ∈ given)
    (kept : folded field.1 (valuesOf (given ++ derived) field.1) = find? derived field.1) :
    Harmless derived field := by
  have listed : field.2 ∈ valuesOf given field.1 :=
    mem_valuesOf_iff.mpr ⟨field, member, sameName_refl field.1, rfl⟩
  rw [folded] at kept
  by_cases length : sameName field.1 contentLength = true
  · rw [if_pos length, valuesOf_congr length, find?_congr length] at kept
    have stated : field.2 ∈ valuesOf (given ++ derived) contentLength := by
      rw [valuesOf_append, ← valuesOf_congr length]
      exact List.mem_append_left _ listed
    exact ⟨length, kept.symm.trans (agree.head?_eq stated)⟩
  · rw [if_neg length, valuesOf_front apart, joined_append_eq_iff] at kept
    exact absurd (kept ▸ listed) List.not_mem_nil

theorem agree_of_harmless (apart : Apart derived)
    (harmless : ∀ field ∈ given, Harmless derived field) : Agree (given ++ derived) := by
  have alike : ∀ v ∈ valuesOf (given ++ derived) contentLength,
      find? derived contentLength = some v := by
    rw [valuesOf_front apart, List.forall_mem_append]
    refine ⟨fun v listed => ?_, fun v last => Option.mem_toList.mp last⟩
    obtain ⟨field, member, _, rfl⟩ := mem_valuesOf_iff.mp listed
    exact (harmless field member).2
  intro v first w second
  exact Option.some.inj ((alike v first).symm.trans (alike w second))

theorem kept_of_harmless (apart : Apart derived)
    (harmless : ∀ field ∈ given, Harmless derived field) (n : String) :
    folded n (valuesOf (given ++ derived) n) = find? derived n := by
  rw [valuesOf_front apart]
  cases values : valuesOf given n with
  | nil => exact folded_toList n _
  | cons v rest =>
      obtain ⟨field, member, here, rfl⟩ := mem_valuesOf_iff.mp (values ▸ List.mem_cons_self)
      obtain ⟨length, found⟩ := harmless field member
      rw [sameName_congr here] at length
      rw [folded, if_pos length, find?_congr length, found]
      rfl

theorem agree_congr {given' : List (String × String)}
    (same : valuesOf given contentLength = valuesOf given' contentLength) :
    Agree given ↔ Agree given' := by
  rw [Agree, Agree, same]

/-- Of the free fields only those that slip are found under a derived name. -/
theorem valuesOf_stripped (free : ∀ field ∈ own, isReserved field.1 = false)
    (reserved : isReserved n = true) : valuesOf (own.map stripped) n = valuesOf (slipped own) n := by
  have kept : ∀ field ∈ own, sameName (stripped field).1 n =
      (sameName (stripped field).1 n && slips field) := by
    intro field member
    cases same : sameName (stripped field).1 n with
    | false => rfl
    | true =>
        have taken : isReserved (trimmed field.1) = true := (isReserved_congr same).trans reserved
        rw [slips, free field member, taken]
        rfl
  rw [valuesOf, valuesOf, slipped, List.filter_map, List.filter_map, List.filter_filter]
  exact congrArg (fun fields => (List.map stripped fields).map Prod.snd)
    (List.filter_congr kept)

theorem Parted.valuesOf (parted : Parted own derived) (reserved : isReserved n = true) :
    Fields.valuesOf ((own ++ derived).map stripped) n =
      Fields.valuesOf (slipped own ++ derived) n := by
  have same : derived.map stripped = derived := by
    rw [List.map_congr_left fun field member => (parted.clean field member).stripped_eq]
    exact List.map_id' derived
  rw [List.map_append, valuesOf_append, valuesOf_stripped parted.free reserved, same,
    ← valuesOf_append]

/-- A head is read in this way by any parser that accepts its first line and the fields behind it. -/
theorem Parted.owns {α β : Type} {parse : Bytes → Except HeadError α}
    {opening : List Char → Except HeadError β} {close : β → Fields → Except HeadError α}
    {notText : HeadError} {view : α → Fields} {said : β} (parted : Parted own derived)
    (parses : Parses parse opening close notText)
    (laid : Laid x first ((own ++ derived).map stripped)) (opened : opening first = .ok said)
    (closes : ∀ fields, Folds ((own ++ derived).map stripped) fields →
      (close said fields).map view = .ok fields) :
    Owns own derived ((parse x).map view) := by
  have single : isReserved contentLength = true := by decide
  have agree := agree_congr (parted.valuesOf single)
  have accepted : Agree (slipped own ++ derived) → ∃ fields, (parse x).map view = .ok fields ∧
      Folds ((own ++ derived).map stripped) fields := by
    intro alike
    obtain ⟨fields, folds, parsed⟩ := parses.of_agree laid opened (agree.mpr alike)
    exact ⟨fields, by rw [parsed, closes fields folds], folds⟩
  have refused : ¬ Agree (slipped own ++ derived) → (parse x).map view = .error .badField := by
    intro differ
    rw [parses.of_not_agree laid opened (mt agree.mp differ)]
    rfl
  have found : ∀ fields, (parse x).map view = .ok fields → ∀ n, isReserved n = true →
      fields.find? n = folded n (Fields.valuesOf (slipped own ++ derived) n) := by
    intro fields read n reserved
    by_cases alike : Agree (slipped own ++ derived)
    · obtain ⟨fields', read', folds⟩ := accepted alike
      cases read.symm.trans read'
      rw [folds.find, parted.valuesOf reserved]
    · cases read.symm.trans (refused alike)
  have reserved : ∀ field ∈ slipped own, isReserved field.1 = true :=
    forall_mem_slipped.mpr fun field _ slip => (Bool.and_eq_true_iff.mp slip).2
  refine ⟨⟨?_, fun harmless => ?_⟩, found, fun alike => (accepted alike).imp fun _ both => both.1,
    refused⟩
  · rintro ⟨fields, read, owned⟩
    have alike : Agree (slipped own ++ derived) := by
      by_contra differ
      cases read.symm.trans (refused differ)
    refine forall_mem_slipped.mp fun field member => ?_
    have taken := reserved field member
    refine harmless_of_kept parted.apart alike member ?_
    rw [← found fields read field.1 taken, owned field.1 taken]
  · have harmless := forall_mem_slipped.mpr harmless
    obtain ⟨fields, read, _⟩ := accepted (agree_of_harmless parted.apart harmless)
    refine ⟨fields, read, fun n taken => ?_⟩
    rw [found fields read n taken, kept_of_harmless parted.apart harmless]

end Fields

end HttpExchange
