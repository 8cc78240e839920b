import HttpExchange.Proofs.Wire.Alike
import HttpExchange.Proofs.Wire.Head
import HttpExchange.Proofs.Wire.Taking

/-!
Heads in front of a reader, whatever their lines end with. A head within the limit is read whole,
with the blank lines in front of it. Bytes without one are too many for the limit, or they end too
early.
-/

namespace HttpExchange.Wire

variable {budget : Nat} (limit : Nat) {lines front text line head x y : Bytes} {r : Reader}
  {tail : List Arrival}

/-- What becomes of a line behind the complete lines of a head. -/
theorem headOnto_front (lines : Bytes) (noLf : Bytes.lf ∉ front) (fits : front.length < budget)
    (holds : r.Holds (front ++ Bytes.lf :: y) tail) (c : Clock) :
    ∃ r', r'.Holds y tail ∧ headOnto limit budget lines [] r c =
      if !isBlankLine front.reverse then
        headOnto limit (budget - (front.length + 1)) (Bytes.lf :: (front.reverse ++ lines)) [] r' c
      else if lines.isEmpty then headOnto limit (budget - (front.length + 1)) [] [] r' c
      else (.ok (some (Bytes.lf :: (front.reverse ++ lines)).reverse), r', c) := by
  obtain ⟨r₁, passed, holds₁⟩ := headOnto_append lines [] noLf (Nat.le_of_lt fits) holds c
  obtain ⟨left, more⟩ : ∃ n, budget - front.length = n + 1 := ⟨budget - front.length - 1, by omega⟩
  obtain ⟨r', read, holds', _⟩ := Reader.next_holds holds₁ holds₁.room c
  refine ⟨r', holds', ?_⟩
  rw [passed, more, headOnto, show budget - (front.length + 1) = left by omega]
  simp only [read, ne_eq, not_true_eq_false, if_false, List.append_nil]

theorem headOnto_more (lines : Bytes) (isLine : Bytes.Line text line) (some : text ≠ [])
    (fits : line.length ≤ budget) (holds : r.Holds (line ++ y) tail) (c : Clock) :
    ∃ r', r'.Holds y tail ∧ headOnto limit budget lines [] r c =
      headOnto limit (budget - line.length) (line.reverse ++ lines) [] r' c := by
  obtain ⟨front, rfl, noLf, rfl⟩ := isLine.front
  rw [List.length_append, List.length_singleton] at fits ⊢
  rw [List.append_assoc] at holds
  obtain ⟨r', holds', read⟩ := headOnto_front limit lines noLf fits holds c
  have filled : (!isBlankLine front.reverse) = true := by
    rw [Bool.not_eq_true', ← Bool.not_eq_true, isBlankLine_reverse]
    exact some
  refine ⟨r', holds', ?_⟩
  rw [read, if_pos filled, List.reverse_concat, List.cons_append]

theorem headOnto_skip (blank : Bytes.Line [] line) (fits : line.length ≤ budget)
    (holds : r.Holds (line ++ y) tail) (c : Clock) :
    ∃ r', r'.Holds y tail ∧
      headOnto limit budget [] [] r c = headOnto limit (budget - line.length) [] [] r' c := by
  obtain ⟨front, rfl, noLf, bare⟩ := blank.front
  rw [List.length_append, List.length_singleton] at fits ⊢
  rw [List.append_assoc] at holds
  obtain ⟨r', holds', read⟩ := headOnto_front limit [] noLf fits holds c
  refine ⟨r', holds', ?_⟩
  rw [read, (isBlankLine_reverse front).mpr bare]
  rfl

theorem headOnto_end (begun : lines ≠ []) (blank : Bytes.Line [] line)
    (fits : line.length ≤ budget) (holds : r.Holds (line ++ y) tail) (c : Clock) :
    ∃ r', r'.Holds y tail ∧
      headOnto limit budget lines [] r c = (.ok (some (lines.reverse ++ line)), r', c) := by
  obtain ⟨front, rfl, noLf, bare⟩ := blank.front
  rw [List.length_append, List.length_singleton] at fits
  rw [List.append_assoc] at holds
  obtain ⟨r', holds', read⟩ := headOnto_front limit lines noLf fits holds c
  refine ⟨r', holds', ?_⟩
  have none : lines.isEmpty = false := List.isEmpty_eq_false_iff.mpr begun
  rw [read, (isBlankLine_reverse front).mpr bare, none]
  simp

theorem headOnto_whole {rest : List Bytes} {ending : Bytes}
    (each : ∀ line ∈ rest, ∃ text, Bytes.Line text line ∧ text ≠ []) (blank : Bytes.Line [] ending)
    (begun : rest = [] → lines ≠ []) (fits : (rest.flatten ++ ending).length ≤ budget)
    (holds : r.Holds (rest.flatten ++ (ending ++ y)) tail) (c : Clock) :
    ∃ r', r'.Holds y tail ∧ headOnto limit budget lines [] r c =
      (.ok (some (lines.reverse ++ (rest.flatten ++ ending))), r', c) := by
  induction rest generalizing budget lines r with
  | nil => exact headOnto_end limit (begun rfl) blank fits holds c
  | cons line rest ih =>
      obtain ⟨⟨text, isLine, some⟩, later⟩ := List.forall_mem_cons.mp each
      rw [List.flatten_cons, List.append_assoc, List.length_append] at fits
      rw [List.flatten_cons, List.append_assoc] at holds
      have here : line.length ≤ budget := by omega
      obtain ⟨r₁, holds₁, first⟩ := headOnto_more limit lines isLine some here holds c
      have begun' : line.reverse ++ lines ≠ [] :=
        List.append_ne_nil_of_left_ne_nil (List.reverse_ne_nil_iff.mpr isLine.ne_nil) lines
      have left : (rest.flatten ++ ending).length ≤ budget - line.length := by omega
      obtain ⟨r', holds', read⟩ := ih later (fun _ => begun') left holds₁
      refine ⟨r', holds', ?_⟩
      rw [first, read]
      simp

variable {limit}

/-- A head is read whole, with the blank lines in front of it, and nothing more. -/
theorem readHead_whole {blanks : List Bytes} (blank : ∀ line ∈ blanks, Bytes.Line [] line)
    (isHead : IsHead head) (fits : (blanks.flatten ++ head).length ≤ limit)
    (holds : r.Holds (blanks.flatten ++ (head ++ y)) tail) (c : Clock) :
    ∃ r', readHead limit r c = (.ok (some head), r', c) ∧ r'.Holds y tail := by
  have skipped : ∀ budget, (blanks.flatten ++ head).length ≤ budget → ∃ r',
      headOnto limit budget [] [] r c = (.ok (some head), r', c) ∧ r'.Holds y tail := by
    clear fits
    induction blanks generalizing r with
    | nil =>
        intro budget fits
        obtain ⟨rest, ending, some, each, blank, rfl⟩ := isHead
        rw [List.append_assoc] at holds
        obtain ⟨r', holds', read⟩ :=
          headOnto_whole limit each blank (fun none => absurd none some) fits holds c
        exact ⟨r', read, holds'⟩
    | cons line blanks ih =>
        intro budget fits
        obtain ⟨first, later⟩ := List.forall_mem_cons.mp blank
        rw [List.flatten_cons, List.append_assoc, List.length_append] at fits
        rw [List.flatten_cons, List.append_assoc] at holds
        have here : line.length ≤ budget := by omega
        obtain ⟨r₁, holds₁, skipped⟩ := headOnto_skip limit first here holds c
        obtain ⟨r', read, holds'⟩ := ih later holds₁ (budget - line.length) (by omega)
        exact ⟨r', skipped.trans read, holds'⟩
  exact skipped limit fits

theorem readHead_end (some : 0 < limit) (holds : r.Holds [] []) (c : Clock) :
    ∃ r', readHead limit r c = (.ok none, r', c) := by
  obtain ⟨budget, rfl⟩ : ∃ n, limit = n + 1 := ⟨limit - 1, by omega⟩
  refine ⟨{ arrivals := [], capacity := r.capacity }, ?_⟩
  rw [readHead, headOnto, Reader.next_holds_nil holds]
  rfl

/-- The bytes begin with a head, behind blank lines, that ends within so many bytes. -/
def Begins (limit : Nat) (x : Bytes) : Prop :=
  ∃ (blanks : List Bytes) (head y : Bytes), (∀ line ∈ blanks, Bytes.Line [] line) ∧ IsHead head ∧
    (blanks.flatten ++ head).length ≤ limit ∧ x = blanks.flatten ++ (head ++ y)

/-- Behind complete lines the rest of a head ends within so many bytes. -/
def Ends (budget : Nat) (x : Bytes) : Prop :=
  ∃ (rest : List Bytes) (ending y : Bytes),
    (∀ line ∈ rest, ∃ text, Bytes.Line text line ∧ text ≠ []) ∧ Bytes.Line [] ending ∧
    (rest.flatten ++ ending).length ≤ budget ∧ x = rest.flatten ++ (ending ++ y)

theorem Begins.blank (blank : Bytes.Line [] line) (fits : line.length ≤ limit)
    (begins : Begins (limit - line.length) x) : Begins limit (line ++ x) := by
  obtain ⟨blanks, head, y, each, isHead, within, rfl⟩ := begins
  refine ⟨line :: blanks, head, y, List.forall_mem_cons.mpr ⟨blank, each⟩, isHead, ?_, ?_⟩
  · rw [List.flatten_cons, List.append_assoc, List.length_append]
    omega
  · rw [List.flatten_cons, List.append_assoc]

theorem not_begins_of_noLf (limit : Nat) (noLf : Bytes.lf ∉ x) : ¬ Begins limit x := by
  rintro ⟨blanks, _, y, _, ⟨lines, ending, _, _, blank, rfl⟩, _, rfl⟩
  have member := blank.lf_mem
  exact noLf (by simp [member])

theorem Ends.more (isLine : Bytes.Line text line) (some : text ≠ []) (fits : line.length ≤ budget)
    (ends : Ends (budget - line.length) x) : Ends budget (line ++ x) := by
  obtain ⟨rest, ending, y, each, blank, within, rfl⟩ := ends
  refine ⟨line :: rest, ending, y, List.forall_mem_cons.mpr ⟨⟨text, isLine, some⟩, each⟩, blank, ?_,
    ?_⟩
  · rw [List.flatten_cons, List.append_assoc, List.length_append]
    omega
  · rw [List.flatten_cons, List.append_assoc]

theorem Ends.begins (isLine : Bytes.Line text line) (some : text ≠ []) (fits : line.length ≤ limit)
    (ends : Ends (limit - line.length) x) : Begins limit (line ++ x) := by
  obtain ⟨rest, ending, y, each, blank, within, rfl⟩ := ends
  refine ⟨[], (line :: rest).flatten ++ ending, y, List.forall_mem_nil _,
    ⟨line :: rest, ending, List.cons_ne_nil _ _, List.forall_mem_cons.mpr ⟨⟨text, isLine, some⟩, each⟩,
      blank, rfl⟩, ?_, ?_⟩
  · rw [List.flatten_nil, List.nil_append, List.flatten_cons, List.append_assoc, List.length_append]
    omega
  · simp only [List.flatten_nil, List.nil_append, List.flatten_cons, List.append_assoc]

variable (limit) in
theorem headOnto_overlong (lines : Bytes) (noLf : Bytes.lf ∉ x) (all : x.length = budget)
    (holds : r.Holds (x ++ y) tail) (c : Clock) :
    ∃ r', headOnto limit budget lines [] r c = (.error (.head (.tooLarge limit)), r', c) := by
  obtain ⟨r', passed, _⟩ : ∃ r', headOnto limit budget lines [] r c =
      headOnto limit (budget - x.length) lines (x.reverse ++ []) r' c ∧ r'.Holds y tail :=
    headOnto_append lines [] noLf (Nat.le_of_eq all) holds c
  refine ⟨r', ?_⟩
  rw [passed, all, Nat.sub_self, headOnto]

variable (limit) in
theorem headOnto_severed (noLf : Bytes.lf ∉ x) (short : x.length < budget)
    (begun : lines ≠ [] ∨ x ≠ []) (holds : r.Holds x tail) (severed : Arrival.Severed tail)
    (c : Clock) : ∃ r', headOnto limit budget lines [] r c = (.error .incomplete, r', c) := by
  rw [← List.append_nil x] at holds
  obtain ⟨r₁, passed, holds₁⟩ : ∃ r₁, headOnto limit budget lines [] r c =
      headOnto limit (budget - x.length) lines (x.reverse ++ []) r₁ c ∧ r₁.Holds [] tail :=
    headOnto_append lines [] noLf (Nat.le_of_lt short) holds c
  obtain ⟨left, more⟩ : ∃ n, budget - x.length = n + 1 := ⟨budget - x.length - 1, by omega⟩
  have some : (lines.isEmpty && (x.reverse ++ []).isEmpty) = false := by
    rw [Bool.and_eq_false_iff, List.isEmpty_eq_false_iff, List.isEmpty_eq_false_iff,
      List.append_nil]
    exact begun.imp_right List.reverse_ne_nil_iff.mpr
  obtain ⟨r', ended | ⟨fault, failed, gone⟩⟩ := Reader.next_severed r₁.capacity holds₁ severed c
  · refine ⟨r', ?_⟩
    rw [passed, more, headOnto]
    simp only [ended, some, Bool.false_eq_true, if_false]
  · refine ⟨r', ?_⟩
    rw [passed, more, headOnto]
    simp only [failed, WireError.ofRead_teardown gone]

variable (limit) in
/-- A head that has begun and does not end within the limit is an error. -/
theorem headOnto_without (begun : lines ≠ []) (without : ¬ Ends budget x)
    (holds : r.Holds x tail) (c : Clock) :
    (budget ≤ x.length → ∃ r', headOnto limit budget lines [] r c =
        (.error (.head (.tooLarge limit)), r', c)) ∧
      (x.length < budget → Arrival.Severed tail → ∃ r',
        headOnto limit budget lines [] r c = (.error .incomplete, r', c)) := by
  induction size : x.length using Nat.strongRecOn generalizing x budget lines r with
  | ind n ih =>
      subst size
      rcases Bytes.line_or budget x with
        ⟨text, line, rest, rfl, isLine, short⟩ | ⟨noLf, short⟩ | ⟨run, rest, rfl, noLf, long⟩
      · by_cases blank : text = []
        · subst blank
          exact absurd ⟨[], line, rest, List.forall_mem_nil _, isLine, short, rfl⟩ without
        · obtain ⟨r₁, holds₁, first⟩ := headOnto_more limit lines isLine blank short holds c
          have begun' : line.reverse ++ lines ≠ [] :=
            List.append_ne_nil_of_right_ne_nil _ begun
          have without' : ¬ Ends (budget - line.length) rest := fun ends =>
            without (ends.more isLine blank short)
          have pos := List.length_pos_iff.mpr isLine.ne_nil
          rw [List.length_append] at ih ⊢
          obtain ⟨large, cut⟩ := ih rest.length (by omega) begun' without' holds₁ rfl
          rw [first]
          exact ⟨fun beyond => large (by omega), fun under => cut (by omega)⟩
      · exact ⟨fun beyond => absurd beyond (Nat.not_le_of_lt short),
          fun _ severed => headOnto_severed limit noLf short (.inl begun) holds severed c⟩
      · rw [List.length_append]
        exact ⟨fun _ => headOnto_overlong limit lines noLf long holds c,
          fun under => absurd under (by omega)⟩

/-- Bytes that do not begin with a head within the limit are an error, if they go beyond the limit,
or if they end with the connection and are more than blank lines. -/
theorem readHead_without (without : ¬ Begins limit x) (holds : r.Holds x tail) (c : Clock) :
    (limit ≤ x.length → ∃ r', readHead limit r c = (.error (.head (.tooLarge limit)), r', c)) ∧
      (x.length < limit → Arrival.Severed tail →
        (¬ ∃ blanks : List Bytes, (∀ line ∈ blanks, Bytes.Line [] line) ∧ x = blanks.flatten) →
        ∃ r', readHead limit r c = (.error .incomplete, r', c)) := by
  have fails : ∀ budget, ¬ Begins budget x →
      (budget ≤ x.length → ∃ r', headOnto limit budget [] [] r c =
          (.error (.head (.tooLarge limit)), r', c)) ∧
        (x.length < budget → Arrival.Severed tail →
          (¬ ∃ blanks : List Bytes, (∀ line ∈ blanks, Bytes.Line [] line) ∧ x = blanks.flatten) →
          ∃ r', headOnto limit budget [] [] r c = (.error .incomplete, r', c)) := by
    clear without
    induction size : x.length using Nat.strongRecOn generalizing x r with
    | ind n ih =>
        subst size
        intro budget without
        rcases Bytes.line_or budget x with
          ⟨text, line, rest, rfl, isLine, short⟩ | ⟨noLf, short⟩ | ⟨run, rest, rfl, noLf, long⟩
        · have pos := List.length_pos_iff.mpr isLine.ne_nil
          rw [List.length_append] at ih ⊢
          by_cases blank : text = []
          · subst blank
            obtain ⟨r₁, holds₁, skipped⟩ := headOnto_skip limit isLine short holds c
            have without' : ¬ Begins (budget - line.length) rest := fun begins =>
              without (begins.blank isLine short)
            obtain ⟨large, cut⟩ := ih rest.length (by omega) holds₁ rfl _ without'
            rw [skipped]
            refine ⟨fun beyond => large (by omega), fun under severed filled => ?_⟩
            refine cut (by omega) severed fun ⟨blanks, each, same⟩ => filled ?_
            exact ⟨line :: blanks, List.forall_mem_cons.mpr ⟨isLine, each⟩, by rw [same]; rfl⟩
          · obtain ⟨r₁, holds₁, first⟩ := headOnto_more limit [] isLine blank short holds c
            have begun : line.reverse ++ [] ≠ [] :=
              List.append_ne_nil_of_left_ne_nil (List.reverse_ne_nil_iff.mpr isLine.ne_nil) []
            have without' : ¬ Ends (budget - line.length) rest := fun ends =>
              without (ends.begins isLine blank short)
            obtain ⟨large, cut⟩ := headOnto_without limit begun without' holds₁ c
            rw [first]
            exact ⟨fun beyond => large (by omega), fun under severed _ => cut (by omega) severed⟩
        · refine ⟨fun beyond => absurd beyond (Nat.not_le_of_lt short), fun _ severed filled => ?_⟩
          have some : x ≠ [] := fun none => filled ⟨[], List.forall_mem_nil _, none⟩
          exact headOnto_severed limit noLf short (.inr some) holds severed c
        · rw [List.length_append]
          exact ⟨fun _ => headOnto_overlong limit [] noLf long holds c,
            fun under => absurd under (by omega)⟩
  exact fails limit without

/-- No head has begun with these bytes: they are blank lines, or there are none. -/
def Blank (x : Bytes) : Prop :=
  ∃ blanks : List Bytes, (∀ line ∈ blanks, Bytes.Line [] line) ∧ x = blanks.flatten

theorem blank_nil : Blank [] := ⟨[], List.forall_mem_nil _, rfl⟩

theorem Blank.mem (blank : Blank x) {b : UInt8} (member : b ∈ x) : b = Bytes.cr ∨ b = Bytes.lf := by
  obtain ⟨blanks, each, rfl⟩ := blank
  obtain ⟨line, inside, member⟩ := List.mem_flatten.mp member
  cases each line inside with
  | crlf => simpa [Bytes.crlf] using member
  | bare => exact .inr (List.mem_singleton.mp member)

theorem not_begins_of_count (limit : Nat) (few : x.count Bytes.lf < 2) : ¬ Begins limit x := by
  rintro ⟨blanks, _, y, _, ⟨lines, ending, some, each, blank, rfl⟩, _, rfl⟩
  obtain ⟨line, lines, rfl⟩ := List.exists_cons_of_ne_nil some
  obtain ⟨_, isLine, _⟩ := each line List.mem_cons_self
  have first := List.one_le_count_iff.mpr isLine.lf_mem
  have last := List.one_le_count_iff.mpr blank.lf_mem
  simp only [List.flatten_cons, List.count_append] at few
  omega

/-- Behind nothing but blank lines the end of the input is no error. A reset is one. -/
theorem readHead_blank (blank : Blank x) (short : x.length < limit) (holds : r.Holds x tail)
    (severed : Arrival.Severed tail) (c : Clock) :
    (tail = [] → ∃ r', readHead limit r c = (.ok none, r', c)) ∧
      (tail ≠ [] → ∃ r', readHead limit r c = (.error .incomplete, r', c)) := by
  obtain ⟨blanks, each, rfl⟩ := blank
  have skipped : ∀ budget, blanks.flatten.length < budget → ∃ left r₁, r₁.Holds [] tail ∧
      headOnto limit budget [] [] r c = headOnto limit (left + 1) [] [] r₁ c := by
    clear short
    induction blanks generalizing r with
    | nil =>
        intro budget short
        obtain ⟨left, rfl⟩ : ∃ n, budget = n + 1 := ⟨budget - 1, by omega⟩
        exact ⟨left, r, holds, rfl⟩
    | cons line blanks ih =>
        intro budget short
        obtain ⟨first, later⟩ := List.forall_mem_cons.mp each
        rw [List.flatten_cons, List.length_append] at short
        rw [List.flatten_cons] at holds
        have here : line.length ≤ budget := by omega
        obtain ⟨r₁, holds₁, skip⟩ := headOnto_skip limit first here holds c
        obtain ⟨left, r₂, holds₂, rest⟩ := ih later holds₁ (budget - line.length) (by omega)
        exact ⟨left, r₂, holds₂, skip.trans rest⟩
  obtain ⟨left, r₁, holds₁, rest⟩ := skipped limit short
  constructor
  · rintro rfl
    refine ⟨{ arrivals := [], capacity := r₁.capacity }, ?_⟩
    rw [readHead, rest, headOnto, Reader.next_holds_nil holds₁]
    rfl
  · intro reset
    obtain ended | ⟨fault, more, rfl, gone⟩ := severed
    · exact absurd ended reset
    · have failed : r₁.next r₁.capacity c =
          (.error fault, { arrivals := more, capacity := r₁.capacity }, c) := by
        rw [Reader.next_holds_nil holds₁, Reader.next]
        simp only [Arrival.take, IoKind.isTransient_of_isTeardown gone, Bool.and_false,
          Bool.false_eq_true, if_false]
      refine ⟨{ arrivals := more, capacity := r₁.capacity }, ?_⟩
      rw [readHead, rest, headOnto]
      simp only [failed, WireError.ofRead_teardown gone]

end HttpExchange.Wire
