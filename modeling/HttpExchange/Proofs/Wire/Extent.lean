import HttpExchange.Proofs.Wire.Signal
import HttpExchange.Proofs.Wire.Whole

/-!
How far a head goes. In front of an input that ends, the blank lines that may come first and the
head behind them are found by what they are made of: the longest run of blank lines, and behind it
the shortest beginning that ends with a blank line. What reading a head comes to, and which bytes it
takes, follows from these and the limit.
-/

namespace HttpExchange

namespace Wire

structure LongestBlank (b x : Bytes) : Prop where
  blank : Blank b
  front : b <+: x
  longest : ∀ b', Blank b' → b' <+: x → b'.length ≤ b.length

/-- The bytes end with a blank line that starts right behind a line feed. -/
def EndsBlank (h : Bytes) : Prop :=
  ∃ front line, Bytes.Line [] line ∧ h = front ++ Bytes.lf :: line

structure ShortestHead (h y : Bytes) : Prop where
  ends : EndsBlank h
  front : h <+: y
  shortest : ∀ h', EndsBlank h' → h' <+: y → h.length ≤ h'.length

/-- What a head is to be answered with, and the bytes that are taken for it, where `b` stands for
the blank lines in front of the input and `y` for what comes behind them. -/
inductive Extent (limit : Nat) (b y : Bytes) : Outcome WireError (Option Bytes) → Bytes → Prop where
  | head {h : Bytes} (head : ShortestHead h y) (fits : b.length + h.length ≤ limit) :
      Extent limit b y (.ok (some h)) (b ++ h)
  | tooLarge (without : ∀ h, ShortestHead h y → limit < b.length + h.length)
      (full : limit ≤ (b ++ y).length) :
      Extent limit b y (.error (.head (.tooLarge limit))) ((b ++ y).take limit)
  | none (behind : y = []) (short : b.length < limit) : Extent limit b y (.ok none) b
  | cut (without : ∀ h, ShortestHead h y → limit < b.length + h.length) (some : y ≠ [])
      (short : (b ++ y).length < limit) : Extent limit b y (.error .incomplete) (b ++ y)

def Filled (y : Bytes) : Prop := ∀ line rest, y = line ++ rest → ¬ Bytes.Line [] line

variable {limit budget : Nat} {b b' h head more x y z : Bytes}

theorem Blank.cons {line : Bytes} (isLine : Bytes.Line [] line) (blank : Blank b) :
    Blank (line ++ b) := by
  obtain ⟨blanks, each, rfl⟩ := blank
  exact ⟨line :: blanks, List.forall_mem_cons.mpr ⟨isLine, each⟩, List.flatten_cons.symm⟩

theorem Blank.first (blank : Blank b) (some : b ≠ []) :
    ∃ line rest, b = line ++ rest ∧ Bytes.Line [] line := by
  obtain ⟨blanks, each, rfl⟩ := blank
  cases blanks with
  | nil => exact absurd List.flatten_nil some
  | cons line blanks =>
      exact ⟨line, blanks.flatten, List.flatten_cons, each line List.mem_cons_self⟩

theorem Blank.of_append (blank : Blank b) (whole : Blank (b ++ more)) : Blank more := by
  obtain ⟨blanks, each, rfl⟩ := blank
  induction blanks with
  | nil => exact whole
  | cons line blanks ih =>
      obtain ⟨isLine, later⟩ := List.forall_mem_cons.mp each
      obtain ⟨all, each', same⟩ := whole
      rw [List.flatten_cons, List.append_assoc] at same
      cases all with
      | nil => exact absurd (List.append_eq_nil_iff.mp same).1 isLine.ne_nil
      | cons line' all =>
          obtain ⟨isLine', later'⟩ := List.forall_mem_cons.mp each'
          exact ih later ⟨all, later', (isLine.unique isLine' same).2⟩

theorem exists_filled (x : Bytes) : ∃ b y, x = b ++ y ∧ Blank b ∧ Filled y := by
  induction size : x.length using Nat.strongRecOn generalizing x with
  | ind n ih =>
      subst size
      by_cases starts : ∃ line rest, x = line ++ rest ∧ Bytes.Line [] line
      · obtain ⟨line, rest, rfl, isLine⟩ := starts
        have shorter : rest.length < (line ++ rest).length := by
          have := List.length_pos_iff.mpr isLine.ne_nil
          rw [List.length_append]
          omega
        obtain ⟨b, y, rfl, blank, filled⟩ := ih rest.length shorter rest rfl
        exact ⟨line ++ b, y, (List.append_assoc line b y).symm, blank.cons isLine, filled⟩
      · exact ⟨[], x, rfl, blank_nil,
          fun line rest same isLine => starts ⟨line, rest, same, isLine⟩⟩

theorem longestBlank (blank : Blank b) (filled : Filled y) : LongestBlank b (b ++ y) := by
  refine ⟨blank, List.prefix_append b y, fun b' blank' part => ?_⟩
  by_contra longer
  obtain ⟨more, rfl⟩ :=
    List.prefix_of_prefix_length_le (List.prefix_append b y) part (Nat.le_of_not_le longer)
  have some : more ≠ [] := by
    rintro rfl
    exact longer (Nat.le_of_eq (congrArg List.length (List.append_nil b)))
  obtain ⟨line, rest, rfl, isLine⟩ := (blank.of_append blank').first some
  obtain ⟨behind, same⟩ := part
  rw [List.append_assoc, List.append_cancel_left_eq, List.append_assoc] at same
  exact filled line _ same.symm isLine

/-- Where the blank lines end is determined. -/
theorem blank_unique (blank : Blank b) (filled : Filled y) (blank' : Blank b') (filled' : Filled z)
    (same : b ++ y = b' ++ z) : b = b' ∧ y = z := by
  have one := longestBlank blank filled
  have other := longestBlank blank' filled'
  apply List.append_inj same
  apply Nat.le_antisymm
  · exact other.longest b blank (same ▸ one.front)
  · exact one.longest b' blank' (same ▸ other.front)

theorem IsHead.filled (isHead : IsHead head) (z : Bytes) : Filled (head ++ z) := by
  obtain ⟨lines, ending, some, each, _, rfl⟩ := isHead
  obtain ⟨first, lines, rfl⟩ := List.exists_cons_of_ne_nil some
  obtain ⟨text, isLine, filled⟩ := each first List.mem_cons_self
  intro line rest same blank
  rw [List.flatten_cons, List.append_assoc, List.append_assoc] at same
  obtain ⟨rfl, _⟩ := isLine.unique blank same
  exact filled (isLine.text_unique blank)

theorem IsHead.endsBlank (isHead : IsHead head) : EndsBlank head := by
  obtain ⟨lines, ending, some, each, blank, rfl⟩ := isHead
  obtain ⟨before, last, rfl⟩ := (List.eq_nil_or_concat' lines).resolve_left some
  obtain ⟨_, isLine, _⟩ := each last (List.mem_append_right before List.mem_cons_self)
  obtain ⟨front, rfl, _⟩ := isLine.front
  exact ⟨before.flatten ++ front, ending, blank, by simp⟩

/-- Of heads in front of the same bytes there is only one: reading finds it. -/
theorem IsHead.unique (one : IsHead head) (other : IsHead h) (front : head <+: y)
    (front' : h <+: y) : head = h := by
  let r : Reader := { arrivals := [.bytes y], capacity := 1 }
  have holds : r.Holds y [] := Reader.holds_segment Nat.one_pos y []
  have read {head} (isHead : IsHead head) (front : head <+: y) :
      (readHead y.length r { limit := 0 }).1 = .ok (some head) := by
    obtain ⟨rest, same⟩ := front
    have holds' : r.Holds (([] : List Bytes).flatten ++ (head ++ rest)) [] := by
      rwa [← same] at holds
    have fits : (([] : List Bytes).flatten ++ head).length ≤ y.length := by
      rw [← same, List.flatten_nil, List.nil_append, List.length_append]
      exact Nat.le_add_right _ _
    obtain ⟨r', read, _⟩ := readHead_whole (List.forall_mem_nil _) isHead fits holds' { limit := 0 }
    rw [read]
  exact Option.some.inj (Outcome.ok.inj ((read one front).symm.trans (read other front')))

def Closed (x : Bytes) : Prop := ∀ last, x.getLast? = some last → last = Bytes.lf

theorem closed_concat (x : Bytes) : Closed (x ++ [Bytes.lf]) := by
  intro last ends
  rw [List.getLast?_concat] at ends
  exact (Option.some.inj ends).symm

theorem Closed.first (closed : Closed x) (some : x ≠ []) :
    ∃ text line rest, x = line ++ rest ∧ Bytes.Line text line ∧ Closed rest := by
  have ends : Bytes.lf ∈ x := by
    have member := List.getLast_mem some
    rwa [closed _ (List.getLast?_eq_some_getLast some)] at member
  obtain ⟨front, rest, rfl, noLf⟩ := List.eq_append_cons_of_mem ends
  refine ⟨_, front ++ [Bytes.lf], rest, by simp, .of_front noLf, fun last ends => closed last ?_⟩
  rw [List.getLast?_append, List.getLast?_cons, ends]
  rfl

theorem ends_of_closed {closed ending : Bytes} (lines : Closed closed)
    (blank : Bytes.Line [] ending) (fits : (closed ++ ending).length ≤ budget) (z : Bytes) :
    Ends budget (closed ++ (ending ++ z)) := by
  -- each line that is not blank leaves less behind it
  induction size : closed.length using Nat.strongRecOn generalizing closed budget with
  | ind n ih =>
      subst size
      by_cases none : closed = []
      · subst none
        exact ⟨[], ending, z, List.forall_mem_nil _, blank, fits, rfl⟩
      · obtain ⟨text, line, rest, rfl, isLine, lines'⟩ := lines.first none
        have some := List.length_pos_iff.mpr isLine.ne_nil
        rw [List.append_assoc, List.length_append] at fits
        rw [List.length_append] at ih
        rw [List.append_assoc]
        by_cases bare : text = []
        · subst bare
          refine ⟨[], line, rest ++ (ending ++ z), List.forall_mem_nil _, isLine, ?_, rfl⟩
          rw [List.flatten_nil, List.nil_append]
          omega
        · exact .more isLine bare (by omega) (ih rest.length (by omega) lines' (by omega) rfl)

theorem begins_of_endsBlank (filled : Filled (h ++ z)) (ends : EndsBlank h) :
    Begins h.length (h ++ z) := by
  obtain ⟨before, ending, blank, rfl⟩ := ends
  have split : before ++ Bytes.lf :: ending = (before ++ [Bytes.lf]) ++ ending := by simp
  obtain ⟨text, line, rest, same, isLine, closed⟩ :=
    (closed_concat before).first (List.append_ne_nil_of_right_ne_nil before (List.cons_ne_nil _ _))
  have whole : before ++ Bytes.lf :: ending ++ z = line ++ (rest ++ (ending ++ z)) := by
    rw [split, same]
    simp only [List.append_assoc]
  have size : (before ++ Bytes.lf :: ending).length = line.length + (rest ++ ending).length := by
    rw [split, same, List.append_assoc, List.length_append]
  have some : text ≠ [] := by
    rintro rfl
    exact filled line _ whole isLine
  rw [whole, size]
  exact Ends.begins isLine some (Nat.le_add_right _ _) (ends_of_closed closed blank (by omega) z)

/-- A head within the limit, behind these blank lines. -/
theorem Begins.exists_head (begins : Begins limit (b ++ y)) (blank : Blank b) (filled : Filled y) :
    ∃ h, IsHead h ∧ h <+: y ∧ b.length + h.length ≤ limit := by
  obtain ⟨blanks, head, z, each, isHead, fits, same⟩ := begins
  obtain ⟨rfl, rfl⟩ := blank_unique blank filled ⟨blanks, each, rfl⟩ (isHead.filled z) same
  exact ⟨head, isHead, List.prefix_append head z, by rwa [List.length_append] at fits⟩

theorem begins_of_isHead (blank : Blank b) (isHead : IsHead h) (front : h <+: y)
    (fits : b.length + h.length ≤ limit) : Begins limit (b ++ y) := by
  obtain ⟨blanks, each, rfl⟩ := blank
  obtain ⟨z, rfl⟩ := front
  exact ⟨blanks, h, z, each, isHead, by rwa [List.length_append], rfl⟩

/-- The lines of a head up to its first blank one are the shortest beginning that ends blank. -/
theorem shortestHead_iff (filled : Filled y) : ShortestHead h y ↔ IsHead h ∧ h <+: y := by
  have within {h'} (ends : EndsBlank h') (front : h' <+: y) :
      ∃ head, IsHead head ∧ head <+: y ∧ head.length ≤ h'.length := by
    obtain ⟨z, rfl⟩ := front
    have begins : Begins h'.length ([] ++ (h' ++ z)) := begins_of_endsBlank filled ends
    obtain ⟨head, isHead, front, fits⟩ := begins.exists_head blank_nil filled
    exact ⟨head, isHead, front, by rwa [List.length_nil, Nat.zero_add] at fits⟩
  constructor
  · rintro ⟨ends, front, shortest⟩
    obtain ⟨head, isHead, front', fits⟩ := within ends front
    have least := shortest head isHead.endsBlank front'
    have same : head = h := by
      apply (List.prefix_of_prefix_length_le front' front fits).eq_of_length
      exact Nat.le_antisymm fits least
    exact ⟨same ▸ isHead, front⟩
  · rintro ⟨isHead, front⟩
    refine ⟨isHead.endsBlank, front, fun h' ends front' => ?_⟩
    obtain ⟨head, isHead', front'', fits⟩ := within ends front'
    rwa [isHead.unique isHead' front front'']

theorem begins_iff (blank : Blank b) (filled : Filled y) :
    Begins limit (b ++ y) ↔ ∃ h, ShortestHead h y ∧ b.length + h.length ≤ limit := by
  constructor
  · intro begins
    obtain ⟨h, isHead, front, fits⟩ := begins.exists_head blank filled
    exact ⟨h, (shortestHead_iff filled).mpr ⟨isHead, front⟩, fits⟩
  · rintro ⟨h, shortest, fits⟩
    obtain ⟨isHead, front⟩ := (shortestHead_iff filled).mp shortest
    exact begins_of_isHead blank isHead front fits

inductive ReadsHead (limit budget : Nat) (r r' : Reader) :
    Outcome WireError (Option Bytes) → Prop where
  | head {h taken : Bytes} (passes : r.Passes taken r') (fits : taken.length ≤ budget) :
      ReadsHead limit budget r r' (.ok (some h))
  | tooLarge {taken : Bytes} (passes : r.Passes taken r') (full : taken.length = budget) :
      ReadsHead limit budget r r' (.error (.head (.tooLarge limit)))
  | spent {taken : Bytes} (begun : Bool) (passes : r.Passes taken r') (short : taken.length < budget)
      (spent : r'.Spent) :
      ReadsHead limit budget r r' (if begun then .error .incomplete else .ok none)
  | fails {taken : Bytes} {e : IoFault} (fails : r.Fails taken e r')
      (fits : taken.length ≤ budget) : ReadsHead limit budget r r' (.error (.ofRead e))
  | stuck (waits : .wait ∈ r.signals) : ReadsHead limit budget r r' .stuck

variable {r r₁ r' : Reader} {c c' : Clock} {out : Outcome WireError (Option Bytes)}

theorem ReadsHead.behind {a : UInt8} (reads : ReadsHead limit budget r₁ r' out)
    (passes : r.Passes [a] r₁) : ReadsHead limit (budget + 1) r r' out := by
  cases reads with
  | head more fits => exact .head (passes.trans more) (Nat.succ_le_succ fits)
  | tooLarge more full => exact .tooLarge (passes.trans more) (congrArg (· + 1) full)
  | spent begun more short spent =>
      exact .spent begun (passes.trans more) (Nat.succ_lt_succ short) spent
  | fails fails fits => exact .fails (passes.fails fails) (Nat.succ_le_succ fits)
  | stuck waits => exact .stuck (passes.wait_mem waits)

theorem headOnto_reads {lines line : Bytes}
    (eq : headOnto limit budget lines line r c = (out, r', c')) :
    ReadsHead limit budget r r' out := by
  fun_induction headOnto limit budget lines line r c with
  | case1 =>
      cases eq
      exact .tooLarge (.refl _) rfl
  | case2 budget lines line r c b r₁ c₁ read _ ih | case3 budget lines line r c b r₁ c₁ read _ _ ih
  | case4 budget lines line r c b r₁ c₁ read _ _ _ ih =>
      cases Reader.next_reads read with
      | byte passes => exact (ih eq).behind passes
  | case5 budget lines line r c b r₁ c₁ read =>
      cases eq
      cases Reader.next_reads read with
      | byte passes => exact .head passes (Nat.succ_le_succ (Nat.zero_le budget))
  | case6 budget lines line r c r₁ c₁ read =>
      cases eq
      cases Reader.next_reads read with
      | spent passes emptied spent =>
          have short : ([] : Bytes).length < budget + 1 := Nat.succ_pos budget
          have spent : r'.Spent := ⟨emptied, spent.imp_right passes.capacity.trans⟩
          cases nothing : lines.isEmpty && line.isEmpty with
          | false => exact .spent true passes short spent
          | true => exact .spent false passes short spent
  | case7 budget lines line r c e r₁ c₁ read =>
      cases eq
      cases Reader.next_reads read with
      | fails fails => exact .fails fails (Nat.zero_le _)
  | case8 budget lines line r c r₁ c₁ read =>
      cases eq
      cases Reader.next_reads read with
      | stuck waits => exact .stuck waits

/-- Without waits there is an answer, and no more than the limit is taken for it. -/
theorem readHead_bounded (prompt : r.Prompt) (limit : Nat) (c : Clock) :
    ∃ out r' c' taken, readHead limit r c = (out, r', c') ∧ out ≠ .stuck ∧ r.Takes taken r' ∧
      taken.length ≤ limit := by
  rcases read : readHead limit r c with ⟨out, r', c'⟩
  cases headOnto_reads read with
  | head passes fits => exact ⟨_, r', c', _, rfl, nofun, passes.takes, fits⟩
  | tooLarge passes full => exact ⟨_, r', c', _, rfl, nofun, passes.takes, Nat.le_of_eq full⟩
  | spent begun passes short =>
      refine ⟨_, r', c', _, rfl, ?_, passes.takes, Nat.le_of_lt short⟩
      cases begun <;> nofun
  | fails fails fits => exact ⟨_, r', c', _, rfl, nofun, fails.takes, fits⟩
  | stuck waits => exact absurd waits prompt

/-- Of an input that ends, all is taken if its end was met, and else as much as the limit allows. -/
theorem taken_of_holds (holds : r.Holds x []) (read : readHead limit r c = (out, r', c')) :
    (out = .error (.head (.tooLarge limit)) → r.Takes (x.take limit) r') ∧
      (out = .ok none ∨ out = .error .incomplete → r.Takes x r') := by
  have faultless {taken e} (fails : r.Fails taken e r') : False := by
    obtain ⟨p, brings, _⟩ := fails
    have member : .fault e ∈ r.signals := brings ▸ List.mem_append_right p List.mem_cons_self
    rw [holds.signals] at member
    simp [Arrival.signals] at member
  have all {taken : Bytes} (passes : r.Passes taken r') : x = taken ++ r'.ahead := by
    have front := passes.takes
    rwa [Reader.Takes, holds.ahead, Arrival.carried, List.append_nil] at front
  cases headOnto_reads read with
  | head | stuck =>
      constructor
      · intro other
        cases other
      · rintro (other | other) <;> cases other
  | tooLarge passes full =>
      refine ⟨fun _ => ?_, by rintro (other | other) <;> cases other⟩
      rw [all passes, List.take_left' full]
      exact passes.takes
  | spent begun passes short spent =>
      have ended : r'.ahead = [] := by
        have room : r'.capacity ≠ 0 := by
          rw [passes.capacity]
          exact Nat.ne_of_gt holds.room
        rw [Reader.ahead, spent.1, spent.2.resolve_right room]
        rfl
      refine ⟨fun other => ?_, fun _ => ?_⟩
      · cases begun <;> cases other
      · rw [all passes, ended, List.append_nil]
        exact passes.takes
  | fails fails => exact (faultless fails).elim

/-- Reading a head comes to an answer on every input without waits, and takes no more than the limit
for it. Of an input that ends it finds the head, with exactly the blank lines in front of it, if they
end within the limit. Otherwise, where there are as many bytes as the limit, the head is too large,
and so many are taken. Otherwise nothing is left, and there was no head if there were only blank
lines, or else one that was cut short. -/
theorem readHead_extent (limit : Nat) (r : Reader) (c : Clock) :
    (r.Prompt → ∃ out r' c' taken, readHead limit r c = (out, r', c') ∧ out ≠ .stuck ∧
      r.Takes taken r' ∧ taken.length ≤ limit) ∧
    ∀ x, r.Holds x [] → ∃ b y out r' taken, x = b ++ y ∧ LongestBlank b x ∧
      readHead limit r c = (out, r', c) ∧ r.Takes taken r' ∧ Extent limit b y out taken := by
  refine ⟨fun prompt => readHead_bounded prompt limit c, fun x holds => ?_⟩
  obtain ⟨b, y, rfl, blank, filled⟩ := exists_filled x
  have longest := longestBlank blank filled
  by_cases found : ∃ h, ShortestHead h y ∧ b.length + h.length ≤ limit
  · obtain ⟨h, shortest, fits⟩ := found
    obtain ⟨isHead, front⟩ := (shortestHead_iff filled).mp shortest
    obtain ⟨z, rfl⟩ := front
    obtain ⟨blanks, each, rfl⟩ := blank
    have within : (blanks.flatten ++ h).length ≤ limit := by rwa [List.length_append]
    obtain ⟨r', read, holds'⟩ := readHead_whole each isHead within holds c
    refine ⟨_, _, _, r', _, rfl, longest, read, ?_, .head shortest fits⟩
    rw [Reader.Takes, holds.ahead, holds'.ahead]
    simp only [List.append_assoc]
  · have without : ∀ h, ShortestHead h y → limit < b.length + h.length :=
      fun h shortest => Nat.lt_of_not_le fun fits => found ⟨h, shortest, fits⟩
    have notBegins : ¬ Begins limit (b ++ y) := fun begins =>
      found ((begins_iff blank filled).mp begins)
    obtain ⟨large, cut⟩ := readHead_without notBegins holds c
    rcases Nat.lt_or_ge (b ++ y).length limit with short | full
    · by_cases none : y = []
      · subst none
        rw [List.append_nil] at short holds longest
        obtain ⟨r', read⟩ := (readHead_blank blank short holds (.inl rfl) c).1 rfl
        refine ⟨b, [], _, r', _, rfl, by rwa [List.append_nil], read, ?_, .none rfl short⟩
        exact (taken_of_holds holds read).2 (.inl rfl)
      · have begun : ¬ Blank (b ++ y) := fun all => by
          obtain ⟨line, rest, same, isLine⟩ := (blank.of_append all).first none
          exact filled line rest same isLine
        obtain ⟨r', read⟩ := cut short (.inl rfl) begun
        exact ⟨b, y, _, r', _, rfl, longest, read, (taken_of_holds holds read).2 (.inr rfl),
          .cut without none short⟩
    · obtain ⟨r', read⟩ := large full
      exact ⟨b, y, _, r', _, rfl, longest, read, (taken_of_holds holds read).1 rfl,
        .tooLarge without full⟩

/-- A blank line and a head, in segments that cut both and behind a buffer for one byte: they fill
the limit, or they are one byte too many for it. -/
theorem readHead_extent_full :
    let x : Bytes := [10, 65, 10, 13, 10, 66]
    let r : Reader :=
      { arrivals := [.bytes [10, 65], .bytes [10, 13], .bytes [10, 66]], capacity := 1 }
    let c : Clock := { limit := 0 }
    let answer (limit : Nat) (out : Outcome WireError (Option Bytes)) : Prop :=
      ∃ b y r' taken, x = b ++ y ∧ LongestBlank b x ∧ readHead limit r c = (out, r', c) ∧
        r.Takes taken r' ∧ Extent limit b y out taken
    r.Holds x [] ∧ answer 5 (.ok (some [65, 10, 13, 10])) ∧
      answer 4 (.error (.head (.tooLarge 4))) := by
  intro x r c answer
  have holds : r.Holds x [] :=
    Reader.holds_segments Nat.one_pos [[10, 65], [10, 13], [10, 66]] []
  have told (limit : Nat) {out} (same : (readHead limit r c).1 = out) : answer limit out := by
    obtain ⟨b, y, out', r', taken, split, longest, read, takes, extent⟩ :=
      (readHead_extent limit r c).2 x holds
    obtain rfl : out' = out := by rw [← same, read]
    exact ⟨b, y, r', taken, split, longest, read, takes, extent⟩
  exact ⟨holds, told 5 (by decide), told 4 (by decide)⟩

end Wire

end HttpExchange
