import HttpExchange.Proofs.Body.Pulling
import HttpExchange.Proofs.Body.Standing

/-!
Reading on demand. A decoder takes off the input what the pieces go up to that it was asked for, and
not one byte more: behind a piece stand the line end of its chunk and the next size, still unread. How
long a piece is follows from what its chunk or body has left and from the bound, however the input is
cut and buffered.
-/

namespace HttpExchange

open Chunk (IsLine IsSize)

/-- The bytes of a body up to the last byte of these pieces, and what is then left of the chunk or
body that this piece belongs to. A piece is as long as that and the bound allow. -/
inductive Framing.Delivers (most : Nat) :
    Framing → (x : Bytes) → (pieces : List Bytes) → (left : Nat) → Prop where
  | start (f : Framing) : Delivers most f [] [] (f.declared?.getD 0)
  | more {f : Framing} {x b : Bytes} {pieces : List Bytes} {left : Nat}
      (delivers : Delivers most f x pieces left) (some : b ≠ []) (full : b.length = min left most) :
      Delivers most f (x ++ b) (pieces ++ [b]) (left - b.length)
  /-- The first piece of the first chunk stands behind the size of this. -/
  | first {line b : Bytes} {size : Nat} (sized : IsSize size line) (some : b ≠ [])
      (full : b.length = min size most) : Delivers most .chunked (line ++ b) [b] (size - b.length)
  /-- That of another chunk stands behind the line end of the one before, too. -/
  | next {x ending line b : Bytes} {pieces : List Bytes} {size : Nat}
      (delivers : Delivers most .chunked x pieces 0) (begun : pieces ≠ [])
      (blank : IsLine [] ending) (sized : IsSize size line) (some : b ≠ [])
      (full : b.length = min size most) :
      Delivers most .chunked (x ++ (ending ++ (line ++ b))) (pieces ++ [b]) (size - b.length)

namespace Decoder

open Framing (Delivers)

def behind : Framing → (pieces : List Bytes) → (left : Nat) → DecoderState
  | .empty, _, _ => .done
  | .length _, _, left => .length left
  | .chunked, [], _ => .size
  | .chunked, _ :: _, left => inChunk left
  | .untilClose, _, _ => .untilClose

theorem state_start (f : Framing) (bound : Nat) :
    (start f bound).state = behind f [] (f.declared?.getD 0) := by
  cases f <;> rfl

theorem behind_chunked {pieces : List Bytes} (begun : pieces ≠ []) (left : Nat) :
    behind .chunked pieces left = inChunk left := by
  cases pieces with
  | nil => exact absurd rfl begun
  | cons b pieces => rfl

theorem behind_concat (pieces : List Bytes) (b : Bytes) (left : Nat) :
    behind .chunked (pieces ++ [b]) left = inChunk left :=
  behind_chunked (List.append_ne_nil_of_right_ne_nil pieces (List.cons_ne_nil b [])) left

variable {f : Framing} {x y b line : Bytes} {pieces : List Bytes} {d d' : Decoder}
  {state state' : DecoderState} {bound left size n : Nat} {r r' : Reader} {tail : List Arrival}
  {c c' : Clock} {out : Outcome WireError Piece}

theorem takes_counted {at_ : Nat → DecoderState} (counts : CountsDown at_)
    (eq : advance (at_ (left + 1)) bound r c = (given b, state', r', c')) :
    r.Takes b r' ∧ b.length = min (left + 1) bound ∧ state' = at_ (left + 1 - b.length) := by
  rw [counts] at eq
  rcases read : readData (left + 1) bound r c with ⟨got | e | _, r₁, c₁⟩
  all_goals rw [read] at eq
  · obtain ⟨b, taken, same, _⟩ := readData_takes read
    cases eq
    obtain ⟨rfl, size⟩ := same _ rfl
    exact ⟨taken, size, rfl⟩
  · cases eq
  · cases eq

theorem not_given_trailers (eq : advance .trailers bound r c = (given b, state', r', c')) :
    False := by
  induction weight : r.weight using Nat.strongRecOn generalizing r c with
  | ind n ih =>
      subst weight
      rw [advance_atLine (.inr (.inr rfl))] at eq
      rcases read : readLine r c with ⟨text | e | _, r₁, c₁⟩
      all_goals rw [read] at eq
      · simp only [afterLine] at eq
        split at eq
        · cases eq
        · exact ih r₁.weight ((weight_readLine read).2 text rfl) eq rfl
      · cases eq
      · cases eq

theorem takes_size (eq : advance .size bound r c = (given b, state', r', c')) :
    ∃ line size, IsSize size line ∧ 0 < size ∧ r.Takes (line ++ b) r' ∧
      b.length = min size bound ∧ state' = inChunk (size - b.length) := by
  rw [advance_atLine (.inl rfl)] at eq
  rcases read : readLine r c with ⟨text | e | _, r₁, c₁⟩
  all_goals rw [read] at eq
  · obtain ⟨line, taken, isLine, _⟩ := readLine_takes read
    cases parsed : Chunk.parseSize text with
    | error fault =>
        simp only [afterLine, parsed] at eq
        cases eq
    | ok size =>
        cases size with
        | zero =>
            simp only [afterLine, parsed] at eq
            exact (not_given_trailers eq).elim
        | succ more =>
            simp only [afterLine, parsed] at eq
            obtain ⟨takes, full, same⟩ := takes_counted inChunk_countsDown eq
            exact ⟨line, more + 1, ⟨text, isLine text rfl, parsed⟩, more.succ_pos,
              taken.trans takes, full, same⟩
  · cases eq
  · cases eq

theorem takes_dataEnd (eq : advance .dataEnd bound r c = (given b, state', r', c')) :
    ∃ ending line size, IsLine [] ending ∧ IsSize size line ∧ 0 < size ∧
      r.Takes (ending ++ (line ++ b)) r' ∧ b.length = min size bound ∧
      state' = inChunk (size - b.length) := by
  rw [advance_atLine (.inr (.inl rfl))] at eq
  rcases read : readLine r c with ⟨text | e | _, r₁, c₁⟩
  all_goals rw [read] at eq
  · obtain ⟨ending, taken, isLine, _⟩ := readLine_takes read
    simp only [afterLine] at eq
    split at eq
    · next blank =>
        obtain ⟨line, size, sized, pos, takes, full, same⟩ := takes_size eq
        rw [List.isEmpty_iff.mp blank] at isLine
        exact ⟨ending, line, size, isLine [] rfl, sized, pos, taken.trans takes, full, same⟩
    · cases eq
  · cases eq
  · cases eq

theorem eq_nil_of_delivers (delivers : Delivers bound f x pieces left) (none : pieces = []) :
    x = [] ∧ left = f.declared?.getD 0 := by
  cases delivers with
  | start => exact ⟨rfl, rfl⟩
  | more | next => exact absurd none (List.append_ne_nil_of_right_ne_nil _ (List.cons_ne_nil _ _))
  | first => exact absurd none (List.cons_ne_nil _ _)

/-- One more piece takes what goes up to its last byte. -/
theorem advance_delivers (own : f ≠ .untilClose) (room : 0 < bound)
    (delivers : Delivers bound f x pieces left)
    (eq : advance (behind f pieces left) bound r c = (given b, state', r', c')) :
    ∃ y left', r.Takes y r' ∧ Delivers bound f (x ++ y) (pieces ++ [b]) left' ∧
      state' = behind f (pieces ++ [b]) left' := by
  have filled {size} (pos : 0 < size) (full : b.length = min size bound) : b ≠ [] :=
    List.length_pos_iff.mp (by omega)
  cases f with
  | empty =>
      rw [behind, advance] at eq
      cases eq
  | untilClose => exact absurd rfl own
  | length n =>
      cases left with
      | zero =>
          rw [behind, advance] at eq
          cases eq
      | succ left =>
          obtain ⟨takes, full, same⟩ := takes_counted length_countsDown eq
          exact ⟨b, _, takes, delivers.more (filled left.succ_pos full) full, same⟩
  | chunked =>
      by_cases none : pieces = []
      · rw [(eq_nil_of_delivers delivers none).1]
        subst none
        obtain ⟨line, size, sized, pos, takes, full, same⟩ := takes_size eq
        exact ⟨line ++ b, _, takes, .first sized (filled pos full) full, same⟩
      · rw [behind_chunked none] at eq
        cases left with
        | zero =>
            obtain ⟨ending, line, size, blank, sized, pos, takes, full, same⟩ := takes_dataEnd eq
            exact ⟨_, _, takes, delivers.next none blank sized (filled pos full) full,
              same.trans (behind_concat pieces b _).symm⟩
        | succ left =>
            obtain ⟨takes, full, same⟩ := takes_counted inChunk_countsDown eq
            exact ⟨b, _, takes, delivers.more (filled left.succ_pos full) full,
              same.trans (behind_concat pieces b _).symm⟩

theorem advance_counted {at_ : Nat → DecoderState} (counts : CountsDown at_) (some : b ≠ [])
    (full : b.length = min left bound) (holds : r.Holds (b ++ y) tail) (c : Clock) :
    ∃ r', advance (at_ left) bound r c = (given b, at_ (left - b.length), r', c) ∧
      r'.Holds y tail := by
  obtain ⟨more, rfl⟩ : ∃ n, left = n + 1 :=
    ⟨left - 1, by have := List.length_pos_iff.mpr some; omega⟩
  obtain ⟨r', read, holds'⟩ := readData_holds full.symm holds c
  refine ⟨r', ?_, holds'⟩
  rw [counts, read]
  rfl

theorem advance_sized (sized : IsSize size line) (some : b ≠ []) (full : b.length = min size bound)
    (holds : r.Holds (line ++ (b ++ y)) tail) (c : Clock) :
    ∃ r', advance .size bound r c = (given b, inChunk (size - b.length), r', c) ∧
      r'.Holds y tail := by
  obtain ⟨text, isLine, parsed⟩ := sized
  obtain ⟨more, rfl⟩ : ∃ n, size = n + 1 :=
    ⟨size - 1, by have := List.length_pos_iff.mpr some; omega⟩
  obtain ⟨r₁, read, holds₁⟩ := readLine_line isLine holds c
  obtain ⟨r', answer, holds'⟩ := advance_counted inChunk_countsDown some full holds₁ c
  exact ⟨r', (advance_size read parsed).trans answer, holds'⟩

theorem next_of_advance (step : advance d.state (max 1 d.bound) r c = (given b, state, r', c')) :
    d.next r c = (given b, { d with state }, r', c') := by
  rw [next, step]
  rfl

theorem advance_of_next (read : d.next r c = (given b, d', r', c')) :
    ∃ state, advance d.state (max 1 d.bound) r c = (given b, state, r', c') ∧
      d' = { d with state } := by
  rcases step : advance d.state (max 1 d.bound) r c with ⟨(got | _) | e | _, state, r₁, c₁⟩
  all_goals
    rw [next, step] at read
    cases read
  exact ⟨state, rfl, rfl⟩

theorem pulls_concat (d : Decoder) (n : Nat) (r : Reader) (c : Clock) :
    let p := d.pulls n r c
    let q := d.pulls (n + 1) r c
    ∃ out, p.decoder.next p.reader p.clock = (out, q.decoder, q.reader, q.clock) ∧
      q.answers = p.answers ++ [out] := by
  induction n generalizing d r c with
  | zero =>
      rcases read : d.next r c with ⟨out, d', r', c'⟩
      rw [pulls_succ read]
      exact ⟨out, read, rfl⟩
  | succ n ih =>
      rcases read : d.next r c with ⟨first, d', r', c'⟩
      obtain ⟨out, last, all⟩ := ih d' r' c'
      rw [pulls_succ read, pulls_succ read (n + 1)]
      exact ⟨out, last, congrArg (first :: ·) all⟩

/-- Behind a number of pieces a decoder has taken what goes up to the last of them. -/
theorem pulls_delivers (own : f ≠ .untilClose) (bound n : Nat) (r : Reader) (c : Clock)
    (answers : ((start f bound).pulls n r c).answers = pieces.map given) :
    let p := (start f bound).pulls n r c
    ∃ x left, r.Takes x p.reader ∧ Delivers (max 1 bound) f x pieces left ∧
      p.decoder = { start f bound with state := behind f pieces left } := by
  induction n generalizing pieces with
  | zero =>
      obtain rfl := List.map_eq_nil_iff.mp answers.symm
      exact ⟨[], _, .refl r, .start f, by rw [← state_start f bound]; rfl⟩
  | succ n ih =>
      obtain ⟨out, last, all⟩ := pulls_concat (start f bound) n r c
      rcases List.eq_nil_or_concat' pieces with rfl | ⟨before, b, rfl⟩
      · rw [all] at answers
        exact absurd answers (List.append_ne_nil_of_right_ne_nil _ (List.cons_ne_nil _ _))
      · rw [all, List.map_append] at answers
        obtain ⟨earlier, same⟩ := List.append_inj' answers rfl
        obtain rfl : out = given b := List.singleton_inj.mp same
        obtain ⟨x, left, taken, delivers, place⟩ := ih earlier
        obtain ⟨state, step, decoder⟩ := advance_of_next last
        rw [place] at step decoder
        obtain ⟨y, left', takes, delivers', rfl⟩ :=
          advance_delivers own (by omega) delivers step
        exact ⟨x ++ y, left', taken.trans takes, delivers', decoder⟩

theorem pulls_onward {p : Pulled} (pulled : d.pulls n r c = p)
    (answers : p.answers = pieces.map given)
    (step : advance p.decoder.state (max 1 p.decoder.bound) p.reader p.clock =
      (given b, state, r', c')) :
    let q := d.pulls (n + 1) r c
    q.answers = (pieces ++ [b]).map given ∧ q.reader = r' ∧
      q.decoder = { p.decoder with state } := by
  intro q
  obtain ⟨out, last, all⟩ := pulls_concat d n r c
  rw [pulled] at last all
  have same := (next_of_advance step).symm.trans last
  simp only [Prod.mk.injEq] at same
  obtain ⟨rfl, decoder, reader, _⟩ := same
  refine ⟨?_, reader.symm, decoder.symm⟩
  rw [all, answers, List.map_append]
  rfl

/-- What has more left in the same chunk or body only counts it down. -/
theorem counts_of_delivers (delivers : Delivers bound f x pieces left) (some : 0 < left) :
    ∃ at_, CountsDown at_ ∧ behind f pieces left = at_ left ∧
      ∀ b left', behind f (pieces ++ [b]) left' = at_ left' := by
  have uncounted (none : f.declared?.getD 0 = 0) (plain : f ≠ .chunked) : left = 0 := by
    induction delivers with
    | start => exact none
    | more _ _ _ ih => rw [ih (by omega) none plain, Nat.zero_sub]
    | first | next => exact absurd rfl plain
  cases f with
  | empty | untilClose => exact absurd (uncounted rfl nofun) (Nat.ne_of_gt some)
  | length n => exact ⟨_, length_countsDown, rfl, fun _ _ => rfl⟩
  | chunked =>
      have begun : pieces ≠ [] := fun none =>
        Nat.ne_of_gt some (eq_nil_of_delivers delivers none).2
      exact ⟨_, inChunk_countsDown, behind_chunked begun left, behind_concat pieces⟩

/-- In front of bytes that go up to a number of pieces, these are what the pulls give. -/
theorem pulls_of_delivers (delivers : Delivers (max 1 bound) f x pieces left)
    (holds : r.Holds (x ++ y) tail) (c : Clock) :
    let p := (start f bound).pulls pieces.length r c
    p.answers = pieces.map given ∧ p.reader.Holds y tail ∧
      p.decoder = { start f bound with state := behind f pieces left } := by
  induction delivers generalizing y with
  | start f => exact ⟨rfl, holds, by rw [← state_start f bound]; rfl⟩
  | @more f x b pieces left delivers some full ih =>
      rw [List.append_assoc] at holds
      obtain ⟨answers, holds₁, place⟩ := ih holds
      have pos : 0 < left := by have := List.length_pos_iff.mpr some; omega
      obtain ⟨at_, counts, here, onward⟩ := counts_of_delivers delivers pos
      obtain ⟨r', step, holds'⟩ := advance_counted counts some full holds₁ _
      rw [← here, ← onward b] at step
      obtain ⟨all, reader, decoder⟩ := pulls_onward (b := b) rfl answers (by rw [place]; exact step)
      rw [List.length_append, List.length_singleton]
      exact ⟨all, reader ▸ holds', by rw [decoder, place]⟩
  | @first line b size sized some full =>
      rw [List.append_assoc] at holds
      obtain ⟨r', step, holds'⟩ := advance_sized sized some full holds c
      have answers : ((start .chunked bound).pulls 0 r c).answers = [].map given := rfl
      obtain ⟨all, reader, decoder⟩ := pulls_onward rfl answers step
      exact ⟨all, reader ▸ holds', decoder⟩
  | @next x ending line b pieces size delivers begun blank sized some full ih =>
      simp only [List.append_assoc] at holds
      obtain ⟨answers, holds₁, place⟩ := ih holds
      obtain ⟨r₁, read, holds₂⟩ := readLine_line blank holds₁ _
      obtain ⟨r', step, holds'⟩ := advance_sized sized some full holds₂ _
      rw [← advance_dataEnd read, ← behind_concat pieces b] at step
      obtain ⟨all, reader, decoder⟩ :=
        pulls_onward (b := b) rfl answers (by rw [place, behind_chunked begun]; exact step)
      rw [List.length_append, List.length_singleton]
      exact ⟨all, reader ▸ holds', by rw [decoder, place]⟩

/-- The same input in front of two decoders brings the same pieces, as many as both were given. -/
theorem delivers_unique {x' : Bytes} {pieces' : List Bytes} {left' : Nat} {y' : Bytes}
    (one : Delivers (max 1 bound) f x pieces left)
    (other : Delivers (max 1 bound) f x' pieces' left') (many : pieces.length = pieces'.length)
    (input : x ++ y = x' ++ y') : pieces = pieces' ∧ y = y' := by
  -- pulls on any reader in front of this input give both
  have holds := Reader.holds_segment Nat.one_pos (x ++ y) []
  obtain ⟨answers, rest, _⟩ := pulls_of_delivers one holds { limit := 0 }
  rw [input] at holds
  obtain ⟨answers', rest', _⟩ := pulls_of_delivers other holds { limit := 0 }
  rw [← many, ← input] at answers' rest'
  have injective : Function.Injective given := fun _ _ same => by cases same; rfl
  exact ⟨injective.list_map (answers.symm.trans answers'), rest.unique rest'⟩

/-- Before its first pull a decoder has read nothing. Behind the pulls that gave a number of pieces it
has taken exactly what goes up to the last byte of them, and each is as long as what its chunk or body
had left and the bound allow; all later bytes are still ahead. The same input, however it is cut and
buffered, brings the same pieces and leaves the same bytes; and input that goes up to a number of
pieces brings them. -/
theorem pulls_demand (own : f ≠ .untilClose) (bound : Nat) (r : Reader) (c : Clock) :
    let p (n : Nat) := (start f bound).pulls n r c
    (p 0).reader = r ∧
      (∀ n pieces, (p n).answers = pieces.map given →
        (∃ x left, r.Takes x (p n).reader ∧ Delivers (max 1 bound) f x pieces left) ∧
        ∀ r' c' pieces', r'.ahead = r.ahead →
          ((start f bound).pulls n r' c').answers = pieces'.map given →
            pieces' = pieces ∧
              ((start f bound).pulls n r' c').reader.ahead = (p n).reader.ahead) ∧
      ∀ x pieces left y tail, Delivers (max 1 bound) f x pieces left → r.Holds (x ++ y) tail →
        (p pieces.length).answers = pieces.map given ∧ (p pieces.length).reader.Holds y tail := by
  refine ⟨rfl, fun n pieces answers => ?_, fun x pieces left y tail delivers holds => ?_⟩
  · obtain ⟨x, left, takes, delivers, _⟩ := pulls_delivers own bound n r c answers
    refine ⟨⟨x, left, takes, delivers⟩, fun r' c' pieces' same answers' => ?_⟩
    obtain ⟨x', left', takes', delivers', _⟩ := pulls_delivers own bound n r' c' answers'
    have count {pieces : List Bytes} {r c}
        (all : ((start f bound).pulls n r c).answers = pieces.map given) : pieces.length = n := by
      rw [← length_pulls (start f bound) n r c, all, List.length_map]
    exact delivers_unique delivers' delivers ((count answers').trans (count answers).symm)
      (takes'.symm.trans (same.trans takes))
  · obtain ⟨answers, rest, _⟩ := pulls_of_delivers delivers holds c
    exact ⟨answers, rest⟩

/-- A chunk that is longer than the bound and another one, for buffers of one byte and of seven. The
three pieces leave the line end of the second chunk unread. -/
theorem pulls_demand_split :
    let x : Bytes := [52, 13, 10, 97, 98, 99, 100, 13, 10, 49, 13, 10, 101]
    let y : Bytes := [13, 10, 48, 13, 10, 13, 10]
    let pieces : List Bytes := [[97, 98, 99], [100], [101]]
    let r : Reader := { arrivals := [.bytes (x ++ y)], capacity := 1 }
    let cut : Reader :=
      { arrivals := [.bytes (x.take 5), .fault ⟨.interrupted, "again"⟩, .bytes (x.drop 5 ++ y)],
        capacity := 7 }
    let p (r : Reader) := (start .chunked 3).pulls 3 r { limit := 0 }
    (∃ left, Delivers 3 .chunked x pieces left) ∧
      (p r).answers = pieces.map given ∧ (p r).reader.Holds y [] ∧
      (p cut).answers = pieces.map given ∧ (p cut).reader.ahead = y := by
  intro x y pieces r cut p
  obtain ⟨_, safe, complete⟩ := pulls_demand (f := .chunked) Framing.noConfusion 3 r { limit := 0 }
  have answers : (p r).answers = pieces.map given := by decide +kernel
  have answers' : (p cut).answers = pieces.map given := by decide +kernel
  have rest : (p r).reader.ahead = y := by decide +kernel
  obtain ⟨⟨x', left, takes, delivers⟩, alike⟩ := safe 3 pieces answers
  have whole : r.ahead = x' ++ (p r).reader.ahead := takes
  have same : x ++ y = x' ++ y := by
    rw [rest] at whole
    exact whole
  obtain rfl : x' = x := (List.append_cancel_right same).symm
  have holds : r.Holds (x ++ y) [] := Reader.holds_segment Nat.one_pos (x ++ y) []
  obtain ⟨_, stands⟩ := complete x pieces left y [] delivers holds
  exact ⟨⟨left, delivers⟩, answers, stands, answers',
    (alike cut _ pieces (by decide) answers').2.trans rest⟩

end Decoder

end HttpExchange
