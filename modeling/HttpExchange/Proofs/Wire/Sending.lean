import HttpExchange.Wire.Head
import HttpExchange.Wire.Writer

/-!
What a writer puts on the wire. Whatever its rule says, the bytes of a write that fails are a
beginning of those it was given; a writer whose rule stands in no one's way takes all of them.
-/

namespace HttpExchange

theorem Bytes.flatten_prefix {first second : List Bytes} (part : first <+: second) :
    first.flatten <+: second.flatten := by
  obtain ⟨rest, rfl⟩ := part
  rw [List.flatten_append]
  exact List.prefix_append _ _

/-- The later writer went on from the earlier one by putting these bytes on the wire. -/
structure Writer.Wrote (w w' : Writer) (part : Bytes) : Prop where
  output : w'.output = w.output ++ part
  pulls : w'.count .pulled = w.count .pulled
  rule : w'.rule = w.rule

/-- The later writer went on from the earlier one by these writes alone. -/
structure Writer.Grew (w w' : Writer) (parts : List Bytes) : Prop where
  events : w'.events = w.events ++ parts.map .wrote
  rule : w'.rule = w.rule

/-- Nothing that the rule holds against a write ever applies: it only cuts what is written into
pieces, where its gates stand and where a piece would be too long. -/
structure WriteRule.Open (rule : WriteRule) : Prop where
  most : rule.most ≠ some 0
  failAt : rule.failAt = none
  zeroAt : rule.zeroAt = none
  failFlush : rule.failFlush = []
  stall : rule.stall = none
  gates : ∀ gate ∈ rule.gates, gate.2 = some 0
  flushGates : rule.flushGates = []

theorem WriteRule.open_default : ({} : WriteRule).Open := ⟨nofun, rfl, rfl, rfl, rfl, nofun, rfl⟩

namespace Writer

variable {w w' w'' : Writer} {b : Bytes} {c c' : Clock}

namespace Wrote

theorem refl (w : Writer) : Wrote w w [] := ⟨(List.append_nil _).symm, rfl, rfl⟩

theorem trans {first second : Bytes} (one : Wrote w w' first) (two : Wrote w' w'' second) :
    Wrote w w'' (first ++ second) := by
  refine ⟨?_, two.pulls.trans one.pulls, two.rule.trans one.rule⟩
  rw [two.output, one.output, List.append_assoc]

end Wrote

theorem output_cons (w : Writer) (e : WireEvent) :
    ({ w with trace := e :: w.trace } : Writer).output = w.output ++ bytesOf [e] := by
  rw [output, events, List.reverse_cons, bytesOf, List.flatMap_append]
  rfl

theorem events_cons (w : Writer) (e : WireEvent) (taken : Nat) :
    ({ w with taken, trace := e :: w.trace } : Writer).events = w.events ++ [e] := List.reverse_cons

theorem count_eq (w : Writer) (e : WireEvent) : w.count e = w.events.count e :=
  List.count_reverse.symm

theorem bytesOf_append (first second : List WireEvent) :
    bytesOf (first ++ second) = bytesOf first ++ bytesOf second := List.flatMap_append

theorem bytesOf_wrote (parts : List Bytes) : bytesOf (parts.map .wrote) = parts.flatten := by
  rw [bytesOf, List.flatMap_map]
  exact List.flatMap_id

namespace Grew

theorem refl (w : Writer) : Grew w w [] := ⟨(List.append_nil _).symm, rfl⟩

theorem trans {first second : List Bytes} (one : Grew w w' first) (two : Grew w' w'' second) :
    Grew w w'' (first ++ second) := by
  refine ⟨?_, two.rule.trans one.rule⟩
  rw [two.events, one.events, List.map_append, List.append_assoc]

theorem wrote {parts : List Bytes} (grew : Grew w w' parts) : Wrote w w' parts.flatten := by
  refine ⟨?_, ?_, grew.rule⟩
  · rw [output, grew.events, bytesOf_append, bytesOf_wrote, ← output]
  · have other : WireEvent.pulled ∉ parts.map WireEvent.wrote := by
      intro member
      obtain ⟨_, _, same⟩ := List.mem_map.mp member
      cases same
    rw [count_eq, count_eq, grew.events, List.count_append,
      List.count_eq_zero_of_not_mem other, Nat.add_zero]

end Grew

theorem wrote_note (w : Writer) {e : WireEvent} (silent : bytesOf [e] = [])
    (other : e ≠ .pulled) : Wrote w (w.note e) [] := by
  refine ⟨?_, List.count_cons_of_ne other, rfl⟩
  rw [note, output_cons, silent]

theorem output_notePull (w : Writer) : (w.note .pulled).output = w.output := by
  rw [note, output_cons]
  exact List.append_nil _

/-- A wait leaves everything but its own end as it was. -/
theorem pause_writer {awake : Bool} (eq : w.pause c = (awake, w', c')) :
    ∃ stallEnd, w' = { w with stallEnd } := by
  unfold pause at eq
  split at eq
  · split at eq
    · cases eq
      exact ⟨_, rfl⟩
    · cases eq
      exact ⟨w.stallEnd, rfl⟩
  · cases eq
    exact ⟨w.stallEnd, rfl⟩

theorem grew_pause {awake : Bool} (eq : w.pause c = (awake, w', c')) : Grew w w' [] := by
  obtain ⟨stallEnd, rfl⟩ := pause_writer eq
  exact ⟨(List.append_nil _).symm, rfl⟩

theorem prefix_of_take_getD (limit : Option Nat) (b : Bytes) : (limit.map b.take).getD b <+: b := by
  cases limit with
  | none => exact List.prefix_refl b
  | some n => exact List.take_prefix n b

theorem accepted_prefix (w : Writer) (room : Option Nat) (b : Bytes) : w.accepted room b <+: b := by
  have first := prefix_of_take_getD w.rule.most b
  have second := (prefix_of_take_getD room _).trans first
  have later : ∀ {α : Type} {x : Bytes} (limit : Option α) (position : α → Nat), x <+: b →
      (limit.map fun limit => x.take (position limit - w.taken)).getD x <+: b := by
    intro α x limit position part
    cases limit with
    | none => exact part
    | some limit => exact (List.take_prefix _ x).trans part
  exact later w.rule.zeroAt id (later w.rule.failAt Prod.fst second)

theorem grew_write {out : Outcome IoFault Bytes} (eq : w.write b c = (out, w', c')) :
    ∃ parts, parts.flatten <+: b ∧ Grew w w' parts ∧ ∀ x, out = .ok x → x = parts.flatten := by
  unfold write at eq
  split at eq
  · next paused =>
      cases eq
      exact ⟨[], List.nil_prefix, grew_pause paused, nofun⟩
  · next w₁ _ paused =>
      have waited := grew_pause paused
      split at eq
      · cases eq
        exact ⟨[], List.nil_prefix, waited, nofun⟩
      · split at eq
        · cases eq
          exact ⟨[], List.nil_prefix, waited, nofun⟩
        · next room _ _ =>
            simp only at eq
            split at eq
            · cases eq
              exact ⟨[], List.nil_prefix, waited, fun x same => by cases same; rfl⟩
            · cases eq
              refine ⟨[w₁.accepted room b], ?_, ?_, ?_⟩
              · rw [List.flatten_singleton]
                exact accepted_prefix w₁ room b
              · exact waited.trans ⟨events_cons w₁ _ _, rfl⟩
              · intro x same
                cases same
                exact List.flatten_singleton.symm

theorem grew_writeAll {out : Outcome IoFault Unit} (eq : w.writeAll b c = (out, w', c')) :
    ∃ parts, parts.flatten <+: b ∧ Grew w w' parts ∧ (out = .ok () → parts.flatten = b) := by
  fun_induction writeAll b w c with
  | case1 b w c none =>
      cases eq
      rw [List.isEmpty_iff] at none
      exact ⟨[], List.nil_prefix, .refl _, fun _ => none.symm⟩
  | case2 b w c _ x w₁ c₁ written none =>
      cases eq
      obtain ⟨parts, beginning, grew, _⟩ := grew_write written
      exact ⟨parts, beginning, grew, nofun⟩
  | case3 b w c _ x w₁ c₁ written some ih =>
      obtain ⟨parts, ⟨rest, rfl⟩, grew, told⟩ := grew_write written
      cases told x rfl
      rw [List.drop_left] at ih eq
      obtain ⟨parts₂, beginning, grew₂, whole⟩ := ih eq
      refine ⟨parts ++ parts₂, ?_, grew.trans grew₂, ?_⟩
      · rw [List.flatten_append]
        exact (List.prefix_append_right_inj _).mpr beginning
      · intro ended
        rw [List.flatten_append, whole ended]
  | case4 b w c _ e w₁ c₁ written =>
      cases eq
      obtain ⟨parts, beginning, grew, _⟩ := grew_write written
      exact ⟨parts, beginning, grew, nofun⟩
  | case5 b w c _ w₁ c₁ written =>
      cases eq
      obtain ⟨parts, beginning, grew, _⟩ := grew_write written
      exact ⟨parts, beginning, grew, nofun⟩

theorem wrote_write {out : Outcome IoFault Bytes} (eq : w.write b c = (out, w', c')) :
    ∃ part, part <+: b ∧ Wrote w w' part ∧ ∀ x, out = .ok x → x = part := by
  obtain ⟨parts, beginning, grew, told⟩ := grew_write eq
  exact ⟨parts.flatten, beginning, grew.wrote, told⟩

theorem wrote_writeAll {out : Outcome IoFault Unit} (eq : w.writeAll b c = (out, w', c')) :
    ∃ part, part <+: b ∧ Wrote w w' part ∧ (out = .ok () → part = b) := by
  obtain ⟨parts, beginning, grew, whole⟩ := grew_writeAll eq
  exact ⟨parts.flatten, beginning, grew.wrote, whole⟩

theorem wrote_flush {out : Outcome IoFault Unit} (eq : w.flush c = (out, w', c')) :
    Wrote w w' [] := by
  have noted := wrote_note w (show bytesOf [.flushed] = [] from rfl) (by decide)
  unfold flush at eq
  simp only at eq
  split at eq
  · cases eq
    exact .refl w
  · split at eq <;> cases eq <;> exact noted

theorem wrote_shutdown {out : Except IoFault Unit} (eq : w.shutdown = (out, w')) :
    Wrote w w' [] := by
  cases eq
  exact wrote_note w rfl (by decide)

theorem wrote_writeHead {out : Outcome WireError Unit} (eq : Wire.writeHead b w c = (out, w', c')) :
    (∃ part, part <+: b ∧ Wrote w w' part ∧ (out = .ok () → part = b)) ∧
      ∀ e, out = .error e → ∃ fault, e = .io fault := by
  unfold Wire.writeHead at eq
  split at eq
  · next w₁ c₁ written =>
      obtain ⟨part, beginning, wrote, whole⟩ := wrote_writeAll written
      rcases flushed : w₁.flush c₁ with ⟨out₁, w₂, c₂⟩
      simp only [flushed] at eq
      cases eq
      refine ⟨⟨part, beginning, ?_, fun _ => whole rfl⟩, ?_⟩
      · have passed := wrote.trans (wrote_flush flushed)
        rwa [List.append_nil] at passed
      · intro e failed
        cases out₁ with
        | ok _ => cases failed
        | error fault =>
            cases failed
            exact ⟨fault, rfl⟩
        | stuck => cases failed
  · next fault _ _ written =>
      obtain ⟨part, beginning, wrote, _⟩ := wrote_writeAll written
      cases eq
      refine ⟨⟨part, beginning, wrote, nofun⟩, ?_⟩
      intro e failed
      cases failed
      exact ⟨fault, rfl⟩
  · next written =>
      obtain ⟨part, beginning, wrote, _⟩ := wrote_writeAll written
      cases eq
      exact ⟨⟨part, beginning, wrote, nofun⟩, nofun⟩

theorem passGates_open (taken : Nat) {gates : List (Nat × Option Nat)}
    (opened : ∀ gate ∈ gates, gate.2 = some 0) (c : Clock) :
    ∃ room, passGates taken gates c = (true, room, c) ∧ room ≠ some 0 := by
  induction gates with
  | nil => exact ⟨none, rfl, nofun⟩
  | cons gate gates ih =>
      obtain ⟨position, moment⟩ := gate
      obtain rfl : moment = some 0 := opened _ List.mem_cons_self
      by_cases before : taken < position
      · refine ⟨some (position - taken), ?_, ?_⟩
        · rw [passGates, if_pos before]
        · intro none
          have := Option.some.inj none
          omega
      · obtain ⟨room, passed, some⟩ :=
          ih fun gate member => opened gate (List.mem_cons_of_mem _ member)
        refine ⟨room, ?_, some⟩
        have waited : c.waitUntil 0 = (true, c) := by
          rw [Clock.waitUntil, if_pos (Nat.zero_le _), Nat.max_eq_left (Nat.zero_le _)]
        rw [passGates, if_neg before]
        simp only [waited, passed]

theorem take_getD_ne_nil {limit : Option Nat} (room : limit ≠ some 0) (some : b ≠ []) :
    (limit.map b.take).getD b ≠ [] := by
  cases limit with
  | none => exact some
  | some n =>
      cases n with
      | zero => exact absurd rfl room
      | succ n =>
          cases b with
          | nil => exact absurd rfl some
          | cons first more => exact List.cons_ne_nil first _

theorem write_open (opened : w.rule.Open) (some : b ≠ []) (c : Clock) :
    ∃ part w', w.write b c = (.ok part, w', c) ∧ part ≠ [] := by
  obtain ⟨room, passed, free⟩ := passGates_open w.taken opened.gates c
  have most := take_getD_ne_nil opened.most some
  have part : w.accepted room b ≠ [] := by
    unfold accepted
    rw [opened.failAt, opened.zeroAt]
    exact take_getD_ne_nil free most
  have awake : w.pause c = (true, w, c) := by rw [pause, opened.stall]
  have sound : w.failure? = none := by rw [failure?, opened.failAt]
  have nonempty : (w.accepted room b).isEmpty = false := List.isEmpty_eq_false_iff.mpr part
  refine ⟨w.accepted room b, { w with
    taken := w.taken + (w.accepted room b).length
    trace := .wrote (w.accepted room b) :: w.trace }, ?_, part⟩
  unfold write
  simp only [awake, sound, passed, nonempty, Bool.false_eq_true, if_false]

theorem writeAll_open (opened : w.rule.Open) (b : Bytes) (c : Clock) :
    ∃ w', w.writeAll b c = (.ok (), w', c) ∧ Wrote w w' b := by
  induction size : b.length using Nat.strongRecOn generalizing b w with
  | ind n ih =>
      subst size
      by_cases none : b = []
      · refine ⟨w, ?_, none ▸ .refl w⟩
        rw [writeAll, if_pos (List.isEmpty_iff.mpr none)]
      · obtain ⟨part, w₁, written, some⟩ := write_open opened none c
        obtain ⟨_, ⟨rest, rfl⟩, wrote, told⟩ := wrote_write written
        cases told part rfl
        have fewer : rest.length < (part ++ rest).length := by
          have := List.length_pos_iff.mpr some
          rw [List.length_append]
          omega
        have still : w₁.rule.Open := wrote.rule ▸ opened
        obtain ⟨w', later, wrote'⟩ := ih rest.length fewer still rest rfl
        refine ⟨w', ?_, wrote.trans wrote'⟩
        rw [writeAll, if_neg (by rwa [List.isEmpty_iff])]
        simp only [written, List.isEmpty_iff, if_neg some, List.drop_left, later]

theorem flush_open (opened : w.rule.Open) (c : Clock) :
    w.flush c = (.ok (), w.note .flushed, c) := by
  unfold flush
  simp only [opened.flushGates, opened.failFlush, List.lookup_nil, passFlushGate]

theorem writeHead_open (opened : w.rule.Open) (b : Bytes) (c : Clock) :
    ∃ w', Wire.writeHead b w c = (.ok (), w', c) ∧ Wrote w w' b := by
  obtain ⟨w₁, written, wrote⟩ := writeAll_open opened b c
  have still : w₁.rule.Open := wrote.rule ▸ opened
  refine ⟨w₁.note .flushed, ?_, ?_⟩
  · rw [Wire.writeHead, written]
    simp only [flush_open still]
    rfl
  · have passed := wrote.trans (wrote_note w₁ (show bytesOf [.flushed] = [] from rfl) (by decide))
    rwa [List.append_nil] at passed

/-- The later writer went on from the earlier one, and the sending direction was not closed. -/
def StaysOpen (w w' : Writer) : Prop := ∃ events, w'.events = w.events ++ events ∧ .shut ∉ events

/-- The later writer went on from the earlier one, and if the sending direction was closed, then
once, and behind all else. -/
def ClosesLast (w w' : Writer) : Prop :=
  ∃ events tail, w'.events = w.events ++ (events ++ tail) ∧ .shut ∉ events ∧
    (tail = [] ∨ tail = [.shut])

/-- The later writer went on from the earlier one, and the sending direction was closed once, behind
all else. -/
def Closes (w w' : Writer) : Prop :=
  ∃ events, w'.events = w.events ++ (events ++ [.shut]) ∧ .shut ∉ events

theorem StaysOpen.of_eq (same : w' = w) : StaysOpen w w' :=
  ⟨[], by rw [same, List.append_nil], List.not_mem_nil⟩

theorem StaysOpen.trans (one : StaysOpen w w') (two : StaysOpen w' w'') : StaysOpen w w'' := by
  obtain ⟨first, grew, open_⟩ := one
  obtain ⟨second, grew', open'⟩ := two
  refine ⟨first ++ second, by rw [grew', grew, List.append_assoc], ?_⟩
  rw [List.mem_append]
  exact fun member => member.elim open_ open'

theorem StaysOpen.closes (open_ : StaysOpen w w') (shut : w''.events = w'.events ++ [.shut]) :
    Closes w w'' := by
  obtain ⟨events, grew, unshut⟩ := open_
  exact ⟨events, by rw [shut, grew, List.append_assoc], unshut⟩

theorem StaysOpen.behind (one : StaysOpen w w') (two : ClosesLast w' w'') : ClosesLast w w'' := by
  obtain ⟨first, grew, open_⟩ := one
  obtain ⟨second, tail, grew', open', last⟩ := two
  refine ⟨first ++ second, tail, by rw [grew', grew]; simp only [List.append_assoc], ?_, last⟩
  rw [List.mem_append]
  exact fun member => member.elim open_ open'

theorem StaysOpen.closesLast (open_ : StaysOpen w w') : ClosesLast w w' := by
  obtain ⟨events, grew, unshut⟩ := open_
  exact ⟨events, [], by rw [grew, List.append_nil], unshut, .inl rfl⟩

end Writer

end HttpExchange
