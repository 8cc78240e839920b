import HttpExchange.Body.Delivery
import HttpExchange.Proofs.Wire.Sending

/-!
What a producer hands over. The two relations below follow its answers one by one and leave open
when it is asked and what was written in between; a third one also keeps to the time it is given.
-/

namespace HttpExchange

namespace Producer

inductive Supplies : Producer → Link → List Bytes → Prop where
  | none (p : Producer) (l : Link) : Supplies p l []
  | chunk {p p' : Producer} {l l' : Link} {b : Bytes} {bs : List Bytes} {permit : Bool}
      (clock : Clock) (writer : Writer)
      (asked : p.ask { l with clock, writer } = (.chunk b, p', permit, l'))
      (rest : Supplies p' l' bs) : Supplies p l (b :: bs)

/-- Asked again and again, the producer answers with these chunks and then with its end. -/
inductive Completes : Producer → Link → List Bytes → Prop where
  | ended {p p' : Producer} {l l' : Link} {permit : Bool} (clock : Clock) (writer : Writer)
      (asked : p.ask { l with clock, writer } = (.ended, p', permit, l')) : Completes p l []
  | chunk {p p' : Producer} {l l' : Link} {b : Bytes} {bs : List Bytes} {permit : Bool}
      (clock : Clock) (writer : Writer)
      (asked : p.ask { l with clock, writer } = (.chunk b, p', permit, l'))
      (rest : Completes p' l' bs) : Completes p l (b :: bs)

def askWithin (deadline : Option Nat) (p : Producer) (l : Link) : Pull × Producer × Bool × Link :=
  match deadline with
  | some moment => p.askBefore moment l
  | none => p.ask l

/-- Each time it is asked, the producer answers before patience ends: with these chunks, and then
with its end. It never asks for its own cancellation. -/
inductive Flows (patience : Patience) : Nat → Producer → Link → List Bytes → Prop where
  | ended {last : Nat} {p p' : Producer} {l l' : Link} {permit : Bool}
      (asked : p.askWithin (patience.deadline? last) l = (.ended, p', permit, l')) :
      Flows patience last p l []
  | chunk {last : Nat} {p p' : Producer} {l l' : Link} {b : Bytes} {bs : List Bytes}
      (asked : p.askWithin (patience.deadline? last) l = (.chunk b, p', false, l'))
      (rest : Flows patience l'.clock.now p' l' bs) : Flows patience last p l (b :: bs)

/-- The chunks are what a machine can hold: a length has at most 64 bits. -/
def Fits (p : Producer) (l : Link) : Prop :=
  ∀ bs, p.Supplies l bs → ∀ b ∈ bs, b.length < Numeral.bound64

variable {p p' : Producer} {l l' : Link} {b : Bytes} {bs : List Bytes} {permit permit' : Bool}
  {steps steps' : List Yield} {pull : Pull}

theorem Completes.supplies (completes : p.Completes l bs) : p.Supplies l bs := by
  induction completes with
  | ended clock writer asked => exact .none _ _
  | chunk clock writer asked rest ih => exact .chunk clock writer asked ih

theorem Supplies.behind {clock : Clock} {writer : Writer}
    (supplies : p.Supplies { l with clock, writer } bs) : p.Supplies l bs := by
  cases supplies with
  | none => exact .none p l
  | chunk clock writer asked rest => exact .chunk clock writer asked rest

theorem Completes.behind {clock : Clock} {writer : Writer}
    (completes : p.Completes { l with clock, writer } bs) : p.Completes l bs := by
  cases completes with
  | ended clock writer asked => exact .ended clock writer asked
  | chunk clock writer asked rest => exact .chunk clock writer asked rest

/-- A script notes each answer that is not its end. -/
def note (p : Producer) (pull : Pull) (w : Writer) : Writer :=
  match p, pull with
  | script _, .chunk _ | script _, .failed _ => w.note .pulled
  | _, _ => w

theorem output_note (p : Producer) (pull : Pull) (w : Writer) :
    (p.note pull w).output = w.output ∧ (p.note pull w).rule = w.rule := by
  have silent : (w.note .pulled).output = w.output ∧ (w.note .pulled).rule = w.rule :=
    ⟨Writer.output_notePull w, rfl⟩
  unfold note
  split
  · exact silent
  · exact silent
  · exact ⟨rfl, rfl⟩

theorem pullScript_pause (permit : Bool) (ms : Nat) (steps : List Yield) (l : Link) :
    pullScript permit (.pause ms :: steps) l =
      pullScript permit (.until (l.clock.now + ms) :: steps) l := by
  rw [pullScript, pullScript]

theorem pullScript_writer (first : List Yield) (w : Writer)
    (eq : pullScript permit steps l = (pull, steps', permit', l')) :
    pullScript permit steps { l with writer := w } =
        (pull, steps', permit', { l' with writer := note (script first) pull w }) ∧
      l'.writer = note (script first) pull l.writer := by
  induction steps generalizing permit l with
  | nil =>
      cases eq
      exact ⟨rfl, rfl⟩
  | cons step steps ih =>
      -- a pause is a wait for the moment at which it is over
      have wait : ∀ moment,
          pullScript permit (.until moment :: steps) l = (pull, steps', permit', l') →
          pullScript permit (.until moment :: steps) { l with writer := w } =
              (pull, steps', permit', { l' with writer := note (script first) pull w }) ∧
            l'.writer = note (script first) pull l.writer := by
        intro moment eq
        rw [pullScript] at eq ⊢
        cases permit with
        | true =>
            cases eq
            exact ⟨rfl, rfl⟩
        | false =>
            rcases waited : l.clock.waitUntil moment with ⟨awake, clock⟩
            simp only [Link.waitUntil, waited, Bool.false_eq_true, if_false] at eq ⊢
            cases awake with
            | true => exact ih eq
            | false =>
                cases eq
                exact ⟨rfl, rfl⟩
      cases step with
      | chunk b | raise text | panic text =>
          cases eq
          exact ⟨rfl, rfl⟩
      | cancel => exact ih eq
      | giveWay =>
          rw [pullScript] at eq ⊢
          cases permit with
          | true =>
              cases eq
              exact ⟨rfl, rfl⟩
          | false => exact ih eq
      | pause ms =>
          rw [pullScript_pause] at eq ⊢
          exact wait (l.clock.now + ms) eq
      | «until» moment => exact wait moment eq
      | silence =>
          rw [pullScript] at eq ⊢
          cases permit with
          | true =>
              cases eq
              exact ⟨rfl, rfl⟩
          | false =>
              cases eq
              exact ⟨rfl, rfl⟩

/-- What was written before makes no difference to an answer. -/
theorem ask_writer (w : Writer) (eq : p.ask l = (pull, p', permit, l')) :
    p.ask { l with writer := w } = (pull, p', permit, { l' with writer := p.note pull w }) ∧
      l'.writer = p.note pull l.writer := by
  cases p with
  | script steps =>
      rcases pulled : pullScript false steps l with ⟨pull₁, steps₁, permit₁, l₁⟩
      have framed := pullScript_writer steps w pulled
      rw [ask, pulled] at eq
      cases eq
      rw [ask, framed.1]
      exact ⟨rfl, framed.2⟩
  | known b =>
      cases eq
      exact ⟨rfl, rfl⟩
  | incoming =>
      rcases read : l.body.next l.reader l.clock with ⟨out, body, reader, clock⟩
      simp only [ask, Link.readPiece, read] at eq ⊢
      rcases out with piece | e | _
      · cases piece with
        | data b =>
            cases eq
            exact ⟨rfl, rfl⟩
        | ended =>
            cases eq
            exact ⟨rfl, rfl⟩
      · cases eq
        exact ⟨rfl, rfl⟩
      · cases eq
        exact ⟨rfl, rfl⟩

theorem askWithin_writer {deadline : Option Nat} (w : Writer)
    (eq : p.askWithin deadline l = (pull, p', permit, l')) :
    ∃ w', p.askWithin deadline { l with writer := w } =
        (pull, p', permit, { l' with writer := w' }) ∧
      (w'.output = w.output ∧ w'.rule = w.rule) := by
  cases deadline with
  | none => exact ⟨_, (ask_writer w eq).1, output_note p pull w⟩
  | some moment =>
      rw [askWithin, askBefore] at eq ⊢
      by_cases late : moment ≤ l.clock.now
      · rw [if_pos late] at eq
        rw [if_pos late]
        cases eq
        exact ⟨w, rfl, rfl, rfl⟩
      · rw [if_neg late] at eq
        rw [if_neg late]
        rcases asked : p.ask { l with clock := l.clock.within moment } with ⟨pull₁, p₁, permit₁, l₁⟩
        have framed := (ask_writer w asked).1
        rw [asked] at eq
        simp only [framed]
        cases pull₁ with
        | stuck =>
            by_cases early : moment ≤ l.clock.limit
            · simp only [if_pos early] at eq ⊢
              cases eq
              exact ⟨_, rfl, output_note p .stuck w⟩
            · simp only [if_neg early] at eq ⊢
              cases eq
              exact ⟨_, rfl, output_note p .stuck w⟩
        | chunk b | failed cause | ended | cancelled =>
            cases eq
            exact ⟨_, rfl, output_note p _ w⟩

theorem note_cancelled (p : Producer) (w : Writer) : p.note .cancelled w = w := by
  cases p <;> rfl

theorem note_stuck (p : Producer) (w : Writer) : p.note .stuck w = w := by
  cases p <;> rfl

theorem askWithin_note {deadline : Option Nat}
    (eq : p.askWithin deadline l = (pull, p', permit, l')) : l'.writer = p.note pull l.writer := by
  cases deadline with
  | none => exact (ask_writer l.writer eq).2
  | some moment =>
      rw [askWithin, askBefore] at eq
      split at eq
      · cases eq
        exact (note_cancelled p l.writer).symm
      · rcases asked : p.ask { l with clock := l.clock.within moment } with ⟨pull₁, p₁, permit₁, l₁⟩
        have noted : l₁.writer = p.note pull₁ l.writer := (ask_writer l.writer asked).2
        rw [asked] at eq
        cases pull₁ with
        | stuck =>
            simp only at eq
            split at eq
            · cases eq
              exact noted.trans ((note_stuck p _).trans (note_cancelled p _).symm)
            · cases eq
              exact noted
        | chunk b | failed cause | ended | cancelled =>
            cases eq
            exact noted

theorem ask_of_askWithin {deadline : Option Nat}
    (eq : p.askWithin deadline l = (pull, p', permit, l')) (own : pull ≠ .cancelled)
    (came : pull ≠ .stuck) :
    ∃ clock clock' l₁, p.ask { l with clock } = (pull, p', permit, l₁) ∧
      l' = { l₁ with clock := clock' } := by
  cases deadline with
  | none => exact ⟨l.clock, l'.clock, l', eq, rfl⟩
  | some moment =>
      rw [askWithin, askBefore] at eq
      split at eq
      · cases eq
        exact absurd rfl own
      · rcases asked : p.ask { l with clock := l.clock.within moment } with ⟨pull₁, p₁, permit₁, l₁⟩
        rw [asked] at eq
        cases pull₁ with
        | stuck =>
            simp only at eq
            split at eq
            · cases eq
              exact absurd rfl own
            · cases eq
              exact absurd rfl came
        | chunk b | failed cause | ended | cancelled =>
            cases eq
            exact ⟨_, _, l₁, asked, rfl⟩

theorem Flows.behind {patience : Patience} {last : Nat} (flows : p.Flows patience last l bs)
    (w : Writer) : p.Flows patience last { l with writer := w } bs := by
  induction flows generalizing w with
  | ended asked =>
      obtain ⟨w', asked', _⟩ := askWithin_writer w asked
      exact .ended asked'
  | chunk asked rest ih =>
      obtain ⟨w', asked', _⟩ := askWithin_writer w asked
      exact .chunk asked' (ih w')

theorem Flows.completes {patience : Patience} {last : Nat} (flows : p.Flows patience last l bs) :
    p.Completes l bs := by
  induction flows with
  | ended asked =>
      obtain ⟨clock, _, _, own, _⟩ := ask_of_askWithin asked nofun nofun
      exact .ended clock _ own
  | chunk asked rest ih =>
      obtain ⟨clock, clock', l₁, own, rfl⟩ := ask_of_askWithin asked nofun nofun
      exact .chunk clock _ own ih.behind

end Producer

namespace Yield

/-- The chunks of a script up to the first failure, or the first wait without an end. -/
def offered : List Yield → List Bytes
  | [] => []
  | .chunk b :: rest => b :: offered rest
  | .raise _ :: _ | .panic _ :: _ | .silence :: _ => []
  | .pause _ :: rest | .until _ :: rest | .giveWay :: rest | .cancel :: rest => offered rest

def isSound : List Yield → Bool
  | [] => true
  | .raise _ :: _ | .panic _ :: _ | .silence :: _ => false
  | .chunk _ :: rest | .pause _ :: rest | .until _ :: rest | .giveWay :: rest | .cancel :: rest =>
    isSound rest

/-- Whether a step neither fails nor takes time. -/
def isPrompt : Yield → Bool
  | .chunk _ | .giveWay => true
  | _ => false

end Yield

def Patience.Lasts (now : Nat) : Patience → Prop
  | endless => True
  | .until moment => now < moment
  | idle ms => 0 < ms

namespace Producer

variable {p p' : Producer} {l l' : Link} {b : Bytes} {bs : List Bytes} {permit permit' : Bool}
  {steps steps' : List Yield} {pull : Pull}

theorem offered_of_pullScript (eq : pullScript permit steps l = (pull, steps', permit', l')) :
    (∀ b, pull = .chunk b →
        Yield.offered steps = b :: Yield.offered steps' ∧
          Yield.isSound steps = Yield.isSound steps') ∧
      (pull = .ended → Yield.offered steps = [] ∧ Yield.isSound steps = true) := by
  fun_induction pullScript permit steps l
  case case1 =>
    cases eq
    constructor
    · intro b same
      cases same
    · intro _
      exact ⟨rfl, rfl⟩
  case case2 =>
    cases eq
    constructor
    · intro b same
      cases same
      exact ⟨rfl, rfl⟩
    · intro same
      cases same
  case case5 ih | case7 ih | case9 ih | case12 ih => exact ih eq
  all_goals
    cases eq
    constructor
    · intro b same
      cases same
    · intro same
      cases same

theorem ask_script (eq : (script steps).ask l = (pull, p', permit, l')) :
    ∃ steps', p' = script steps' ∧ pullScript false steps l = (pull, steps', permit, l') := by
  rcases pulled : pullScript false steps l with ⟨pull₁, steps₁, permit₁, l₁⟩
  rw [ask, pulled] at eq
  cases eq
  exact ⟨steps₁, rfl, rfl⟩

theorem supplies_script (supplies : (script steps).Supplies l bs) : bs <+: Yield.offered steps := by
  generalize scripted : script steps = p at supplies
  induction supplies generalizing steps with
  | none => exact List.nil_prefix
  | chunk clock writer asked rest ih =>
      subst scripted
      obtain ⟨steps', rfl, pulled⟩ := ask_script asked
      have offers := ((offered_of_pullScript pulled).1 _ rfl).1
      rw [offers, List.cons_prefix_cons]
      exact ⟨rfl, ih rfl⟩

theorem completes_script (completes : (script steps).Completes l bs) :
    bs = Yield.offered steps ∧ Yield.isSound steps = true := by
  generalize scripted : script steps = p at completes
  induction completes generalizing steps with
  | ended clock writer asked =>
      subst scripted
      obtain ⟨steps', _, pulled⟩ := ask_script asked
      have ends := (offered_of_pullScript pulled).2 rfl
      exact ⟨ends.1.symm, ends.2⟩
  | chunk clock writer asked rest ih =>
      subst scripted
      obtain ⟨steps', rfl, pulled⟩ := ask_script asked
      have offers := (offered_of_pullScript pulled).1 _ rfl
      have later := ih rfl
      rw [offers.1, offers.2, later.1]
      exact ⟨rfl, later.2⟩

theorem fits_script (small : ∀ b ∈ Yield.offered steps, b.length < Numeral.bound64) (l : Link) :
    (script steps).Fits l := by
  intro bs supplies b member
  exact small b ((supplies_script supplies).mem member)

theorem completes_known (b : Bytes) (l : Link) :
    (known b).Completes l (if b.isEmpty then [] else [b]) := by
  have ended : (script []).ask l = (.ended, script [], false, l) := rfl
  cases none : b.isEmpty with
  | true =>
      have asked : (known b).ask l = (.ended, script [], false, l) := by
        rw [ask, none]
        rfl
      exact .ended l.clock l.writer asked
  | false =>
      have asked : (known b).ask l = (.chunk b, script [], false, l) := by
        rw [ask, none]
        rfl
      exact .chunk l.clock l.writer asked (.ended l.clock l.writer ended)

theorem eq_of_completes_known (completes : (known b).Completes l bs) :
    bs = if b.isEmpty then [] else [b] := by
  cases completes with
  | ended clock writer asked =>
      rw [ask] at asked
      split at asked
      · next none => rw [if_pos none]
      · cases asked
  | chunk clock writer asked rest =>
      rw [ask] at asked
      split at asked
      · cases asked
      · next some =>
          cases asked
          rw [if_neg some, (completes_script rest).1]
          rfl

theorem supplies_known (supplies : (known b).Supplies l bs) :
    bs <+: if b.isEmpty then [] else [b] := by
  cases supplies with
  | none => exact List.nil_prefix
  | chunk clock writer asked rest =>
      rw [ask] at asked
      split at asked
      · cases asked
      · next some =>
          cases asked
          rw [if_neg some, List.cons_prefix_cons]
          exact ⟨rfl, supplies_script rest⟩

theorem fits_known (small : b.length < Numeral.bound64) (l : Link) : (known b).Fits l := by
  intro bs supplies x member
  have found := (supplies_known supplies).mem member
  split at found
  · exact absurd found List.not_mem_nil
  · rwa [List.mem_singleton.mp found]

theorem length_of_fits_known (fits : (known b).Fits l) : b.length < Numeral.bound64 := by
  cases b with
  | nil => decide
  | cons first more => exact fits _ (completes_known _ l).supplies _ List.mem_cons_self

theorem lasts_before {patience : Patience} {now moment : Nat} (lasts : patience.Lasts now)
    (deadline : patience.deadline? now = some moment) : now < moment := by
  cases patience with
  | endless => cases deadline
  | «until» moment =>
      cases deadline
      exact lasts
  | idle ms =>
      cases deadline
      exact Nat.lt_add_of_pos_right lasts

theorem Flows.lasts {patience : Patience} (flows : p.Flows patience l.clock.now l bs) :
    patience.Lasts l.clock.now := by
  have late : ∀ moment, moment ≤ l.clock.now →
      p.askWithin (some moment) l = (.cancelled, p, false, l) := by
    intro moment past
    rw [askWithin, askBefore, if_pos past]
  have early : ∀ moment, patience.deadline? l.clock.now = some moment → l.clock.now < moment := by
    intro moment deadline
    apply Nat.lt_of_not_le
    intro past
    have cancelled := late moment past
    rw [← deadline] at cancelled
    cases flows with
    | ended asked => cases cancelled.symm.trans asked
    | chunk asked rest => cases cancelled.symm.trans asked
  cases patience with
  | endless => exact trivial
  | «until» moment => exact early moment rfl
  | idle ms => exact Nat.pos_of_lt_add_right (early (l.clock.now + ms) rfl)

/-- An answer that takes no time comes before any deadline that has not passed. -/
theorem askWithin_of_ask {patience : Patience} (lasts : patience.Lasts l.clock.now)
    (came : pull ≠ .stuck)
    (asked : ∀ clock, p.ask { l with clock } = (pull, p', permit, { l' with clock })) :
    p.askWithin (patience.deadline? l.clock.now) l =
      (pull, p', permit, { l' with clock := l.clock }) := by
  have before : ∀ moment, l.clock.now < moment →
      p.askBefore moment l = (pull, p', permit, { l' with clock := l.clock }) := by
    intro moment early
    rw [askBefore, if_neg (Nat.not_le_of_lt early), asked]
    cases pull with
    | stuck => exact absurd rfl came
    | chunk b | failed cause | ended | cancelled => rfl
  cases deadline : patience.deadline? l.clock.now with
  | none => exact asked l.clock
  | some moment => exact before moment (lasts_before lasts deadline)

theorem Flows.congr_ask {q : Producer} {patience : Patience} (lasts : patience.Lasts l.clock.now)
    (same : ∀ l, q.ask l = p.ask l) (flows : p.Flows patience l.clock.now l bs) :
    q.Flows patience l.clock.now l bs := by
  have within : q.askWithin (patience.deadline? l.clock.now) l =
      p.askWithin (patience.deadline? l.clock.now) l := by
    cases deadline : patience.deadline? l.clock.now with
    | none => exact same l
    | some moment =>
        have early := Nat.not_le_of_lt (lasts_before lasts deadline)
        rw [askWithin, askWithin, askBefore, askBefore, if_neg early, if_neg early, same]
  cases flows with
  | ended asked => exact .ended (within.trans asked)
  | chunk asked rest => exact .chunk (within.trans asked) rest

theorem flows_script {patience : Patience} (lasts : patience.Lasts l.clock.now)
    (prompt : ∀ step ∈ steps, step.isPrompt = true) :
    (script steps).Flows patience l.clock.now l (Yield.offered steps) := by
  induction steps generalizing l with
  | nil => exact .ended (askWithin_of_ask lasts nofun fun _ => rfl)
  | cons step steps ih =>
      have later : ∀ step ∈ steps, step.isPrompt = true := by
        intro other member
        exact prompt other (List.mem_cons_of_mem step member)
      cases step with
      | chunk b =>
          have asked : ∀ clock, (script (.chunk b :: steps)).ask { l with clock } =
              (.chunk b, script steps, false, { l.notePull with clock }) := fun _ => rfl
          have rest : (script steps).Flows patience l.clock.now l.notePull (Yield.offered steps) :=
            ih (l := l.notePull) lasts later
          exact .chunk (askWithin_of_ask lasts nofun asked) rest
      | giveWay =>
          have same : ∀ l, (script (.giveWay :: steps)).ask l = (script steps).ask l := fun _ => rfl
          exact (ih lasts later).congr_ask lasts same
      | raise _ | panic _ | pause _ | «until» _ | silence | cancel =>
          have not : false = true := prompt _ List.mem_cons_self
          exact absurd not Bool.false_ne_true

theorem flows_known {patience : Patience} (lasts : patience.Lasts l.clock.now) (b : Bytes) :
    (known b).Flows patience l.clock.now l (if b.isEmpty then [] else [b]) := by
  cases none : b.isEmpty with
  | true =>
      have asked : ∀ clock, (known b).ask { l with clock } =
          (.ended, script [], false, { l with clock }) := by
        intro clock
        rw [ask, none]
        rfl
      exact .ended (askWithin_of_ask lasts nofun asked)
  | false =>
      have asked : ∀ clock, (known b).ask { l with clock } =
          (.chunk b, script [], false, { l with clock }) := by
        intro clock
        rw [ask, none]
        rfl
      have rest : (script []).Flows patience l.clock.now l [] := flows_script lasts nofun
      exact .chunk (askWithin_of_ask lasts nofun asked) rest

end Producer

end HttpExchange
