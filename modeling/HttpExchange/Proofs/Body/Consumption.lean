import HttpExchange.Proofs.Body.Likeness
import HttpExchange.Proofs.Body.Reading

/-!
A body in the hands of whoever has it. In whatever order it is taken, pulled and collected, it is
consumed once, and its producer is asked for nothing but what is then handed over.
-/

namespace HttpExchange

variable {between : Link → Link → Prop} {l l₁ l₂ l' : Link} {p p₁ p' : Producer}

/-- What a producer hands over with an answer: a chunk, or a failure in its place. -/
def Pull.item? : Pull → Option (Except Mishap Bytes)
  | .chunk b => some (.ok b)
  | .failed cause => some (.error cause)
  | .ended | .cancelled | .stuck => none

def Yield.item? : Yield → Option (Except Mishap Bytes)
  | .chunk b => some (.ok b)
  | .raise text => some (.error (.raised text))
  | .panic text => some (.error (.panicked text))
  | .pause _ | .until _ | .giveWay | .silence | .cancel => none

namespace Producer

variable {answer : Pull} {answers more : List Pull} {all : List (Except Mishap Bytes)}

def items? : Producer → Option (List (Except Mishap Bytes))
  | script steps => some (steps.filterMap Yield.item?)
  | known b => some (if b.isEmpty then [] else [.ok b])
  | incoming => none

/-- One pull after another, and what a producer answers. In between the link may change as `between`
allows. -/
inductive Pulls (between : Link → Link → Prop) :
    Producer → Link → List Pull → Producer → Link → Prop where
  | none {p : Producer} {l : Link} : Pulls between p l [] p l
  | meanwhile {p p' : Producer} {l l₁ l' : Link} {answers : List Pull} (passes : between l l₁)
      (rest : Pulls between p l₁ answers p' l') : Pulls between p l answers p' l'
  | next {p p₁ p' : Producer} {l l₁ l' : Link} {answer : Pull} {answers : List Pull}
      (asked : p.pull l = (answer, p₁, l₁)) (rest : Pulls between p₁ l₁ answers p' l') :
      Pulls between p l (answer :: answers) p' l'

theorem Pulls.trans (before : p.Pulls between l answers p₁ l₁)
    (behind : p₁.Pulls between l₁ more p' l') : p.Pulls between l (answers ++ more) p' l' := by
  induction before with
  | none => exact behind
  | meanwhile passes _ ih => exact .meanwhile passes (ih behind)
  | next asked _ ih => exact .next asked (ih behind)

/-- An answer takes its item off what a script still has. -/
theorem pullScript_items {permit permit' : Bool} {steps steps' : List Yield}
    (eq : pullScript permit steps l = (answer, steps', permit', l')) :
    steps.filterMap Yield.item? = answer.item?.toList ++ steps'.filterMap Yield.item? ∧
      (answer = .ended → steps' = []) := by
  fun_induction pullScript permit steps l
  case case5 ih | case7 ih | case9 ih | case12 ih => exact ih eq
  case case1 =>
      cases eq
      exact ⟨rfl, fun _ => rfl⟩
  all_goals
    cases eq
    refine ⟨rfl, fun ended => ?_⟩
    cases ended

theorem pull_script {steps : List Yield} (eq : (script steps).pull l = (answer, p', l')) :
    ∃ steps' permit, p' = script steps' ∧
      pullScript false steps l = (answer, steps', permit, l') := by
  rcases pulled : pullScript false steps l with ⟨answer₁, steps₁, permit₁, l₁⟩
  rw [Producer.pull, ask, pulled] at eq
  cases eq
  exact ⟨steps₁, permit₁, rfl, rfl⟩

theorem pull_items (eq : p.pull l = (answer, p', l')) (has : p.items? = some all) :
    ∃ rest, p'.items? = some rest ∧ all = answer.item?.toList ++ rest ∧
      (answer = .ended → rest = []) := by
  cases p with
  | script steps =>
      cases has
      obtain ⟨steps', _, rfl, pulled⟩ := pull_script eq
      obtain ⟨same, ends⟩ := pullScript_items pulled
      exact ⟨_, rfl, same, fun ended => by rw [ends ended, List.filterMap_nil]⟩
  | known b =>
      cases has
      rw [Producer.pull, ask] at eq
      cases none : b.isEmpty <;> rw [none] at eq <;> cases eq
      all_goals exact ⟨[], rfl, rfl, fun _ => rfl⟩
  | incoming => cases has

/-- Answers hand over the items in their order, and all of them if one of the answers is the end. -/
theorem Pulls.items_eq (pulls : p.Pulls between l answers p' l') (has : p.items? = some all) :
    ∃ rest, p'.items? = some rest ∧ all = answers.filterMap Pull.item? ++ rest ∧
      (.ended ∈ answers → rest = []) := by
  induction pulls generalizing all with
  | none => exact ⟨all, has, rfl, nofun⟩
  | meanwhile _ _ ih => exact ih has
  | @next p p₁ p' l l₁ l' answer answers asked _ ih =>
      obtain ⟨rest₁, has₁, rfl, ends⟩ := pull_items asked has
      obtain ⟨rest, has', rfl, ends'⟩ := ih has₁
      refine ⟨rest, has', ?_, fun member => ?_⟩
      · cases answer <;> rfl
      · rcases List.mem_cons.mp member with same | later
        · exact (List.append_eq_nil_iff.mp (ends same.symm)).2
        · exact ends' later

theorem pull_incoming (eq : incoming.pull l = (answer, p', l')) : p' = incoming := by
  rw [Producer.pull, ask] at eq
  rcases read : l.readPiece with ⟨(b | _) | e | _, l₁⟩
  all_goals
    rw [read] at eq
    cases eq
    rfl

inductive Spent : Producer → Link → Prop where
  | script {l : Link} : Spent (script []) l
  | done {l : Link} (done : l.body.state = .done) : Spent incoming l
  | failed {l : Link} (failed : l.body.state = .failed) : Spent incoming l

theorem Spent.still (spent : p.Spent l) (still : l.Still l') : p.Spent l' := by
  cases spent with
  | script => exact .script
  | done done => exact .done (still.body ▸ done)
  | failed failed => exact .failed (still.body ▸ failed)

theorem Spent.pull_eq (spent : p.Spent l) : ∃ l', p.pull l = (.ended, p, l') ∧ p.Spent l' := by
  cases spent with
  | script => exact ⟨l, rfl, .script⟩
  | done done =>
      refine ⟨{ l with body := { l.body with released := true } }, ?_, .done done⟩
      simp only [Producer.pull, ask, Link.readPiece, Decoder.next_done done]
  | failed failed =>
      refine ⟨l, ?_, .failed failed⟩
      simp only [Producer.pull, ask, Link.readPiece, Decoder.next_failed failed]

theorem spent_of_pull (eq : p.pull l = (answer, p', l'))
    (last : answer = .ended ∨ p = .incoming ∧ ∃ cause, answer = .failed cause) :
    p'.Spent l' := by
  cases p with
  | script steps =>
      obtain ⟨steps', _, rfl, pulled⟩ := pull_script eq
      rcases last with ended | ⟨other, _⟩
      · obtain rfl := (pullScript_items pulled).2 ended
        exact .script
      · cases other
  | known b =>
      rw [Producer.pull, ask] at eq
      cases eq
      exact .script
  | incoming =>
      rcases step : Decoder.advance l.body.state (max 1 l.body.bound) l.reader l.clock with
        ⟨out, state, r, clock⟩
      rw [Producer.pull, ask, Link.readPiece, Decoder.next, step] at eq
      rcases out with (b | _) | e | _
      all_goals cases eq
      · rcases last with ended | ⟨_, cause, failed⟩
        · cases ended
        · cases failed
      · rcases Decoder.advance_ended step with rfl | failed
        · exact .done rfl
        · rw [failed, Decoder.advance] at step
          cases step
          exact .failed rfl
      · exact .failed rfl
      · rcases last with ended | ⟨_, cause, failed⟩
        · cases ended
        · cases failed

theorem Pulls.spent (pulls : p.Pulls between l answers p' l')
    (still : ∀ {l l'}, between l l' → l.Still l') (spent : p.Spent l) :
    ∀ answer ∈ answers, answer = .ended := by
  induction pulls with
  | none => exact List.forall_mem_nil _
  | meanwhile passes _ ih => exact ih (spent.still (still passes))
  | next asked _ ih =>
      obtain ⟨l₁, ended, spent⟩ := spent.pull_eq
      cases asked.symm.trans ended
      exact List.forall_mem_cons.mpr ⟨rfl, ih spent⟩

/-- Behind the end there is only the end, and so it is behind an error of the wire. -/
theorem Pulls.behind_last (pulls : p.Pulls between l answers p' l')
    (still : ∀ {l l'}, between l l' → l.Still l') {front behind : List Pull} {last : Pull}
    (parts : answers = front ++ last :: behind)
    (isLast : last = .ended ∨ p = .incoming ∧ ∃ cause, last = .failed cause) :
    ∀ answer ∈ behind, answer = .ended := by
  induction pulls generalizing front with
  | none =>
      exact absurd parts.symm
        (List.append_ne_nil_of_right_ne_nil front (List.cons_ne_nil last behind))
  | meanwhile _ _ ih => exact ih parts isLast
  | @next p p₁ p' l l₁ l' answer answers asked rest ih =>
      rcases List.cons_eq_append_iff.mp parts with ⟨rfl, same⟩ | ⟨front, rfl, same⟩
      · cases same
        exact rest.spent still (spent_of_pull asked isLast)
      · refine ih same (isLast.imp_right fun ⟨wire, failed⟩ => ⟨?_, failed⟩)
        subst wire
        exact pull_incoming asked

/-- What collecting comes to behind these chunks, by the first answer that is not a chunk. -/
inductive Collects (chunks : List Bytes) : Pull → Outcome BodyError Bytes → Prop where
  | whole : Collects chunks .ended (.ok chunks.flatten)
  | failed (cause : Mishap) : Collects chunks (.failed cause) (.error cause.whileReading)
  | cancelled : Collects chunks .cancelled .stuck
  | stuck : Collects chunks .stuck .stuck

theorem collectOnto_pulled (between : Link → Link → Prop) {before : List Bytes}
    {out : Outcome BodyError Bytes} (eq : collectOnto before p l = (out, l')) :
    ∃ chunks last p', p.Pulls between l (chunks.map .chunk ++ [last]) p' l' ∧
      Collects (before.reverse ++ chunks) last out := by
  fun_induction collectOnto before p l with
  | case1 before p l b p₁ l₁ asked ih =>
      obtain ⟨chunks, last, p', pulls, collects⟩ := ih eq
      refine ⟨b :: chunks, last, p', .next asked pulls, ?_⟩
      rwa [List.reverse_cons, List.append_assoc] at collects
  | case2 before p l p₁ l₁ asked | case3 before p l cause p₁ l₁ asked
  | case4 before p l p₁ l₁ asked | case5 before p l p₁ l₁ asked =>
      cases eq
      refine ⟨[], _, p₁, .next asked .none, ?_⟩
      rw [List.append_nil]
      constructor

end Producer

/-- What can be done with a body: its chunks can be taken, and pulled when they were, and it can be
collected as a whole. -/
inductive Use where
  | take
  | pull
  | aggregate

inductive Got where
  | took (out : Except BodyError Unit)
  /-- An answer, unless there were no chunks to pull. -/
  | pulled (answer : Option Pull)
  | collected (out : Outcome BodyError Bytes)

namespace Got

def answer? : Got → Option Pull
  | pulled answer => answer
  | took _ | collected _ => none

inductive Refused : Got → Prop where
  | take : Refused (took (.error .alreadyConsumed))
  | aggregate : Refused (collected (.error .alreadyConsumed))

end Got

/-- Somebody who has a body, with its chunks if they were taken. -/
structure Holder where
  body : Body
  chunks : Option Producer := none

namespace Holder

variable {h h' : Holder} {body : Body} {seen : List Got}

def use (h : Holder) (l : Link) : Use → Got × Holder × Link
  | .take => match h.body.take with
    | (.ok p, body) => (.took (.ok ()), { body, chunks := some p }, l)
    | (.error e, body) => (.took (.error e), { h with body }, l)
  | .pull => match h.chunks with
    | some p =>
      let (answer, p, l) := p.pull l
      (.pulled (some answer), { h with chunks := some p }, l)
    | none => (.pulled none, h, l)
  | .aggregate =>
    let (out, body, l) := h.body.aggregate l
    (.collected out, { h with body }, l)

inductive Uses (between : Link → Link → Prop) :
    Holder → Link → List Got → Holder → Link → Prop where
  | none {h : Holder} {l : Link} : Uses between h l [] h l
  | meanwhile {h h' : Holder} {l l₁ l' : Link} {seen : List Got} (passes : between l l₁)
      (rest : Uses between h l₁ seen h' l') : Uses between h l seen h' l'
  | next {h h₁ h' : Holder} {l l₁ l' : Link} {u : Use} {got : Got} {seen : List Got}
      (used : h.use l u = (got, h₁, l₁)) (rest : Uses between h₁ l₁ seen h' l') :
      Uses between h l (got :: seen) h' l'

/-- The uses of a body, by what its producer answered to whom. Nobody had the body; or its chunks
were taken once, and who pulls them sees the answers; or it was collected once, from all the answers.
What else was tried with the body was refused, and there were no other chunks to pull. -/
inductive Account (body : Body) (p' : Producer) : List Pull → List Got → Holder → Prop where
  | untouched {seen : List Got} (idle : ∀ got ∈ seen, got = .pulled none) :
      Account body p' [] seen { body }
  | taken (before behind : List Got) (idle : ∀ got ∈ before, got = .pulled none)
      (later : ∀ got ∈ behind, got.Refused ∨ ∃ answer, got = .pulled (some answer)) :
      Account body p' (behind.filterMap Got.answer?) (before ++ .took (.ok ()) :: behind)
        { body := { consumed := true }, chunks := some p' }
  | collected {chunks : List Bytes} {last : Pull} {out : Outcome BodyError Bytes}
      (before behind : List Got) (idle : ∀ got ∈ before, got = .pulled none)
      (collects : Producer.Collects chunks last out)
      (later : ∀ got ∈ behind, got.Refused ∨ got = .pulled none) :
      Account body p' (chunks.map .chunk ++ [last]) (before ++ .collected out :: behind)
        { body := { consumed := true } }

theorem use_take_fresh (fresh : body.consumed = false) (l : Link) :
    use { body } l .take =
      (.took (.ok ()), { body := { consumed := true }, chunks := some body.producer }, l) := by
  simp only [use, Body.take, fresh, Bool.false_eq_true, if_false]

theorem use_aggregate_fresh (fresh : body.consumed = false) (l : Link) :
    use { body } l .aggregate = (.collected (body.producer.collect l).1,
      { body := { consumed := true } }, (body.producer.collect l).2) := by
  simp only [use, Body.aggregate, Body.take, fresh, Bool.false_eq_true, if_false]

/-- Who pulls from a body that was consumed gets the next answer, if the chunks are here, and who
tries anything else is refused. Neither the producer nor the link takes part in that. -/
theorem use_consumed (consumed : h.body.consumed = true) {u : Use} {got : Got}
    (used : h.use l u = (got, h', l')) :
    got.Refused ∧ h' = h ∧ l' = l ∨
      got = .pulled none ∧ h.chunks = none ∧ h' = h ∧ l' = l ∨
      ∃ p answer p', h.chunks = some p ∧ p.pull l = (answer, p', l') ∧
        got = .pulled (some answer) ∧ h' = { h with chunks := some p' } := by
  cases u with
  | take =>
      simp only [use, Body.take, if_pos consumed] at used
      cases used
      exact .inl ⟨.take, rfl, rfl⟩
  | aggregate =>
      simp only [use, Body.aggregate, Body.take, if_pos consumed] at used
      cases used
      exact .inl ⟨.aggregate, rfl, rfl⟩
  | pull =>
      cases chunks : h.chunks with
      | none =>
          simp only [use, chunks] at used
          cases used
          exact .inr (.inl ⟨rfl, rfl, rfl, rfl⟩)
      | some p =>
          simp only [use, chunks] at used
          cases used
          exact .inr (.inr ⟨p, _, _, rfl, rfl, rfl, rfl⟩)

theorem Uses.behind_take (uses : Uses between h l seen h' l') (consumed : h.body.consumed = true)
    (chunks : h.chunks = some p) :
    ∃ p', h' = { h with chunks := some p' } ∧
      p.Pulls between l (seen.filterMap Got.answer?) p' l' ∧
      ∀ got ∈ seen, got.Refused ∨ ∃ answer, got = .pulled (some answer) := by
  induction uses generalizing p with
  | @none h l =>
      obtain ⟨body, _⟩ := h
      cases chunks
      exact ⟨p, rfl, .none, List.forall_mem_nil _⟩
  | meanwhile passes _ ih =>
      obtain ⟨p', same, pulls, all⟩ := ih consumed chunks
      exact ⟨p', same, .meanwhile passes pulls, all⟩
  | next used _ ih =>
      rcases use_consumed consumed used with ⟨refused, rfl, rfl⟩ | ⟨_, none, _⟩ |
        ⟨_, answer, p₁, some, asked, rfl, rfl⟩
      · obtain ⟨p', same, pulls, all⟩ := ih consumed chunks
        refine ⟨p', same, ?_, List.forall_mem_cons.mpr ⟨.inl refused, all⟩⟩
        cases refused <;> exact pulls
      · cases none.symm.trans chunks
      · cases some.symm.trans chunks
        obtain ⟨p', same, pulls, all⟩ := ih consumed rfl
        exact ⟨p', same, .next asked pulls, List.forall_mem_cons.mpr ⟨.inr ⟨answer, rfl⟩, all⟩⟩

theorem Uses.behind_aggregate (uses : Uses between h l seen h' l')
    (consumed : h.body.consumed = true) (chunks : h.chunks = .none) (p : Producer) :
    h' = h ∧ p.Pulls between l [] p l' ∧ ∀ got ∈ seen, got.Refused ∨ got = .pulled .none := by
  induction uses with
  | none => exact ⟨rfl, .none, List.forall_mem_nil _⟩
  | meanwhile passes _ ih =>
      obtain ⟨same, pulls, all⟩ := ih consumed chunks
      exact ⟨same, .meanwhile passes pulls, all⟩
  | next used _ ih =>
      rcases use_consumed consumed used with ⟨refused, rfl, rfl⟩ | ⟨got, _, rfl, rfl⟩ |
        ⟨_, _, _, some, _⟩
      · obtain ⟨same, pulls, all⟩ := ih consumed chunks
        exact ⟨same, pulls, List.forall_mem_cons.mpr ⟨.inl refused, all⟩⟩
      · obtain ⟨same, pulls, all⟩ := ih consumed chunks
        exact ⟨same, pulls, List.forall_mem_cons.mpr ⟨.inr got, all⟩⟩
      · cases some.symm.trans chunks

theorem Account.idle {answers : List Pull} (account : Account body p' answers seen h') :
    Account body p' answers (.pulled none :: seen) h' := by
  cases account with
  | untouched idle => exact .untouched (List.forall_mem_cons.mpr ⟨rfl, idle⟩)
  | taken before behind idle later =>
      exact .taken (.pulled none :: before) behind (List.forall_mem_cons.mpr ⟨rfl, idle⟩) later
  | collected before behind idle collects later =>
      exact .collected (.pulled none :: before) behind (List.forall_mem_cons.mpr ⟨rfl, idle⟩)
        collects later

theorem Uses.account (uses : Uses between h l seen h' l') (start : h = { body })
    (fresh : body.consumed = false) :
    ∃ answers p', body.producer.Pulls between l answers p' l' ∧
      Account body p' answers seen h' := by
  induction uses with
  | none =>
      subst start
      exact ⟨[], _, .none, .untouched (List.forall_mem_nil _)⟩
  | meanwhile passes _ ih =>
      obtain ⟨answers, p', pulls, account⟩ := ih start
      exact ⟨answers, p', .meanwhile passes pulls, account⟩
  | @next _ _ _ l _ _ u _ _ used rest ih =>
      subst start
      cases u with
      | take =>
          cases (use_take_fresh fresh l).symm.trans used
          obtain ⟨p', rfl, pulls, later⟩ := rest.behind_take rfl rfl
          exact ⟨_, p', pulls, .taken [] _ (List.forall_mem_nil _) later⟩
      | pull =>
          cases used
          obtain ⟨answers, p', pulls, account⟩ := ih rfl
          exact ⟨answers, p', pulls, account.idle⟩
      | aggregate =>
          cases (use_aggregate_fresh fresh l).symm.trans used
          have collected : Producer.collectOnto [] body.producer l = (_, _) := rfl
          obtain ⟨chunks, last, p', pulls, collects⟩ :=
            Producer.collectOnto_pulled between collected
          obtain ⟨rfl, none, later⟩ := rest.behind_aggregate rfl rfl p'
          refine ⟨chunks.map .chunk ++ [last], p', ?_, ?_⟩
          · have whole := pulls.trans none
            rwa [List.append_nil] at whole
          · exact .collected [] _ (List.forall_mem_nil _) collects later

/-- In whatever order somebody takes, pulls and collects a body, only the first take or collection
gets its chunks, and every other is refused without asking the producer. What is handed over are
the items of the producer from the first on, each once. A body is collected exactly if its producer ends
behind nothing but chunks, and is then all of these; otherwise the first error is what comes of it,
and the producer is not asked again. -/
theorem consumed_once (fresh : body.consumed = false)
    (uses : Uses between { body } l seen h' l') :
    ∃ answers p', body.producer.Pulls between l answers p' l' ∧
      Account body p' answers seen h' ∧
      (∀ all, body.producer.items? = some all →
        answers.filterMap Pull.item? <+: all ∧
        (.ended ∈ answers → answers.filterMap Pull.item? = all)) ∧
      ((∀ {l l'}, between l l' → l.Still l') →
        ∀ front last behind, answers = front ++ last :: behind →
          (last = .ended ∨ body.producer = .incoming ∧ ∃ cause, last = .failed cause) →
          ∀ answer ∈ behind, answer = .ended) := by
  obtain ⟨answers, p', pulls, account⟩ := uses.account rfl fresh
  refine ⟨answers, p', pulls, account, fun all has => ?_, ?_⟩
  · obtain ⟨rest, _, rfl, ends⟩ := pulls.items_eq has
    refine ⟨List.prefix_append _ rest, fun ended => ?_⟩
    rw [ends ended, List.append_nil]
  · intro still front last behind parts isLast
    exact pulls.behind_last still parts isLast

/-- A producer that goes on behind its error. Who takes its chunks sees all of them; who collects
them gets the error, and the chunk behind it is never asked for. -/
theorem consumed_once_raise :
    let p : Producer := .script [.chunk [1], .raise "late", .chunk [2]]
    let l : Link := {
      clock := { limit := 0 }, reader := { arrivals := [], capacity := 1 }, writer := {} }
    let taking : List Got := [.took (.ok ()), .pulled (some (.chunk [1])),
      .took (.error .alreadyConsumed), .pulled (some (.failed (.raised "late"))),
      .pulled (some (.chunk [2])), .collected (.error .alreadyConsumed), .pulled (some .ended)]
    let collecting : List Got := [.pulled none, .collected (.error (.producer (.raised "late"))),
      .pulled none, .took (.error .alreadyConsumed)]
    (∃ h' l' answers p', Uses Eq { body := .ofProducer p } l taking h' l' ∧
      p.Pulls Eq l answers p' l' ∧ Account (.ofProducer p) p' answers taking h' ∧
      answers.filterMap Pull.item? <+: [.ok [1], .error (.raised "late"), .ok [2]]) ∧
    ∃ h' answers p', Uses Eq { body := .ofProducer p } l collecting h' l.notePull.notePull ∧
      p.Pulls Eq l answers p' l.notePull.notePull ∧
      Account (.ofProducer p) p' answers collecting h' := by
  intro p l taking collecting
  constructor
  · have uses : Uses Eq { body := .ofProducer p } l taking _ _ :=
      .next (u := .take) rfl (.next (u := .pull) rfl (.next (u := .take) rfl (.next (u := .pull) rfl
        (.next (u := .pull) rfl (.next (u := .aggregate) rfl (.next (u := .pull) rfl .none))))))
    obtain ⟨answers, p', pulls, account, items, _⟩ := consumed_once rfl uses
    exact ⟨_, _, answers, p', uses, pulls, account, (items _ rfl).1⟩
  · have collected : p.collect l = (.error (.producer (.raised "late")), l.notePull.notePull) := by
      rw [Producer.collect, Producer.collectOnto_eq]
      show Producer.collectOnto [[1]] (.script [.raise "late", .chunk [2]]) l.notePull = _
      rw [Producer.collectOnto_eq]
      rfl
    have aggregated : use { body := .ofProducer p } l .aggregate = (.collected _, _, _) :=
      use_aggregate_fresh rfl l
    rw [show (Body.ofProducer p).producer = p from rfl, collected] at aggregated
    have uses : Uses Eq { body := .ofProducer p } l collecting _ l.notePull.notePull :=
      .next (u := .pull) rfl
        (.next aggregated (.next (u := .pull) rfl (.next (u := .take) rfl .none)))
    obtain ⟨answers, p', pulls, account, _⟩ := consumed_once rfl uses
    exact ⟨_, answers, p', uses, pulls, account⟩

end Holder

end HttpExchange
