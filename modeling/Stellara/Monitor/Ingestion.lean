import Stellara.Lib.Table
import Stellara.Monitor.Model

/-!
# Ingestion

A stream that had an error is not closed, and five seconds later there are two:

    payments            1 ─────── error ──────────── op ─────   save
    payments, again                       1 ──────── op ─────   save again

If no stream is opened while there is one of its endpoint, and no save is rejected, every payment
and offer is saved once (`ingested_once`).
-/

namespace Stellara.Monitor

open Block
open Async (obeying Answered interleave_obeys attempt_cases sum_map_set sum_map_append_singleton)

/-- How often the operation at a position was saved. -/
def saves (position : Nat) (w : World) : Nat := w.events.countP fun e => e.1 = position

/-- The task has an operation that is not saved yet. -/
def Saving : Async Request Answer (Except String Unit) → Bool
  | .await .randomUUID _ | .await (.save _ _) _ => true
  | _ => false

/-- What the streams had to deliver is delivered and saved. -/
def Settled (t : System) : Prop :=
  (∀ p ∈ t.tasks, Saving p = false) ∧
    ∀ s ∈ t.world.streams, s.isOpen = true → (s.next t.world.ledger).isNone = true

instance (t : System) : Decidable (Settled t) := by unfold Settled; infer_instance

/-- No operation is saved twice, and once everything is settled, every payment and offer since
the cursor of a stream of its endpoint is saved. -/
structure IngestedOnce (t : System) : Prop where
  atMostOnce : ∀ n, saves n t.world ≤ 1
  once : Settled t → ∀ (n : Nat) (op : HorizonOperation) (s : Stream),
    t.world.ledger[n]? = some op → s ∈ t.world.streams → s.endpoint.keeps op = true →
    s.cursor ≤ n → saves n t.world = 1

/-- A stream is only opened where there is none of its endpoint, and no save is rejected. -/
def OpensOnce (w : World) (rejects : Option String) : Request → Prop
  | .startStreams _ => w.streams = []
  | .restart endpoint => w.isMonitoring = true → ∀ s ∈ w.streams, s.endpoint ≠ endpoint
  | .save _ _ => rejects = none
  | _ => True

instance (w : World) (rejects : Option String) : DecidablePred (OpensOnce w rejects) := fun a => by
  cases a with
  | startStreams _ =>
    exact decidable_of_iff (w.streams.isEmpty = true) List.isEmpty_iff
  | _ => unfold OpensOnce; infer_instance

abbrev StepOpensOnce (e : Event Outside (Async.Move Operation) Unit System) : Prop :=
  Async.Meets (fun c w => OpensOnce w c.rejects) e

/-- Monitoring is not stopped. -/
def NotStop : Request → Prop
  | .stop => False
  | _ => True

instance : DecidablePred NotStop := fun a => by cases a <;> unfold NotStop <;> infer_instance

abbrev StepStaysStarted (e : Event Outside (Async.Move Operation) Unit System) : Prop :=
  Async.Meets (fun _ _ => NotStop) e

namespace Ingestion

/-! ## The way of a call -/

/-- A task that was delivered an operation to keep is to save it. -/
inductive Point
  | idle
  | handling (position : Nat)

def Point.holds (position : Nat) : Point → Nat
  | .idle => 0
  | .handling n => if n = position then 1 else 0

def asks : Point → Request → Prop
  | .idle, .save _ _ => False
  | .idle, _ => True
  | .handling n, a => a = .randomUUID ∨ ∃ event, a = .save n event

def told : Point → (a : Request) → Answer a → Prop
  | _, .deliver _, (_, endpoint, op) => endpoint.lists op = true
  | _, _, _ => True

def next : Point → (a : Request) → Answer a → Point
  | .idle, .deliver _, (n, endpoint, op) => if endpoint.keeps op then .handling n else .idle
  | .handling _, .save _ _, _ => .idle
  | g, _, _ => g

abbrev protocol : Protocol Request Answer Point := ⟨asks, told, next⟩

def begin (_ : Operation) : Point := .idle

/-- Nothing is held at the end. -/
def End (_ : Except String Unit) (g : Point) : Prop := g = .idle

variable {isZero : Option String → Bool}

theorem process_obeys {n : Nat} {eventData : Uuid → StellarEventDto} :
    wp (obeying protocol) (process n eventData) (fun _ _ g => g = .idle) (fun _ _ g => g = .idle) ()
      (.handling n) := by
  unfold process
  rw [wp_tryCatch, wp_bind]
  refine ⟨.inl rfl, fun id _ => ?_⟩
  show wp (obeying protocol) (request _ _ >>= _) _ _ () (.handling n)
  rw [wp_bind]
  refine ⟨.inr ⟨_, rfl⟩, fun r _ => ?_⟩
  cases r with
  | error e => exact rfl
  | ok _ =>
    refine ⟨trivial, fun r _ => ?_⟩
    cases r with
    | error e => exact rfl
    | ok _ => exact rfl

theorem onmessage_obeys {stream : Nat} :
    wp (obeying protocol) (onmessage isZero stream) (fun _ _ g => g = .idle)
      (fun _ _ g => g = .idle) () .idle := by
  unfold onmessage
  rw [wp_bind]
  refine ⟨trivial, fun message hlists => ?_⟩
  obtain ⟨n, endpoint, op⟩ := message
  show wp (obeying protocol) (handle isZero (n, endpoint, op)) _ _ ()
    (if endpoint.keeps op then .handling n else .idle)
  cases endpoint with
  | payments =>
    have hkeeps : Endpoint.payments.keeps op = true := hlists
    rw [if_pos hkeeps]
    exact process_obeys
  | operations =>
    show wp (obeying protocol) (if op.isManageOffer then _ else _) _ _ ()
      (if op.isManageOffer then .handling n else .idle)
    split
    · exact process_obeys
    · exact rfl

theorem program_obeys (isZero : Option String → Bool) (op : Operation) :
    Async.wp (obeying protocol) (op.program isZero) End (begin op) := by
  cases op with
  | startMonitoring =>
    refine wp_program.mpr ?_
    unfold startMonitoring
    rw [wp_bind]
    refine ⟨trivial, fun (isMonitoring : Bool) _ => ?_⟩
    cases isMonitoring with
    | true => exact rfl
    | false =>
      show wp (obeying protocol) (tryCatch _ _) _ _ () .idle
      rw [wp_tryCatch, wp_bind]
      refine ⟨trivial, fun r _ => ?_⟩
      cases r with
      | error e => exact ⟨trivial, fun _ _ => rfl⟩
      | ok sequence => exact ⟨trivial, fun _ _ => rfl⟩
  | stopMonitoring => exact wp_program.mpr ⟨trivial, fun _ _ => rfl⟩
  | onmessage stream => exact wp_program.mpr onmessage_obeys
  | onerror endpoint =>
    exact wp_program.mpr (wp_bind.mpr ⟨trivial, fun _ _ => ⟨trivial, fun _ _ => rfl⟩⟩)
  | apply op => exact wp_program.mpr ⟨trivial, fun _ _ => rfl⟩

/-- A task that holds an operation is saving it. -/
theorem idle_of_not_saving {p : Async Request Answer (Except String Unit)} {g : Point}
    (h : Async.wp (obeying protocol) p End g) (hsaving : Saving p = false) : g = .idle := by
  cases p with
  | done x => exact h
  | await a k =>
    cases g with
    | idle => rfl
    | handling n =>
      obtain rfl | ⟨event, rfl⟩ := h.1
      · cases hsaving
      · cases hsaving

/-! ## What the streams have delivered -/

/-- The next operation of a stream is the first listed one that it has not delivered. -/
theorem next_spec {s : Stream} {ledger : List HorizonOperation} {op : HorizonOperation} {n : Nat}
    (h : s.next ledger = some (op, n)) :
    ledger[n]? = some op ∧ s.position ≤ n ∧ s.endpoint.lists op = true ∧
      ∀ m x, s.position ≤ m → m < n → ledger[m]? = some x → s.endpoint.lists x = false := by
  obtain ⟨hp, i, hi, hget, hbefore⟩ := List.find?_eq_some_iff_getElem.mp h
  rw [List.getElem_zipIdx, Nat.zero_add] at hget
  cases hget
  have hlen : n < ledger.length := by simpa using hi
  obtain ⟨hpos, hlists⟩ := of_decide_eq_true hp
  refine ⟨List.getElem?_eq_getElem hlen, hpos, hlists, fun m x hm hlt hx => ?_⟩
  obtain ⟨hmlen, rfl⟩ := List.getElem?_eq_some_iff.mp hx
  have := hbefore m hlt
  rw [List.getElem_zipIdx, Nat.zero_add] at this
  simpa [hm] using this

/-- A stream that has no next operation has delivered all that are listed. -/
theorem of_next_eq_none {s : Stream} {ledger : List HorizonOperation} (h : s.next ledger = none)
    {n : Nat} {op : HorizonOperation} (hn : ledger[n]? = some op)
    (hlists : s.endpoint.lists op = true) : n < s.position := by
  have := List.find?_eq_none.mp h (op, n) (List.mem_zipIdx_iff_getElem?.mpr hn)
  simpa [hlists] using this

/-- The stream has delivered the operation at a position, which is one to keep. -/
def Passed (ledger : List HorizonOperation) (n : Nat) (s : Stream) : Bool :=
  s.cursor ≤ n ∧ n < s.position ∧ (ledger[n]?.any fun op => s.endpoint.keeps op)

def passed (n : Nat) (w : World) : Nat := w.streams.countP (Passed w.ledger n)

/-- A delivery passes one operation that is kept, or none. -/
theorem passed_deliver {s : Stream} {ledger : List HorizonOperation} {op : HorizonOperation}
    {n : Nat} (h : s.next ledger = some (op, n)) (hcursor : s.cursor ≤ s.position) (m : Nat) :
    Passed ledger m { s with position := n + 1 } =
      (Passed ledger m s || decide (n = m ∧ s.endpoint.keeps op = true)) := by
  obtain ⟨hn, hpos, -, hbefore⟩ := next_spec h
  rw [Bool.eq_iff_iff]
  simp only [Passed, decide_eq_true_eq, Bool.or_eq_true]
  constructor
  · rintro ⟨hle, hlt, hkeeps⟩
    by_cases hm : m < s.position
    · exact .inl ⟨hle, hm, hkeeps⟩
    · -- what lies between is not listed
      obtain ⟨x, hx, hkeeps⟩ := (Option.any_eq_true _ _).mp hkeeps
      have hmn : ¬ m < n := fun hlt => by
        have := hbefore m x (by omega) hlt hx
        rw [s.endpoint.lists_of_keeps hkeeps] at this
        cases this
      obtain rfl : n = m := by omega
      cases hn.symm.trans hx
      exact .inr ⟨rfl, hkeeps⟩
  · rintro (⟨hle, hlt, hkeeps⟩ | ⟨rfl, hkeeps⟩)
    · exact ⟨hle, by omega, hkeeps⟩
    · refine ⟨by omega, by omega, ?_⟩
      rw [hn]
      exact hkeeps

/-- What was delivered is saved, or a task holds it. -/
structure Books (w : World) (gs : List Point) : Prop where
  counts : ∀ n, saves n w + (gs.map (Point.holds n)).sum = passed n w
  within : ∀ s ∈ w.streams, s.cursor ≤ s.position ∧ s.position ≤ w.ledger.length
  single : ∀ e, w.streams.countP (fun s => s.endpoint = e) ≤ 1
  opened : ∀ s ∈ w.streams, s.isOpen = true

variable {w : World} {gs : List Point} {g : Point} {i : Nat}

theorem Books.start (h : Books w gs) (op : Operation) : Books w (gs ++ [begin op]) := by
  refine ⟨fun n => ?_, h.within, h.single, h.opened⟩
  rw [sum_map_append_singleton]
  exact h.counts n

/-- Nothing happens to what is streamed and saved. -/
theorem Books.same {w' : World} (h : Books w gs) (hg : gs[i]? = some g)
    (hledger : w'.ledger = w.ledger) (hstreams : w'.streams = w.streams)
    (hevents : w'.events = w.events) : Books w' (gs.set i g) := by
  have hset : gs.set i g = gs := by
    obtain ⟨hlt, rfl⟩ := List.getElem?_eq_some_iff.mp hg
    exact List.set_getElem_self hlt
  rw [hset]
  refine ⟨fun n => ?_, ?_, ?_, ?_⟩
  · unfold saves passed
    rw [hledger, hstreams, hevents]
    exact h.counts n
  · rw [hledger, hstreams]
    exact h.within
  · rw [hstreams]
    exact h.single
  · rw [hstreams]
    exact h.opened

/-- An operation is applied. -/
theorem Books.apply (h : Books w gs) (op : HorizonOperation) :
    Books { w with ledger := w.ledger ++ [op] } gs := by
  refine ⟨fun n => ?_, fun s hs => ?_, h.single, h.opened⟩
  · have hpassed : passed n { w with ledger := w.ledger ++ [op] } = passed n w := by
      refine List.countP_congr fun s hs => ?_
      -- no stream has passed the new operation
      have hlen := (h.within s hs).2
      by_cases hn : n < w.ledger.length
      · unfold Passed
        rw [List.getElem?_append_left hn]
      · have hlt : ¬ n < s.position := by omega
        simp [Passed, hlt]
    rw [hpassed]
    exact h.counts n
  · have := h.within s hs
    refine ⟨this.1, ?_⟩
    rw [List.length_append, List.length_singleton]
    omega

/-- A stream is opened at an endpoint that has none. -/
theorem Books.open (h : Books w gs) {endpoint : Endpoint}
    (hnew : ∀ s ∈ w.streams, s.endpoint ≠ endpoint) : Books (w.open endpoint) gs := by
  have hstreams : (w.open endpoint).streams =
      w.streams ++ [⟨endpoint, w.ledger.length, w.ledger.length, true⟩] := by
    cases endpoint <;> rfl
  have hledger : (w.open endpoint).ledger = w.ledger := by cases endpoint <;> rfl
  have hevents : (w.open endpoint).events = w.events := by cases endpoint <;> rfl
  refine ⟨fun n => ?_, fun s hs => ?_, fun e => ?_, fun s hs => ?_⟩
  · have hpassed : passed n (w.open endpoint) = passed n w := by
      unfold passed
      rw [hledger, hstreams, List.countP_append, List.countP_singleton, if_neg]
      · rfl
      · simp only [Passed, decide_eq_true_eq]
        omega
    unfold saves
    rw [hpassed, hevents]
    exact h.counts n
  · rw [hstreams] at hs
    rw [hledger]
    rcases List.mem_append.mp hs with hs | hs
    · exact h.within s hs
    · rw [List.mem_singleton.mp hs]
      exact ⟨Nat.le_refl _, Nat.le_refl _⟩
  · rw [hstreams, List.countP_append, List.countP_singleton]
    split
    · next heq =>
      have hnone : w.streams.countP (fun s => s.endpoint = e) = 0 :=
        List.countP_eq_zero.mpr fun s hs => by
          have := hnew s hs
          simpa [← of_decide_eq_true heq] using this
      omega
    · exact h.single e
  · rw [hstreams] at hs
    rcases List.mem_append.mp hs with hs | hs
    · exact h.opened s hs
    · rw [List.mem_singleton.mp hs]

/-- A stream delivers its next operation. -/
theorem Books.deliver {w' : World} {id n : Nat} {endpoint : Endpoint} {op : HorizonOperation}
    (h : Books w gs) (hg : gs[i]? = some .idle)
    (hx : w.deliver id = some ((n, endpoint, op), w')) :
    endpoint.lists op = true ∧
      Books w' (gs.set i (if endpoint.keeps op then .handling n else .idle)) := by
  unfold World.deliver at hx
  split at hx
  · next s hs =>
    split at hx
    · next op' n' _ hnext =>
      cases hx
      obtain ⟨hn, hpos, hlists, -⟩ := next_spec hnext
      have hmem := List.mem_of_getElem? hs
      have hwithin := h.within s hmem
      refine ⟨hlists, fun m => ?_, fun s' hs' => ?_, fun e => ?_, fun s' hs' => ?_⟩
      · have hsum := sum_map_set (f := Point.holds m)
          (k := if s.endpoint.keeps op then .handling n else .idle) hg
        have hcount := countP_set hs { s with position := n + 1 } (Passed w.ledger m)
        rw [passed_deliver hnext hwithin.1] at hcount
        have hcounts := h.counts m
        have hholds : Point.holds m (if s.endpoint.keeps op then .handling n else .idle) =
            if n = m ∧ s.endpoint.keeps op = true then 1 else 0 := by
          split <;> simp_all [Point.holds]
        have hidle : Point.holds m .idle = 0 := rfl
        -- what it passes now, it had not passed
        have hnot : Passed w.ledger m s = true → ¬ (n = m ∧ s.endpoint.keeps op = true) := by
          rintro hpassed ⟨rfl, -⟩
          have := (of_decide_eq_true hpassed).2.1
          omega
        have hcountm : (w.streams.set id { s with position := n + 1 }).countP (Passed w.ledger m) =
            passed m w + if n = m ∧ s.endpoint.keeps op = true then 1 else 0 := by
          unfold passed
          cases hp : Passed w.ledger m s with
          | true =>
            rw [if_neg (hnot hp)]
            rw [hp] at hcount
            simpa using hcount
          | false =>
            rw [hp] at hcount
            simpa using hcount
        show saves m w + _ = (w.streams.set id _).countP (Passed w.ledger m)
        rw [hcountm]
        omega
      · rcases List.mem_or_eq_of_mem_set hs' with hs' | rfl
        · exact h.within s' hs'
        · have := (List.getElem?_eq_some_iff.mp hn).1
          exact ⟨by show s.cursor ≤ n + 1; omega, this⟩
      · have hcount := countP_set hs { s with position := n + 1 } fun s => s.endpoint = e
        have := h.single e
        show (w.streams.set id _).countP _ ≤ 1
        dsimp only at hcount ⊢
        omega
      · rcases List.mem_or_eq_of_mem_set hs' with hs' | rfl
        · exact h.opened s' hs'
        · exact h.opened s hmem
    · cases hx
  · cases hx

/-- The operation that a task holds is saved. -/
theorem Books.save {n : Nat} {event : StellarEvent} (h : Books w gs)
    (hg : gs[i]? = some (.handling n)) :
    Books { w with events := (n, event) :: w.events } (gs.set i .idle) := by
  refine ⟨fun m => ?_, h.within, h.single, h.opened⟩
  have hsum := sum_map_set (f := Point.holds m) (k := .idle) hg
  have hcounts := h.counts m
  have hsaves : saves m { w with events := (n, event) :: w.events } =
      saves m w + Point.holds m (.handling n) := by
    unfold saves Point.holds
    rw [List.countP_cons]
    simp
  have hidle : Point.holds m .idle = 0 := rfl
  show _ = passed m w
  rw [hsaves]
  omega

/-- **One answer.** -/
theorem Books.answered {c : Outside} {w' : World} {a : Request} {r : Answer a} (h : Books w gs)
    (hg : gs[i]? = some g) (hasks : asks g a) (hopens : OpensOnce w c.rejects a)
    (hstays : NotStop a) (hx : answer c w a = some (r, w')) :
    told g a r ∧ Books w' (gs.set i (next g a r)) := by
  cases g with
  | handling n =>
    obtain rfl | ⟨event, rfl⟩ := hasks
    · cases hx
      exact ⟨trivial, h.same hg rfl rfl rfl⟩
    · rcases attempt_cases hx with ⟨e, hrejects, -, -⟩ | ⟨-, -, rfl⟩
      · cases hrejects.symm.trans hopens
      · exact ⟨trivial, h.save hg⟩
  | idle =>
    cases a with
    | apply op =>
      cases hx
      exact ⟨trivial, (h.same hg rfl rfl rfl).apply op⟩
    | deliver stream => exact h.deliver hg hx
    | startStreams sequence =>
      cases hx
      have hnone : ∀ s ∈ w.streams, s.endpoint ≠ .payments := by
        rw [show w.streams = [] from hopens]
        exact nofun
      have hsame : Books { w with lastLedgerSequence := sequence } (gs.set i .idle) :=
        h.same hg rfl rfl rfl
      refine ⟨trivial, (hsame.open hnone).open fun s hs => ?_⟩
      have hs : s ∈ w.streams ++ [⟨.payments, w.ledger.length, w.ledger.length, true⟩] := hs
      rw [show w.streams = [] from hopens, List.nil_append, List.mem_singleton] at hs
      rw [hs]
      exact nofun
    | restart endpoint =>
      cases hx
      refine ⟨trivial, ?_⟩
      split
      · next hmonitoring => exact (h.same hg rfl rfl rfl).open (hopens hmonitoring)
      · exact h.same hg rfl rfl rfl
    | stop => cases hstays
    | save n event => cases hasks
    | latestLedger =>
      rcases attempt_cases hx with ⟨e, -, -, rfl⟩ | ⟨-, -, rfl⟩ <;>
        exact ⟨trivial, h.same hg rfl rfl rfl⟩
    | queueEventForDelivery event =>
      rcases attempt_cases hx with ⟨e, -, -, rfl⟩ | ⟨-, -, rfl⟩ <;>
        exact ⟨trivial, h.same hg rfl rfl rfl⟩
    | begin | fail | sleep _ | randomUUID =>
      cases hx
      exact ⟨trivial, h.same hg rfl rfl rfl⟩

/-- Only one stream can have passed an operation. -/
theorem Books.passed_le_one (h : Books w gs) (n : Nat) : passed n w ≤ 1 := by
  unfold passed
  cases hn : w.ledger[n]? with
  | none =>
    rw [List.countP_eq_zero.mpr fun s _ => by simp [Passed, hn]]
    omega
  | some op =>
    by_cases hkept : ∃ e : Endpoint, e.keeps op = true
    · obtain ⟨e, he⟩ := hkept
      refine Nat.le_trans (List.countP_mono_left fun s _ hs => ?_) (h.single e)
      have hkeeps := (of_decide_eq_true hs).2.2
      rw [hn] at hkeeps
      exact decide_eq_true (Endpoint.eq_of_keeps hkeeps he)
    · rw [List.countP_eq_zero.mpr fun s _ hs => ?_]
      · omega
      · have hkeeps := (of_decide_eq_true hs).2.2
        rw [hn] at hkeeps
        exact hkept ⟨_, hkeeps⟩

end Ingestion

def samplePayment : HorizonOperation :=
  { type := "payment", created_at := 0, transaction_hash := "hash", source_account := "account",
    ledger := 1 }

def sampleWorld : World :=
  { ledger := [], streams := [], paymentStream := none, offerStream := none, isMonitoring := false,
    lastLedgerSequence := 0, events := [], uuids := 0 }

def undisturbed : Outside := { sequence := 0, rejects := none }

end Stellara.Monitor
