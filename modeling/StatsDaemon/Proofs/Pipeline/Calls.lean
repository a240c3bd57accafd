import Mathlib
import StatsDaemon.Pipeline.Intake
import StatsDaemon.Proofs.Pipeline.Dispatch

namespace StatsDaemon.Pipeline

inductive Counter where
  | packets
  | bytes
  | lines
  | metrics
  | events
  | readErrors
  | truncated
  | metricsDropped
  | eventsDropped
  | cacheHits
  | cacheMisses
  deriving DecidableEq

namespace Counts

def get (c : Counts) : Counter → Nat
  | .packets => c.packets
  | .bytes => c.bytes
  | .lines => c.lines
  | .metrics => c.metrics
  | .events => c.events
  | .readErrors => c.readErrors
  | .truncated => c.truncated
  | .metricsDropped => c.metricsDropped
  | .eventsDropped => c.eventsDropped
  | .cacheHits => c.cacheHits
  | .cacheMisses => c.cacheMisses

def set (c : Counts) (counter : Counter) (n : Nat) : Counts :=
  match counter with
  | .packets => { c with packets := n }
  | .bytes => { c with bytes := n }
  | .lines => { c with lines := n }
  | .metrics => { c with metrics := n }
  | .events => { c with events := n }
  | .readErrors => { c with readErrors := n }
  | .truncated => { c with truncated := n }
  | .metricsDropped => { c with metricsDropped := n }
  | .eventsDropped => { c with eventsDropped := n }
  | .cacheHits => { c with cacheHits := n }
  | .cacheMisses => { c with cacheMisses := n }

def add (c : Counts) (counter : Counter) (n : Nat) : Counts :=
  c.set counter (c.get counter + n)

theorem get_set (c : Counts) (counter other : Counter) (n : Nat) :
    (c.set counter n).get other = if other = counter then n else c.get other := by
  cases counter <;> cases other <;> rfl

@[simp] theorem badLines_set (c : Counts) (counter : Counter) (n : Nat) :
    (c.set counter n).badLines = c.badLines := by
  cases counter <;> rfl

end Counts

-- What a call has left to do. The steps that look at something go on with what they see.
inductive Program where
  | done
  | count (counter : Counter) (amount : Nat) (next : Program)
  | countFault (fault : Line.Fault) (next : Program)
  | logFault (fault : Line.Fault) (next : Program)
  | log (entry : Logging.Entry) (next : Program)
  | lookUp (source : Option String) (tags : Tags)
      (next : Option Hosts.CacheStatus → Tags → Program)
  -- Takes the next number of the rotation.
  | turn (next : UInt64 → Program)
  | offer (worker : Nat) (share : Share Binary64) (next : Bool → Program)

structure Commons where
  intake : Intake
  journal : Journal := {}

namespace Commons

variable (s : Commons)

def count (counter : Counter) (amount : Nat) : Commons :=
  { s with intake := { s.intake with counts := s.intake.counts.add counter amount } }

def countFault (fault : Line.Fault) : Commons :=
  { s with intake := { s.intake with counts := s.intake.counts.addBadLine fault.label } }

def log (entry : Logging.Entry) : Commons :=
  { s with journal := { s.journal with log := s.journal.log ++ [entry] } }

def logFault (fault : Line.Fault) (now : Nat) : Commons :=
  let (limiter, logged) := Limiter.allow s.intake.limiter now
  let s := { s with intake := { s.intake with limiter } }
  if logged then s.log ⟨.warn, "dropped malformed line", some fault.message⟩ else s

def lookUp (source : Option String) (tags : Tags) (now : Nat) :
    Option Hosts.CacheStatus × Tags × Commons :=
  match s.intake.delivery.hosts, source with
  | some directory, some source =>
    let (directory, status, tags, measurements) := directory.apply source tags now
    (some status, tags,
      { intake :=
          { s.intake with delivery := { s.intake.delivery with hosts := some directory } }
        journal :=
          { s.journal with measurements := s.journal.measurements ++ measurements } })
  | _, _ => (none, tags, s)

def setDispatcher (dispatcher : Dispatcher Binary64) : Commons :=
  { s with intake := { s.intake with delivery := { s.intake.delivery with dispatcher } } }

def turn : UInt64 × Commons :=
  let dispatcher := s.intake.delivery.dispatcher
  (dispatcher.rotation, s.setDispatcher { dispatcher with rotation := dispatcher.rotation + 1 })

def offer (worker : Nat) (share : Share Binary64) : Bool × Commons :=
  let dispatcher := s.intake.delivery.dispatcher
  match dispatcher.queues[worker]?.bind (·.offer? share) with
  | some queue =>
    (true, s.setDispatcher { dispatcher with queues := dispatcher.queues.set worker queue })
  | none => (false, s)

def after (j : Journal) : Commons :=
  { s with journal := j ++ s.journal }

theorem log_after (j : Journal) (entry : Logging.Entry) :
    (s.after j).log entry = (s.log entry).after j := by
  simp [log, after, Journal.append_def, List.append_assoc]

theorem logFault_after (j : Journal) (fault : Line.Fault) (now : Nat) :
    (s.after j).logFault fault now = (s.logFault fault now).after j := by
  obtain ⟨intake, journal⟩ := s
  cases logged : (Limiter.allow intake.limiter now).2 with
  | true => simp [logFault, log, after, logged, Journal.append_def, List.append_assoc]
  | false => simp [logFault, after, logged]

theorem lookUp_after (j : Journal) (source : Option String) (tags : Tags) (now : Nat) :
    (s.after j).lookUp source tags now =
      let (status, tags, s) := s.lookUp source tags now
      (status, tags, s.after j) := by
  obtain ⟨intake, journal⟩ := s
  simp only [lookUp, after]
  split
  · simp [Journal.append_def, List.append_assoc]
  · rfl

theorem offer_after (j : Journal) (worker : Nat) (share : Share Binary64) :
    (s.after j).offer worker share =
      let (taken, s) := s.offer worker share
      (taken, s.after j) := by
  obtain ⟨intake, journal⟩ := s
  simp only [offer, after]
  split <;> rfl

@[simp] theorem counts_logFault (fault : Line.Fault) (now : Nat) :
    (s.logFault fault now).intake.counts = s.intake.counts := by
  simp only [logFault]
  split <;> rfl

@[simp] theorem counts_lookUp (source : Option String) (tags : Tags) (now : Nat) :
    (s.lookUp source tags now).2.2.intake.counts = s.intake.counts := by
  simp only [lookUp]
  split <;> rfl

@[simp] theorem counts_offer (worker : Nat) (share : Share Binary64) :
    (s.offer worker share).2.intake.counts = s.intake.counts := by
  simp only [offer]
  split <;> rfl

end Commons

namespace Program

def step (now : Nat) : Program × Commons → Program × Commons
  | (.done, s) => (.done, s)
  | (.count counter amount next, s) => (next, s.count counter amount)
  | (.countFault fault next, s) => (next, s.countFault fault)
  | (.logFault fault next, s) => (next, s.logFault fault now)
  | (.log entry next, s) => (next, s.log entry)
  | (.lookUp source tags next, s) =>
    let (status, tags, s) := s.lookUp source tags now
    (next status tags, s)
  | (.turn next, s) =>
    let (number, s) := s.turn
    (next number, s)
  | (.offer worker share next, s) =>
    let (taken, s) := s.offer worker share
    (next taken, s)

def readLines (rules : Line.Rules) (next : Records Binary64 → Program) :
    List (Except Line.Fault Line.Record) → Records Binary64 → Program
  | [], records => next records
  | .ok (.metric m) :: rest, records =>
    let rest := readLines rules next rest { records with metrics := records.metrics ++ [m] }
    .count .lines 1 (if rules.logMetrics then .log ⟨.info, "received metric", none⟩ rest else rest)
  | .ok (.event e) :: rest, records =>
    .count .lines 1 (readLines rules next rest { records with events := records.events ++ [e] })
  | .error fault :: rest, records =>
    .count .lines 1 (.countFault fault (.logFault fault (readLines rules next rest records)))

def countLookUp (status : Option Hosts.CacheStatus) (next : Program) : Program :=
  match status with
  | none => next
  | some .miss => .count .cacheMisses 1 next
  | some .hit | some .negative => .count .cacheHits 1 next

-- Gives the metrics the tags of their hosts, and then their identities.
def tagMetrics (next : List (KeyedMetric Binary64) → Program) :
    List (Metric Binary64) → List (KeyedMetric Binary64) → Program
  | [], keyed => next keyed
  | m :: rest, keyed =>
    .lookUp m.source m.tags fun status tags =>
      countLookUp status (tagMetrics next rest (keyed ++ [{ m with tags }.keyed]))

def tagEvents (workers : Nat) (next : List (Nat × Event) → Program) :
    List Event → List (Nat × Event) → Program
  | [], assigned => next assigned
  | e :: rest, assigned =>
    .lookUp e.source e.tags fun status tags =>
      countLookUp status (.turn fun number =>
        tagEvents workers next rest (assigned ++ [(number.toNat % workers, { e with tags })]))

def offerAll (share : Nat → Share Binary64) : List Nat → Program
  | [] => .done
  | worker :: rest =>
    if (share worker).isEmpty then offerAll share rest
    else .offer worker (share worker) fun taken =>
      if taken then offerAll share rest
      else .count .metricsDropped (share worker).metrics.length
        (.count .eventsDropped (share worker).events.length (offerAll share rest))

def dispatch (workers : Nat) (records : Records Binary64) : Program :=
  if workers = 0 then .done
  else tagMetrics
    (fun metrics => tagEvents workers
      (fun events => offerAll (Share.of metrics events workers) (List.range workers))
      records.events [])
    records.metrics []

def results (rules : Line.Rules) (batch : List Datagram) :
    List (Except Line.Fault Line.Record) :=
  batch.flatMap fun d => Line.readAll rules (some d.source.text) d.data

def handle (rules : Line.Rules) (workers : Nat) (batch : List Datagram) : Program :=
  readLines rules
    (fun records =>
      .count .metrics records.metrics.length
        (.count .events records.events.length (dispatch workers records)))
    (results rules batch) {}

def run (now : Nat) : Program → Commons → Commons
  | .done, s => s
  | .count counter amount next, s => run now next (s.count counter amount)
  | .countFault fault next, s => run now next (s.countFault fault)
  | .logFault fault next, s => run now next (s.logFault fault now)
  | .log entry next, s => run now next (s.log entry)
  | .lookUp source tags next, s =>
    let (status, tags, s) := s.lookUp source tags now
    run now (next status tags) s
  | .turn next, s =>
    let (number, s) := s.turn
    run now (next number) s
  | .offer worker share next, s =>
    let (taken, s) := s.offer worker share
    run now (next taken) s

theorem iterate_step (now : Nat) (p : Program) (s : Commons) :
    ∃ n, (step now)^[n] (p, s) = (.done, p.run now s) := by
  induction p generalizing s with
  | done => exact ⟨0, rfl⟩
  | count _ _ _ ih | countFault _ _ ih | logFault _ _ ih | log _ _ ih =>
    obtain ⟨n, h⟩ := ih _
    exact ⟨n + 1, h⟩
  | lookUp _ _ _ ih =>
    obtain ⟨n, h⟩ := ih _ _ _
    exact ⟨n + 1, h⟩
  | turn _ ih | offer _ _ _ ih =>
    obtain ⟨n, h⟩ := ih _ _
    exact ⟨n + 1, h⟩

section

variable (now : Nat)

def reading (s : Commons) (r : Intake.Reading) : Commons :=
  { intake := { s.intake with limiter := r.limiter, counts := r.counts }
    journal := { s.journal with log := r.log } }

theorem run_readLines (rules : Line.Rules) (next : Records Binary64 → Program)
    (lines : List (Except Line.Fault Line.Record)) (s : Commons) (r : Intake.Reading) :
    (readLines rules next lines r.records).run now (reading s r) =
      (next (lines.foldl (Intake.Reading.add rules now) r).records).run now
        (reading s (lines.foldl (Intake.Reading.add rules now) r)) := by
  induction lines generalizing r with
  | nil => rfl
  | cons line rest ih =>
    rw [List.foldl_cons, ← ih]
    match line with
    | .ok (.metric m) =>
      by_cases logged : rules.logMetrics <;>
        simp only [readLines, logged, run, Intake.Reading.add, Intake.Reading.addMetric] <;> rfl
    | .ok (.event e) => rfl
    | .error fault =>
      simp only [readLines, run, Intake.Reading.add, Intake.Reading.addFault, Commons.logFault]
      simp only [reading, Commons.count, Commons.countFault]
      by_cases logged : (Limiter.allow r.limiter now).2 <;> simp only [logged] <;> rfl

def tagging (s : Commons) (hosts : Option Hosts.Directory) (receipt : Receipt) : Commons :=
  { intake :=
      { s.intake with
        counts := receipt.counts
        delivery := { s.intake.delivery with hosts } }
    journal := { s.journal with measurements := receipt.measurements } }

theorem run_lookUp (source : Option String) (tags : Tags) (next : Tags → Program) (s : Commons)
    (hosts : Option Hosts.Directory) (receipt : Receipt) :
    (lookUp source tags fun status tags => countLookUp status (next tags)).run now
        (tagging s hosts receipt) =
      let (hosts, tags, receipt) := Delivery.enrich hosts source tags now receipt
      (next tags).run now (tagging s hosts receipt) := by
  match hosts, source with
  | none, _ | some _, none => rfl
  | some directory, some source =>
    simp only [run, Commons.lookUp, tagging, Delivery.enrich]
    rcases directory.apply source tags now with ⟨directory, status, tags, measurements⟩
    cases status <;> rfl

theorem run_tagMetrics (next : List (KeyedMetric Binary64) → Program)
    (metrics : List (Metric Binary64)) (keyed : List (KeyedMetric Binary64)) (s : Commons)
    (hosts : Option Hosts.Directory) (receipt : Receipt) :
    (tagMetrics next metrics keyed).run now (tagging s hosts receipt) =
      let (hosts, tagged, receipt) := Delivery.enrichMetrics hosts now receipt metrics
      (next (keyed ++ tagged.map Metric.keyed)).run now (tagging s hosts receipt) := by
  induction metrics generalizing keyed hosts receipt with
  | nil => simp [tagMetrics, Delivery.enrichMetrics]
  | cons m rest ih =>
    rw [tagMetrics, run_lookUp]
    simp [ih, Delivery.enrichMetrics]

theorem run_tagEvents (workers : Nat) (next : List (Nat × Event) → Program) (events : List Event)
    (assigned : List (Nat × Event)) (s : Commons) (hosts : Option Hosts.Directory)
    (receipt : Receipt) :
    let dispatcher := s.intake.delivery.dispatcher
    (tagEvents workers next events assigned).run now (tagging s hosts receipt) =
      let (hosts, tagged, receipt) := Delivery.enrichEvents hosts now receipt events
      (next (assigned ++ Dispatcher.assign workers dispatcher.rotation tagged)).run now
        (tagging (s.setDispatcher
          { dispatcher with rotation := dispatcher.rotation + .ofNat tagged.length })
          hosts receipt) := by
  induction events generalizing assigned s hosts receipt with
  | nil => simp [tagEvents, Delivery.enrichEvents, Dispatcher.assign, Commons.setDispatcher]
  | cons e rest ih =>
    have looked := run_lookUp now e.source e.tags (fun tags => .turn fun number =>
      tagEvents workers next rest
        (assigned ++ [(number.toNat % workers, ({ e with tags } : Event))])) s hosts receipt
    refine looked.trans ?_
    simp only [Delivery.enrichEvents]
    rcases Delivery.enrich hosts e.source e.tags now receipt with ⟨hosts, tags, receipt⟩
    -- the next number is taken from the rotation, which the rest of the events finds raised
    have turned := ih (assigned ++ [(s.intake.delivery.dispatcher.rotation.toNat % workers,
      ({ e with tags } : Event))]) s.turn.2 hosts receipt
    refine turned.trans ?_
    rcases Delivery.enrichEvents hosts now receipt rest with ⟨hosts, tagged, receipt⟩
    have raised : s.intake.delivery.dispatcher.rotation + UInt64.ofNat (tagged.length + 1) =
        s.intake.delivery.dispatcher.rotation + 1 + UInt64.ofNat tagged.length := by
      rw [UInt64.ofNat_add, add_comm (UInt64.ofNat _), add_assoc]
      rfl
    simp only [List.length_cons, raised, Dispatcher.assign, List.append_assoc, List.singleton_append]
    rfl

def offering (s : Commons) (queues : List (Queue (Share Binary64))) (loss : Loss) : Commons :=
  { s with
    intake :=
      { s.intake with
        counts := (Receipt.countLoss { counts := s.intake.counts } loss).counts
        delivery :=
          { s.intake.delivery with
            dispatcher := { s.intake.delivery.dispatcher with queues } } } }

theorem run_offerAll (share : Nat → Share Binary64) (before after : List (Queue (Share Binary64)))
    (s : Commons) (loss : Loss) :
    (offerAll share (List.range' before.length after.length)).run now
        (offering s (before ++ after) loss) =
      let (queues, more) := Dispatcher.enqueueAll share before.length after
      offering s (before ++ queues) (loss.add more) := by
  induction after generalizing before loss with
  | nil => rfl
  | cons q rest ih =>
    have onward (r : Queue (Share Binary64)) (lost : Loss) :
        (offerAll share (List.range' (before.length + 1) rest.length)).run now
            (offering s (before ++ r :: rest) (loss.add lost)) =
          let (queues, more) := Dispatcher.enqueueAll share (before.length + 1) rest
          offering s (before ++ r :: queues) (loss.add (lost.add more)) := by
      simpa [Loss.add, Nat.add_assoc] using ih (before ++ [r]) (loss.add lost)
    have target : (offering s (before ++ q :: rest) loss).intake.delivery.dispatcher.queues[
        before.length]? = some q := by
      simp [offering]
    rw [List.length_cons, List.range'_succ, offerAll, Dispatcher.enqueueAll]
    rcases Dispatcher.enqueue_cases q (share before.length) with
      ⟨empty, enqueued⟩ | ⟨full, r, offered, -, enqueued⟩ | ⟨full, offered, enqueued⟩
    · simpa [empty, enqueued, Loss.add] using onward q {}
    · simp only [full, enqueued, Bool.false_eq_true, if_false, run, Commons.offer, target,
        Option.bind_some, offered, if_true]
      simpa [offering, Commons.setDispatcher, Loss.add] using onward r {}
    · simp only [full, enqueued, Bool.false_eq_true, if_false, run, Commons.offer, target,
        Option.bind_some, offered]
      simpa [offering, Receipt.countLoss, Commons.count, Counts.add, Counts.get, Counts.set,
        Loss.add, Nat.add_assoc] using onward q ⟨_, _⟩

theorem run_dispatch (records : Records Binary64) (s : Commons) (receipt : Receipt) :
    let delivery := s.intake.delivery
    (dispatch delivery.dispatcher.workers records).run now (tagging s delivery.hosts receipt) =
      let (delivery, receipt) := delivery.deliver records now receipt
      { intake := { s.intake with counts := receipt.counts, delivery }
        journal := { s.journal with measurements := receipt.measurements } } := by
  by_cases idle : s.intake.delivery.dispatcher.queues = []
  · simp [dispatch, Dispatcher.workers, idle, Delivery.deliver, run, tagging]
  · have busy : s.intake.delivery.dispatcher.workers ≠ 0 := by
      simpa [Dispatcher.workers] using idle
    simp only [dispatch, busy, if_false, run_tagMetrics, Delivery.deliver, Dispatcher.dispatch,
      List.isEmpty_iff, idle, List.nil_append]
    rcases Delivery.enrichMetrics s.intake.delivery.hosts now receipt records.metrics with
      ⟨hosts, metrics, receipt⟩
    simp only [run_tagEvents, List.nil_append]
    rcases Delivery.enrichEvents hosts now receipt records.events with ⟨hosts, events, receipt⟩
    have offered := run_offerAll now
      (Share.of (metrics.map Metric.keyed)
        (Dispatcher.assign s.intake.delivery.dispatcher.workers
          s.intake.delivery.dispatcher.rotation events)
        s.intake.delivery.dispatcher.workers)
      [] s.intake.delivery.dispatcher.queues
      (tagging (s.setDispatcher { s.intake.delivery.dispatcher with
        rotation := s.intake.delivery.dispatcher.rotation + .ofNat events.length }) hosts receipt) {}
    simp only [List.nil_append, List.length_nil, Loss.add, Nat.zero_add] at offered
    rw [List.range_eq_range']
    exact offered

theorem run_handle (i : Intake) (batch : List Datagram) :
    (handle i.rules i.delivery.dispatcher.workers batch).run now { intake := i } =
      let (intake, journal) := i.receive batch now
      { intake, journal } := by
  have lines := run_readLines now i.rules (fun records =>
    .count .metrics records.metrics.length (.count .events records.events.length
      (dispatch i.delivery.dispatcher.workers records))) (results i.rules batch) { intake := i }
      { limiter := i.limiter, counts := i.counts }
  refine lines.trans ?_
  simp only [results, List.foldl_flatMap, run]
  exact run_dispatch now _ (reading { intake := i } _) { counts := _ }

-- What was told before has no influence on a call.
theorem run_after (p : Program) (j : Journal) (s : Commons) :
    p.run now (s.after j) = (p.run now s).after j := by
  induction p generalizing s with
  | done => rfl
  | count counter amount next ih => exact ih (s.count counter amount)
  | countFault fault next ih => exact ih (s.countFault fault)
  | logFault fault next ih =>
    rw [run, Commons.logFault_after]
    exact ih _
  | log entry next ih =>
    rw [run, Commons.log_after]
    exact ih _
  | lookUp source tags next ih =>
    rw [run, Commons.lookUp_after]
    exact ih _ _ _
  | turn next ih => exact ih s.turn.1 s.turn.2
  | offer worker share next ih =>
    rw [run, Commons.offer_after]
    exact ih _ _

-- Alone, a call takes its batch in as a whole.
theorem handle_uninterrupted (s : Commons) (batch : List Datagram) :
    (handle s.intake.rules s.intake.delivery.dispatcher.workers batch).run now s =
      let (intake, journal) := s.intake.receive batch now
      { intake, journal := s.journal ++ journal } := by
  have silent : Commons.after { intake := s.intake } s.journal = s := by simp [Commons.after]
  have told := run_after now (handle s.intake.rules s.intake.delivery.dispatcher.workers batch)
    s.journal { intake := s.intake }
  rw [silent, run_handle] at told
  exact told

end

end Program

inductive Cell where
  | badLines
  | counter (counter : Counter)

structure Take where
  left : List Cell
  got : Counts := {}

namespace Take

def start : Take :=
  { left :=
      [.badLines, .counter .packets, .counter .bytes, .counter .lines, .counter .metrics,
        .counter .events, .counter .readErrors, .counter .truncated, .counter .metricsDropped,
        .counter .eventsDropped, .counter .cacheHits, .counter .cacheMisses] }

def step : Take × Counts → Take × Counts
  | (⟨[], got⟩, c) => (⟨[], got⟩, c)
  | (⟨.badLines :: left, got⟩, c) =>
    (⟨left, { got with badLines := got.badLines ++ c.badLines }⟩, { c with badLines := [] })
  | (⟨.counter counter :: left, got⟩, c) =>
    (⟨left, got.add counter (c.get counter)⟩, c.set counter 0)

-- Alone, a take gets all counts and leaves none.
theorem start_uninterrupted (c : Counts) : step^[12] (start, c) = (⟨[], c⟩, {}) := by
  simp [start, step, Counts.add, Counts.set, Counts.get]

end Take

end StatsDaemon.Pipeline
