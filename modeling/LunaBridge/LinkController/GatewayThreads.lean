import LunaBridge.LinkController.BridgeFiles
import LunaBridge.LinkController.WorkerGateway

/-!
# GatewayThreads — the two threads of `worker_gateway`, step by step

The reader thread takes packets off the capture, writes them down and admits them; the main thread
drains the gateway onto the link until the schedule ends, writes down what is still queued, closes
the two files and exits, whatever the reader is doing.  A list of `ThreadStep`s is an interleaving
of the two: it says which thread moves, and what the clock shows it.  A thread that cannot make the
step it is told to stays where it is.  What ends the reader with an exception leaves the main thread
running; an exception in the main thread ends the run.
-/

namespace LunaBridge
namespace LinkController

open Foundation Foundation.Python Gateway

/-! ## States -/

/-- What the threads read and never write. -/
structure ThreadConfig where
  gw : LiveGateway
  qmap : Dict ℕ ℕ
  C : List (ℚ × ℚ)
  rateBps : ℚ
  t0 : ℚ
  t1 : ℚ

/-- Where the reader is. -/
inductive Reader
  /-- In `gtpu_packets`. -/
  | waiting
  /-- The packet has its number and its payload. -/
  | encapsulated (e : Encapsulated)
  /-- Its line is in `sent.jsonl`. -/
  | recorded (e : Encapsulated)
  /-- In `gw.admit`, under the lock of the gateway, with these entries still to be logged. -/
  | admitting (entries : List LogEntry)
  /-- The loop has ended. -/
  | done
  /-- An exception has ended the thread where it was. -/
  | failed (err : PyError) (place : Reader)
  deriving DecidableEq, Repr

/-- The lock of the gateway is taken. -/
def Reader.holdsLock : Reader → Bool
  | .admitting _ => true
  | _ => false

/-- Where the main thread is. -/
inductive Drainer
  /-- At the top of the loop. -/
  | looping
  /-- About to call `next`. -/
  | popping (now : ℚ)
  /-- `next` has returned a bundle. -/
  | forwarding (b : LiveBundle) (now : ℚ)
  /-- The loop has ended. -/
  | closing
  /-- The snapshot has been taken, and these bundles are not written down yet. -/
  | reporting (left : List LiveBundle)
  /-- `out` is closed. -/
  | sentClosed
  /-- So is `evf`. -/
  | closed
  /-- The process is gone. -/
  | exited
  deriving DecidableEq, Repr

/-- `sent.jsonl` takes no more lines. -/
def Drainer.sentShut : Drainer → Bool
  | .sentClosed => true
  | .closed => true
  | .exited => true
  | _ => false

/-- Nor does `gw.jsonl`. -/
def Drainer.eventsShut : Drainer → Bool
  | .closed => true
  | .exited => true
  | _ => false

/-- What a write to a file that is closed raises. -/
def closedFile : PyError := .valueError "I/O operation on closed file."

/-- The process: the gateway, the counters of the reader with the packets it has numbered, the two
threads, the two files, and the payloads handed to the nodes. -/
structure Threads where
  live : LiveState
  intake : Intake
  reader : Reader
  drainer : Drainer
  tFree : ℚ
  sent : List SentLine
  events : List GatewayLine
  wire : List (List UInt8)

def Threads.start : Threads where
  live := .initial
  intake := .start
  reader := .waiting
  drainer := .looping
  tFree := 0
  sent := []
  events := []
  wire := []

/-! ## Steps -/

/-- A step of the reader, with what the clock shows it. -/
inductive ReaderStep
  /-- The generator yields a packet. -/
  | packet (now : ℚ) (p : GtpuPacket)
  /-- The generator has ended. -/
  | streamEnd
  /-- The generator raises an error over a frame. -/
  | malformed (err : PyError)
  /-- The line of the packet is written. -/
  | record
  /-- `gw.admit` gets the lock. -/
  | admitBundle
  /-- `gw.admit` logs its next line, or returns if there is none. -/
  | logLine
  deriving DecidableEq, Repr

/-- A step of the main thread, with what the clock shows it. -/
inductive DrainerStep
  /-- The test of the loop, and what comes before `next`. -/
  | poll (checked now : ℚ)
  /-- `gw.next`. -/
  | pop
  /-- The bundle is sent and written down. -/
  | forward
  /-- `gw.snapshot`. -/
  | snapshot
  /-- One of the bundles left is written down. -/
  | report (now : ℚ)
  /-- `out.close()`. -/
  | closeSent
  /-- `evf.close()`. -/
  | closeEvents
  /-- `os._exit`. -/
  | exit
  deriving DecidableEq, Repr

/-- A step of one of the threads. -/
inductive ThreadStep
  | reader (st : ReaderStep)
  | drainer (st : DrainerStep)
  deriving DecidableEq, Repr

/-- `log`, called by the gateway. -/
def LogEntry.line (e : LogEntry) : GatewayLine where
  ev := match e.event with
    | .evict => .evict
    | .drop => .drop
    | .expire => .expire
  seq := e.bundle.ref
  cls := e.bundle.cls
  t := e.now

/-- `log`, called by the main thread. -/
def LiveBundle.line (b : LiveBundle) (ev : GatewayEvent) (t : ℚ) : GatewayLine :=
  { ev := ev, seq := b.ref, cls := b.cls, t := t }

/-- What the gateway holds for a class, class by class. -/
def LiveState.left (s : LiveState) : List LiveBundle := rankClasses.flatMap s.snapshot

namespace Threads

variable (cfg : ThreadConfig) (s : Threads)

/-- The gateway after a call of the main thread, and the lines the call has logged. -/
def called (live : LiveState) : Threads :=
  { s with
    live := live
    events := s.events ++ (live.log.drop s.live.log.length).map LogEntry.line }

/-- The loop body of the reader, up to the payload. -/
def readPacket (now : ℚ) (p : GtpuPacket) : Threads :=
  if cfg.t1 ≤ now then
    { s with reader := .done }
  else if now < cfg.t0 then
    s
  else
    let intake := s.intake.classify cfg.qmap now p
    { s with
      intake := intake
      -- nothing is passed on of a packet with an unknown TEID
      reader := match intake.passed.drop s.intake.passed.length with
        | [] => .waiting
        | e :: _ => .encapsulated e }

/-- The loop body of the main thread, up to `next`. -/
def pollClock (checked now : ℚ) : Threads :=
  if cfg.t1 ≤ checked then { s with drainer := .closing }
  else if ¬ inContact cfg.C now then s
  else if now < s.tFree then s
  else { s with drainer := .popping now }

/-- The rest of the loop body.  The payload is that of the packet the reader has given this
number. -/
def forwardBundle (b : LiveBundle) (now : ℚ) : Except PyError Threads :=
  match s.intake.passed[b.ref]? with
  | none => .error .indexError
  | some e =>
      if cfg.rateBps = 0 then
        .error .zeroDivisionError
      else
        .ok { s with
          wire := s.wire ++ [e.payload]
          events := s.events ++ [b.line .fwd now]
          tFree := nearestDouble (max s.tFree now +
            nearestDouble (nearestDouble (b.n * 8) / cfg.rateBps))
          drainer := .looping }

/-- One step of the reader.  `gw.admit` has its effect when it gets the lock, since nobody else
looks at the gateway before it is given back; its lines come one by one. -/
def readerStep : ReaderStep → Threads
  | .packet now p =>
      match s.reader with
      | .waiting => s.readPacket cfg now p
      | _ => s
  | .streamEnd =>
      match s.reader with
      | .waiting => { s with reader := .done }
      | _ => s
  | .malformed err =>
      match s.reader with
      | .waiting => { s with reader := .failed err .waiting }
      | _ => s
  | .record =>
      match s.reader with
      | .encapsulated e =>
          if s.drainer.sentShut then
            { s with reader := .failed closedFile (.encapsulated e) }
          else
            { s with sent := s.sent ++ [e.sentLine], reader := .recorded e }
      | _ => s
  | .admitBundle =>
      match s.reader with
      | .recorded e =>
          match cfg.gw.admitBundle e.bundle e.t s.live with
          | .ok _ live =>
              { s with live := live, reader := .admitting (live.log.drop s.live.log.length) }
          | .error err live => { s with live := live, reader := .failed err (.recorded e) }
      | _ => s
  | .logLine =>
      match s.reader with
      | .admitting [] => { s with reader := .waiting }
      | .admitting (entry :: entries) =>
          if s.drainer.eventsShut then
            -- nothing of the gateway is read any more, so that the call may count as complete
            { s with reader := .failed closedFile (.admitting (entry :: entries)) }
          else
            { s with events := s.events ++ [entry.line], reader := .admitting entries }
      | _ => s

/-- One step of the main thread. -/
def drainerStep : DrainerStep → Except PyError Threads
  | .poll checked now =>
      match s.drainer with
      | .looping => .ok (s.pollClock cfg checked now)
      | _ => .ok s
  | .pop =>
      match s.drainer with
      | .popping now =>
          if s.reader.holdsLock then .ok s
          else
            match cfg.gw.next now s.live with
            | .ok none live => .ok { s.called live with drainer := .looping }
            | .ok (some b) live => .ok { s.called live with drainer := .forwarding b now }
            | .error err _ => .error err
      | _ => .ok s
  | .forward =>
      match s.drainer with
      | .forwarding b now => s.forwardBundle cfg b now
      | _ => .ok s
  | .snapshot =>
      match s.drainer with
      | .closing =>
          if s.reader.holdsLock then .ok s
          else .ok { s with drainer := .reporting s.live.left }
      | _ => .ok s
  | .report now =>
      match s.drainer with
      | .reporting (b :: left) =>
          .ok { s with
            events := s.events ++ [b.line .queuedAtEnd now]
            drainer := .reporting left }
      | _ => .ok s
  | .closeSent =>
      match s.drainer with
      | .reporting [] => .ok { s with drainer := .sentClosed }
      | _ => .ok s
  | .closeEvents =>
      match s.drainer with
      | .sentClosed => .ok { s with drainer := .closed }
      | _ => .ok s
  | .exit =>
      match s.drainer with
      | .closed => .ok { s with drainer := .exited }
      | _ => .ok s

/-- One step. -/
def step : ThreadStep → Except PyError Threads
  | .reader st => .ok (if s.drainer = .exited then s else s.readerStep cfg st)
  | .drainer st => s.drainerStep cfg st

/-- Any number of steps. -/
def run (steps : List ThreadStep) : Except PyError Threads := steps.foldlM (step cfg) s

end Threads

end LinkController
end LunaBridge
