import OrderDesk.Api.Router
import OrderDesk.Ingest.Run

/-!
The service: a pipeline that brings orders to the desk and an API that reads there. A command is
anything that is done to the service from outside, from a message or a request to a look at what it
holds.
-/

namespace OrderDesk

structure Service where
  pipeline : Pipeline
  exposed : Bool
  described : Bool

inductive Command where
  -- the store
  | upsert (o : Order)
  | storedOrder (uid : String)
  | storedItems (uid : String) (last limit : Int64)
  | storedOrders (limit : Int64)
  | inspect (uid : String)
  | failUpserts (e : OrderError) (times : Nat)
  | failReads (e : Option OrderError)
  | storeState
  -- the cache
  | cacheOrder (o : Order)
  | cachedOrder (uid : String)
  | cachedItems (uid : String) (last limit : Int64)
  | clearCache
  | cacheSize
  -- clients
  | warmUp (limit : Int64)
  | readOrder (uid : String)
  | readItems (uid : String) (last limit : Int64)
  | persist (o : Order)
  | request (method uri : String)
  -- the pipeline
  | script (t : Turn) (times : Nat)
  | process (m : Message) (closeAfter : Option Nat)
  | run (forMillis : Nat) (cancelled : Bool)
  | close
  | mark (key : String)
  | isProcessed (key : String)
  | processedCount
  | purge (age : Span)
  | advanceClock (nanos : Int)
  -- the log
  | push (p : Polled)
  | poll (timeout : Nat)
  | commit (m : Message)
  | refuseCommits (refusing : Bool)
  | answerCommits (refusals : List Bool)
  | logState
  -- metrics
  | metrics
  | describeMetrics

inductive Answer where
  | nothing
  | done
  | failed (e : OrderError)
  | logFailed (e : LogError)
  | order (o : Order)
  | orders (os : List Order)
  | items (xs : List Item)
  | number (n : Nat)
  | truth (b : Bool)
  | processed (r : Except OrderError Outcome) (now : Nat) (calls : List Call)
  | ran (now : Nat) (calls : List Call)
  | polled (p : Polled)
  | response (r : Api.Response)
  | store (s : Store)
  | log (l : ScriptedLog)
  | text (s : String)
  | impossible

namespace Service

def start (settings : IngestSettings) (running exposed : Bool) : Service :=
  ⟨.start settings running, exposed, false⟩

def journal (s : Service) : List Event := s.pipeline.desk.journal

def exposure (s : Service) : Api.Exposure :=
  if s.exposed then (if s.described then .described else .plain) else .hidden

def metricsText (s : Service) : String := Metrics.text s.described s.pipeline.desk.counted

def access {α : Type} (s : Service) (p : Access (Except OrderError α)) (write : α → Answer) :
    Answer × Service :=
  match s.pipeline.access p with
  | (.ok a, w) => (write a, { s with pipeline := w })
  | (.error e, w) => (.failed e, { s with pipeline := w })

def withDesk (s : Service) (f : Desk → Desk) : Service :=
  { s with pipeline := { s.pipeline with desk := f s.pipeline.desk } }

def withLog (s : Service) (f : ScriptedLog → ScriptedLog) : Service :=
  { s with pipeline := { s.pipeline with log := f s.pipeline.log } }

def forgetCalls (s : Service) : Service :=
  { s with pipeline := { s.pipeline with calls := [] } }

def processMessage (s : Service) (m : Message) (closeAfter : Option Nat) : Answer × Service :=
  let (r, w) := match closeAfter with
    | none => s.pipeline.processMessage m
    | some after => s.pipeline.processAndClose m after
  (.processed r w.now w.calls, { s with pipeline := w }.forgetCalls)

def perform (s : Service) : Command → Answer × Service
  | .upsert o => s.access (.perform (.storeOrder o)) .order
  | .storedOrder uid => s.access (.perform (.storedOrder uid)) .order
  | .storedItems uid last limit => s.access (.perform (.storedItems uid last limit)) .items
  | .storedOrders limit => s.access (.perform (.storedOrders limit)) .orders
  | .inspect uid =>
    match s.pipeline.desk.store.shelf.find? uid with
    | some o => (.order o, s)
    | none => (.nothing, s)
  | .failUpserts e times =>
    (.nothing, s.withDesk fun d => { d with store := d.store.failUpserts e times })
  | .failReads e => (.nothing, s.withDesk fun d => { d with store := d.store.failReads e })
  | .storeState => (.store s.pipeline.desk.store, s)
  | .cacheOrder o => (.nothing, s.withDesk fun d => { d with cache := d.cache.set o })
  | .cachedOrder uid => s.access (.perform (.cachedOrder uid)) .order
  | .cachedItems uid last limit => s.access (.perform (.cachedItems uid last limit)) .items
  | .clearCache => (.nothing, s.withDesk fun d => { d with cache := .empty })
  | .cacheSize => (.number s.pipeline.desk.cache.size, s)
  | .warmUp limit => s.access (Desk.warmUp limit) .number
  | .readOrder uid => s.access (Desk.readOrder uid) .order
  | .readItems uid last limit => s.access (Desk.readItems uid last limit) .items
  | .persist o => s.access (Desk.persist o) fun () => .done
  | .request method uri =>
    match Api.Request.ofStrings? method uri with
    | some q =>
      let (r, d) := Api.respond s.exposure q s.pipeline.desk
      (.response r, s.withDesk fun _ => d)
    | none => (.impossible, s)
  | .script t times =>
    (.nothing, { s with
      pipeline := { s.pipeline with turns := s.pipeline.turns ++ List.replicate times t } })
  | .process m closeAfter => s.processMessage m closeAfter
  | .run forMillis cancelled =>
    let w := s.pipeline.run forMillis cancelled
    (.ran w.now w.calls, { s with pipeline := w }.forgetCalls)
  | .close => (.done, { s with pipeline := s.pipeline.close })
  | .mark key => (.nothing, { s with pipeline := s.pipeline.mark key })
  | .isProcessed key => (.truth (s.pipeline.keys.contains key), s)
  | .processedCount => (.number s.pipeline.keys.size, s)
  | .purge age =>
    let (n, w) := s.pipeline.purge age
    (.number n, { s with pipeline := w })
  | .advanceClock nanos =>
    match s.pipeline.clock.advance? nanos with
    | some clock => (.nothing, { s with pipeline := { s.pipeline with clock } })
    | none => (.impossible, s)
  | .push p => (.nothing, s.withLog (·.push p))
  | .poll timeout =>
    let (p, w) := s.pipeline.poll timeout
    (.polled p, { s with pipeline := w })
  | .commit m =>
    match s.pipeline.log.commit m with
    | (.ok (), l) => (.done, s.withLog fun _ => l)
    | (.error e, l) => (.logFailed e, s.withLog fun _ => l)
  | .refuseCommits refusing => (.nothing, s.withLog fun l => { l with refusals := [], refusing })
  | .answerCommits refusals => (.nothing, s.withLog fun l => l.answerCommits refusals)
  | .logState => (.log s.pipeline.log, s)
  | .metrics => (.text s.metricsText, s)
  | .describeMetrics =>
    (.nothing, { s.withDesk (·.note
      ⟨.warn, "Metrics recorder already initialized, skipping re-initialization"⟩) with
      described := true })

def performAll (s : Service) : List Command → List Answer × Service
  | [] => ([], s)
  | c :: cs =>
    let (a, s) := s.perform c
    let (as, s) := s.performAll cs
    (a :: as, s)

end Service

end OrderDesk
