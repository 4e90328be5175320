import DlmmIndexer.Library.EventLoop
import DlmmIndexer.Scanner.Backlog

/-!
# The scanner as calls that overlap

The methods of `ScannerService` are asynchronous: while one awaits the database, the RPC
node or the queue, others run, of the same method or of another one.  `Await` lists the
places where a call can stand, with the variables it needs to go on, and `resume` is the
code from there to the next such place.  A method that awaits another one is remembered
as its `Caller`.

A turn either is the moment at which an awaited operation takes place, or reads and sets
flags, and never both: the flags may have changed between an answer and the code that
reads it.

Nothing restricts when a method is called.  The chain grows meanwhile, and the transaction
processor marks rows.
-/

namespace DlmmIndexer

open Documents Scanner

/-- The flags of the service, and that of `ScannerJobService`. -/
structure ScannerState where
  isBackwardScanComplete : Bool
  isProcessingQueue : Bool
  startupComplete : Bool
  isRunning : Bool
  deriving DecidableEq, Repr

/-- The chain, the collection and the queue. -/
structure Outside where
  history : History
  events : TransactionEvents
  jobs : List TransactionJob
  /-- The rows that the jobs were made of. -/
  served : List (Stored TransactionEvent)

structure ScannerService where
  state : ScannerState
  outside : Outside

/-- Who awaits a call: nobody, `startScanning` that nobody awaits, or `startScanning` that
`runScanner` awaits. -/
inductive Caller where
  | nobody
  | startScanning
  | runScanner
  deriving DecidableEq, Repr

inductive Await where
  /-- `scanForwards`, at `getNewestTransactionLocal` -/
  | newest
  | newer (untilSignature : String)
  | insertNewer (signatures : List ConfirmedSignatureInfo)
  /-- `scanForwards` has returned. -/
  | scanned
  /-- `processUnprocessedTransactions`, at its query or the sleep before it -/
  | unprocessed
  | addBulk (transactions : List (Stored TransactionEvent))
  | updateMany (transactions : List (Stored TransactionEvent))
  /-- The query has found nothing, or has failed. -/
  | drained
  /-- `initializeScanner`, at the two calls of `checkGenesisReached` -/
  | oldest
  | genesis (oldestSignature : String)
  /-- `runBackwardScan`, at its cursor and its two calls -/
  | cursor
  | older (beforeSignature : Option String)
  | insertOlder (oldest : ConfirmedSignatureInfo) (signatures : List ConfirmedSignatureInfo)
  /-- The cursor is known, or the sleep of the loop is over. -/
  | loop (beforeSignature : Option String)
  /-- Nothing is older. -/
  | reached
  /-- `startScanning` has returned to `runScanner`. -/
  | returned
  deriving DecidableEq, Repr

structure Task where
  caller : Caller
  awaits : Await
  deriving DecidableEq, Repr

/-- How an awaited call ends.  One that throws may have stored some of its documents, or
worked on some of its rows. -/
inductive Reply where
  | done
  | failed (stored : TransactionEvent → Bool) (worked : Stored TransactionEvent → Bool)

def Reply.insertion : Reply → Insertion
  | .done => .done
  | .failed stored _ => .failed stored

namespace Outside

def insert (insertion : Insertion) (signatures : List ConfirmedSignatureInfo) (outside : Outside) :
    Outside :=
  { outside with events := insertBatchTransactionEvent insertion signatures outside.events }

def addBulk (transactions : List (Stored TransactionEvent)) (outside : Outside) : Outside :=
  { outside with
    jobs := outside.jobs ++ transactions.map (·.document.transactionJob)
    served := outside.served ++ transactions }

def markQueued (transactions : List (Stored TransactionEvent)) (outside : Outside) : Outside :=
  { outside with
    events := outside.events.updateMany (transactions.map (·._id)) TransactionEvent.setQueued }

/-- The transaction processor has done a job. -/
def markProcessed (signature : String) (outside : Outside) : Outside :=
  { outside with
    events := outside.events.updateOne (fun event => event.signature = signature) fun event =>
      { event with processed := true } }

end Outside

namespace ScannerService

/-! ## Methods up to their first `await` -/

/-- The last call that a caller awaits has returned. -/
def finish (caller : Caller) (service : ScannerService) : ScannerService × Option Task :=
  match caller with
  | .nobody | .startScanning => (service, none)
  | .runScanner => (service, some ⟨caller, .returned⟩)

def processUnprocessedTransactions (caller : Caller) (service : ScannerService) :
    ScannerService × Option Task :=
  if !service.state.isBackwardScanComplete then finish caller service
  else if service.state.isProcessingQueue then finish caller service
  else
    ({ service with state := { service.state with isProcessingQueue := true } },
      some ⟨caller, .unprocessed⟩)

def scanForwards (caller : Caller) (service : ScannerService) : ScannerService × Option Task :=
  (service, some ⟨caller, .newest⟩)

def startScanning (caller : Caller) (service : ScannerService) : ScannerService × Option Task :=
  if !service.state.startupComplete then finish caller service else scanForwards caller service

/-- `ScannerJobService.runScanner`, with the environment variable it reads. -/
def runScanner (enableScanner : Bool) (service : ScannerService) : ScannerService × Option Task :=
  if !enableScanner then (service, none)
  else if service.state.isRunning then (service, none)
  else
    startScanning .runScanner { service with state := { service.state with isRunning := true } }

def initializeScanner (service : ScannerService) : ScannerService × Option Task :=
  (service, some ⟨.nobody, .oldest⟩)

/-! ## Methods from one `await` to the next -/

/-- `startScanning` goes on after `scanForwards`. -/
def scanned (caller : Caller) (service : ScannerService) : ScannerService × Option Task :=
  match caller with
  | .nobody => finish caller service
  | .startScanning | .runScanner =>
      if service.state.isBackwardScanComplete then processUnprocessedTransactions caller service
      else finish caller service

/-- The `finally` block of `processUnprocessedTransactions`. -/
def release (caller : Caller) (service : ScannerService) : ScannerService × Option Task :=
  finish caller { service with state := { service.state with isProcessingQueue := false } }

/-- The condition of the loop of `runBackwardScan`. -/
def backwardLoop (caller : Caller) (beforeSignature : Option String) (service : ScannerService) :
    ScannerService × Option Task :=
  if service.state.isBackwardScanComplete then finish caller service
  else (service, some ⟨caller, .older beforeSignature⟩)

def completeBackwardScan (caller : Caller) (service : ScannerService) :
    ScannerService × Option Task :=
  finish caller { service with state := { service.state with isBackwardScanComplete := true } }

/-- The `finally` block of `runScanner`, which alone awaits `startScanning`. -/
def leave (caller : Caller) (service : ScannerService) : ScannerService × Option Task :=
  match caller with
  | .nobody | .startScanning => (service, none)
  | .runScanner => ({ service with state := { service.state with isRunning := false } }, none)

/-- The code from where a call stands to its next `await`. -/
def resume (reply : Reply) (task : Task) (service : ScannerService) :
    ScannerService × Option Task :=
  let caller := task.caller
  let history := service.outside.history
  let events := service.outside.events
  let on (awaits : Await) : ScannerService × Option Task := (service, some ⟨caller, awaits⟩)
  let after (outside : Outside) (awaits : Await) : ScannerService × Option Task :=
    ({ service with outside }, some ⟨caller, awaits⟩)
  match task.awaits, reply with
  | .newest, .done =>
      match getNewestTransactionLocal events with
      | none => on .scanned
      | some untilSignature => on (.newer untilSignature)
  | .newer untilSignature, .done =>
      let signatures :=
        history.getSignaturesForAddress ScanLimits.forward none (some untilSignature)
      if signatures.length > 0 then on (.insertNewer signatures.reverse) else on .scanned
  -- `insertBatchTransactionEvent` logs the error of its insertion
  | .insertNewer signatures, reply =>
      after (service.outside.insert reply.insertion signatures) .scanned
  -- `scanForwards` logs any other error and returns
  | .newest, .failed _ _ | .newer _, .failed _ _ => on .scanned
  | .scanned, _ => scanned caller service
  | .unprocessed, .done =>
      match unprocessedTransactions events with
      | [] => on .drained
      | first :: rest => on (.addBulk (first :: rest))
  | .unprocessed, .failed _ _ => on .drained
  -- `queueTransactionForProcessing` logs its errors, and the loop goes on
  | .addBulk transactions, .done =>
      after (service.outside.addBulk transactions) (.updateMany transactions)
  | .addBulk transactions, .failed _ worked =>
      after (service.outside.addBulk (transactions.filter worked)) .unprocessed
  | .updateMany transactions, .done =>
      after (service.outside.markQueued transactions) .unprocessed
  | .updateMany transactions, .failed _ worked =>
      after (service.outside.markQueued (transactions.filter worked)) .unprocessed
  | .drained, _ => release caller service
  | .oldest, .done =>
      match getOldestTransactionLocal events with
      | none => on .cursor
      | some oldestSignature => on (.genesis oldestSignature)
  | .genesis oldestSignature, .done =>
      if (history.getSignaturesForAddress 1 (some oldestSignature) none).length == 0 then
        on .reached
      else on .cursor
  | .genesis _, .failed _ _ => on .cursor
  | .cursor, .done => on (.loop (getOldestTransactionLocal events))
  -- errors of the cursors reach `initializeScanner`, which logs them
  | .oldest, .failed _ _ | .cursor, .failed _ _ => finish caller service
  | .older beforeSignature, .done =>
      match (history.getSignaturesForAddress ScanLimits.backward beforeSignature none).reverse with
      | [] => on .reached
      | oldest :: signatures => on (.insertOlder oldest signatures)
  | .older beforeSignature, .failed _ _ => on (.loop beforeSignature)
  | .insertOlder oldest signatures, reply =>
      after (service.outside.insert reply.insertion (oldest :: signatures))
        (.loop (some oldest.signature))
  | .loop beforeSignature, _ => backwardLoop caller beforeSignature service
  | .reached, _ => completeBackwardScan caller service
  | .returned, _ => leave caller service

end ScannerService

/-! ## Turns -/

/-- The methods that anyone may call. -/
inductive Method where
  | initializeScanner
  | scanForwards
  | processUnprocessedTransactions
  | startScanning
  | runScanner (enableScanner : Bool)

def ScannerService.call (service : ScannerService) : Method → ScannerService × Option Task
  | .initializeScanner => service.initializeScanner
  | .scanForwards => service.scanForwards .nobody
  | .processUnprocessedTransactions => service.processUnprocessedTransactions .nobody
  | .startScanning => service.startScanning .startScanning
  | .runScanner enableScanner => service.runScanner enableScanner

/-- The turns of the service itself, where awaited calls end as `admits` says. -/
inductive ServiceTurn (admits : Await → Reply → Prop) : EventLoop.Turns ScannerService Task where
  | call {service : ScannerService} (method : Method) :
      ServiceTurn admits service none (service.call method).1 (service.call method).2
  | resume {service : ScannerService} {task : Task} {reply : Reply}
      (admitted : admits task.awaits reply) :
      ServiceTurn admits service (some task) (service.resume reply task).1
        (service.resume reply task).2

/-- The turns of the service, the chain and the transaction processor. -/
inductive ScannerTurn (admits : Await → Reply → Prop) : EventLoop.Turns ScannerService Task where
  | own {service service' : ScannerService} {task task' : Option Task}
      (turned : ServiceTurn admits service task service' task') :
      ScannerTurn admits service task service' task'
  | grow {service : ScannerService} {later : History}
      (extended : service.outside.history.Extends later) :
      ScannerTurn admits service none
        { service with outside := { service.outside with history := later } } none
  | process {service : ScannerService} (signature : String) :
      ScannerTurn admits service none
        { service with outside := service.outside.markProcessed signature } none

/-- Any awaited call may fail. -/
def anyReply (_awaits : Await) (_reply : Reply) : Prop := True

/-- The two calls of `queueTransactionForProcessing` do not fail, others may. -/
def queueWorks : Await → Reply → Prop
  | .addBulk _, reply | .updateMany _, reply => reply = .done
  | _, _ => True

/-- The service before anything was queued. -/
def ScannerService.started (history : History) (events : TransactionEvents)
    (state : ScannerState) : ScannerService := ⟨state, ⟨history, events, [], []⟩⟩

end DlmmIndexer
