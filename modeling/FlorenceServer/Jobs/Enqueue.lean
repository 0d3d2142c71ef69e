import FlorenceServer.Jobs.Server

/-!
# The steps of `enqueue_record`

A call runs from one lock or file operation to the next.  Its future can be
dropped wherever it awaits one of them, with the file operation done or not.
-/

namespace FlorenceServer

variable {M : Type}

inductive CallAction where
  | check
  | insert
  | append (outcome : AppendOutcome)
  | send
  | rollback
  | persist (now : OffsetDateTime) (outcome : AppendOutcome)
  | drop (now : OffsetDateTime) (written : Bool)
deriving DecidableEq, Repr

namespace Server

/-- The task is parsed and the queue is checked, without an await in between. -/
def checkCall (cfg : Config) (s : Server M) (id : Uuid) (record : JobRecord M) :
    Server M :=
  match Submission.ofRecord record with
  | .error err => s.endCall id record (.returned (.error err))
  | .ok sub =>
      if cfg.queueSize ≤ s.queue.length then
        s.endCall id record (.returned (.error .queueFull))
      else
        s.setCall id (.live sub .inserting)

def insertCall (s : Server M) (id : Uuid) (sub : Submission M) : Server M :=
  { s.setCall id (.live sub .appending) with
    jobs := s.jobs.insert id sub.record }

def appendSubmission (s : Server M) (lines : List (JobRecord M)) : Server M :=
  { s with
    disk := { s.disk with submissions := s.disk.submissions ++ lines } }

def appendResult (s : Server M) (lines : List (JobRecord M)) : Server M :=
  { s with
    disk := { s.disk with results := s.disk.results ++ lines } }

def appendCall (s : Server M) (id : Uuid) (sub : Submission M)
    (outcome : AppendOutcome) : Server M :=
  let s := s.appendSubmission (outcome.lines sub.record)
  if outcome.isOk then
    s.setCall id (.live sub .sending)
  else
    s.endCall id sub.record (.returned (.error .persist))

/-- `try_send`: a closed channel is reported before a full one. -/
def trySend (cfg : Config) (s : Server M) : Option TrySendError :=
  if s.queueClosed cfg then some .closed
  else if cfg.queueSize ≤ s.queue.length then some .full
  else none

def sendCall (cfg : Config) (s : Server M) (id : Uuid) (sub : Submission M) :
    Server M :=
  match s.trySend cfg with
  | some reason => s.setCall id (.live sub (.rollingBack reason))
  | none =>
      { s.endCall id sub.record (.returned (.ok (queueResponse id))) with
        queue := s.queue ++ [sub.request]
        effects := s.effects ++ [.accepted id] }

def rollbackCall (s : Server M) (id : Uuid) (sub : Submission M)
    (reason : TrySendError) : Server M :=
  { s.setCall id (.live sub (.persisting reason)) with
    jobs := s.jobs.remove id }

/-- `persist_unqueued_record` and the return behind it. -/
def persistCall (s : Server M) (id : Uuid) (sub : Submission M)
    (reason : TrySendError) (now : OffsetDateTime) (outcome : AppendOutcome) :
    Server M :=
  let s := s.appendResult
    (outcome.lines (sub.record.failedWith now reason.rollbackError))
  let err := if outcome.isOk then reason.toEnqueueError else .persist
  s.endCall id sub.record (.returned (.error err))

/-- The future is dropped; a file operation in flight may still be carried out. -/
def dropCall (s : Server M) (id : Uuid) (sub : Submission M) (pc : CallPc)
    (now : OffsetDateTime) (written : Bool) : Server M :=
  let s :=
    match pc with
    | .appending =>
        s.appendSubmission ((AppendOutcome.failed written).lines sub.record)
    | .persisting reason =>
        s.appendResult ((AppendOutcome.failed written).lines
          (sub.record.failedWith now reason.rollbackError))
    | .inserting | .sending | .rollingBack _ => s
  s.endCall id sub.record .dropped

/-- One step of the `enqueue_record` call for `id`. -/
def callStep (cfg : Config) (s : Server M) (id : Uuid)
    (action : CallAction) : Option (Server M) :=
  match s.calls id, action with
  | .checking record, .check => some (s.checkCall cfg id record)
  | .live sub .inserting, .insert => some (s.insertCall id sub)
  | .live sub .appending, .append outcome => some (s.appendCall id sub outcome)
  | .live sub .sending, .send => some (s.sendCall cfg id sub)
  | .live sub (.rollingBack reason), .rollback => some (s.rollbackCall id sub reason)
  | .live sub (.persisting reason), .persist now outcome =>
      some (s.persistCall id sub reason now outcome)
  | .live sub pc, .drop now written =>
      if pc.awaits then some (s.dropCall id sub pc now written) else none
  | _, _ => none

/-- The steps of a call, one constructor for each suspension point. -/
inductive CallCase (cfg : Config) (s : Server M) (id : Uuid) :
    CallAction → Server M → Prop where
  | check (record : JobRecord M)
      (hcall : s.calls id = .checking record) :
      CallCase cfg s id .check (s.checkCall cfg id record)
  | insert (sub : Submission M)
      (hcall : s.calls id = .live sub .inserting) :
      CallCase cfg s id .insert (s.insertCall id sub)
  | append (sub : Submission M) (outcome : AppendOutcome)
      (hcall : s.calls id = .live sub .appending) :
      CallCase cfg s id (.append outcome) (s.appendCall id sub outcome)
  | send (sub : Submission M)
      (hcall : s.calls id = .live sub .sending) :
      CallCase cfg s id .send (s.sendCall cfg id sub)
  | rollback (sub : Submission M) (reason : TrySendError)
      (hcall : s.calls id = .live sub (.rollingBack reason)) :
      CallCase cfg s id .rollback (s.rollbackCall id sub reason)
  | persist (sub : Submission M) (reason : TrySendError)
      (now : OffsetDateTime) (outcome : AppendOutcome)
      (hcall : s.calls id = .live sub (.persisting reason)) :
      CallCase cfg s id (.persist now outcome) (s.persistCall id sub reason now outcome)
  | drop (sub : Submission M) (pc : CallPc) (now : OffsetDateTime) (written : Bool)
      (hcall : s.calls id = .live sub pc)
      (hpc : pc.awaits = true) :
      CallCase cfg s id (.drop now written) (s.dropCall id sub pc now written)

theorem callStep_cases
    {cfg : Config} {s s' : Server M} {id : Uuid} {action : CallAction}
    (h : s.callStep cfg id action = some s') :
    CallCase cfg s id action s' := by
  unfold callStep at h
  split at h
  case h_1 record hcall =>
      cases h
      exact .check record hcall
  case h_2 sub hcall =>
      cases h
      exact .insert sub hcall
  case h_3 sub outcome hcall =>
      cases h
      exact .append sub outcome hcall
  case h_4 sub hcall =>
      cases h
      exact .send sub hcall
  case h_5 sub reason hcall =>
      cases h
      exact .rollback sub reason hcall
  case h_6 sub reason now outcome hcall =>
      cases h
      exact .persist sub reason now outcome hcall
  case h_7 sub pc now written hcall =>
      by_cases hpc : pc.awaits = true
      · rw [if_pos hpc] at h
        cases h
        exact .drop sub pc now written hcall hpc
      · rw [if_neg hpc] at h
        cases h
  case h_8 =>
      cases h

end Server
end FlorenceServer
